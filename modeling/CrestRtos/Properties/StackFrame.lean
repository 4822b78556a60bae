import CrestRtos.Arch.Confinement
import CrestRtos.Heap.Runs

/-!
# The frame of a new task

`task_create` aligns the stack inside its allocation and pushes sixteen words from
its top. The guard and the stack always fit into the payload; the frame fits into
the stack unless that has the smallest size, 32 bytes.
-/

namespace Crest
open ByteMemory MachineWord Alloc Port

/-- The stack of a new task inside its allocation, and its frame inside the stack. -/
structure FrameFits (heap : Heap) (tcb : Tcb) (args : TaskArgs) : Prop where
  size : tcb.stackSize = nextPowerOfTwo args.stackSize
  aligned : tcb.stackBase % tcb.stackSize = 0
  guard : tcb.stackAlloc + portStackGuardSize ≤ tcb.stackBase
  inside : tcb.stackBase + tcb.stackSize ≤
    tcb.stackAlloc - headerSize + payloadBlock heap tcb.stackAlloc
  words : ∀ (ram : Memory) (x : Nat), (stackInit ram tcb.stackBase tcb.stackSize args.taskFunction
    args.arg).1 x ≠ ram x → inStack tcb x
  pointerAligned : tcb.stackPointer % 8 = 0
  pointer : tcb.stackBase ≤ tcb.stackPointer

section Push
variable {ram : Memory} {sp x : Nat} {vs : List Nat}

theorem pushWords_pointer (ram : Memory) (sp : Nat) (vs : List Nat) :
    (pushWords ram sp vs).2 = sp - 4 * vs.length := by
  induction vs generalizing ram sp with
  | nil => rfl
  | cons v vs ih =>
    rw [pushWords, ih, List.length_cons]
    omega

/-- Only the words below the starting point are written. -/
theorem pushWords_outside (hroom : 4 * vs.length ≤ sp)
    (hx : x < sp - 4 * vs.length ∨ sp ≤ x) : (pushWords ram sp vs).1 x = ram x := by
  induction vs generalizing ram sp with
  | nil => rfl
  | cons v vs ih =>
    rw [List.length_cons] at hroom hx
    rw [pushWords, ih (by omega) (by omega)]
    exact write32_of_outside _ (by omega)

/-- The words stand at ascending addresses in the opposite order. -/
theorem pushWords_words (ram : Memory) (hroom : 4 * vs.length ≤ sp) (hvs : ∀ v ∈ vs, v < 2 ^ 32) :
    wordsAt (pushWords ram sp vs).1 (sp - 4 * vs.length) vs.length = vs.reverse := by
  induction vs generalizing ram sp with
  | nil => rfl
  | cons v vs ih =>
    rw [List.length_cons] at hroom ⊢
    have hstart : sp - 4 * (vs.length + 1) = sp - 4 - 4 * vs.length := by omega
    have hlast : sp - 4 - 4 * vs.length + 4 * vs.length = sp - 4 := by omega
    have hword : read32 (pushWords (write32 ram (sp - 4) v) (sp - 4) vs).1 (sp - 4) = v := by
      rw [read32_congr fun x _ _ => pushWords_outside (by omega) (by omega),
        read32_write32_same _ (hvs v List.mem_cons_self)]
    have hrest := ih (write32 ram (sp - 4) v) (show 4 * vs.length ≤ sp - 4 by omega)
      fun w hw => hvs w (List.mem_cons_of_mem v hw)
    rw [pushWords, wordsAt_succ, hstart, hlast, hword, hrest, List.reverse_cons]

/-- From an aligned top the frame has 64 bytes. -/
theorem stackInit_frame {base size : Nat} (fn arg : Nat) (hal : (base + size) % 8 = 0)
    (hlt : base + size < 2 ^ 32) : (stackInit ram base size fn arg).2 = base + size - 64 ∧
      (64 ≤ base + size → x < base + size - 64 ∨ base + size ≤ x →
        (stackInit ram base size fn arg).1 x = ram x) := by
  have htop : andNot (wrap (base + size)) 7 = base + size := by
    rw [wrap_of_lt hlt, andNot_seven]
    omega
  constructor
  · rw [stackInit, htop]
    exact pushWords_pointer _ _ _
  · intro hroom hx
    rw [stackInit, htop]
    exact pushWords_outside hroom hx

end Push

/-- The control block that a successful call fills in. -/
theorem taskCreate_tcb {L : Layout} {k k' : Kernel} {args : TaskArgs} {t : Tid}
    (h : taskCreate L k args = some (k', some t)) :
    malloc L k.heap (stackAllocSize (nextPowerOfTwo args.stackSize)) =
        some (k'.heap, (k'.tcb t).stackAlloc) ∧ (k'.tcb t).stackAlloc ≠ 0 ∧
      (k'.tcb t).stackBase =
        stackBaseFor (k'.tcb t).stackAlloc (nextPowerOfTwo args.stackSize) ∧
      ∃ ram, (k'.tcb t).stackPointer = (stackInit ram (k'.tcb t).stackBase (k'.tcb t).stackSize
        args.taskFunction args.arg).2 := by
  rcases taskCreate_cases h with ⟨_, hnone, _⟩ | ⟨u, heap, alloc, hacc, _, hmalloc, hrest⟩
  · cases hnone
  · rcases hrest with ⟨_, hnone, _⟩ | ⟨hnull, hu, rfl⟩
    · cases hnone
    · obtain rfl := Option.some.inj hu
      simp only [schedulerAddTask, initTcb, portTriggerPendsv, Kernel.setTcb, Function.update_self]
      exact ⟨hmalloc, hnull, trivial, _, rfl⟩

section Frame
variable {L : Layout} {k k' : Kernel} {args : TaskArgs} {t : Tid}

/-- A fresh task has its frame inside its stack exactly when more than 32 bytes of
stack were asked for. -/
theorem frame_fits_iff (hL : L.heap.Placed) (hheap : Reached (kernelHeap L) k.heap)
    (h : taskCreate L k args = some (k', some t)) :
    FrameFits k'.heap (k'.tcb t) args ↔ 32 < args.stackSize := by
  have hready : Ready L.heap k.heap := hheap.ready hL rfl rfl
  obtain ⟨hmalloc, hnull, hbase, ram, hsp⟩ := taskCreate_tcb h
  obtain ⟨hacc, _, _, _, _, hsize, _⟩ := taskCreate_some h
  have hle : args.stackSize ≤ maxTaskStackSize := by
    simp only [TaskArgs.accepted, Bool.and_eq_true, decide_eq_true_eq] at hacc
    exact hacc.2
  obtain ⟨n, hlo, hhi, hpow, hv⟩ := nextPowerOfTwo_spec hle
  have hn : 2 ^ n ≤ 512 := Nat.pow_le_pow_right (by decide) hhi
  have hdvd : 2 ^ n % 8 = 0 :=
    Nat.mod_eq_zero_of_dvd (pow_dvd_pow 2 (show 3 ≤ n by omega))
  have halloc : stackAllocSize (2 ^ n) = 2 ^ n + 256 + (2 ^ n - 1) := rfl
  have hstop := hL.stopLt
  rw [hpow] at hmalloc hbase hsize
  obtain ⟨_, hend, _⟩ := malloc_bounds hL hready (by omega) (by omega) hmalloc hnull
  obtain ⟨hpayload, _⟩ := malloc_payload hL hready (by omega) hmalloc hnull
  have hneed := blockNeed_ge (show stackAllocSize (2 ^ n) + 15 < 2 ^ 32 by omega)
  obtain ⟨hmod, hguard, hfit⟩ := stackBaseFor_spec
    (show (k'.tcb t).stackAlloc + stackAllocSize (2 ^ n) < 2 ^ 32 by omega)
  rw [← hbase] at hmod hguard hfit
  have hmod8 : (k'.tcb t).stackBase % 8 = 0 := by
    have hdvd8 : 8 ∣ (k'.tcb t).stackBase := Nat.dvd_trans
      (pow_dvd_pow 2 (show 3 ≤ n by omega)) (Nat.dvd_of_mod_eq_zero hmod)
    exact Nat.mod_eq_zero_of_dvd hdvd8
  have hguard' := hguard
  rw [portStackGuardSize] at hguard'
  have hpoint : (stackInit ram (k'.tcb t).stackBase (2 ^ n) args.taskFunction args.arg).2 =
      (k'.tcb t).stackBase + 2 ^ n - 64 :=
    (stackInit_frame (x := 0) _ _ (show ((k'.tcb t).stackBase + 2 ^ n) % 8 = 0 by omega)
      (by omega)).1
  rw [hsize, hpoint] at hsp
  constructor
  · intro hfits
    have hbelow := hfits.pointer
    by_contra hsmall
    have h32 : nextPowerOfTwo args.stackSize = 32 := by
      simp only [nextPowerOfTwo, if_pos (show args.stackSize ≤ 32 by omega), ite_self]
    omega
  · intro hbig
    have hsix : 6 ≤ n := by
      by_contra hlt
      obtain rfl : n = 5 := by omega
      omega
    have h64 : 2 ^ 6 ≤ 2 ^ n := Nat.pow_le_pow_right (by decide) hsix
    have hwords : ∀ (m : Memory) (x : Nat), (stackInit m (k'.tcb t).stackBase (2 ^ n)
        args.taskFunction args.arg).1 x ≠ m x →
        (k'.tcb t).stackBase ≤ x ∧ x < (k'.tcb t).stackBase + 2 ^ n := by
      intro m x hx
      by_contra hout
      exact hx ((stackInit_frame args.taskFunction args.arg (by omega) (by omega)).2 (by omega)
        (by omega))
    constructor
    · rw [hsize, hpow]
    · rw [hsize]
      exact hmod
    · exact hguard
    · rw [hsize, headerSize]
      omega
    · simp only [inStack, hsize]
      exact hwords
    · omega
    · omega

end Frame

/-- The kernel heap before any request. -/
theorem reset_heap_reached (L : Layout) (m ram : Memory) :
    Reached (kernelHeap L) (Kernel.reset m ram).heap :=
  ⟨m, [], Client.fresh m, trivial, rfl, rfl⟩

/-- A first task with a stack of 33 bytes, which become 64. -/
theorem frame_fits_iff_33 : ∃ k' : Kernel,
    taskCreate (linkerLayout 0x20000404) (Kernel.reset (fun _ => 0) fun _ => 0)
      ⟨0x08001000, 1, 33, 0⟩ = some (k', some 0) ∧
    (FrameFits k'.heap (k'.tcb 0) ⟨0x08001000, 1, 33, 0⟩ ↔ 32 < 33) := by
  have hplaced := linkerLayout_placed 0x20000404 (by decide) (by decide)
  obtain ⟨k', h⟩ : ∃ k' : Kernel, taskCreate (linkerLayout 0x20000404)
      (Kernel.reset (fun _ => 0) fun _ => 0) ⟨0x08001000, 1, 33, 0⟩ = some (k', some 0) :=
    ⟨_, rfl⟩
  exact ⟨k', h, frame_fits_iff hplaced.1 (reset_heap_reached _ _ _) h⟩

/-- A stack of 32 bytes is accepted, and its frame begins 32 bytes below it. -/
theorem frame_below_stack : ∃ k' : Kernel,
    taskCreate (linkerLayout 0x20000404) (Kernel.reset (fun _ => 0) fun _ => 0)
      ⟨0x08001000, 1, 32, 0⟩ = some (k', some 0) ∧
    (k'.tcb 0).stackBase = 0x20004520 ∧ (k'.tcb 0).stackPointer = 0x20004500 ∧
    ¬ FrameFits k'.heap (k'.tcb 0) ⟨0x08001000, 1, 32, 0⟩ := by
  obtain ⟨k', h, hbase, hsp⟩ : ∃ k' : Kernel, taskCreate (linkerLayout 0x20000404)
      (Kernel.reset (fun _ => 0) fun _ => 0) ⟨0x08001000, 1, 32, 0⟩ = some (k', some 0) ∧
      (k'.tcb 0).stackBase = 0x20004520 ∧ (k'.tcb 0).stackPointer = 0x20004500 :=
    ⟨_, rfl, by decide +kernel, by decide +kernel⟩
  refine ⟨k', h, hbase, hsp, fun hfits => ?_⟩
  have hbelow := hfits.pointer
  rw [hbase, hsp] at hbelow
  exact absurd hbelow (by decide)

end Crest
