import CrestRtos.Board.Steady

/-!
# Stacks and the frames on them

The stacks of two tasks are at least a guard apart and end below the main stack. A task that
has not run yet begins with the frame of `stack_init`.
-/

namespace Crest
open IntrusiveList ByteMemory MachineWord ArmCore Alloc Port

/-- The context that sixteen words of a stack stand for. -/
def Context.read (m : Memory) (a : Nat) : Context where
  regs := fill (fun _ => 0) (startRegs.zip (wordsAt m a 15))
  sp := a + 64 + if (read32 m (a + 60)).testBit 9 then 4 else 0

/-- The frame of `stack_init`, up to the top of the stack. -/
structure Tcb.Prepared (tcb : Tcb) (m : Memory) : Prop where
  top : tcb.stackPointer + 64 = tcb.stackBase + tcb.stackSize
  xpsr : read32 m (tcb.stackPointer + 60) = 0x01000000

section Contexts
variable {m m' : Memory} {a : Nat} {tcb tcb' : Tcb}

theorem read_suspended (m : Memory) (a : Nat) : Suspended m a (Context.read m a) := by
  have hall := @map_fill (fun _ => 0) startRegs (wordsAt m a 15) (by decide)
    wordsAt_length.symm
  have hwords : wordsAt m a 15 = wordsAt m a 8 ++ wordsAt m (a + 32) 7 := wordsAt_add m a 8 7
  have hlen : calleeSaved.length = (wordsAt m a 8).length := wordsAt_length.symm
  have hsplit : startRegs.zip (wordsAt m a 15) =
      calleeSaved.zip (wordsAt m a 8) ++ frameRegs.zip (wordsAt m (a + 32) 7) := by
    rw [hwords, startRegs, List.zip_append hlen]
  have hregs : startRegs.map (Context.read m a).regs =
      calleeSaved.map (Context.read m a).regs ++ frameRegs.map (Context.read m a).regs :=
    List.map_append
  have hsame : startRegs.map (Context.read m a).regs =
      (calleeSaved.zip (wordsAt m a 8)).map (fun p => p.1.land p.2) ++
        (frameRegs.zip (wordsAt m (a + 32) 7)).map fun p => p.1.land p.2 := by
    rw [← List.map_append, ← hsplit]
    exact hall
  obtain ⟨hcallee, hframe⟩ := List.append_inj (hregs.symm.trans hsame) (by simp [← hlen])
  constructor
  · have hland : (calleeSaved.zip (wordsAt m a 8)).map (fun p => p.1.land p.2) =
        (calleeSaved.zip (wordsAt m a 8)).map Prod.snd := by
      apply List.map_congr_left
      intro p hp
      have hmem : p.1 ∈ calleeSaved := (List.of_mem_zip hp).1
      cases hreg : p.1 with
      | r i => rfl
      | lr => rfl
      | pc =>
        rw [hreg] at hmem
        exact absurd hmem (by decide)
    rw [hcallee, hland]
    exact (List.map_snd_zip hlen.ge).symm
  · constructor
    · exact hframe.symm
    · rfl

theorem read_sound (hal : a % 8 = 0) (hlt : a + 68 < 2 ^ 32) :
    Sound (Context.read m a).regs (Context.read m a).sp := by
  have hregs : ∀ r, (Context.read m a).regs r < 2 ^ 32 ∧
      (r = .pc → (Context.read m a).regs r % 2 = 0) := by
    apply fill_holds (P := fun r v => v < 2 ^ 32 ∧ (r = .pc → v % 2 = 0))
    · intro r
      exact ⟨by decide, fun _ => rfl⟩
    · intro p hp
      have hword : p.2 < 2 ^ 32 := by
        obtain ⟨i, _, hi⟩ := List.mem_map.mp (List.of_mem_zip hp).2
        rw [← hi]
        exact read32_lt m _
      cases hreg : p.1 with
      | r i => exact ⟨hword, fun heq => by cases heq⟩
      | lr => exact ⟨hword, fun heq => by cases heq⟩
      | pc =>
        have hle := andNot_le p.2 1
        constructor
        · exact Nat.lt_of_le_of_lt hle hword
        · intro _
          rw [Reg.land, andNot_one]
          omega
  constructor
  · intro r
    exact (hregs r).1
  · exact (hregs .pc).2 rfl
  · simp only [Context.read]
    split <;> omega
  · simp only [Context.read]
    split <;> omega

theorem Tcb.Prepared.congr (h : tcb.Prepared m) (hpointer : tcb'.stackPointer = tcb.stackPointer)
    (hbase : tcb'.stackBase = tcb.stackBase) (hsize : tcb'.stackSize = tcb.stackSize)
    (hmem : ∀ x, tcb.stackPointer + 60 ≤ x → x < tcb.stackPointer + 64 → m' x = m x) :
    tcb'.Prepared m' := by
  constructor
  · rw [hpointer, hbase, hsize]
    exact h.top
  · rw [hpointer, read32_congr fun x hlo hhi => hmem x hlo (by omega)]
    exact h.xpsr

/-- A new task begins at the top of its stack. -/
theorem Tcb.Prepared.read_sp (h : tcb.Prepared m) :
    (Context.read m tcb.stackPointer).sp = tcb.stackBase + tcb.stackSize := by
  have hbit : (0x01000000 : Nat).testBit 9 = false := by decide
  rw [Context.read, h.xpsr, hbit, ← h.top]
  rfl

end Contexts

section Stacks
variable {L : Layout} {s s' : Sys} {g : Ghost} {t x : Tid} {k : Kernel} {alloc : Nat}
  {args : TaskArgs}

theorem Mapped.onList (h : Mapped L s) (hlive : s.Live t) : (s.k.tcb t).stackAlloc ≠ 0 := by
  obtain ⟨pr, l, hl, hmem⟩ := hlive
  exact h.stacked.onList hl hmem

/-- A stack lies in the kernel heap, with a guard below it and its end at a multiple of 8. -/
theorem Mapped.bounds (hL : L.heap.Placed) (h : Mapped L s) (ht : (s.k.tcb t).stackAlloc ≠ 0) :
    (s.k.tcb t).stackAlloc + portStackGuardSize ≤ (s.k.tcb t).stackBase ∧
      (s.k.tcb t).stackBase + (s.k.tcb t).stackSize ≤ L.heap.stop ∧
      ((s.k.tcb t).stackBase + (s.k.tcb t).stackSize) % 8 = 0 := by
  obtain ⟨hholds, hsmall, hguard, hfit, hmod⟩ := h.stackIn hL ht
  obtain ⟨m, hm, hroom⟩ := h.backed.block _ _ _ hholds
  obtain ⟨hlow, hhigh, _, _⟩ := hm.inside hL
  have hbig := hroom hsmall
  simp only [headerSize] at hlow hhigh
  obtain ⟨n, hlo, hhi, hsize⟩ := (h.stacked.laidOut t ht).pow
  have hsize8 : 8 ∣ (s.k.tcb t).stackSize := by
    rw [hsize]
    exact pow_dvd_pow 2 (show 3 ≤ n by omega)
  have hbase8 : 8 ∣ (s.k.tcb t).stackBase := Nat.dvd_trans hsize8 (Nat.dvd_of_mod_eq_zero hmod)
  refine ⟨by omega, by omega, ?_⟩
  exact Nat.mod_eq_zero_of_dvd (Nat.dvd_add hbase8 hsize8)

theorem Mapped.size_ge (h : Mapped L s) (ht : (s.k.tcb t).stackAlloc ≠ 0) :
    32 ≤ (s.k.tcb t).stackSize := by
  obtain ⟨n, hlo, _, hsize⟩ := (h.stacked.laidOut t ht).pow
  rw [hsize]
  exact (Nat.pow_le_pow_right (by decide) hlo : 2 ^ 5 ≤ 2 ^ n)

/-- One of two stacks ends below the allocation of the other. -/
theorem Mapped.stacksApart (hL : L.heap.Placed) (h : Mapped L s)
    (ht : (s.k.tcb t).stackAlloc ≠ 0) (hx : (s.k.tcb x).stackAlloc ≠ 0) (hne : t ≠ x) :
    (s.k.tcb t).stackBase + (s.k.tcb t).stackSize ≤ (s.k.tcb x).stackAlloc ∨
      (s.k.tcb x).stackBase + (s.k.tcb x).stackSize ≤ (s.k.tcb t).stackAlloc := by
  obtain ⟨hholds, hsmall, hguard, hfit, _⟩ := h.stackIn hL ht
  obtain ⟨hholds', hsmall', hguard', hfit', _⟩ := h.stackIn hL hx
  have hows : Owner.stack t ≠ Owner.stack x := by
    intro heq
    cases heq
    exact hne rfl
  have hapart := h.backed.apart hL hholds hholds' hows hsmall hsmall'
  omega

theorem stackInit_xpsr {m : Memory} {base size : Nat} (fn arg : Nat)
    (hal : (base + size) % 8 = 0) (hlt : base + size < 2 ^ 32) (hroom : 64 ≤ base + size) :
    read32 (stackInit m base size fn arg).1 (base + size - 4) = 0x01000000 := by
  have htop : andNot (wrap (base + size)) 7 = base + size := by
    rw [wrap_of_lt hlt, andNot_seven]
    omega
  rw [stackInit, htop, List.cons_append, pushWords]
  have hkeep : ∀ y, base + size - 4 ≤ y → y < base + size - 4 + 4 →
      (pushWords (write32 m (base + size - 4) 0x01000000) (base + size - 4)
        ([fn, 0xFFFFFFFD, 0, 0, 0, 0, arg] ++ List.replicate 8 0)).1 y =
      write32 m (base + size - 4) 0x01000000 y := by
    intro y hlo _
    apply pushWords_outside
    · simp only [List.length_append, List.length_cons, List.length_nil, List.length_replicate]
      omega
    · exact Or.inr hlo
  rw [read32_congr hkeep]
  exact read32_write32_same m (by decide)

/-- What `task_create` leaves of other memory, with its canary at `alloc`. -/
structure Wrote (m m' : Memory) (alloc top : Nat) : Prop where
  same : ∀ y, y < alloc ∨ alloc + 4 ≤ y → y + 64 < top ∨ top ≤ y → m' y = m y

/-- A task that has just been created. -/
theorem addTask_prepared (k : Kernel) (t : Tid) (alloc : Nat) (args : TaskArgs) {k' : Kernel}
    (hk : k' = schedulerAddTask (initTcb k t alloc args) t) {top : Nat}
    (htop : top = (k'.tcb t).stackBase + (k'.tcb t).stackSize) (hal : top % 8 = 0)
    (hlt : top < 2 ^ 32) (hroom : 64 ≤ top) :
    (k'.tcb t).Prepared k'.ram ∧ Wrote k.ram k'.ram alloc top := by
  obtain ⟨base, hbase⟩ : ∃ base, base = stackBaseFor alloc (nextPowerOfTwo args.stackSize) :=
    ⟨_, rfl⟩
  obtain ⟨size, hsize⟩ : ∃ size, size = nextPowerOfTwo args.stackSize := ⟨_, rfl⟩
  obtain ⟨m, hm⟩ : ∃ m, m = write32 k.ram alloc 0xDEADBEEF := ⟨_, rfl⟩
  have hfields : (k'.tcb t).stackBase = base ∧ (k'.tcb t).stackSize = size ∧
      (k'.tcb t).stackPointer = (stackInit m base size args.taskFunction args.arg).2 ∧
      k'.ram = (stackInit m base size args.taskFunction args.arg).1 := by
    subst hk hbase hsize hm
    simp [schedulerAddTask, initTcb, portTriggerPendsv, Kernel.setTcb]
  obtain ⟨hb, hs, hsp, hram⟩ := hfields
  rw [hb, hs] at htop
  subst htop
  have hframe := fun y => @stackInit_frame m y base size args.taskFunction args.arg hal hlt
  constructor
  · constructor
    · rw [hsp, hb, hs, (hframe 0).1]
      omega
    · rw [hsp, hram, (hframe 0).1, show base + size - 64 + 60 = base + size - 4 by omega]
      exact stackInit_xpsr _ _ hal hlt hroom
  · constructor
    intro y hout htop
    rw [hram, (hframe y).2 hroom (by omega), hm]
    exact write32_of_outside _ hout

end Stacks

section Boot
variable {L : Layout} {s s' : Sys} {g : Ghost} {t : Tid}

/-- A new stack leaves the frames of the others as they are. -/
theorem prepared_add {k : Kernel} {x : Tid} {alloc : Nat} {args : TaskArgs}
    (hL : L.heap.Placed) (hmap : Mapped L s') (halloc : alloc ≠ 0)
    (h : ∀ t, (k.tcb t).stackAlloc ≠ 0 → (k.tcb t).Prepared k.ram)
    (hk : s'.k = schedulerAddTask (initTcb k x alloc args) x) (t : Tid)
    (ht : (s'.k.tcb t).stackAlloc ≠ 0) : (s'.k.tcb t).Prepared s'.k.ram := by
  have hx : (s'.k.tcb x).stackAlloc = alloc := by
    rw [hk]
    simp [schedulerAddTask, initTcb, portTriggerPendsv]
  obtain ⟨hguard, hstop, hal⟩ := hmap.bounds hL (t := x) (by rw [hx]; exact halloc)
  have hbound := hL.stopLt
  rw [hx, portStackGuardSize] at hguard
  obtain ⟨hnew, hwrote⟩ := addTask_prepared k x alloc args hk rfl hal (by omega) (by omega)
  by_cases htx : t = x
  · subst htx
    exact hnew
  have hold : s'.k.tcb t = k.tcb t := by
    rw [hk]
    simp [schedulerAddTask, initTcb, portTriggerPendsv, Kernel.setTcb, htx]
  have hapart := hmap.stacksApart hL ht (by rw [hx]; exact halloc) htx
  obtain ⟨hguard', _, _⟩ := hmap.bounds hL ht
  rw [hx] at hapart
  rw [hold] at ht hapart hguard'
  rw [portStackGuardSize] at hguard'
  have hprep := h t ht
  have htop := hprep.top
  rw [hold]
  apply hprep.congr
  · rfl
  · rfl
  · rfl
  · intro y hlo hhi
    apply hwrote.same
    · omega
    · omega

/-- Every stack that `main` has laid out is as it was. -/
theorem bootTask_prepared {task : Entry × TaskArgs} (hL : L.heap.Placed) (hmap : Mapped L s')
    (h : ∀ t, (s.k.tcb t).stackAlloc ≠ 0 → (s.k.tcb t).Prepared s.k.ram)
    (hstep : s.bootTask L task = some s') (t : Tid) (ht : (s'.k.tcb t).stackAlloc ≠ 0) :
    (s'.k.tcb t).Prepared s'.k.ram := by
  obtain ⟨entry, args⟩ := task
  obtain ⟨⟨k, created⟩, hcreate, rfl⟩ := Option.map_eq_some_iff.mp hstep
  rcases taskCreate_cases hcreate with ⟨_, rfl, rfl⟩ |
    ⟨x, heap, alloc, hacc, _, hmalloc, ⟨_, rfl, rfl⟩ | ⟨halloc, rfl, rfl⟩⟩
  · exact h t ht
  · exact h t ht
  · exact prepared_add (k := { s.k with
        heap := heap
        tcbUsed := Function.update s.k.tcbUsed x true }) hL hmap halloc h rfl t ht

/-- When the scheduler starts, each task is to begin with the frame of `stack_init`. -/
theorem Sys.Started.prepared (hL : L.heap.Placed) (h : s.Started L) (hlive : s.Live t) :
    (s.k.tcb t).Prepared s.k.ram := by
  have ht := (h.mapped hL).onList hlive
  obtain ⟨heapMem, ram, tasks, s₁, hboot, hstart, _⟩ := h
  have hall := bootTasks_induction (P := fun s => (Mapped L s ∧ ∃ g, Booting L s g) ∧
      ∀ t, (s.k.tcb t).stackAlloc ≠ 0 → (s.k.tcb t).Prepared s.k.ram)
    (fun s task s' hs hl => by
      obtain ⟨⟨hmap, g, hg⟩, hprep⟩ := hs
      obtain ⟨g', hg', _⟩ := hg.task hL hl
      have hmap' := hmap.task hL hg hl
      exact ⟨⟨hmap', g', hg'⟩, fun t => bootTask_prepared hL hmap' hprep hl t⟩)
    ⟨⟨mapped_reset L heapMem ram, _, booting_reset L heapMem ram 0⟩,
      fun t ht => absurd rfl ht⟩ hboot
  obtain ⟨⟨k, first⟩, hnext, rfl⟩ := Option.map_eq_some_iff.mp hstart
  obtain ⟨pr, c, rfl⟩ := schedulerGetNext_cursor hnext
  have hsame : ∀ k : Kernel, ((resume L k first).tcb t).stackAlloc = (k.tcb t).stackAlloc ∧
      ((resume L k first).tcb t).stackPointer = (k.tcb t).stackPointer ∧
      ((resume L k first).tcb t).stackBase = (k.tcb t).stackBase ∧
      ((resume L k first).tcb t).stackSize = (k.tcb t).stackSize := by
    intro k
    by_cases htf : t = first
    · subst htf
      simp [resume]
    · simp [resume, setTcb_tcb_of_ne _ _ htf]
  obtain ⟨halloc, hpointer, hbase, hsize⟩ :=
    hsame { s₁.k with rrCurrent := Function.update s₁.k.rrCurrent pr (some c) }
  exact (hall.2 t (fun hnull => ht (halloc.trans hnull))).congr hpointer hbase hsize
    fun _ _ _ => rfl

end Boot

end Crest
