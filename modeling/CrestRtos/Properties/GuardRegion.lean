import CrestRtos.Properties.StackFrame

/-!
# The guard below a stack

Region 7 covers 256 bytes that start on a multiple of 256, while a stack starts on a
multiple of its own size. For stacks of 256 bytes and more the two agree. A smaller
stack has its guard where it should be only if the heap happened to put the allocation
close enough below a multiple of 256.
-/

namespace Crest
open MachineWord Alloc ArmMpu Port

/-- Region 7 denies the 256 bytes below the stack and nothing else, and these bytes belong to
the allocation of the task. -/
structure GuardExact (m : Mpu) (heap : Heap) (tcb : Tcb) : Prop where
  denies : (m.regs regionGuard).ap = mpuApNoAccess
  region : ∀ a, (m.regs regionGuard).contains a = true ↔
    tcb.stackBase - portStackGuardSize ≤ a ∧ a < tcb.stackBase
  inside : ∀ a, (m.regs regionGuard).contains a = true →
    tcb.stackAlloc ≤ a ∧ a < tcb.stackAlloc - headerSize + payloadBlock heap tcb.stackAlloc

/-- Less than `size` bytes above `alloc`, or right there, is a multiple of the guard size. -/
def NearGuardMultiple (alloc size : Nat) : Prop :=
  (portStackGuardSize - alloc % portStackGuardSize) % portStackGuardSize < size

section Guard
variable {bssEnd base alloc n : Nat} {m : Mpu}

theorem configure_guard (size : Nat) (hm : Programmed (linkerLayout bssEnd) m)
    (hbase : 256 ≤ base) (hlt : base < 2 ^ 32) (hsize : size ≠ 0) :
    ((portMpuConfigureForTask (linkerLayout bssEnd) m base size).regs regionGuard).ap =
        mpuApNoAccess ∧
      ∀ a, ((portMpuConfigureForTask (linkerLayout bssEnd) m base size).regs
        regionGuard).contains a = true ↔ inGuard base a := by
  obtain ⟨_, h7, _⟩ := configure_regs base size hm (by omega) hsize
  have hguard : alignedBase (wrap (base + (2 ^ 32 - 256))) 256 = base - 256 - base % 256 := by
    have hwrap : wrap (base + (2 ^ 32 - 256)) = base - 256 := by
      simp only [wrap]
      omega
    have hround : alignedBase (base - 256) 256 = base - 256 - (base - 256) % 256 :=
      alignedBase_two_pow (base - 256) 8
    rw [hwrap]
    omega
  rw [hguard] at h7
  rw [regionGuard, h7]
  refine ⟨(region_decode (by decide) (by decide)).2.2, fun a => ?_⟩
  rw [contains_iff (by decide) (by decide) (by omega), inGuard]
  omega

/-- The stack starts on a multiple of 256 exactly if one is near. -/
theorem stackBase_mod_guard (hn : 5 ≤ n) (hn' : n ≤ 9)
    (hlt : alloc + stackAllocSize (2 ^ n) < 2 ^ 32) :
    stackBaseFor alloc (2 ^ n) % 256 = 0 ↔ NearGuardMultiple alloc (2 ^ n) := by
  have hpos := Nat.two_pow_pos n
  have halloc : stackAllocSize (2 ^ n) = 2 ^ n + 256 + (2 ^ n - 1) := rfl
  have hround : stackBaseFor alloc (2 ^ n) = alloc + 256 + (2 ^ n - 1) -
      (alloc + 256 + (2 ^ n - 1)) % 2 ^ n := by
    rw [stackBaseFor, portStackGuardSize, wrap_of_lt (by omega), andNot_two_pow]
  rw [hround, NearGuardMultiple, portStackGuardSize]
  have hcases : n = 5 ∨ n = 6 ∨ n = 7 ∨ n = 8 ∨ n = 9 := by omega
  rcases hcases with rfl | rfl | rfl | rfl | rfl <;> omega

end Guard

/-- The guard of a created task is exact if and only if a multiple of 256 lies less than the
rounded stack size above the allocation. -/
theorem guard_exact_iff (bssEnd : Nat) (hlo : 0x20000000 ≤ bssEnd)
    (hhi : bssEnd + 0x4017 ≤ 0x2001F000) (k k' : Kernel)
    (hheap : Reached (kernelHeap (linkerLayout bssEnd)) k.heap) (args : TaskArgs) (t : Tid)
    (hc : taskCreate (linkerLayout bssEnd) k args = some (k', some t)) (m : Mpu)
    (hm : Programmed (linkerLayout bssEnd) m) :
    GuardExact (portMpuConfigureForTask (linkerLayout bssEnd) m (k'.tcb t).stackBase
      (k'.tcb t).stackSize) k'.heap (k'.tcb t) ↔
      NearGuardMultiple (k'.tcb t).stackAlloc (nextPowerOfTwo args.stackSize) := by
  have hL := (linkerLayout_placed bssEnd hlo hhi).1
  have hready : Ready (linkerLayout bssEnd).heap k.heap := hheap.ready hL rfl rfl
  have hstop := hL.stopLt
  obtain ⟨hmalloc, hnull, hbase, _⟩ := taskCreate_tcb hc
  obtain ⟨hacc, _, _, _, _, hsize, _⟩ := taskCreate_some hc
  have hle : args.stackSize ≤ maxTaskStackSize := by
    simp only [TaskArgs.accepted, Bool.and_eq_true, decide_eq_true_eq] at hacc
    exact hacc.2
  obtain ⟨n, hn5, hn9, hpow, _⟩ := nextPowerOfTwo_spec hle
  have hn : 2 ^ n ≤ 512 := Nat.pow_le_pow_right (by decide) hn9
  have hpos := Nat.two_pow_pos n
  rw [hpow] at hmalloc hbase hsize ⊢
  have halloc : stackAllocSize (2 ^ n) = 2 ^ n + 256 + (2 ^ n - 1) := rfl
  obtain ⟨_, hend, _⟩ := malloc_bounds hL hready (by omega) (by omega) hmalloc hnull
  obtain ⟨hpayload, _⟩ := malloc_payload hL hready (by omega) hmalloc hnull
  have hneed := blockNeed_ge (show stackAllocSize (2 ^ n) + 15 < 2 ^ 32 by omega)
  have hfits : (k'.tcb t).stackAlloc + stackAllocSize (2 ^ n) < 2 ^ 32 := by omega
  obtain ⟨_, hguard, hroom⟩ := stackBaseFor_spec hfits
  have hmod := stackBase_mod_guard hn5 hn9 hfits
  rw [← hbase] at hguard hroom hmod
  rw [portStackGuardSize] at hguard
  obtain ⟨hap, hregion⟩ := configure_guard (k'.tcb t).stackSize hm
    (show 256 ≤ (k'.tcb t).stackBase by omega) (by omega) (by omega)
  rw [← hmod]
  constructor
  · intro hexact
    have hlast := (hregion _).mp ((hexact.region ((k'.tcb t).stackBase - 1)).mpr
      ⟨by rw [portStackGuardSize]; omega, by omega⟩)
    rw [inGuard] at hlast
    omega
  · intro hzero
    refine ⟨hap, fun a => ?_, fun a ha => ?_⟩
    · rw [hregion, inGuard, portStackGuardSize, hzero]
      omega
    · rw [hregion, inGuard, hzero] at ha
      rw [headerSize]
      omega

/-- A first task with 200 bytes of stack, which become 256. -/
theorem guard_exact_iff_256 : ∃ k' : Kernel,
    taskCreate (linkerLayout 0x20000404) (Kernel.reset (fun _ => 0) fun _ => 0)
      ⟨0x08001000, 1, 200, 0⟩ = some (k', some 0) ∧
    (GuardExact (portMpuConfigureForTask (linkerLayout 0x20000404) ArmMpu.reset
      (k'.tcb 0).stackBase (k'.tcb 0).stackSize) k'.heap (k'.tcb 0) ↔
      NearGuardMultiple (k'.tcb 0).stackAlloc (nextPowerOfTwo 200)) := by
  obtain ⟨k', h⟩ : ∃ k' : Kernel, taskCreate (linkerLayout 0x20000404)
      (Kernel.reset (fun _ => 0) fun _ => 0) ⟨0x08001000, 1, 200, 0⟩ = some (k', some 0) :=
    ⟨_, rfl⟩
  exact ⟨k', h, guard_exact_iff 0x20000404 (by decide) (by decide) _ k'
    (reset_heap_reached _ _ _) _ 0 h _ .reset⟩

/-- A stack of 64 bytes that starts 64 bytes past a multiple of 256: region 7 ends there, and
it covers the header of the task's own block. -/
theorem guard_over_header : ∃ k' : Kernel,
    taskCreate (linkerLayout 0x20000404) (Kernel.reset (fun _ => 0) fun _ => 0)
      ⟨0x08001000, 1, 64, 0⟩ = some (k', some 0) ∧
    (k'.tcb 0).stackAlloc = 0x20004410 ∧ (k'.tcb 0).stackBase = 0x20004540 ∧
    ((portMpuConfigureForTask (linkerLayout 0x20000404) ArmMpu.reset (k'.tcb 0).stackBase
      (k'.tcb 0).stackSize).regs regionGuard).contains 0x20004408 = true ∧
    ¬ GuardExact (portMpuConfigureForTask (linkerLayout 0x20000404) ArmMpu.reset
      (k'.tcb 0).stackBase (k'.tcb 0).stackSize) k'.heap (k'.tcb 0) := by
  obtain ⟨k', h, halloc, hbase, hheader⟩ : ∃ k' : Kernel, taskCreate (linkerLayout 0x20000404)
      (Kernel.reset (fun _ => 0) fun _ => 0) ⟨0x08001000, 1, 64, 0⟩ = some (k', some 0) ∧
      (k'.tcb 0).stackAlloc = 0x20004410 ∧ (k'.tcb 0).stackBase = 0x20004540 ∧
      ((portMpuConfigureForTask (linkerLayout 0x20000404) ArmMpu.reset (k'.tcb 0).stackBase
        (k'.tcb 0).stackSize).regs regionGuard).contains 0x20004408 = true :=
    ⟨_, rfl, by decide +kernel, by decide +kernel, by decide +kernel⟩
  refine ⟨k', h, halloc, hbase, hheader, fun hexact => ?_⟩
  have hinside := (hexact.inside _ hheader).1
  rw [halloc] at hinside
  exact absurd hinside (by decide)

end Crest
