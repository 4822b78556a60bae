import CrestRtos.Heap.Runs
import CrestRtos.Kernel.Task

/-!
# What the MPU lets a user task touch

The set of RAM addresses open to unprivileged code after the port has
programmed the MPU for a task. Stacks are always exact regions. The user heap is
one only when it starts on a multiple of its 16 KB size: region 3 is rounded
down to that size, while the linker script aligns the heap to 8 bytes.
-/

namespace Port
open ArmMpu MachineWord Alloc Crest Transition

def inRam (a : Nat) : Prop := 0x20000000 ≤ a ∧ a < 0x20020000
def inStack (tcb : Tcb) (a : Nat) : Prop :=
  tcb.stackBase ≤ a ∧ a < tcb.stackBase + tcb.stackSize
def inUserHeap (L : Layout) (a : Nat) : Prop := L.userHeap.start ≤ a ∧ a < L.userHeap.stop

/-- The 256 bytes of region 7, rounded down to a multiple of 256. -/
def inGuard (base a : Nat) : Prop := base - 256 - base % 256 ≤ a ∧ a < base - base % 256

/-- Unprivileged code reaches its stack and the user heap only, and all of the
user heap. -/
def Confined (L : Layout) (m : Mpu) (tcb : Tcb) : Prop :=
  (∀ a, inRam a → (m.userMayRead a || m.userMayWrite a) = true →
    inStack tcb a ∨ inUserHeap L a) ∧
  ∀ a, inUserHeap L a → m.userMayRead a = true ∧ m.userMayWrite a = true

/-- The guard size passes the port's own check. -/
theorem guard_accepted : ¬ (portStackGuardSize &&& (portStackGuardSize - 1) ≠ 0 ∨
    portStackGuardSize < 32) := by decide

/-- Regions 4 to 6 are never written. -/
theorem Programmed.unused {L : Layout} {m : Mpu} (h : Programmed L m) :
    ∀ i, 3 < i → i < 7 → (m.regs i).rasr = 0 := by
  induction h with
  | reset => exact fun _ _ _ => rfl
  | configure base size _ ih =>
    intro i hlo hhi
    have h0 : i ≠ regionFlash := by simp only [regionFlash]; omega
    have h1 : i ≠ regionKernelRam := by simp only [regionKernelRam]; omega
    have h2 : i ≠ regionStack := by simp only [regionStack]; omega
    have h3 : i ≠ regionUserHeap := by simp only [regionUserHeap]; omega
    have h7 : i ≠ regionGuard := by simp only [regionGuard]; omega
    by_cases hnull : base = 0 ∨ size = 0
    · rw [portMpuConfigureForTask, if_pos hnull]
      exact ih i hlo hhi
    · simp only [portMpuConfigureForTask, if_neg hnull, if_neg guard_accepted]
      split
      · simpa [program_regs_other, h0, h1, h2, h3, h7] using ih i hlo hhi
      · simpa [program_regs_other, h0, h1, h2, h7] using ih i hlo hhi

/-- The stack of a created task: a power of two, aligned to it, with room for
the guard below it inside the kernel heap. -/
structure StackPlaced (L : Layout) (base size : Nat) : Prop where
  pow : ∃ n, 5 ≤ n ∧ n ≤ 9 ∧ size = 2 ^ n
  aligned : base % size = 0
  low : L.heap.start + 8 + portStackGuardSize ≤ base
  high : base + size ≤ L.heap.stop

/-- Guard and stack fit into the allocation, wherever it begins. -/
theorem stackBaseFor_spec {alloc n : Nat} (hlt : alloc + stackAllocSize (2 ^ n) < 2 ^ 32) :
    stackBaseFor alloc (2 ^ n) % 2 ^ n = 0 ∧
      alloc + portStackGuardSize ≤ stackBaseFor alloc (2 ^ n) ∧
      stackBaseFor alloc (2 ^ n) + 2 ^ n ≤ alloc + stackAllocSize (2 ^ n) := by
  have hpos := Nat.two_pow_pos n
  rw [stackAllocSize, portStackGuardSize] at hlt ⊢
  have hround : stackBaseFor alloc (2 ^ n) = alloc + 256 + (2 ^ n - 1) -
      (alloc + 256 + (2 ^ n - 1)) % 2 ^ n := by
    rw [stackBaseFor, portStackGuardSize, wrap_of_lt (by omega), andNot_two_pow]
  have hmod := Nat.mod_lt (alloc + 256 + (2 ^ n - 1)) hpos
  rw [hround]
  refine ⟨?_, by omega, by omega⟩
  exact Nat.sub_mod_eq_zero_of_mod_eq (Nat.mod_mod _ _).symm

theorem stackPlaced_of_taskCreate {L : Layout} {k k' : Kernel} {args : TaskArgs} {t : Tid}
    (hR : L.heap.Placed) (hheap : Ready L.heap k.heap)
    (h : taskCreate L k args = some (k', some t)) :
    StackPlaced L (k'.tcb t).stackBase (k'.tcb t).stackSize := by
  obtain ⟨hacc, heap, alloc, hm, hne, hsize, hbase⟩ := taskCreate_some h
  have hle : args.stackSize ≤ maxTaskStackSize := by
    simp only [TaskArgs.accepted, Bool.and_eq_true, decide_eq_true_eq] at hacc
    exact hacc.2
  obtain ⟨n, hlo, hhi, hpow, _⟩ := nextPowerOfTwo_spec hle
  have hn : 2 ^ n ≤ 512 := Nat.pow_le_pow_right (by decide) hhi
  have hn5 : 2 ^ 5 ≤ 2 ^ n := Nat.pow_le_pow_right (by decide) hlo
  rw [hpow] at hm hsize hbase
  have halloc : stackAllocSize (2 ^ n) = 2 ^ n + 256 + (2 ^ n - 1) := rfl
  obtain ⟨hplo, hphi, _⟩ := malloc_bounds hR hheap (by omega) (by omega) hm hne
  have hstop := hR.stopLt
  obtain ⟨hmod, hguard, hfit⟩ := stackBaseFor_spec
    (show alloc + stackAllocSize (2 ^ n) < 2 ^ 32 by omega)
  rw [← hbase] at hmod hguard hfit
  refine ⟨⟨n, hlo, hhi, hsize⟩, ?_, ?_, ?_⟩
  · rw [hsize]
    exact hmod
  · omega
  · omega

theorem alignedBase_two_pow (x n : Nat) : alignedBase x (2 ^ n) = x - x % 2 ^ n :=
  andNot_two_pow x n

section Programmed
variable {bssEnd base size : Nat} {m : Mpu}

/-- The registers after programming: base and attributes of each region. -/
theorem configure_regs (base size : Nat) (hm : Programmed (linkerLayout bssEnd) m)
    (hbase : base ≠ 0)
    (hsize : size ≠ 0) :
    let L := linkerLayout bssEnd
    let m' := portMpuConfigureForTask L m base size
    m'.enabled = true ∧
    m'.regs 7 = ⟨alignedBase (wrap (base + (2 ^ 32 - 256))) 256, attributes 7 0 1⟩ ∧
    (m'.regs 6).rasr = 0 ∧ (m'.regs 5).rasr = 0 ∧ (m'.regs 4).rasr = 0 ∧
    m'.regs 3 = ⟨alignedBase L.userHeap.start 0x4000, attributes 13 3 1⟩ ∧
    m'.regs 2 = ⟨alignedBase base size, attributes (sizeField size) 3 1⟩ ∧
    m'.regs 1 = ⟨0x20000000, attributes 16 1 1⟩ := by
  intro L m'
  have hspan : L.userHeap.stop - L.userHeap.start = 0x4000 := by
    simp only [L, linkerLayout]
    omega
  have hgt : L.userHeap.stop > L.userHeap.start := by omega
  have hword : m' = { (((((({ m with ctrl := 0 } : Mpu).program 0 0x08000000
      (attributes 18 2 0)).program 1 0x20000000 (attributes 16 1 1)).program 2
      (alignedBase base size) (attributes (sizeField size) 3 1)).program 3
      (alignedBase L.userHeap.start 0x4000) (attributes 13 3 1)).program 7
      (alignedBase (wrap (base + (2 ^ 32 - 256))) 256) (attributes 7 0 1)) with
      ctrl := m.ctrl ||| mpuCtrlEnable ||| mpuCtrlPrivdefena } := by
    have hor : ¬ (base = 0 ∨ size = 0) := by omega
    have h13 : sizeField 0x4000 = 13 := by decide
    have h7 : sizeField portStackGuardSize = 7 := by decide
    simp only [m', portMpuConfigureForTask, if_neg hor, if_neg guard_accepted, if_pos hgt, hspan,
      h13, h7]
    rfl
  have hunused := hm.unused
  have hodd : (m.ctrl ||| mpuCtrlEnable ||| mpuCtrlPrivdefena) % 2 = 1 := by
    have h := Nat.mod_two_eq_one_iff_testBit_zero
      (x := m.ctrl ||| mpuCtrlEnable ||| mpuCtrlPrivdefena)
    rw [h]
    simp [mpuCtrlEnable]
  rw [hword]
  refine ⟨by simp [Mpu.enabled, hodd], ?_, ?_, ?_, ?_, ?_, ?_, ?_⟩ <;>
    simp [Mpu.program, hunused]

/-- The region that decides about an address of RAM. -/
theorem userMay_configure (hm : Programmed (linkerLayout bssEnd) m)
    (hL : (linkerLayout bssEnd).heap.Placed)
    (hs : StackPlaced (linkerLayout bssEnd) base size) (right : Nat → Bool)
    (hr : right 0 = false ∧ right 1 = false ∧ right 3 = true) {a : Nat} (ha : inRam a) :
    (portMpuConfigureForTask (linkerLayout bssEnd) m base size).userMay right a = true ↔
      ¬ inGuard base a ∧ (a / 0x4000 = (linkerLayout bssEnd).userHeap.start / 0x4000 ∨
        base ≤ a ∧ a < base + size) := by
  obtain ⟨n, hn5, hn9, rfl⟩ := hs.pow
  have hlow := hs.low
  have hhigh := hs.high
  have hal := hs.aligned
  have hstop := hL.stopLt
  have hpos := Nat.two_pow_pos n
  simp only [portStackGuardSize] at hlow
  obtain ⟨hen, h7, h6, h5, h4, h3, h2, h1⟩ := configure_regs base (2 ^ n) hm (by omega)
    (by omega)
  generalize portMpuConfigureForTask (linkerLayout bssEnd) m base (2 ^ n) = m' at *
  have hwrap : wrap (base + (2 ^ 32 - 256)) = base - 256 := by
    simp only [wrap]
    omega
  have hguard : alignedBase (wrap (base + (2 ^ 32 - 256))) 256 = base - 256 - base % 256 := by
    have hround : alignedBase (base - 256) 256 = base - 256 - (base - 256) % 256 :=
      alignedBase_two_pow (base - 256) 8
    rw [hwrap]
    omega
  have hfield : sizeField (2 ^ n) + 1 = n := by
    rw [sizeField, ctz_two_pow (by omega)]
    omega
  have hstack : alignedBase base (2 ^ n) = base := by
    rw [alignedBase_two_pow, hal, Nat.sub_zero]
  have hheap : alignedBase (linkerLayout bssEnd).userHeap.start 0x4000 =
      (linkerLayout bssEnd).userHeap.start / 0x4000 * 0x4000 := by
    have hround : alignedBase (linkerLayout bssEnd).userHeap.start 0x4000 =
        (linkerLayout bssEnd).userHeap.start - (linkerLayout bssEnd).userHeap.start % 0x4000 :=
      alignedBase_two_pow _ 14
    omega
  rw [hguard] at h7
  rw [hstack] at h2
  rw [hheap] at h3
  have hin7 := contains_iff (b := base - 256 - base % 256) (s := 7) (p := 0) (x := 1) (a := a)
    (by decide) (by decide) (by omega)
  have hin3 := contains_iff (b := (linkerLayout bssEnd).userHeap.start / 0x4000 * 0x4000)
    (s := 13) (p := 3) (x := 1) (a := a) (by decide) (by decide) (by omega)
  have hin2 := contains_iff (b := base) (s := sizeField (2 ^ n)) (p := 3) (x := 1) (a := a)
    (by omega) (by decide) (by rw [hfield]; exact hal)
  have hin1 := contains_iff (b := 0x20000000) (s := 16) (p := 1) (x := 1) (a := a)
    (by decide) (by decide) (by decide)
  rw [hfield] at hin2
  obtain ⟨hr0, hr1, hr3⟩ := hr
  have hap7 := (region_decode (b := base - 256 - base % 256) (s := 7) (p := 0) (x := 1)
    (by decide) (by decide)).2.2
  have hap3 := (region_decode (b := (linkerLayout bssEnd).userHeap.start / 0x4000 * 0x4000)
    (s := 13) (p := 3) (x := 1) (by decide) (by decide)).2.2
  have hap2 := (region_decode (b := base) (s := sizeField (2 ^ n)) (p := 3) (x := 1)
    (by omega) (by decide)).2.2
  have hap1 := (region_decode (b := 0x20000000) (s := 16) (p := 1) (x := 1)
    (by decide) (by decide)).2.2
  have hheapIff : (linkerLayout bssEnd).userHeap.start / 0x4000 * 0x4000 ≤ a ∧
      a < (linkerLayout bssEnd).userHeap.start / 0x4000 * 0x4000 + 2 ^ (13 + 1) ↔
      a / 0x4000 = (linkerLayout bssEnd).userHeap.start / 0x4000 := by omega
  have hguardIff : base - 256 - base % 256 ≤ a ∧ a < base - 256 - base % 256 + 2 ^ (7 + 1) ↔
      inGuard base a := by
    simp only [inGuard]
    omega
  have hramIff : 0x20000000 ≤ a ∧ a < 0x20000000 + 2 ^ (16 + 1) := ha
  rw [hguardIff] at hin7
  rw [hheapIff] at hin3
  simp only [Mpu.userMay, hen, Bool.not_true, Bool.false_or, Mpu.hit, List.find?_cons, h7, h3, h2,
    h1, not_contains_of_disabled h6, not_contains_of_disabled h5, not_contains_of_disabled h4,
    hin1.mpr hramIff]
  by_cases hg : inGuard base a
  · simp [hin7.mpr hg, h7, hap7, hr0, hg]
  · have hg' : (RegionRegs.mk (base - 256 - base % 256) (attributes 7 0 1)).contains a = false :=
      Bool.eq_false_iff.mpr fun h => hg (hin7.mp h)
    by_cases hu : a / 0x4000 = (linkerLayout bssEnd).userHeap.start / 0x4000
    · simp [hg', hin3.mpr hu, h3, hap3, hr3, hg, hu]
    · have hu' : (RegionRegs.mk ((linkerLayout bssEnd).userHeap.start / 0x4000 * 0x4000)
          (attributes 13 3 1)).contains a = false :=
        Bool.eq_false_iff.mpr fun h => hu (hin3.mp h)
      by_cases ht : base ≤ a ∧ a < base + 2 ^ n
      · simp [hg', hu', hin2.mpr ht, h2, hap2, hr3, hg, ht]
      · have ht' : (RegionRegs.mk base (attributes (sizeField (2 ^ n)) 3 1)).contains a = false :=
          Bool.eq_false_iff.mpr fun h => ht (hin2.mp h)
        simp [hg', hu', ht', h1, hap1, hr1, hg, hu, ht]

/-- With a stack inside the kernel heap, only the placement of the user heap
decides. -/
theorem confined_iff (hlo : 0x20000000 ≤ bssEnd) (hhi : bssEnd + 0x4017 ≤ 0x2001F000)
    (hm : Programmed (linkerLayout bssEnd) m) {tcb : Tcb}
    (hs : StackPlaced (linkerLayout bssEnd) tcb.stackBase tcb.stackSize) :
    Confined (linkerLayout bssEnd)
      (portMpuConfigureForTask (linkerLayout bssEnd) m tcb.stackBase tcb.stackSize) tcb ↔
      (linkerLayout bssEnd).userHeap.start % 0x4000 = 0 := by
  obtain ⟨hheap, huser⟩ := linkerLayout_placed bssEnd hlo hhi
  have hread := fun a (ha : inRam a) => userMay_configure hm hheap hs userReads (by decide) ha
  have hwrite := fun a (ha : inRam a) => userMay_configure hm hheap hs userWrites (by decide) ha
  have hlow := hs.low
  have hend : (linkerLayout bssEnd).userHeap.stop =
      (linkerLayout bssEnd).userHeap.start + 0x4000 := rfl
  have hnext : (linkerLayout bssEnd).heap.start = (linkerLayout bssEnd).userHeap.stop := rfl
  have hstart : 0x20000000 ≤ (linkerLayout bssEnd).userHeap.start := by
    simp only [linkerLayout]
    omega
  have hstop : (linkerLayout bssEnd).userHeap.stop ≤ 0x20020000 := by
    simp only [linkerLayout]
    omega
  simp only [portStackGuardSize] at hlow
  constructor
  · -- the last byte of a misaligned user heap lies beyond the rounded region
    rintro ⟨_, hall⟩
    by_contra hmis
    have hin : inUserHeap (linkerLayout bssEnd) ((linkerLayout bssEnd).userHeap.stop - 1) := by
      simp only [inUserHeap]
      omega
    have hram : inRam ((linkerLayout bssEnd).userHeap.stop - 1) := by
      simp only [inRam]
      omega
    have hopen := ((hread _ hram).mp (hall _ hin).1).2
    omega
  · intro hal
    constructor
    · intro a hram hmay
      have hopen : a / 0x4000 = (linkerLayout bssEnd).userHeap.start / 0x4000 ∨
          tcb.stackBase ≤ a ∧ a < tcb.stackBase + tcb.stackSize := by
        rcases Bool.or_eq_true_iff.mp hmay with h | h
        · exact ((hread a hram).mp h).2
        · exact ((hwrite a hram).mp h).2
      simp only [inStack, inUserHeap]
      omega
    · intro a hin
      simp only [inUserHeap] at hin
      have hram : inRam a := by
        simp only [inRam]
        omega
      have hopen : ¬ inGuard tcb.stackBase a ∧
          (a / 0x4000 = (linkerLayout bssEnd).userHeap.start / 0x4000 ∨
            tcb.stackBase ≤ a ∧ a < tcb.stackBase + tcb.stackSize) := by
        simp only [inGuard]
        omega
      exact ⟨(hread a hram).mpr hopen, (hwrite a hram).mpr hopen⟩

end Programmed

theorem placed_of_created (bssEnd : Nat) (hlo : 0x20000000 ≤ bssEnd)
    (hhi : bssEnd + 0x4017 ≤ 0x2001F000) {k k' : Kernel}
    (hheap : Reached (kernelHeap (linkerLayout bssEnd)) k.heap) {args : TaskArgs} {t : Tid}
    (hc : taskCreate (linkerLayout bssEnd) k args = some (k', some t)) :
    StackPlaced (linkerLayout bssEnd) (k'.tcb t).stackBase (k'.tcb t).stackSize := by
  have hR := (linkerLayout_placed bssEnd hlo hhi).1
  have hready : Ready (linkerLayout bssEnd).heap k.heap := hheap.ready hR rfl rfl
  exact stackPlaced_of_taskCreate hR hready hc

/-- A created task is confined to its stack and the user heap exactly when the
linker happened to put the user heap on a multiple of its size. -/
theorem mpu_confinement_iff (bssEnd : Nat) (hlo : 0x20000000 ≤ bssEnd)
    (hhi : bssEnd + 0x4017 ≤ 0x2001F000) (k k' : Kernel)
    (hheap : Reached (kernelHeap (linkerLayout bssEnd)) k.heap) (args : TaskArgs) (t : Tid)
    (hc : taskCreate (linkerLayout bssEnd) k args = some (k', some t)) (m : Mpu)
    (hm : Programmed (linkerLayout bssEnd) m) :
    Confined (linkerLayout bssEnd) (portMpuConfigureForTask (linkerLayout bssEnd) m
      (k'.tcb t).stackBase (k'.tcb t).stackSize) (k'.tcb t) ↔
      (linkerLayout bssEnd).userHeap.start % 0x4000 = 0 :=
  confined_iff hlo hhi hm (placed_of_created bssEnd hlo hhi hheap hc)

theorem reached_fresh (A : Allocator) (mem : ByteMemory.Memory) :
    Reached A (Client.fresh mem).heap := ⟨mem, [], _, trivial, rfl, rfl⟩

theorem mpu_confinement_iff_first_task :
    ∃ k' t, taskCreate (linkerLayout 0x20003FFD) (Kernel.reset (fun _ => 0) fun _ => 0)
        ⟨0x08004001, 0, 512, 0⟩ = some (k', some t) ∧
      (Confined (linkerLayout 0x20003FFD) (portMpuConfigureForTask (linkerLayout 0x20003FFD)
        ArmMpu.reset (k'.tcb t).stackBase (k'.tcb t).stackSize) (k'.tcb t) ↔
        (linkerLayout 0x20003FFD).userHeap.start % 0x4000 = 0) := by
  obtain ⟨k', t, hc⟩ : ∃ k' t, taskCreate (linkerLayout 0x20003FFD)
      (Kernel.reset (fun _ => 0) fun _ => 0) ⟨0x08004001, 0, 512, 0⟩ = some (k', some t) :=
    ⟨_, _, rfl⟩
  exact ⟨k', t, hc, mpu_confinement_iff 0x20003FFD (by decide) (by decide) _ k'
    (reached_fresh _ fun _ => 0) _ t hc _ .reset⟩

/-- A placement 8 bytes past a multiple of 16 KB: the first task is not confined. -/
theorem mpu_not_confined_at_20000008 :
    (linkerLayout 0x20000008).userHeap = ⟨0x20000008, 0x20004008⟩ ∧
    ∃ k' t, taskCreate (linkerLayout 0x20000008) (Kernel.reset (fun _ => 0) fun _ => 0)
        ⟨0x08004001, 0, 512, 0⟩ = some (k', some t) ∧
      ¬ Confined (linkerLayout 0x20000008) (portMpuConfigureForTask (linkerLayout 0x20000008)
        ArmMpu.reset (k'.tcb t).stackBase (k'.tcb t).stackSize) (k'.tcb t) := by
  obtain ⟨k', t, hc⟩ : ∃ k' t, taskCreate (linkerLayout 0x20000008)
      (Kernel.reset (fun _ => 0) fun _ => 0) ⟨0x08004001, 0, 512, 0⟩ = some (k', some t) :=
    ⟨_, _, rfl⟩
  have hplaced := placed_of_created 0x20000008 (by decide) (by decide)
    (reached_fresh _ fun _ => 0) hc
  refine ⟨rfl, k', t, hc, fun hconf => ?_⟩
  have hal := (confined_iff (by decide) (by decide) .reset hplaced).mp hconf
  exact absurd hal (by decide)

end Port
