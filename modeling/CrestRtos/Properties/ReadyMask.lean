import CrestRtos.Properties.Selection

/-!
# The priority mask

`g_priority_mask` says which priorities have tasks. Going to sleep, blocking and waking up
leave it alone, so it says which priorities have READY tasks only as long as no priority
has waiting tasks alone.
-/

namespace Crest
open IntrusiveList MachineWord Alloc Transition

def Kernel.Awake (k : Kernel) (t : Tid) : Prop :=
  (k.tcb t).state = .ready ∨ (k.tcb t).state = .running

/-- The mask has the bits of the priorities with a task that is READY or RUNNING, and with
none that is RUNNING its lowest bit is the priority that the scheduler goes to. -/
structure Kernel.MaskAgrees (k : Kernel) : Prop where
  bits : ∀ pr, pr < maxTaskPriorities → (k.priorityMask.testBit pr = true ↔
    ∃ t, k.Listed t ∧ (k.tcb t).priority = pr ∧ k.Awake t)
  first : (∀ t, k.Listed t → (k.tcb t).state ≠ .running) → schedulerGetFirstReadyPriority k =
    (schedulerGetNext k).elim maxTaskPriorities fun found => (k.tcb found.2).priority

/-- No priority has waiting tasks alone. -/
def Kernel.LevelsAwake (k : Kernel) : Prop :=
  ∀ t, k.Listed t → ∃ u, k.Listed u ∧ (k.tcb u).priority = (k.tcb t).priority ∧ k.Awake u

section Roster
variable {L : Layout} {k : Kernel} {runs : Nat → List Tid} {live : List Nat}

/-- Whatever the states of the tasks. -/
theorem Roster.mask_iff (h : Roster L k runs live) {pr : Nat} (hpr : pr < maxTaskPriorities) :
    k.priorityMask.testBit pr = true ↔ ∃ t, k.Listed t ∧ (k.tcb t).priority = pr := by
  rw [h.mask pr hpr]
  constructor
  · intro hne
    obtain ⟨t, ht⟩ := List.exists_mem_of_ne_nil _ hne
    have hrank := h.rank pr t ht
    exact ⟨t, h.listed_iff.mpr (hrank.symm ▸ ht), hrank⟩
  · rintro ⟨t, hlisted, rfl⟩ hnil
    have hmem := h.listed_iff.mp hlisted
    rw [hnil] at hmem
    cases hmem

theorem Roster.mask_zero (h : Roster L k runs live) (hnone : ∀ t, ¬ k.Listed t) :
    k.priorityMask = 0 := by
  refine Nat.eq_of_testBit_eq fun i => ?_
  rw [Nat.zero_testBit]
  by_cases hi : i < maxTaskPriorities
  · rw [Bool.eq_false_iff]
    intro hbit
    obtain ⟨t, ht, _⟩ := (h.mask_iff hi).mp hbit
    exact hnone t ht
  · refine Nat.testBit_lt_two_pow (lt_of_lt_of_le h.byte ?_)
    exact Nat.pow_le_pow_right (by decide) (not_lt.mp hi)

/-- A bit below the answer would stand for a READY task in front of the selected one. -/
theorem Roster.maskAgrees (h : Roster L k runs live) (hawake : k.LevelsAwake) : k.MaskAgrees := by
  constructor
  · intro pr hpr
    rw [h.mask_iff hpr]
    constructor
    · rintro ⟨t, ht, rfl⟩
      exact hawake t ht
    · rintro ⟨t, ht, hprio, _⟩
      exact ⟨t, ht, hprio⟩
  · intro hidle
    have hready : ∀ t, k.Listed t →
        ∃ u, k.Listed u ∧ (k.tcb u).priority = (k.tcb t).priority ∧ (k.tcb u).state = .ready := by
      intro t ht
      obtain ⟨u, hu, hprio, hr | hr⟩ := hawake t ht
      · exact ⟨u, hu, hprio, hr⟩
      · exact absurd hr (hidle u hu)
    cases hget : schedulerGetNext k with
    | none =>
      have hall := h.none_iff.mp hget
      have hzero := h.mask_zero fun t ht => by
        obtain ⟨u, hu, _, hr⟩ := hready t ht
        exact hall u hu hr
      rw [schedulerGetFirstReadyPriority, if_pos hzero]
      rfl
    | some found =>
      obtain ⟨k', t⟩ := found
      have hsel := h.selected hget
      have hbound := h.bounded t
      have hbit := (h.mask_iff hbound).mpr ⟨t, hsel.listed, rfl⟩
      have hne : k.priorityMask ≠ 0 := by
        intro hzero
        rw [hzero, Nat.zero_testBit] at hbit
        cases hbit
      rw [schedulerGetFirstReadyPriority, if_neg hne, ctz]
      refine trailingZeros_eq hbit (fun j hj => ?_) (lt_trans hbound (by decide))
      rw [Bool.eq_false_iff]
      intro hlow
      obtain ⟨u, hu, rfl⟩ := (h.mask_iff (lt_trans hj hbound)).mp hlow
      obtain ⟨v, hv, hprio, hr⟩ := hready u hu
      exact absurd (hsel.minimal v hv hr) (by rw [hprio]; exact not_le.mpr hj)

end Roster

/-- In every state that a run after `task_init` can reach, the mask agrees with the scan
exactly if no priority has waiting tasks alone. -/
theorem ready_mask_iff (L : Layout) (hL : L.heap.Placed) (heapMem ram : ByteMemory.Memory)
    {k : Kernel} (hk : Reachable (SchedOp.perform L) (Kernel.reset heapMem ram) k) :
    k.MaskAgrees ↔ k.LevelsAwake := by
  obtain ⟨runs, live, h⟩ := reachable_invariant (fun k op k' => schedOp_roster hL op)
    ⟨_, _, roster_reset L heapMem ram⟩ hk
  constructor
  · intro hagrees t ht
    have hbit := (h.mask_iff (h.bounded t)).mpr ⟨t, ht, rfl⟩
    exact (hagrees.bits _ (h.bounded t)).mp hbit
  · exact h.maskAgrees

/-- Two tasks of one priority, of which one sleeps. -/
def halfAsleep : List SchedOp :=
  [.call (.create ⟨0x08001000, 1, 512, 0⟩), .call (.create ⟨0x08002000, 1, 64, 0⟩),
    .call (.sleep 1 5)]

theorem ready_mask_iff_half_asleep : ∃ k : Kernel,
    run (SchedOp.perform (linkerLayout 0x20001000)) (Kernel.reset (fun _ => 0) fun _ => 0)
      halfAsleep = some k ∧ k.priorityMask = 2 ∧ (k.MaskAgrees ↔ k.LevelsAwake) := by
  obtain ⟨k, hrun, hmask⟩ : ∃ k : Kernel,
      run (SchedOp.perform (linkerLayout 0x20001000)) (Kernel.reset (fun _ => 0) fun _ => 0)
        halfAsleep = some k ∧ k.priorityMask = 2 := ⟨_, rfl, rfl⟩
  exact ⟨k, hrun, hmask, ready_mask_iff (linkerLayout 0x20001000)
    (linkerLayout_placed 0x20001000 (by decide) (by decide)).1 _ _ ⟨_, hrun⟩⟩

/-- The only task of priority 1 sleeps. Its bit stays set, and the mask names priority 1
although the scheduler has nothing to run. -/
theorem ready_mask_stale : ∃ k : Kernel,
    run (SchedOp.perform (linkerLayout 0x20001000)) (Kernel.reset (fun _ => 0) fun _ => 0)
      [.call (.create ⟨0x08001000, 1, 512, 0⟩), .call (.sleep 0 5)] = some k ∧
    schedulerGetFirstReadyPriority k = 1 ∧ schedulerGetNext k = none ∧ ¬ k.MaskAgrees := by
  obtain ⟨k, hrun, hfirst, hnext, hstates⟩ : ∃ k : Kernel,
      run (SchedOp.perform (linkerLayout 0x20001000)) (Kernel.reset (fun _ => 0) fun _ => 0)
        [.call (.create ⟨0x08001000, 1, 512, 0⟩), .call (.sleep 0 5)] = some k ∧
      schedulerGetFirstReadyPriority k = 1 ∧ schedulerGetNext k = none ∧
      ∀ t, (k.tcb t).state ≠ .running := ⟨_, rfl, by decide +kernel, rfl, by decide +kernel⟩
  refine ⟨k, hrun, hfirst, hnext, fun hagrees => ?_⟩
  have hsame := hagrees.first fun t _ => hstates t
  rw [hfirst, hnext] at hsame
  have hbad : 1 = maxTaskPriorities := hsame
  exact absurd hbad (by decide)

end Crest
