import CrestRtos.Properties.Roster

/-!
# Which task is selected

The `do` loop of `scheduler_get_next` has no bound of its own. It comes back to where
it started because the cursor lies on the ring of its list, in every state that
creations, deletions, switches and ticks can lead to. What it returns is the first
READY task on the ring of the highest priority that has one.
-/

namespace Crest
open IntrusiveList Alloc Transition

/-- The `do` loop at one priority, for as long as it takes: from `t` on it ends with `r`. -/
inductive ReadyLoop (k : Kernel) (list start : Tid) : Tid → Option Tid → Prop
  | found {t : Tid} (h : (k.tcb t).state = .ready) : ReadyLoop k list start t (some t)
  | round {t : Tid} (h : (k.tcb t).state ≠ .ready) (hback : (k.next t).getD list = start) :
      ReadyLoop k list start t none
  | next {t : Tid} {r : Option Tid} (h : (k.tcb t).state ≠ .ready)
      (hgo : (k.next t).getD list ≠ start)
      (hrest : ReadyLoop k list start ((k.next t).getD list) r) : ReadyLoop k list start t r

/-- A call of the scheduler, or a context switch. -/
inductive SchedOp
  | call (op : RosterOp)
  | switch (oldSp : Nat)

def SchedOp.perform (L : Layout) (k : Kernel) : SchedOp → Option Kernel
  | .call op => op.perform L k
  | .switch oldSp => portSwitchContext L k oldSp

/-- The task is in one of the priority lists. -/
def Kernel.Listed (k : Kernel) (t : Tid) : Prop :=
  ∃ pr l, pr < maxTaskPriorities ∧ Linked k.next (k.taskList pr) l ∧ t ∈ l

/-- `t` is READY, none that is READY has a smaller priority number, and it comes first
on the ring behind the cursor; only that cursor moves. -/
structure Selected (k k' : Kernel) (t : Tid) : Prop where
  listed : k.Listed t
  ready : (k.tcb t).state = .ready
  minimal : ∀ u, k.Listed u → (k.tcb u).state = .ready → (k.tcb t).priority ≤ (k.tcb u).priority
  first : ∃ order, k.Turns (k.tcb t).priority order ∧ order.find? k.isReady = some t
  cursor : ∃ c, k' =
    { k with rrCurrent := Function.update k.rrCurrent (k.tcb t).priority (some c) }

/-- What a call of `scheduler_get_next` does in the state `k`: each of its loops ends,
and it returns the task it should, or none. -/
structure Kernel.Selects (k : Kernel) : Prop where
  ends : ∀ pr head, k.taskList pr = some head →
    ReadyLoop k head ((k.rrCurrent pr).getD head) ((k.rrCurrent pr).getD head)
      (searchReady k head ((k.rrCurrent pr).getD head) maxTasks ((k.rrCurrent pr).getD head))
  idle : schedulerGetNext k = none ↔ ∀ t, k.Listed t → (k.tcb t).state ≠ .ready
  picks : ∀ k' t, schedulerGetNext k = some (k', t) → Selected k k' t

section Loop
variable {k : Kernel} {list start t : Tid}

/-- On a ring the loop ends where the bounded search does. -/
theorem readyLoop_from {seen rest : List Tid} {n : Nat}
    (h : Ring k.next list start (seen ++ t :: rest)) (hn : rest.length < n) :
    ReadyLoop k list start t (searchReady k list start n t) := by
  induction rest generalizing seen t n with
  | nil =>
    obtain ⟨m, rfl⟩ : ∃ m, n = m + 1 := ⟨n - 1, by omega⟩
    have hback : (k.next t).getD list = start := h.next_last
    rw [searchReady]
    by_cases hready : (k.tcb t).state = .ready
    · rw [if_pos hready]
      exact .found hready
    · simp only [if_neg hready, if_pos hback]
      exact .round hready hback
  | cons b rest ih =>
    obtain ⟨m, rfl⟩ : ∃ m, n = m + 1 := ⟨n - 1, by omega⟩
    have hb : (k.next t).getD list = b := h.next_eq
    rw [searchReady]
    by_cases hready : (k.tcb t).state = .ready
    · rw [if_pos hready]
      exact .found hready
    · have hrest := ih (n := m) (show Ring _ _ _ ((seen ++ [t]) ++ b :: rest) by simpa using h)
        (by simp only [List.length_cons] at hn; omega)
      by_cases hback : b = start
      · simp only [if_neg hready, hb, if_pos hback]
        exact .round hready (hb.trans hback)
      · simp only [if_neg hready, hb, if_neg hback]
        exact .next hready (by rwa [hb]) (by rwa [hb])

end Loop

section Roster
variable {L : Layout} {k k' : Kernel} {runs : Nat → List Tid} {live : List Nat} {t : Tid}
  {pr : Nat}

theorem Roster.saved (h : Roster L k runs live) {oldSp : Nat} (hs : saveCurrent k oldSp = some k') :
    Roster L k' runs live := by
  rcases saveCurrent_cases hs with ⟨_, rfl⟩ | ⟨cur, _, rfl⟩
  · exact h
  · exact h.standing (standing_setTcb rfl)

theorem Roster.resumed (h : Roster L k runs live) (next : Tid) :
    Roster L (resume L k next) runs live := by
  have hk := h.standing (standing_setTcb (k := k) (t := next)
    (f := fun tcb => { tcb with state := .running }) rfl)
  exact ⟨hk.linked, hk.rank, hk.bounded, hk.used, hk.cursor, hk.byte, hk.mask, hk.heap, hk.stack,
    hk.bare, hk.own⟩

/-- A switch changes states and one cursor. -/
theorem Roster.switched (h : Roster L k runs live) {oldSp : Nat}
    (hs : portSwitchContext L k oldSp = some k') : Roster L k' runs live := by
  obtain ⟨k₁, hsave, hcases⟩ := portSwitchContext_cases hs
  have hclear : Roster L { k with pendsv := false } runs live := h.standing rfl
  have h₁ := hclear.saved hsave
  rcases hcases with ⟨k₂, next, hget, rfl⟩ | ⟨cur, _, rfl⟩ | rfl
  · exact (h₁.getNext hget).resumed next
  · exact h₁.standing (standing_setTcb rfl)
  · exact h₁

theorem Roster.listed_iff (h : Roster L k runs live) :
    k.Listed t ↔ t ∈ runs (k.tcb t).priority := by
  constructor
  · rintro ⟨pr, l, _, hl, ht⟩
    obtain rfl := linked_unique hl (h.linked pr)
    rwa [h.rank pr t ht]
  · intro ht
    exact ⟨_, _, h.bounded t, h.linked _, ht⟩

theorem Roster.loops (h : Roster L k runs live) {head : Tid} (hhead : k.taskList pr = some head) :
    ReadyLoop k head ((k.rrCurrent pr).getD head) ((k.rrCurrent pr).getD head)
      (searchReady k head ((k.rrCurrent pr).getD head) maxTasks ((k.rrCurrent pr).getD head)) := by
  obtain ⟨order, ⟨head', hhead', hring⟩, _⟩ :=
    turns_of_linked (h.linked pr) (h.cursor pr) (by rw [hhead]; simp)
  obtain rfl := Option.some.inj (hhead.symm.trans hhead')
  obtain ⟨rest, rfl⟩ := hring.cons
  have hlen := hring.nodup.length_le_card
  simp only [List.length_cons, Fintype.card_fin] at hlen
  exact readyLoop_from (show Ring _ _ _ ([] ++ _) from hring) hlen

theorem Roster.getNextAt_none_iff (h : Roster L k runs live) :
    getNextAt k pr = none ↔ ∀ u ∈ runs pr, (k.tcb u).state ≠ .ready := by
  refine ⟨fun hnone u hu => getNextAt_none (h.linked pr) (h.cursor pr) hnone hu, fun hidle => ?_⟩
  cases hget : getNextAt k pr with
  | none => rfl
  | some found =>
    obtain ⟨k', t⟩ := found
    obtain ⟨ht, hready, _⟩ := getNextAt_some (h.linked pr) (h.cursor pr) hget
    exact absurd hready (hidle t ht)

theorem Roster.none_iff (h : Roster L k runs live) :
    schedulerGetNext k = none ↔ ∀ t, k.Listed t → (k.tcb t).state ≠ .ready := by
  rw [schedulerGetNext, List.findSome?_eq_none_iff]
  constructor
  · intro hnone t ht
    exact h.getNextAt_none_iff.mp (hnone _ (List.mem_range.mpr (h.bounded t))) t
      (h.listed_iff.mp ht)
  · intro hidle pr hpr
    refine h.getNextAt_none_iff.mpr fun u hu => hidle u (h.listed_iff.mpr ?_)
    rwa [h.rank pr u hu]

theorem Roster.selected (h : Roster L k runs live) (hget : schedulerGetNext k = some (k', t)) :
    Selected k k' t := by
  obtain ⟨front, pr, back, hsplit, hat, hbefore⟩ := List.findSome?_eq_some_iff.mp hget
  obtain ⟨ht, hready, c, _, hk'⟩ := getNextAt_some (h.linked pr) (h.cursor pr) hat
  obtain rfl := h.rank pr t ht
  refine ⟨h.listed_iff.mpr ht, hready, fun u hu hru => ?_, ?_, c, hk'⟩
  · -- the levels in front of the one that answered have no READY task
    by_contra hlt
    have hfront : (k.tcb u).priority ∈ front := by
      have hmem : (k.tcb u).priority ∈ List.range maxTaskPriorities :=
        List.mem_range.mpr (h.bounded u)
      have hsorted := List.pairwise_lt_range (n := maxTaskPriorities)
      rw [hsplit, List.pairwise_append, List.pairwise_cons] at hsorted
      rw [hsplit, List.mem_append, List.mem_cons] at hmem
      rcases hmem with hmem | heq | hmem
      · exact hmem
      · omega
      · have hgt := hsorted.2.1.1 _ hmem
        omega
    exact h.getNextAt_none_iff.mp (hbefore _ hfront) u (h.listed_iff.mp hu) hru
  · have hne : k.taskList (k.tcb t).priority ≠ none := by
      intro hnone
      rw [getNextAt_of_none hnone] at hat
      cases hat
    obtain ⟨order, hturns, _⟩ := turns_of_linked (h.linked _) (h.cursor _) hne
    rw [getNextAt_eq hturns] at hat
    obtain ⟨x, hx, heq⟩ := Option.map_eq_some_iff.mp hat
    obtain ⟨_, rfl⟩ := Prod.mk.inj heq
    exact ⟨order, hturns, hx⟩

end Roster

theorem schedOp_roster {L : Layout} (hL : L.heap.Placed) {k k' : Kernel} (op : SchedOp)
    (h : ∃ runs live, Roster L k runs live) (hstep : op.perform L k = some k') :
    ∃ runs live, Roster L k' runs live := by
  obtain ⟨runs, live, h⟩ := h
  cases op with
  | call op =>
    obtain ⟨k₁, hrun, hr⟩ := h.perform hL op
    obtain rfl := Option.some.inj (hrun.symm.trans hstep)
    exact hr
  | switch oldSp => exact ⟨runs, live, h.switched hstep⟩

/-- In every state that a run after `task_init` can reach, each search loop comes to its
end, nothing is selected exactly when no listed task is READY, and a selection is the
first READY task of the highest priority. -/
theorem scheduler_selects (L : Layout) (hL : L.heap.Placed) (heapMem ram : ByteMemory.Memory)
    {k : Kernel} (hk : Reachable (SchedOp.perform L) (Kernel.reset heapMem ram) k) :
    k.Selects := by
  obtain ⟨runs, live, h⟩ := reachable_invariant (fun k op k' => schedOp_roster hL op)
    ⟨_, _, roster_reset L heapMem ram⟩ hk
  exact ⟨fun pr head hhead => h.loops hhead, h.none_iff, fun k' t => h.selected⟩

/-- Three tasks, of which the one under the cursor is deleted and another one sleeps. -/
theorem scheduler_selects_third : ∃ k k' : Kernel,
    run (SchedOp.perform (linkerLayout 0x20001000)) (Kernel.reset (fun _ => 0) fun _ => 0)
      [.call (.create ⟨0x08001000, 1, 512, 0⟩), .call (.create ⟨0x08002000, 1, 64, 0⟩),
        .call (.create ⟨0x08003000, 2, 64, 0⟩), .switch 0x2001F000, .call (.delete 0),
        .call (.sleep 1 5)] = some k ∧
    schedulerGetNext k = some (k', 2) ∧ k.Selects := by
  obtain ⟨k, k', hrun, hget⟩ : ∃ k k' : Kernel,
      run (SchedOp.perform (linkerLayout 0x20001000)) (Kernel.reset (fun _ => 0) fun _ => 0)
        [.call (.create ⟨0x08001000, 1, 512, 0⟩), .call (.create ⟨0x08002000, 1, 64, 0⟩),
          .call (.create ⟨0x08003000, 2, 64, 0⟩), .switch 0x2001F000, .call (.delete 0),
          .call (.sleep 1 5)] = some k ∧ schedulerGetNext k = some (k', 2) := ⟨_, _, rfl, rfl⟩
  exact ⟨k, k', hrun, hget, scheduler_selects (linkerLayout 0x20001000)
    (linkerLayout_placed 0x20001000 (by decide) (by decide)).1 _ _ ⟨_, hrun⟩⟩

end Crest
