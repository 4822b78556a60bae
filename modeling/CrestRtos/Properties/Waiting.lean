import CrestRtos.System.Runs

/-!
# Wait lists of a running system

In every state of a started system the wait lists are disjoint lists without
repetition, and the timeout fields of a task agree with the list it is on.
-/

namespace Crest
open IntrusiveList Transition

/-- The links spell out the lists `W`, and every control block fits its list. -/
structure Sys.WaitsOn (s : Sys) (W : WaitMap) : Prop where
  linked : ∀ w, Linked s.k.waitNext (s.k.head w) (W w)
  once : ∀ w, (W w).Nodup
  apart : ∀ w w' t, t ∈ W w → t ∈ W w' → w = w'
  waiting : ∀ w t, t ∈ W w → (s.k.tcb t).state = .waiting
  /-- A member has called with some timeout `ms`, and is still waiting in that call. -/
  timeout : ∀ w t, t ∈ W w → ∃ ms, waitPhase s.log t = .waiting w ms ∧
    (ms ≠ waitForever → 0 < (s.k.tcb t).delayTicks ∧ (s.k.tcb t).blockingWaitList = some w) ∧
    (ms = waitForever → (s.k.tcb t).delayTicks = 0 ∧ (s.k.tcb t).blockingWaitList = none)
  off : ∀ t, (∀ w, t ∉ W w) → (s.k.tcb t).blockingWaitList = none
  awake : ∀ t, (s.k.tcb t).state = .ready ∨ (s.k.tcb t).state = .running →
    (s.k.tcb t).delayTicks = 0

section Placed
variable {s : Sys} {W : WaitMap} {place : Tid → Place} {t : Tid}

/-- A task on no list has no list in its control block. -/
theorem Placed.off_list (h : Placed s W place) (hoff : ∀ w, t ∉ W w) :
    (s.k.tcb t).blockingWaitList = none := by
  have hview := h.task t
  cases hp : place t with
  | fresh =>
    rw [hp] at hview
    exact hview.list
  | own =>
    rw [hp] at hview
    exact hview.list
  | ring =>
    rw [hp] at hview
    exact hview.list
  | served u =>
    rw [hp] at hview
    exact hview.list
  | listed w => exact absurd ((h.mem_list t w).mpr hp) (hoff w)
  | waking u =>
    rw [hp] at hview
    obtain ⟨w, hw⟩ := hview
    exact hw.list

/-- A task that may run counts no ticks. -/
theorem Placed.awake_delay (h : Placed s W place) (hstate : (s.k.tcb t).state ≠ .waiting) :
    (s.k.tcb t).delayTicks = 0 := by
  have hview := h.task t
  by_cases hfresh : place t = .fresh
  · rw [hfresh] at hview
    exact hview.delay
  · rw [h.own_of_state hfresh hstate] at hview
    exact hview.delay hstate

theorem Placed.waitsOn (h : Placed s W place) : s.WaitsOn W := by
  constructor
  · exact h.lists
  · exact fun w => linked_nodup (h.lists w)
  · exact h.apart
  · intro w t ht
    have hview := h.task t
    rw [(h.mem_list t w).mp ht] at hview
    exact hview.state
  · intro w t ht
    have hview := h.task t
    rw [(h.mem_list t w).mp ht] at hview
    obtain ⟨ms, hphase, harmed⟩ := hview.phase
    refine ⟨ms, hphase, ?_, ?_⟩
    · intro hfinite
      rcases harmed with ⟨_, hfields⟩ | ⟨hforever, _⟩
      · exact hfields
      · exact absurd hforever hfinite
    · intro hforever
      rcases harmed with ⟨hfinite, _⟩ | ⟨_, hfields⟩
      · exact absurd hforever hfinite
      · exact hfields
  · exact fun t => h.off_list
  · intro t hstate
    refine h.awake_delay ?_
    rcases hstate with hs | hs <;> simp [hs]

end Placed

/-- Any number of objects, any interleaving: the wait lists are well formed. -/
theorem wait_lists_well_formed {L : Alloc.Layout} {s : Sys} (hL : L.heap.Placed)
    (h : s.Reached L) : ∃ W, s.WaitsOn W := by
  obtain ⟨g, hg⟩ := h.inv hL
  exact ⟨g.lists, hg.placed.waitsOn⟩

/-- Task 1 of the small system has waited for a semaphore for one tick of five. -/
theorem wait_lists_well_formed_board :
    ∃ s, boardRun (boardReady ++ [.call (.create (.sem 0)), .go, .go,
        .call (.semTake 0x10000 5), .go, .tick]) = some s ∧
      ((s.k.tcb 1).delayTicks = 4 ∧ (s.k.tcb 1).blockingWaitList.isSome = true) ∧
      ∃ W, s.WaitsOn W :=
  boardRun_comes _ (by decide +kernel) fun _ hs => wait_lists_well_formed boardLayout_placed hs

end Crest
