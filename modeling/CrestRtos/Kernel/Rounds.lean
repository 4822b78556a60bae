import CrestRtos.Kernel.Scheduler
import CrestRtos.Library.CircularOrder
import Mathlib.Data.Fintype.Card

/-!
# The search for a READY task

At one priority `scheduler_get_next` goes once round the ring of the priority
list, from the cursor on, and leaves the cursor behind the task it returns.
-/

namespace Crest
open IntrusiveList

def Kernel.isReady (k : Kernel) (t : Tid) : Bool := (k.tcb t).state = .ready

/-- The tasks of priority `pr` in the order in which the next search visits them. -/
def Kernel.Turns (k : Kernel) (pr : Nat) (order : List Tid) : Prop :=
  ∃ head, k.taskList pr = some head ∧ Ring k.next head ((k.rrCurrent pr).getD head) order

/-- The cursor that the selection of `t` leaves behind. -/
def Kernel.moveCursor (k : Kernel) (pr : Nat) (t : Tid) : Kernel :=
  { k with rrCurrent := Function.update k.rrCurrent pr (some ((k.next t).getD
      ((k.taskList pr).getD t))) }

variable {k k' : Kernel} {pr : Nat} {order l : List Tid} {t : Tid}

theorem searchReady_from {head start : Tid} {seen rest : List Tid} {n : Nat}
    (h : Ring k.next head start (seen ++ t :: rest)) (hn : rest.length < n) :
    searchReady k head start n t = (t :: rest).find? k.isReady := by
  induction rest generalizing seen t n with
  | nil =>
    obtain ⟨m, rfl⟩ : ∃ m, n = m + 1 := ⟨n - 1, by omega⟩
    have hback : (k.next t).getD head = start := h.next_last
    rw [searchReady]
    by_cases hready : (k.tcb t).state = .ready
    · simp [Kernel.isReady, hready]
    · simp [Kernel.isReady, hready, hback]
  | cons b rest ih =>
    obtain ⟨m, rfl⟩ : ∃ m, n = m + 1 := ⟨n - 1, by omega⟩
    have hb : (k.next t).getD head = b := h.next_eq
    have hne : b ≠ start := by
      rintro rfl
      obtain ⟨ys, hys⟩ := h.cons
      have hnd := h.nodup
      cases seen with
      | nil =>
        rw [List.nil_append, List.cons.injEq] at hys
        obtain ⟨rfl, _⟩ := hys
        exact absurd hnd (by simp)
      | cons a seen =>
        rw [List.cons_append, List.cons.injEq] at hys
        obtain ⟨rfl, _⟩ := hys
        exact absurd hnd (by simp)
    rw [searchReady]
    by_cases hready : (k.tcb t).state = .ready
    · simp [Kernel.isReady, hready]
    · simp only [if_neg hready, hb, if_neg hne]
      rw [ih (show Ring _ _ _ ((seen ++ [t]) ++ b :: rest) by simpa using h)
        (by simp only [List.length_cons] at hn; omega)]
      simp [List.find?_cons, Kernel.isReady, hready]

theorem Kernel.Turns.nodup (h : k.Turns pr order) : order.Nodup := by
  obtain ⟨head, _, hring⟩ := h
  exact hring.nodup

theorem Kernel.Turns.unique {order' : List Tid} (h : k.Turns pr order)
    (h' : k.Turns pr order') : order = order' := by
  obtain ⟨head, hhead, hring⟩ := h
  obtain ⟨head', hhead', hring'⟩ := h'
  obtain rfl := Option.some.inj (hhead.symm.trans hhead')
  exact hring.unique hring'

/-- One round finds the first READY task of the order. -/
theorem getNextAt_eq (h : k.Turns pr order) :
    getNextAt k pr = (order.find? k.isReady).map fun t => (k.moveCursor pr t, t) := by
  obtain ⟨head, hhead, hring⟩ := h
  obtain ⟨rest, rfl⟩ := hring.cons
  have hlen : rest.length < maxTasks := by
    have hcard := hring.nodup.length_le_card
    simp only [List.length_cons, Fintype.card_fin] at hcard
    exact hcard
  have hsearch := searchReady_from (show Ring _ _ _ ([] ++ _) from hring) hlen
  rw [getNextAt, hhead]
  simp only [hsearch]
  cases (((k.rrCurrent pr).getD head :: rest).find? k.isReady) with
  | none => rfl
  | some x => simp [Kernel.moveCursor, hhead]

theorem getNextAt_of_none (h : k.taskList pr = none) : getNextAt k pr = none := by
  rw [getNextAt, h]

theorem turns_of_linked (hl : Linked k.next (k.taskList pr) l)
    (hcursor : ∀ c, k.rrCurrent pr = some c → c ∈ l) (hne : k.taskList pr ≠ none) :
    ∃ order, k.Turns pr order ∧ order.Perm l := by
  obtain ⟨head, hhead⟩ := Option.ne_none_iff_exists'.mp hne
  rw [hhead] at hl
  have hhl : head ∈ l := by
    obtain ⟨r, rfl, _⟩ := linked_some_iff.mp hl
    exact List.mem_cons_self
  have hstart : (k.rrCurrent pr).getD head ∈ l := by
    cases hc : k.rrCurrent pr with
    | none => exact hhl
    | some c => exact hcursor c hc
  obtain ⟨order, hring, hperm⟩ := ring_of_linked hl hstart
  exact ⟨order, ⟨head, hhead, hring⟩, hperm⟩

theorem Kernel.Turns.perm (h : k.Turns pr order) (hl : Linked k.next (k.taskList pr) l) :
    order.Perm l := by
  obtain ⟨head, hhead, hring⟩ := h
  exact hring.perm (hhead ▸ hl)

/-- The order behind a selection: the tasks looked at go to its end. -/
theorem Kernel.Turns.select {pre post : List Tid} (h : k.Turns pr (pre ++ t :: post)) :
    (k.moveCursor pr t).Turns pr (post ++ pre ++ [t]) := by
  obtain ⟨head, hhead, hring⟩ := h
  refine ⟨head, hhead, ?_⟩
  have hnext : ((k.moveCursor pr t).rrCurrent pr).getD head = ringNext k.next head t := by
    simp [Kernel.moveCursor, hhead, ringNext]
  rw [hnext]
  exact hring.turn

/-- What the search at one priority returns. -/
theorem getNextAt_some (hl : Linked k.next (k.taskList pr) l)
    (hcursor : ∀ c, k.rrCurrent pr = some c → c ∈ l) (h : getNextAt k pr = some (k', t)) :
    t ∈ l ∧ (k.tcb t).state = .ready ∧
      ∃ c ∈ l, k' = { k with rrCurrent := Function.update k.rrCurrent pr (some c) } := by
  have hne : k.taskList pr ≠ none := by
    intro hnone
    rw [getNextAt_of_none hnone] at h
    cases h
  obtain ⟨order, hturns, hperm⟩ := turns_of_linked hl hcursor hne
  rw [getNextAt_eq hturns] at h
  obtain ⟨x, hx, heq⟩ := Option.map_eq_some_iff.mp h
  obtain ⟨rfl, rfl⟩ := Prod.mk.inj heq
  obtain ⟨hready, pre, post, rfl, _⟩ := List.find?_eq_some_iff_append.mp hx
  refine ⟨hperm.mem_iff.mp (by simp), by simpa [Kernel.isReady] using hready, _, ?_, rfl⟩
  obtain ⟨head, hhead, hring⟩ := hturns.select
  obtain ⟨rest, hrest⟩ := hring.cons
  have hmem : ((k.moveCursor pr x).rrCurrent pr).getD head ∈ post ++ pre ++ [x] := by
    rw [hrest]
    exact List.mem_cons_self
  simp only [Kernel.moveCursor, Function.update_self, Option.getD_some] at hmem
  refine hperm.mem_iff.mp (List.Perm.mem_iff ?_ |>.mp hmem)
  rw [List.append_assoc]
  exact List.perm_append_comm.trans (by simp)

theorem getNextAt_none (hl : Linked k.next (k.taskList pr) l)
    (hcursor : ∀ c, k.rrCurrent pr = some c → c ∈ l) (h : getNextAt k pr = none) (ht : t ∈ l) :
    (k.tcb t).state ≠ .ready := by
  have hne : k.taskList pr ≠ none := by
    intro hnone
    rw [hnone, linked_none_iff] at hl
    rw [hl] at ht
    cases ht
  obtain ⟨order, hturns, hperm⟩ := turns_of_linked hl hcursor hne
  rw [getNextAt_eq hturns, Option.map_eq_none_iff, List.find?_eq_none] at h
  simpa [Kernel.isReady] using h t (hperm.mem_iff.mpr ht)

end Crest
