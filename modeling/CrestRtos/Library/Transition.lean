import Mathlib.Data.List.Basic
import Mathlib.Logic.Relation
import Mathlib.Tactic.Lemma

/-!
# Runs of a labelled transition system

A system is a partial step function on states. A run follows a list of labels
and stops as soon as a step is impossible. `Permitted` is a run of an
environment that respects a guard, whether or not the system gets stuck in it.
-/

namespace Transition

universe u v
variable {S : Type u} {L : Type v}

def run (step : S → L → Option S) : S → List L → Option S
  | s, [] => some s
  | s, l :: ls => (step s l).bind fun s' => run step s' ls

def Permitted (allowed : S → L → Prop) (step : S → L → Option S) : S → List L → Prop
  | _, [] => True
  | s, l :: ls => allowed s l ∧ ∀ s', step s l = some s' → Permitted allowed step s' ls

instance decidablePermitted {allowed : S → L → Prop} {step : S → L → Option S}
    [∀ s l, Decidable (allowed s l)] :
    (s : S) → (ls : List L) → Decidable (Permitted allowed step s ls)
  | _, [] => .isTrue trivial
  | s, l :: ls =>
    match hstep : step s l with
    | none => decidable_of_iff (allowed s l) (by simp [Permitted, hstep])
    | some s' =>
      have := @decidablePermitted allowed step _ s' ls
      decidable_of_iff (allowed s l ∧ Permitted allowed step s' ls) (by simp [Permitted, hstep])

/-- The states a run can end in. -/
def Reachable (step : S → L → Option S) (s₀ s : S) : Prop := ∃ ls, run step s₀ ls = some s

variable {step : S → L → Option S} {allowed : S → L → Prop}

theorem run_cons {s s' : S} {l : L} {ls : List L} :
    run step s (l :: ls) = some s' ↔ ∃ t, step s l = some t ∧ run step t ls = some s' :=
  Option.bind_eq_some_iff

theorem run_append {s s' : S} {ls ls' : List L} :
    run step s (ls ++ ls') = some s' ↔ ∃ t, run step s ls = some t ∧ run step t ls' = some s' := by
  induction ls generalizing s with
  | nil => simp [run]
  | cons l ls ih =>
    simp only [List.cons_append, run_cons, ih]
    constructor
    · rintro ⟨t, ht, u, hu, hs⟩
      exact ⟨u, ⟨t, ht, hu⟩, hs⟩
    · rintro ⟨u, ⟨t, ht, hu⟩, hs⟩
      exact ⟨t, ht, u, hu, hs⟩

/-- A system whose labels are among those of another one has its runs there. -/
theorem run_map {M : Type*} {step' : S → M → Option S} {f : L → M}
    (h : ∀ s l, step' s (f l) = step s l) (s : S) (ls : List L) :
    run step' s (ls.map f) = run step s ls := by
  induction ls generalizing s with
  | nil => rfl
  | cons l ls ih =>
    rw [List.map_cons, run, run, h]
    exact congrArg _ (funext ih)

/-- A predicate kept by every step holds at the end of every run. -/
theorem run_invariant {I : S → Prop} (hstep : ∀ s l s', I s → step s l = some s' → I s')
    {s s' : S} {ls : List L} (h : I s) (hrun : run step s ls = some s') : I s' := by
  induction ls generalizing s with
  | nil =>
    obtain rfl := Option.some.inj hrun
    exact h
  | cons l ls ih =>
    obtain ⟨t, ht, hrest⟩ := run_cons.mp hrun
    exact ih (hstep s l t h ht) hrest

/-- A run keeps a predicate, or one of its steps is the first to leave it. -/
theorem run_leaves {I : S → Prop} {s s' : S} {ls : List L} (h : I s)
    (hrun : run step s ls = some s') :
    I s' ∨ ∃ before l after t t', ls = before ++ l :: after ∧ run step s before = some t ∧ I t ∧
      step t l = some t' ∧ ¬ I t' := by
  induction ls generalizing s with
  | nil =>
    obtain rfl := Option.some.inj hrun
    exact Or.inl h
  | cons l ls ih =>
    obtain ⟨t, ht, hrest⟩ := run_cons.mp hrun
    by_cases hI : I t
    · rcases ih hI hrest with hend | ⟨before, l', after, u, u', rfl, hbefore, hu, hu', hnot⟩
      · exact Or.inl hend
      · exact Or.inr ⟨l :: before, l', after, u, u', rfl, run_cons.mpr ⟨t, ht, hbefore⟩, hu, hu',
          hnot⟩
    · exact Or.inr ⟨[], l, ls, s, t, rfl, rfl, h, ht, hI⟩

theorem reachable_invariant {I : S → Prop} (hstep : ∀ s l s', I s → step s l = some s' → I s')
    {s₀ s : S} (h : I s₀) (hr : Reachable step s₀ s) : I s := by
  obtain ⟨ls, hrun⟩ := hr
  exact run_invariant hstep h hrun

theorem Permitted.mono {allowed' : S → L → Prop} (h : ∀ s l, allowed s l → allowed' s l) {s : S}
    {ls : List L} (hp : Permitted allowed step s ls) : Permitted allowed' step s ls := by
  induction ls generalizing s with
  | nil => trivial
  | cons l ls ih => exact ⟨h s l hp.1, fun s' hs' => ih (hp.2 s' hs')⟩

theorem permitted_always (h : ∀ s l, allowed s l) {s : S} {ls : List L} :
    Permitted allowed step s ls := by
  induction ls generalizing s with
  | nil => trivial
  | cons l ls ih => exact ⟨h s l, fun _ _ => ih⟩

/-- Two guards that agree wherever a run can come permit the same runs. -/
theorem permitted_iff {allowed' : S → L → Prop} {I : S → Prop}
    (hstep : ∀ s l s', I s → step s l = some s' → I s')
    (h : ∀ s l, I s → (allowed s l ↔ allowed' s l)) {s : S} (hs : I s) (ls : List L) :
    Permitted allowed step s ls ↔ Permitted allowed' step s ls := by
  induction ls generalizing s with
  | nil => rfl
  | cons l ls ih =>
    refine and_congr (h s l hs) (forall_congr' fun s' => ?_)
    exact imp_congr_right fun hl => ih (hstep s l s' hs hl)

theorem permitted_append {s s' : S} {ls ls' : List L} (hp : Permitted allowed step s (ls ++ ls'))
    (hrun : run step s ls = some s') :
    Permitted allowed step s ls ∧ Permitted allowed step s' ls' := by
  induction ls generalizing s with
  | nil =>
    obtain rfl := Option.some.inj hrun
    exact ⟨trivial, hp⟩
  | cons l ls ih =>
    obtain ⟨t, ht, hrest⟩ := run_cons.mp hrun
    obtain ⟨hallowed, hnext⟩ := hp
    refine ⟨⟨hallowed, fun t' ht' => ?_⟩, (ih (hnext t ht) hrest).2⟩
    obtain rfl := Option.some.inj (ht.symm.trans ht')
    exact (ih (hnext t ht) hrest).1

/-- A predicate kept by every permitted step holds at the end of a permitted run. -/
theorem permitted_invariant {I : S → Prop}
    (hstep : ∀ s l s', I s → allowed s l → step s l = some s' → I s') {s s' : S} {ls : List L}
    (h : I s) (hp : Permitted allowed step s ls) (hrun : run step s ls = some s') : I s' := by
  induction ls generalizing s with
  | nil =>
    obtain rfl := Option.some.inj hrun
    exact h
  | cons l ls ih =>
    obtain ⟨t, ht, hrest⟩ := run_cons.mp hrun
    exact ih (hstep s l t h hp.1 ht) (hp.2 t ht) hrest

/-- What a counted step takes one off and every other permitted step keeps: a run
leaves as much of it as its counted steps have not used up. -/
theorem permitted_countdown {counted : L → Bool} {I : S → Prop} {C : S → Nat → Prop}
    (hI : ∀ s l s', I s → step s l = some s' → I s')
    (hdown : ∀ s l s' n, I s → C s (n + 1) → n ≠ 0 → counted l = true → step s l = some s' →
      C s' n)
    (hkeep : ∀ s l s' n, I s → C s n → counted l = false → allowed s l → step s l = some s' →
      C s' n)
    {s s' : S} {ls : List L} {n : Nat} (h : I s) (hC : C s n) (hp : Permitted allowed step s ls)
    (hrun : run step s ls = some s') (hlt : ls.countP counted < n) :
    C s' (n - ls.countP counted) := by
  induction ls generalizing s n with
  | nil =>
    obtain rfl := Option.some.inj hrun
    exact hC
  | cons l ls ih =>
    obtain ⟨t, ht, hrest⟩ := run_cons.mp hrun
    obtain ⟨hallowed, hnext⟩ := hp
    rw [List.countP_cons] at hlt ⊢
    cases hl : counted l with
    | true =>
      rw [hl, if_pos rfl] at hlt
      obtain ⟨m, rfl⟩ : ∃ m, n = m + 1 := ⟨n - 1, by omega⟩
      have hless := hdown s l t m h hC (by omega) hl ht
      have hend := ih (hI s l t h ht) hless (hnext t ht) hrest (by omega)
      rwa [if_pos rfl, Nat.add_sub_add_right]
    | false =>
      rw [hl, if_neg Bool.false_ne_true] at hlt
      rw [if_neg Bool.false_ne_true]
      exact ih (hI s l t h ht) (hkeep s l t n h hC hl hallowed ht) (hnext t ht) hrest hlt

/-- When every permitted step is possible and keeps a predicate on history and
state, a permitted run never gets stuck. -/
theorem run_of_permitted {I : List L → S → Prop} {s : S} {before ls : List L}
    (hstep : ∀ ls s l, I ls s → allowed s l → ∃ s', step s l = some s' ∧ I (ls ++ [l]) s')
    (h : I before s) (hp : Permitted allowed step s ls) :
    ∃ s', run step s ls = some s' ∧ I (before ++ ls) s' := by
  induction ls generalizing s before with
  | nil => exact ⟨s, rfl, by simpa using h⟩
  | cons l ls ih =>
    obtain ⟨hallowed, hrest⟩ := hp
    obtain ⟨t, ht, hI⟩ := hstep before s l h hallowed
    obtain ⟨s', hrun, hI'⟩ := ih hI (hrest t ht)
    exact ⟨s', run_cons.mpr ⟨t, ht, hrun⟩, by simpa using hI'⟩

end Transition
