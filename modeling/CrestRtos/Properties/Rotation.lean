import CrestRtos.Properties.Roster

/-!
# Removal and the turn order

`scheduler_remove_task` against the same scheduler with the task left in its
list, never to be READY again. The two go on to select the same tasks unless the
cursor points to the removed task and that task has neighbours on both sides:
then the next search starts at the head of the list and not behind the gap.
-/

namespace Crest
open IntrusiveList MachineWord Alloc Transition

/-- What can follow a removal. -/
inductive TurnOp
  | getNext
  | setState (u : Tid) (state : TaskState)
  deriving DecidableEq

def setState (k : Kernel) (u : Tid) (state : TaskState) : Kernel :=
  k.setTcb u fun tcb => { tcb with state := state }

/-- The results of the calls of `scheduler_get_next`, in order. -/
def selections (k : Kernel) : List TurnOp → List (Option Tid)
  | [] => []
  | .setState u state :: ops => selections (setState k u state) ops
  | .getNext :: ops =>
    match schedulerGetNext k with
    | none => none :: selections k ops
    | some (k', t) => some t :: selections k' ops

/-- From now on the others are selected as if `x` had stayed and slept. -/
def Kernel.Undisturbed (k : Kernel) (x : Tid) : Prop :=
  ∀ state, state ≠ .ready → ∀ ops : List TurnOp, (∀ st, .setState x st ∉ ops) →
    selections (schedulerRemoveTask k x) ops = selections (setState k x state) ops

/-- The cursor of its list points to `x`, which is neither first nor last there. -/
def Kernel.CursorInside (k : Kernel) (x : Tid) : Prop :=
  k.rrCurrent (k.tcb x).priority = some x ∧ k.taskList (k.tcb x).priority ≠ some x ∧
    (k.tcb x).next ≠ none

/-- `gone` is the scheduler without `x`, `kept` the one where `x` sleeps. At one
priority the turns are the same but for `x`, or there is nobody left but `x`. -/
structure Lacks (gone kept : Kernel) (x : Tid) : Prop where
  asleep : (kept.tcb x).state ≠ .ready
  states : ∀ u, u ≠ x → (gone.tcb u).state = (kept.tcb u).state
  turns : ∀ pr, (gone.taskList pr = none ∧ (kept.taskList pr = none ∨ kept.Turns pr [x])) ∨
    ∃ order, kept.Turns pr order ∧ gone.Turns pr (order.filter (· != x))

section Lockstep
variable {gone kept : Kernel} {x : Tid}

theorem setState_next (k : Kernel) (u : Tid) (state : TaskState) :
    (setState k u state).next = k.next := by
  funext t
  by_cases ht : t = u
  · subst ht
    simp [Kernel.next, setState]
  · simp [Kernel.next, setState, setTcb_tcb_of_ne k _ ht]

theorem setState_turns {k : Kernel} {u : Tid} {state : TaskState} {pr : Nat} {order : List Tid}
    (h : k.Turns pr order) : (setState k u state).Turns pr order := by
  obtain ⟨head, hhead, hring⟩ := h
  refine ⟨head, hhead, ?_⟩
  rw [setState_next]
  exact hring

theorem setState_state (k : Kernel) (u t : Tid) (state : TaskState) :
    ((setState k u state).tcb t).state = if t = u then state else (k.tcb t).state := by
  by_cases ht : t = u
  · subst ht
    simp [setState]
  · simp [setState, setTcb_tcb_of_ne k _ ht, ht]

theorem Lacks.setState (h : Lacks gone kept x) {u : Tid} (hu : u ≠ x) (state : TaskState) :
    Lacks (Crest.setState gone u state) (Crest.setState kept u state) x := by
  refine ⟨?_, fun t ht => ?_, fun pr => ?_⟩
  · rw [setState_state, if_neg hu.symm]
    exact h.asleep
  · rw [setState_state, setState_state, h.states t ht]
  · rcases h.turns pr with ⟨hnone, hkept⟩ | ⟨order, hkept, hgone⟩
    · exact Or.inl ⟨hnone, hkept.imp id setState_turns⟩
    · exact Or.inr ⟨order, setState_turns hkept, setState_turns hgone⟩

/-- A cursor moves at one priority only. -/
theorem moveCursor_turns {k : Kernel} {pr pr' : Nat} {t : Tid} {order : List Tid} (hne : pr' ≠ pr)
    (h : k.Turns pr' order) : (k.moveCursor pr t).Turns pr' order := by
  obtain ⟨head, hhead, hring⟩ := h
  refine ⟨head, hhead, ?_⟩
  have hcursor : (k.moveCursor pr t).rrCurrent pr' = k.rrCurrent pr' :=
    Function.update_of_ne hne _ _
  rw [hcursor]
  exact hring

/-- Nobody misses a task that is never found. -/
theorem Lacks.find (h : Lacks gone kept x) (order : List Tid) :
    (order.filter (· != x)).find? gone.isReady = order.find? kept.isReady := by
  rw [List.find?_filter]
  congr 1
  funext t
  by_cases ht : t = x
  · subst ht
    simp [Kernel.isReady, h.asleep]
  · simp [Kernel.isReady, h.states t ht, ht]

/-- The search at one priority, in both. -/
theorem Lacks.getNextAt (h : Lacks gone kept x) (pr : Nat) :
    (Crest.getNextAt gone pr = none ∧ Crest.getNextAt kept pr = none) ∨
    ∃ gone' kept' t, Crest.getNextAt gone pr = some (gone', t) ∧
      Crest.getNextAt kept pr = some (kept', t) ∧ Lacks gone' kept' x := by
  rcases h.turns pr with ⟨hgone, hkept⟩ | ⟨order, hkept, hgone⟩
  · refine Or.inl ⟨getNextAt_of_none hgone, ?_⟩
    rcases hkept with hnone | hturns
    · exact getNextAt_of_none hnone
    · rw [getNextAt_eq hturns]
      simp [Kernel.isReady, h.asleep]
  · rw [getNextAt_eq hgone, getNextAt_eq hkept, h.find]
    cases hfind : order.find? kept.isReady with
    | none => exact Or.inl ⟨rfl, rfl⟩
    | some t =>
      refine Or.inr ⟨_, _, t, rfl, rfl, h.asleep, h.states, fun pr' => ?_⟩
      by_cases hpr : pr' = pr
      · subst hpr
        obtain ⟨hready, pre, post, rfl, _⟩ := List.find?_eq_some_iff_append.mp hfind
        have htx : t ≠ x := by
          rintro rfl
          simp [Kernel.isReady, h.asleep] at hready
        rw [List.filter_append, List.filter_cons_of_pos (by simpa using htx)] at hgone
        refine Or.inr ⟨_, hkept.select, ?_⟩
        have hlast : [t].filter (· != x) = [t] := List.filter_cons_of_pos (by simpa using htx)
        rw [List.filter_append, List.filter_append, hlast]
        exact hgone.select
      · rcases h.turns pr' with ⟨hnone, hrest⟩ | ⟨order', hkept', hgone'⟩
        · exact Or.inl ⟨hnone, hrest.imp id (moveCursor_turns hpr)⟩
        · exact Or.inr ⟨order', moveCursor_turns hpr hkept', moveCursor_turns hpr hgone'⟩

theorem Lacks.getNext (h : Lacks gone kept x) :
    (schedulerGetNext gone = none ∧ schedulerGetNext kept = none) ∨
    ∃ gone' kept' t, schedulerGetNext gone = some (gone', t) ∧
      schedulerGetNext kept = some (kept', t) ∧ Lacks gone' kept' x := by
  have hscan : ∀ prs : List Nat,
      (prs.findSome? (Crest.getNextAt gone) = none ∧ prs.findSome? (Crest.getNextAt kept) = none) ∨
      ∃ gone' kept' t, prs.findSome? (Crest.getNextAt gone) = some (gone', t) ∧
        prs.findSome? (Crest.getNextAt kept) = some (kept', t) ∧ Lacks gone' kept' x := by
    intro prs
    induction prs with
    | nil => exact Or.inl ⟨rfl, rfl⟩
    | cons pr prs ih =>
      simp only [List.findSome?_cons]
      rcases h.getNextAt pr with ⟨hgone, hkept⟩ | ⟨gone', kept', t, hgone, hkept, hl⟩
      · rw [hgone, hkept]
        exact ih
      · rw [hgone, hkept]
        exact Or.inr ⟨gone', kept', t, rfl, rfl, hl⟩
  exact hscan _

/-- The two schedulers select the same tasks for ever. -/
theorem Lacks.selections (h : Lacks gone kept x) {ops : List TurnOp}
    (hops : ∀ st, .setState x st ∉ ops) :
    Crest.selections gone ops = Crest.selections kept ops := by
  induction ops generalizing gone kept with
  | nil => rfl
  | cons op ops ih =>
    have hrest : ∀ st, .setState x st ∉ ops := fun st hmem => hops st (List.mem_cons_of_mem _ hmem)
    cases op with
    | setState u state =>
      have hu : u ≠ x := by
        rintro rfl
        exact hops state List.mem_cons_self
      exact ih (h.setState hu state) hrest
    | getNext =>
      simp only [Crest.selections]
      rcases h.getNext with ⟨hgone, hkept⟩ | ⟨gone', kept', t, hgone, hkept, hl⟩
      · rw [hgone, hkept]
        exact congrArg _ (ih h hrest)
      · rw [hgone, hkept]
        exact congrArg _ (ih hl hrest)

end Lockstep

section Start
variable {L : Layout} {k k₁ : Kernel} {runs : Nat → List Tid} {live : List Nat} {x : Tid}

/-- The turns read off a list that is split at the cursor. -/
theorem turns_at {k : Kernel} {pr : Nat} {front back : List Tid} {c : Tid}
    (hl : Linked k.next (k.taskList pr) (front ++ c :: back))
    (hc : k.rrCurrent pr = some c ∨ (k.rrCurrent pr = none ∧ front = [])) :
    k.Turns pr (c :: back ++ front) := by
  have hhead : ∃ head, k.taskList pr = some head := by
    cases hnone : k.taskList pr with
    | some head => exact ⟨head, rfl⟩
    | none =>
      rw [hnone, linked_none_iff] at hl
      simp at hl
  obtain ⟨head, hhead⟩ := hhead
  rw [hhead] at hl
  have hstart : (k.rrCurrent pr).getD head = c := by
    rcases hc with hc | ⟨hc, rfl⟩
    · rw [hc, Option.getD_some]
    · rw [hc, Option.getD_none]
      exact Option.some.inj (linked_cons.mp hl).1
  exact ⟨head, hhead, front, back, by rwa [hstart], by rw [hstart]⟩

theorem turns_split {k : Kernel} {pr : Nat} {order : List Tid} (h : k.Turns pr order) :
    ∃ front c back, Linked k.next (k.taskList pr) (front ++ c :: back) ∧
      order = c :: back ++ front ∧
      (k.rrCurrent pr = some c ∨ (k.rrCurrent pr = none ∧ front = [])) := by
  obtain ⟨head, hhead, front, back, hl, rfl⟩ := h
  refine ⟨front, _, back, hhead ▸ hl, rfl, ?_⟩
  cases hc : k.rrCurrent pr with
  | some c => exact Or.inl rfl
  | none =>
    rw [hc, Option.getD_none] at hl
    cases front with
    | nil => exact Or.inr ⟨rfl, rfl⟩
    | cons f front =>
      obtain rfl := Option.some.inj (linked_cons.mp hl).1
      exact absurd (linked_nodup hl) (by simp)

/-- The list of the removed task, before and after. -/
theorem Removed.filtered (hr : Removed k k₁ x (k.tcb x).priority runs)
    (hl : Linked k.next (k.taskList (k.tcb x).priority) (runs (k.tcb x).priority)) :
    Linked k₁.next (k₁.taskList (k.tcb x).priority)
      ((runs (k.tcb x).priority).filter (· != x)) := by
  have hlist := hr.linked (k.tcb x).priority
  rwa [Function.update_self, (linked_nodup hl).erase_eq_filter] at hlist

/-- At the other priorities nothing has happened. -/
theorem Removed.turns_of_ne (hr : Removed k k₁ x (k.tcb x).priority runs)
    (hl : ∀ p, Linked k.next (k.taskList p) (runs p)) {pr : Nat}
    (hpr : pr ≠ (k.tcb x).priority) {order : List Tid} (h : k.Turns pr order) :
    k₁.Turns pr order := by
  obtain ⟨front, c, back, hlist, rfl, hc⟩ := turns_split h
  have hlist₁ := hr.linked pr
  have hcursor := hr.cursor pr
  rw [Function.update_of_ne hpr, linked_unique (hl pr) hlist] at hlist₁
  rw [if_neg fun h => hpr h.1] at hcursor
  rw [← hcursor] at hc
  exact turns_at hlist₁ hc

/-- The turns that are left at the priority of the removed task. -/
theorem Removed.turns_self (hr : Removed k k₁ x (k.tcb x).priority runs)
    (hl : ∀ p, Linked k.next (k.taskList p) (runs p)) (hinside : ¬ k.CursorInside x)
    {order : List Tid} (h : k.Turns (k.tcb x).priority order)
    (hrest : order.filter (· != x) ≠ []) :
    k₁.Turns (k.tcb x).priority (order.filter (· != x)) := by
  obtain ⟨front, c, back, hlist, rfl, hc⟩ := turns_split h
  have hlist₁ := hr.filtered (hl _)
  have hcursor := hr.cursor (k.tcb x).priority
  rw [linked_unique (hl _) hlist, List.filter_append] at hlist₁
  rw [List.filter_append] at hrest ⊢
  by_cases hcx : c = x
  · -- the gap is at the cursor, so the search goes on at the head
    subst hcx
    have hgap : (c :: back).filter (· != c) = back.filter (· != c) := by simp
    rw [hgap] at hlist₁ hrest ⊢
    have hnone : k₁.rrCurrent (k.tcb c).priority = none := by
      rw [hcursor]
      rcases hc with hc | ⟨hc, _⟩
      · rw [if_pos ⟨rfl, hc⟩]
      · rw [if_neg (by simp [hc]), hc]
    have hend : front = [] ∨ back = [] := by
      rcases hc with hc | ⟨_, hfront⟩
      · by_contra hboth
        obtain ⟨hfront, hback⟩ := not_or.mp hboth
        obtain ⟨f, fs, rfl⟩ := List.exists_cons_of_ne_nil hfront
        obtain ⟨b, bs, rfl⟩ := List.exists_cons_of_ne_nil hback
        refine hinside ⟨hc, fun hhead => ?_, fun hnext => ?_⟩
        · rw [(linked_cons.mp hlist).1] at hhead
          obtain rfl := Option.some.inj hhead
          exact absurd (linked_nodup hlist) (by simp)
        · obtain ⟨m, _, hm⟩ := seg_append.mp hlist
          have hb : k.next c = some b := (linked_cons.mp (linked_cons.mp hm).2).1
          rw [Kernel.next, hnext] at hb
          cases hb
      · exact Or.inl hfront
    rcases hend with rfl | rfl
    · rw [List.filter_nil, List.append_nil] at hrest ⊢
      rw [List.filter_nil, List.nil_append] at hlist₁
      obtain ⟨b, bs, hbs⟩ := List.exists_cons_of_ne_nil hrest
      rw [hbs] at hlist₁ ⊢
      have hfirst : Linked k₁.next (k₁.taskList (k.tcb c).priority) ([] ++ b :: bs) := hlist₁
      simpa using turns_at hfirst (Or.inr ⟨hnone, rfl⟩)
    · rw [List.filter_nil, List.nil_append] at hrest ⊢
      rw [List.filter_nil, List.append_nil] at hlist₁
      obtain ⟨f, fs, hfs⟩ := List.exists_cons_of_ne_nil hrest
      rw [hfs] at hlist₁ ⊢
      have hfirst : Linked k₁.next (k₁.taskList (k.tcb c).priority) ([] ++ f :: fs) := hlist₁
      simpa using turns_at hfirst (Or.inr ⟨hnone, rfl⟩)
  · have hkeep : (c :: back).filter (· != x) = c :: back.filter (· != x) :=
      List.filter_cons_of_pos (by simpa using hcx)
    rw [hkeep] at hlist₁ ⊢
    refine turns_at hlist₁ ?_
    rw [hcursor]
    rcases hc with hc | ⟨hc, rfl⟩
    · rw [if_neg (by simp [hc, hcx]), hc]
      exact Or.inl rfl
    · rw [if_neg (by simp [hc]), hc]
      exact Or.inr ⟨rfl, rfl⟩

/-- Right after the removal. -/
theorem Roster.lacks (h : Roster L k runs live) (hinside : ¬ k.CursorInside x)
    {state : TaskState} (hstate : state ≠ .ready) :
    Lacks (schedulerRemoveTask k x) (setState k x state) x := by
  have hr := h.removed x
  generalize schedulerRemoveTask k x = k₁ at hr
  refine ⟨?_, fun u hu => ?_, fun pr => ?_⟩
  · rw [setState_state, if_pos rfl]
    exact hstate
  · rw [setState_state, if_neg hu]
    exact (congrArg Tcb.state (hr.tcb u) :)
  · have hlist := hr.linked pr
    by_cases hnone : k.taskList pr = none
    · have hnil : Function.update runs (k.tcb x).priority
          ((runs (k.tcb x).priority).erase x) pr = [] := by
        by_cases hpr : pr = (k.tcb x).priority
        · subst hpr
          rw [Function.update_self, (h.taskList_none _).mp hnone]
          rfl
        · rw [Function.update_of_ne hpr, (h.taskList_none _).mp hnone]
      rw [hnil] at hlist
      exact Or.inl ⟨linked_nil.mp hlist, Or.inl hnone⟩
    · obtain ⟨order, hturns, hperm⟩ := turns_of_linked (h.linked pr) (h.cursor pr) hnone
      by_cases hpr : pr = (k.tcb x).priority
      · subst hpr
        by_cases hrest : order.filter (· != x) = []
        · have honly : order = [x] := by
            obtain ⟨front, c, back, _, rfl, _⟩ := turns_split hturns
            have hall := List.filter_eq_nil_iff.mp hrest
            have hnd := hturns.nodup
            obtain rfl : c = x := by simpa using hall c (by simp)
            cases hb : back ++ front with
            | nil => simp [hb]
            | cons b rest =>
              have hbx : b = c := by simpa using hall b (by simp [hb])
              rw [List.cons_append, hb, hbx] at hnd
              exact absurd hnd (by simp)
          have hempty := hr.filtered (h.linked _)
          have hnil : (runs (k.tcb x).priority).filter (· != x) = [] := by
            have hf := hperm.filter (· != x)
            rw [hrest] at hf
            exact List.nil_perm.mp hf
          rw [hnil] at hempty
          exact Or.inl ⟨linked_nil.mp hempty, Or.inr (setState_turns (honly ▸ hturns))⟩
        · exact Or.inr ⟨order, setState_turns hturns,
            hr.turns_self h.linked hinside hturns hrest⟩
      · have hx : order.filter (· != x) = order := by
          refine List.filter_eq_self.mpr fun t ht => ?_
          have htx : t ≠ x := by
            rintro rfl
            exact hpr (h.rank pr t (hperm.mem_iff.mp ht)).symm
          simpa using htx
        refine Or.inr ⟨order, setState_turns hturns, ?_⟩
        rw [hx]
        exact hr.turns_of_ne h.linked hpr hturns

end Start

section Disturbed
variable {k : Kernel} {x : Tid}

/-- Give each of the tasks `us` its state under `f`. -/
def arrange (f : Tid → TaskState) (us : List Tid) : List TurnOp := us.map fun u => .setState u (f u)

theorem selections_arrange (f : Tid → TaskState) (us : List Tid) (k : Kernel) :
    ∃ k', (∀ ops, selections k (arrange f us ++ ops) = selections k' ops) ∧ k'.next = k.next ∧
      k'.taskList = k.taskList ∧ k'.rrCurrent = k.rrCurrent ∧
      ∀ t, (k'.tcb t).state = if t ∈ us then f t else (k.tcb t).state := by
  induction us generalizing k with
  | nil => exact ⟨k, fun _ => rfl, rfl, rfl, rfl, fun _ => rfl⟩
  | cons u us ih =>
    obtain ⟨k', hsel, hnext, hlist, hcursor, hstate⟩ := ih (setState k u (f u))
    refine ⟨k', hsel, hnext.trans (setState_next k u _), hlist, hcursor, fun t => ?_⟩
    rw [hstate, setState_state]
    by_cases ht : t ∈ us
    · simp [ht]
    · by_cases htu : t = u
      · subst htu
        simp [ht]
      · simp [ht, htu]

/-- With READY tasks at one priority only, the first of them in turn is selected. -/
theorem getNext_of_only {runs : Nat → List Tid} {pr : Nat} {order : List Tid} {t : Tid}
    (hl : ∀ p, Linked k.next (k.taskList p) (runs p))
    (hcursor : ∀ p c, k.rrCurrent p = some c → c ∈ runs p) (hpr : pr < maxTaskPriorities)
    (honly : ∀ p u, u ∈ runs p → (k.tcb u).state = .ready → p = pr) (hturns : k.Turns pr order)
    (hfind : order.find? k.isReady = some t) : ∃ k', schedulerGetNext k = some (k', t) := by
  obtain ⟨pre, post, hsplit⟩ := List.append_of_mem (List.mem_range.mpr hpr)
  have hbefore : pre.findSome? (getNextAt k) = none := by
    refine List.findSome?_eq_none_iff.mpr fun p hp => ?_
    have hne : p ≠ pr := by
      rintro rfl
      have hnd := List.nodup_range (n := maxTaskPriorities)
      rw [hsplit, List.nodup_append] at hnd
      exact hnd.2.2 p hp p List.mem_cons_self rfl
    by_cases hnone : k.taskList p = none
    · exact getNextAt_of_none hnone
    · obtain ⟨order', hturns', hperm⟩ := turns_of_linked (hl p) (hcursor p) hnone
      rw [getNextAt_eq hturns', Option.map_eq_none_iff, List.find?_eq_none]
      intro u hu hready
      exact hne (honly p u (hperm.mem_iff.mp hu) (by simpa [Kernel.isReady] using hready))
  refine ⟨k.moveCursor pr t, ?_⟩
  rw [schedulerGetNext, hsplit, List.findSome?_append, hbefore, Option.none_or,
    List.findSome?_cons, getNextAt_eq hturns, hfind]
  rfl

/-- With its two neighbours alone READY, the removal passes one of them over: without `x` the
head of the list comes first, and with `x` in its place the search goes on behind it. -/
theorem Roster.disturbed {L : Layout} {runs : Nat → List Tid} {live : List Nat}
    (h : Roster L k runs live) (hused : k.tcbUsed x = true) (hinside : k.CursorInside x) :
    ¬ k.Undisturbed x := by
  intro hall
  obtain ⟨hcursor, hhead, hnext⟩ := hinside
  have hr := h.removed x
  obtain ⟨front, back, hsplit⟩ := List.append_of_mem ((h.used x).mp hused)
  have hlist := h.linked (k.tcb x).priority
  rw [hsplit] at hlist
  obtain ⟨a, front, rfl⟩ : ∃ a fs, front = a :: fs := by
    refine List.exists_cons_of_ne_nil ?_
    rintro rfl
    exact hhead (linked_cons.mp hlist).1
  obtain ⟨b, back, rfl⟩ : ∃ b bs, back = b :: bs := by
    refine List.exists_cons_of_ne_nil ?_
    rintro rfl
    obtain ⟨m, _, hm⟩ := seg_append.mp hlist
    exact hnext (linked_nil.mp (linked_cons.mp hm).2)
  have hnd := linked_nodup hlist
  have hax : a ≠ x := by
    rintro rfl
    exact absurd hnd (by simp)
  have hbx : b ≠ x := by
    rintro rfl
    exact absurd hnd (by simp [List.nodup_append])
  have hab : a ≠ b := by
    rintro rfl
    exact absurd hnd (by simp)
  have hmem : ∀ u, u = a ∨ u = b → u ∈ runs (k.tcb x).priority := by
    rintro u (rfl | rfl) <;> simp [hsplit]
  let f : Tid → TaskState := fun u => if u = a ∨ u = b then .ready else .waiting
  let us := (List.finRange 8).filter (· != x)
  have hus : ∀ t, t ∈ us ↔ t ≠ x := fun t => by simp [us]
  have hready : ∀ t, f t = .ready ↔ t = a ∨ t = b := by
    intro t
    by_cases ht : t = a ∨ t = b
    · simp [f, ht]
    · simp [f, ht]
  have hops : ∀ st, .setState x st ∉ arrange f us ++ [.getNext] := by
    intro st hin
    simp only [arrange, List.mem_append, List.mem_map, TurnOp.setState.injEq, List.mem_singleton,
      reduceCtorEq, or_false] at hin
    obtain ⟨u, hu, rfl, _⟩ := hin
    exact (hus u).mp hu rfl
  have hsame := hall .waiting (fun heq => by cases heq) _ hops
  have hgone : selections (schedulerRemoveTask k x) (arrange f us ++ [.getNext]) = [some a] := by
    generalize schedulerRemoveTask k x = k₁ at hr
    obtain ⟨k', hsel, hnext', hlist', hcursor', hstate⟩ := selections_arrange f us k₁
    have hlinked : ∀ p, Linked k'.next (k'.taskList p) (Function.update runs (k.tcb x).priority
        ((runs (k.tcb x).priority).erase x) p) := by
      rw [hnext', hlist']
      exact hr.linked
    have hnone : k'.rrCurrent (k.tcb x).priority = none := by
      rw [hcursor', hr.cursor, if_pos ⟨rfl, hcursor⟩]
    have hturns : k'.Turns (k.tcb x).priority (a :: (front ++ b :: back)) := by
      have hfirst := hlinked (k.tcb x).priority
      rw [Function.update_self, hsplit, List.erase_append_right _ fun hin =>
        (List.nodup_append.mp hnd).2.2 x hin x List.mem_cons_self rfl, List.erase_cons_head]
        at hfirst
      have hempty : Linked k'.next (k'.taskList (k.tcb x).priority)
          ([] ++ a :: (front ++ b :: back)) := hfirst
      simpa using turns_at hempty (Or.inr ⟨hnone, rfl⟩)
    have hstates : ∀ u, u ≠ x → (k'.tcb u).state = f u := fun u hu => by
      rw [hstate, if_pos ((hus u).mpr hu)]
    have hget : ∃ k'', schedulerGetNext k' = some (k'', a) := by
      refine getNext_of_only hlinked (fun p c hc => ?_) (h.bounded x) (fun p u hu hu' => ?_)
        hturns ?_
      · rw [hcursor', hr.cursor] at hc
        split at hc
        · cases hc
        · rename_i hno
          refine (h.mem_removed p c).mpr ⟨h.cursor p c hc, ?_⟩
          rintro rfl
          exact hno ⟨(h.rank p c (h.cursor p c hc)).symm, hc⟩
      · obtain ⟨hin, hux⟩ := (h.mem_removed p u).mp hu
        rw [hstates u hux, hready] at hu'
        exact (h.rank p u hin).symm.trans (h.rank _ u (hmem u hu'))
      · simp [Kernel.isReady, hstates a hax, (hready a).mpr]
    obtain ⟨k'', hget⟩ := hget
    rw [hsel, selections, hget]
    rfl
  have hkept : selections (setState k x .waiting) (arrange f us ++ [.getNext]) = [some b] := by
    obtain ⟨k', hsel, hnext', hlist', hcursor', hstate⟩ :=
      selections_arrange f us (setState k x .waiting)
    have hlinked : ∀ p, Linked k'.next (k'.taskList p) (runs p) := by
      rw [hnext', hlist', setState_next]
      exact h.linked
    have hcursors : ∀ p c, k'.rrCurrent p = some c → c ∈ runs p := by
      rw [hcursor']
      exact h.cursor
    have hturns : k'.Turns (k.tcb x).priority (x :: b :: back ++ a :: front) := by
      have hat := hlinked (k.tcb x).priority
      rw [hsplit] at hat
      refine turns_at hat (Or.inl ?_)
      rw [hcursor']
      exact hcursor
    have hstates : ∀ u, (k'.tcb u).state = if u = x then .waiting else f u := by
      intro u
      rw [hstate]
      by_cases hu : u = x
      · rw [if_neg fun hin => (hus u).mp hin hu, setState_state, if_pos hu, if_pos hu]
      · rw [if_pos ((hus u).mpr hu), if_neg hu]
    have hget : ∃ k'', schedulerGetNext k' = some (k'', b) := by
      refine getNext_of_only hlinked hcursors (h.bounded x) (fun p u hu hu' => ?_) hturns ?_
      · rw [hstates u] at hu'
        by_cases hux : u = x
        · rw [if_pos hux] at hu'
          cases hu'
        · rw [if_neg hux, hready] at hu'
          exact (h.rank p u hu).symm.trans (h.rank _ u (hmem u hu'))
      · simp [Kernel.isReady, hstates, hbx, (hready b).mpr]
    obtain ⟨k'', hget⟩ := hget
    rw [hsel, selections, hget]
    rfl
  rw [hgone, hkept] at hsame
  exact hab (by simpa using hsame)

end Disturbed

/-- A removal leaves the turns of the others alone exactly when the cursor does not
point to the removed task, or the task is the first or the last of its list. -/
theorem removal_undisturbed_iff (L : Layout) (hL : L.heap.Placed)
    (heapMem ram : ByteMemory.Memory) (ops : List RosterOp) (k : Kernel) (x : Tid)
    (hrun : run (RosterOp.perform L) (Kernel.reset heapMem ram) ops = some k)
    (hused : k.tcbUsed x = true) : k.Undisturbed x ↔ ¬ k.CursorInside x := by
  obtain ⟨k', hrun', runs, live, h⟩ := roster_run hL (roster_reset L heapMem ram) ops
  obtain rfl := Option.some.inj (hrun.symm.trans hrun')
  constructor
  · intro hall hinside
    exact h.disturbed hused hinside hall
  · intro hinside state hstate ops hops
    exact (h.lacks hinside hstate).selections hops

/-- Three tasks of one priority; the search finds task 2 and stops in front of task 1. -/
def threeTasks : List RosterOp :=
  [.create ⟨0x08001000, 1, 64, 0⟩, .create ⟨0x08002000, 1, 64, 0⟩, .create ⟨0x08003000, 1, 64, 0⟩,
    .getNext]

theorem threeTasks_at {P : Kernel → Prop} [DecidablePred P]
    (h : (run (RosterOp.perform (linkerLayout 0x20001000))
      (Kernel.reset (fun _ => 0) fun _ => 0) threeTasks).any (fun k => decide (P k)) = true) :
    ∃ k, run (RosterOp.perform (linkerLayout 0x20001000))
      (Kernel.reset (fun _ => 0) fun _ => 0) threeTasks = some k ∧ P k := by
  obtain ⟨k, hrun, hp⟩ := (Option.any_eq_true _ _).mp h
  exact ⟨k, hrun, of_decide_eq_true hp⟩

/-- Task 2, the head of the list, can go. -/
theorem removal_undisturbed_iff_head :
    ∃ k, run (RosterOp.perform (linkerLayout 0x20001000))
        (Kernel.reset (fun _ => 0) fun _ => 0) threeTasks = some k ∧ k.tcbUsed 2 = true ∧
      (k.Undisturbed 2 ↔ ¬ k.CursorInside 2) := by
  obtain ⟨k, hrun, hused⟩ := threeTasks_at (P := fun k => k.tcbUsed 2 = true) (by decide +kernel)
  exact ⟨k, hrun, hused, removal_undisturbed_iff (linkerLayout 0x20001000)
    (linkerLayout_placed 0x20001000 (by decide) (by decide)).1 _ _ threeTasks k 2 hrun hused⟩

/-- Task 2 has just been selected. Once task 1 is removed it is selected again,
although task 0 has been READY all the time and would have come next. -/
theorem removal_repeats_head :
    ∃ k, run (RosterOp.perform (linkerLayout 0x20001000))
        (Kernel.reset (fun _ => 0) fun _ => 0) threeTasks = some k ∧ k.tcbUsed 1 = true ∧
      (k.tcb 0).state = .ready ∧ (k.tcb 0).priority = (k.tcb 2).priority ∧
      selections (schedulerRemoveTask k 1) [.getNext] = [some 2] ∧
      selections (setState k 1 .waiting) [.getNext] = [some 0] ∧ ¬ k.Undisturbed 1 := by
  obtain ⟨k, hrun, hused, hready, hprio, hgone, hkept⟩ := threeTasks_at
    (P := fun k => k.tcbUsed 1 = true ∧ (k.tcb 0).state = .ready ∧
      (k.tcb 0).priority = (k.tcb 2).priority ∧
      selections (schedulerRemoveTask k 1) [.getNext] = [some 2] ∧
      selections (setState k 1 .waiting) [.getNext] = [some 0]) (by decide +kernel)
  refine ⟨k, hrun, hused, hready, hprio, hgone, hkept, fun hall => ?_⟩
  have hsame := hall .waiting (fun heq => by cases heq) [.getNext] (by simp)
  rw [hgone, hkept] at hsame
  exact absurd hsame (by decide)

end Crest
