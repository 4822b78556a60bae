import CrestRtos.Kernel.Rounds

/-!
# Round-robin fairness

A run of the scheduler is any interleaving of selections, changes of the tasks'
states and additions of new tasks. While a task stays READY, no other task of
its priority is selected twice before it: behind its own selection, a task
comes after the waiting one in the order of the next searches, and stays there.
-/

namespace Crest
open IntrusiveList

/-- `t` is in the list of priority `pr`. -/
def Kernel.Has (k : Kernel) (pr : Nat) (t : Tid) : Prop :=
  ∃ l, Linked k.next (k.taskList pr) l ∧ t ∈ l

/-- The lists, links, priorities and cursors are untouched; all else may change. -/
structure Kernel.SameLists (k k' : Kernel) : Prop where
  taskList : k'.taskList = k.taskList
  cursor : k'.rrCurrent = k.rrCurrent
  next : ∀ t, (k'.tcb t).next = (k.tcb t).next
  priority : ∀ t, (k'.tcb t).priority = (k.tcb t).priority

/-- The free control block `t` is filled in and put in front of its list. -/
def addNew (k : Kernel) (t : Tid) (tcb : Tcb) : Kernel :=
  schedulerAddTask (k.setTcb t fun _ => tcb) t

/-- One step of a run, with the task it selects. -/
inductive Move : Kernel → Option Tid → Kernel → Prop
  | select {k k' t} (h : schedulerGetNext k = some (k', t)) : Move k (some t) k'
  | change {k k'} (h : k.SameLists k') : Move k none k'
  | add {k} (t : Tid) (tcb : Tcb) (h : ∀ pr, ¬ k.Has pr t) :
      Move k none (addNew k t tcb)

/-- A run through states with the property `P`, and the tasks selected in it. -/
inductive Schedule (P : Kernel → Prop) : Kernel → List Tid → Kernel → Prop
  | start {k} (h : P k) : Schedule P k [] k
  | step {k k' k'' picks pick} (hrun : Schedule P k picks k') (hmove : Move k' pick k'')
      (h : P k'') : Schedule P k (picks ++ pick.toList) k''

/-- `scheduler_init`. -/
def schedulerInit (k : Kernel) : Kernel :=
  { k with
    taskList := fun _ => none
    rrCurrent := fun _ => none
    priorityMask := 0
    currentTask := none }

/-- The lists `runs` are those of the kernel, each task is in the list of its
priority, and a cursor points into its list. -/
structure Ordered (k : Kernel) (runs : Nat → List Tid) : Prop where
  linked : ∀ pr, Linked k.next (k.taskList pr) (runs pr)
  rank : ∀ pr, ∀ t ∈ runs pr, (k.tcb t).priority = pr
  cursor : ∀ pr c, k.rrCurrent pr = some c → c ∈ runs pr

variable {k k' : Kernel} {runs : Nat → List Tid} {pr : Nat} {t x : Tid}

theorem Ordered.has_iff (h : Ordered k runs) : k.Has pr t ↔ t ∈ runs pr := by
  constructor
  · rintro ⟨l, hl, ht⟩
    rwa [← linked_unique hl (h.linked pr)]
  · intro ht
    exact ⟨runs pr, h.linked pr, ht⟩

theorem schedulerInit_ordered (k : Kernel) : Ordered (schedulerInit k) fun _ => [] :=
  ⟨fun _ => rfl, fun _ _ ht => absurd ht List.not_mem_nil, fun _ _ hc => nomatch hc⟩

theorem Ordered.same (h : Ordered k runs) (hsame : k.SameLists k') : Ordered k' runs := by
  have hnext : k'.next = k.next := funext hsame.next
  refine ⟨fun pr => ?_, fun pr t ht => ?_, fun pr c hc => ?_⟩
  · rw [hnext, hsame.taskList]
    exact h.linked pr
  · rw [hsame.priority]
    exact h.rank pr t ht
  · rw [hsame.cursor] at hc
    exact h.cursor pr c hc

/-- A selection moves the cursor of the priority it is made at. -/
theorem schedulerGetNext_at (h : Ordered k runs) (hnext : schedulerGetNext k = some (k', t)) :
    ∃ q pre post, k.Turns q (pre ++ t :: post) ∧ (∀ a ∈ pre, (k.tcb a).state ≠ .ready) ∧
      t ∈ runs q ∧ k' = k.moveCursor q t := by
  obtain ⟨q, _, hq⟩ := List.exists_of_findSome?_eq_some hnext
  have hne : k.taskList q ≠ none := by
    intro hnone
    rw [getNextAt_of_none hnone] at hq
    cases hq
  obtain ⟨order, hturns, hperm⟩ := turns_of_linked (h.linked q) (h.cursor q) hne
  rw [getNextAt_eq hturns] at hq
  obtain ⟨u, hu, heq⟩ := Option.map_eq_some_iff.mp hq
  obtain ⟨rfl, rfl⟩ := Prod.mk.inj heq
  obtain ⟨_, pre, post, rfl, hpre⟩ := List.find?_eq_some_iff_append.mp hu
  refine ⟨q, pre, post, hturns, fun a ha => ?_, hperm.mem_iff.mp (by simp), rfl⟩
  simpa [Kernel.isReady] using hpre a ha

theorem Ordered.move_cursor (h : Ordered k runs) {order : List Tid} (hturns : k.Turns pr order)
    (ht : t ∈ order) : Ordered (k.moveCursor pr t) runs := by
  refine ⟨h.linked, h.rank, fun q c hc => ?_⟩
  by_cases hq : q = pr
  · subst hq
    obtain ⟨pre, post, rfl⟩ := List.append_of_mem ht
    have hsel := hturns.select
    have hperm := hsel.perm (h.linked q)
    obtain ⟨head, _, hring⟩ := hsel
    rw [hc, Option.getD_some] at hring
    obtain ⟨rest, hrest⟩ := hring.cons
    exact hperm.mem_iff.mp (by rw [hrest]; exact List.mem_cons_self)
  · refine h.cursor q c ?_
    simpa [Kernel.moveCursor, hq] using hc

section Add
variable (k) (t) (tcb : Tcb)

theorem addNew_next : (addNew k t tcb).next =
    Function.update k.next t (k.taskList tcb.priority) := by
  funext u
  by_cases hu : u = t
  · subst hu
    simp [addNew, schedulerAddTask, Kernel.next, Kernel.setTcb, portTriggerPendsv]
  · simp [addNew, schedulerAddTask, Kernel.next, Kernel.setTcb, portTriggerPendsv, hu]

theorem addNew_list : (addNew k t tcb).taskList =
    Function.update k.taskList tcb.priority (some t) := by
  simp [addNew, schedulerAddTask, Kernel.setTcb, portTriggerPendsv]

theorem addNew_priority (u : Tid) : ((addNew k t tcb).tcb u).priority =
    if u = t then tcb.priority else (k.tcb u).priority := by
  by_cases hu : u = t
  · subst hu
    simp [addNew, schedulerAddTask, Kernel.setTcb, portTriggerPendsv]
  · simp [addNew, schedulerAddTask, Kernel.setTcb, portTriggerPendsv, hu]

end Add

theorem Ordered.add (h : Ordered k runs) (tcb : Tcb) (hnew : ∀ pr, t ∉ runs pr) :
    Ordered (addNew k t tcb)
      (Function.update runs tcb.priority (t :: runs tcb.priority)) := by
  have hne : ∀ {pr u}, u ∈ runs pr → u ≠ t := fun hu heq => hnew _ (heq ▸ hu)
  refine ⟨fun pr => ?_, fun pr u hu => ?_, fun pr c hc => ?_⟩
  · rw [addNew_next, addNew_list]
    by_cases hpr : pr = tcb.priority
    · subst hpr
      rw [Function.update_self, Function.update_self]
      exact linked_push_front (hnew _) (h.linked _)
    · rw [Function.update_of_ne hpr, Function.update_of_ne hpr]
      exact (linked_update_of_notMem (hnew pr)).mpr (h.linked pr)
  · rw [addNew_priority]
    by_cases hpr : pr = tcb.priority
    · subst hpr
      rw [Function.update_self, List.mem_cons] at hu
      rcases hu with rfl | hu
      · rw [if_pos rfl]
      · rw [if_neg (hne hu)]
        exact h.rank _ u hu
    · rw [Function.update_of_ne hpr] at hu
      rw [if_neg (hne hu)]
      exact h.rank pr u hu
  · have hmem : c ∈ runs pr := h.cursor pr c hc
    by_cases hpr : pr = tcb.priority
    · subst hpr
      rw [Function.update_self]
      exact List.mem_cons_of_mem t hmem
    · rwa [Function.update_of_ne hpr]

/-- Every run from `scheduler_init` keeps the lists in order. -/
theorem Ordered.move {pick : Option Tid} (h : Ordered k runs) (hmove : Move k pick k') :
    ∃ runs', Ordered k' runs' ∧ ∀ pr, ∀ u ∈ runs pr, u ∈ runs' pr := by
  cases hmove with
  | select hnext =>
    obtain ⟨q, pre, post, hturns, _, _, rfl⟩ := schedulerGetNext_at h hnext
    exact ⟨runs, h.move_cursor hturns (by simp), fun _ _ hu => hu⟩
  | change hsame => exact ⟨runs, h.same hsame, fun _ _ hu => hu⟩
  | add u tcb hnew =>
    refine ⟨_, h.add tcb fun pr hmem => hnew pr (h.has_iff.mpr hmem), fun pr v hv => ?_⟩
    by_cases hpr : pr = tcb.priority
    · subst hpr
      rw [Function.update_self]
      exact List.mem_cons_of_mem u hv
    · rwa [Function.update_of_ne hpr]

theorem Schedule.last {P : Kernel → Prop} {picks : List Tid} (h : Schedule P k picks k') :
    P k' := by
  cases h with
  | start h => exact h
  | step _ _ h => exact h

theorem Schedule.ordered {P : Kernel → Prop} {picks : List Tid} (h : Schedule P k picks k')
    (hk : Ordered k runs) : ∃ runs', Ordered k' runs' ∧ ∀ pr, ∀ u ∈ runs pr, u ∈ runs' pr := by
  induction h with
  | start _ => exact ⟨runs, hk, fun _ _ hu => hu⟩
  | step _ hmove _ ih =>
    obtain ⟨runs', hrest, hsub⟩ := ih
    obtain ⟨runs'', hlast, hsub'⟩ := hrest.move hmove
    exact ⟨runs'', hlast, fun pr u hu => hsub' pr u (hsub pr u hu)⟩

/-- The next searches at `pr` come to `t` before they come to `x`. -/
def Kernel.Before (k : Kernel) (pr : Nat) (t x : Tid) : Prop :=
  k.rrCurrent pr ≠ none ∧ ∃ order, k.Turns pr order ∧ [t, x].Sublist order

/-- The selection of `x` puts it behind a READY task of its priority. -/
theorem before_of_select (h : Ordered k runs) (hnext : schedulerGetNext k = some (k', x))
    (hready : (k.tcb t).state = .ready) (ht : t ∈ runs pr) (hx : (k.tcb x).priority = pr)
    (hne : x ≠ t) : k'.Before pr t x := by
  obtain ⟨q, pre, post, hturns, hpre, hxq, rfl⟩ := schedulerGetNext_at h hnext
  obtain rfl : q = pr := (h.rank q x hxq).symm.trans hx
  have hmem : t ∈ pre ++ x :: post := (hturns.perm (h.linked q)).mem_iff.mpr ht
  have hpost : t ∈ post := mem_post_of_find hpre hmem hready hne
  refine ⟨by simp [Kernel.moveCursor], _, hturns.select, ?_⟩
  exact ((List.singleton_sublist.mpr hpost).trans (List.sublist_append_left post pre)).append
    (List.Sublist.refl [x])

/-- While `t` is READY and not selected, `x` stays behind it and is not selected. -/
theorem Kernel.Before.select {u : Tid} (hb : k.Before pr t x) (h : Ordered k runs)
    (hnext : schedulerGetNext k = some (k', u)) (hready : (k.tcb t).state = .ready)
    (hu : u ≠ t) : u ≠ x ∧ k'.Before pr t x := by
  obtain ⟨hset, order, horder, hpair⟩ := hb
  obtain ⟨q, pre, post, hturns, hpre, huq, rfl⟩ := schedulerGetNext_at h hnext
  by_cases hq : q = pr
  · subst hq
    obtain rfl := hturns.unique horder
    have hpost : t ∈ post := mem_post_of_find hpre (hpair.subset List.mem_cons_self) hready hu
    have hrest := pair_post hturns.nodup hpair hpost
    refine ⟨?_, by simp [Kernel.moveCursor], _, hturns.select, ?_⟩
    · rintro rfl
      have hnd := (List.nodup_append.mp hturns.nodup).2.1
      exact (List.nodup_cons.mp hnd).1 (hrest.subset (by simp))
    · exact hrest.trans ((List.sublist_append_left post pre).trans
        (List.sublist_append_left _ [u]))
  · have hcursor : (k.moveCursor q u).rrCurrent pr = k.rrCurrent pr :=
      Function.update_of_ne (Ne.symm hq) _ _
    refine ⟨?_, by rwa [hcursor], order, ?_, hpair⟩
    · rintro rfl
      have hmem := (horder.perm (h.linked pr)).mem_iff.mp
        (hpair.subset (List.mem_cons_of_mem t List.mem_cons_self))
      exact hq ((h.rank q u huq).symm.trans (h.rank pr u hmem))
    · obtain ⟨head, hhead, hring⟩ := horder
      exact ⟨head, hhead, by rw [hcursor]; exact hring⟩

/-- A change or an addition keeps `t` in front of `x`. -/
theorem Kernel.Before.other (hb : k.Before pr t x) (h : Ordered k runs) (hmove : Move k none k') :
    k'.Before pr t x := by
  obtain ⟨hset, order, ⟨head, hhead, hring⟩, hpair⟩ := hb
  obtain ⟨c, hc⟩ := Option.ne_none_iff_exists'.mp hset
  have hperm := hring.perm (hhead ▸ h.linked pr)
  rw [hc, Option.getD_some] at hring
  cases hmove with
  | change hsame =>
    have hnext : k'.next = k.next := funext hsame.next
    have hcursor : k'.rrCurrent pr = some c := by rw [hsame.cursor, hc]
    refine ⟨by simp [hcursor], order, ⟨head, ?_, ?_⟩, hpair⟩
    · rw [hsame.taskList]
      exact hhead
    · rw [hnext, hcursor]
      exact hring
  | add n tcb hnew =>
    have hn : n ∉ order := fun hmem => hnew pr (h.has_iff.mpr (hperm.mem_iff.mp hmem))
    have hcursor : (addNew k n tcb).rrCurrent pr = some c := hc
    by_cases hpr : pr = tcb.priority
    · subst hpr
      obtain ⟨order', hring', hsub⟩ := hring.push_front hn
      refine ⟨by simp [hcursor], order', ⟨n, ?_, ?_⟩, hpair.trans hsub⟩
      · rw [addNew_list, Function.update_self]
      · rw [addNew_next, hcursor, hhead]
        exact hring'
    · refine ⟨by simp [hcursor], order, ⟨head, ?_, ?_⟩, hpair⟩
      · rw [addNew_list, Function.update_of_ne hpr]
        exact hhead
      · rw [addNew_next, hcursor]
        exact hring.congr fun a ha =>
          (Function.update_of_ne (fun heq : a = n => hn (heq ▸ ha)) _ _).symm

theorem Ordered.has_unique (h : Ordered k runs) {q : Nat} (hp : k.Has pr x) (hq : k.Has q x) :
    q = pr :=
  (h.rank q x (h.has_iff.mp hq)).symm.trans (h.rank pr x (h.has_iff.mp hp))

/-- From a selection of `x` on, and up to the next one of `t`, `x` is behind `t`. -/
theorem Schedule.before {picks xs ys : List Tid} (h : Ordered k runs)
    (hrun : Schedule (fun k => (k.tcb t).state = .ready) k picks k') (ht : k.Has pr t)
    (hx : ∀ q, k'.Has q x → q = pr) (hne : x ≠ t) (hpicks : picks = xs ++ x :: ys)
    (hnot : t ∉ ys) : x ∉ ys ∧ k'.Before pr t x := by
  induction hrun generalizing ys with
  | start _ => simp at hpicks
  | step hseg hmove _ ih =>
    obtain ⟨runs', h', hsub⟩ := hseg.ordered h
    obtain ⟨runs'', h'', hsub'⟩ := h'.move hmove
    have hmid : ∀ q, _ → q = pr := fun q hq => hx q (h''.has_iff.mpr (hsub' q x (h'.has_iff.mp hq)))
    cases hmove with
    | select hnext =>
      rename_i u
      rcases List.eq_nil_or_concat ys with rfl | ⟨ys, v, rfl⟩
      · obtain ⟨rfl, heq⟩ := List.append_inj' hpicks rfl
        obtain rfl : u = x := by simpa using heq
        obtain ⟨q, _, _, _, _, hq, _⟩ := schedulerGetNext_at h' hnext
        obtain rfl := hmid q (h'.has_iff.mpr hq)
        exact ⟨List.not_mem_nil, before_of_select h' hnext hseg.last
          (hsub q t (h.has_iff.mp ht)) (h'.rank q u hq) hne⟩
      · rw [List.concat_eq_append, ← List.cons_append, ← List.append_assoc] at hpicks
        obtain ⟨rfl, heq⟩ := List.append_inj' hpicks rfl
        obtain rfl : u = v := by simpa using heq
        rw [List.concat_eq_append, List.mem_append, not_or, List.mem_singleton] at hnot
        obtain ⟨hys, hbefore⟩ := ih hmid rfl hnot.1
        obtain ⟨hux, hlast⟩ := hbefore.select h' hnext hseg.last (Ne.symm hnot.2)
        refine ⟨?_, hlast⟩
        rw [List.concat_eq_append, List.mem_append, not_or, List.mem_singleton]
        exact ⟨hys, hux.symm⟩
    | change hsame =>
      obtain ⟨hys, hbefore⟩ := ih hmid (by simpa using hpicks) hnot
      exact ⟨hys, hbefore.other h' (.change hsame)⟩
    | add n tcb hnew =>
      obtain ⟨hys, hbefore⟩ := ih hmid (by simpa using hpicks) hnot
      exact ⟨hys, hbefore.other h' (.add n tcb hnew)⟩

/-- The part of a run in which the first selections were made, and the rest. -/
theorem Schedule.cut {P : Kernel → Prop} {picks xs ys : List Tid} (h : Schedule P k picks k')
    (hpicks : picks = xs ++ ys) : ∃ m, Schedule P k xs m ∧ Schedule P m ys k' := by
  induction h generalizing ys with
  | start h =>
    obtain ⟨rfl, rfl⟩ := List.append_eq_nil_iff.mp hpicks.symm
    exact ⟨_, .start h, .start h⟩
  | step hrun hmove hlast ih =>
    rename_i pick
    rcases List.eq_nil_or_concat ys with rfl | ⟨ys, u, rfl⟩
    · rw [List.append_nil] at hpicks
      exact ⟨_, hpicks ▸ hrun.step hmove hlast, .start hlast⟩
    · cases pick with
      | none =>
        obtain ⟨m, hfront, hback⟩ := ih (by simpa using hpicks)
        exact ⟨m, hfront, by simpa using hback.step hmove hlast⟩
      | some v =>
        rw [List.concat_eq_append, ← List.append_assoc] at hpicks
        obtain ⟨rfl, heq⟩ := List.append_inj' hpicks rfl
        obtain rfl : v = u := by simpa using heq
        obtain ⟨m, hfront, hback⟩ := ih rfl
        exact ⟨m, hfront, by simpa using hback.step hmove hlast⟩

/-- While `t` stays READY, between two selections of another task of its priority
there is one of `t`. -/
theorem round_robin_fair {k₀ : Kernel} {earlier picks xs ys zs : List Tid}
    (hrun : Schedule (fun _ => True) (schedulerInit k₀) earlier k)
    (hseg : Schedule (fun k => (k.tcb t).state = .ready) k picks k') (ht : k.Has pr t)
    (hx : k'.Has pr x) (hne : x ≠ t) (hpicks : picks = xs ++ x :: ys ++ x :: zs) : t ∈ ys := by
  obtain ⟨runs, h, _⟩ := hrun.ordered (schedulerInit_ordered k₀)
  obtain ⟨m, hfront, hback⟩ := hseg.cut
    (show picks = (xs ++ x :: (ys ++ [x])) ++ zs by simpa using hpicks)
  obtain ⟨runs₁, h₁, _⟩ := hfront.ordered h
  obtain ⟨runs₂, h₂, hsub⟩ := hback.ordered h₁
  have honly : ∀ q, m.Has q x → q = pr := fun q hq =>
    h₂.has_unique hx (h₂.has_iff.mpr (hsub q x (h₁.has_iff.mp hq)))
  by_contra hnot
  have hback := hfront.before h ht honly hne rfl (by simp [hnot, hne.symm])
  exact hback.1 (by simp)

section Sample

def sampleTcb : Tcb := { Tcb.zero with priority := 1 }

def sampleStart : Kernel := Kernel.reset (fun _ => 0) fun _ => 0

/-- Two tasks of priority 1. -/
def sampleKernel : Kernel := addNew (addNew (schedulerInit sampleStart) 0 sampleTcb) 1 sampleTcb

theorem sample_ordered : Ordered sampleKernel
    (Function.update (Function.update (fun _ => []) 1 [0]) 1 [1, 0]) :=
  ((schedulerInit_ordered sampleStart).add sampleTcb (by simp)).add sampleTcb
    (by simp [Function.update_apply, sampleTcb])

theorem sample_run : Schedule (fun _ => True) (schedulerInit sampleStart) [] sampleKernel := by
  have hfirst : ∀ pr, ¬ (schedulerInit sampleStart).Has pr 0 := fun pr hhas =>
    absurd ((schedulerInit_ordered sampleStart).has_iff.mp hhas) List.not_mem_nil
  have hsecond : ∀ pr, ¬ (addNew (schedulerInit sampleStart) 0 sampleTcb).Has pr 1 := by
    intro pr hhas
    have hmem := ((schedulerInit_ordered sampleStart).add sampleTcb (by simp)).has_iff.mp hhas
    simp [Function.update_apply, sampleTcb] at hmem
  exact ((Schedule.start trivial).step (.add 0 sampleTcb hfirst) trivial).step
    (.add 1 sampleTcb hsecond) trivial

def afterNext (k : Kernel) : Kernel := ((schedulerGetNext k).map Prod.fst).getD k

theorem Schedule.selects {P : Kernel → Prop} {picks : List Tid} (h : Schedule P k picks k')
    (hnext : (schedulerGetNext k').map Prod.snd = some t) (hlast : P (afterNext k')) :
    Schedule P k (picks ++ [t]) (afterNext k') := by
  obtain ⟨⟨k'', u⟩, hfound, rfl⟩ := Option.map_eq_some_iff.mp hnext
  have hafter : afterNext k' = k'' := by rw [afterNext, hfound]; rfl
  rw [hafter] at hlast ⊢
  exact h.step (.select hfound) hlast

/-- Both tasks stay READY and take turns. -/
theorem round_robin_fair_sample : ∃ (k' : Kernel) (ys : List Tid),
    Schedule (fun k => (k.tcb 0).state = .ready) sampleKernel [1, 0, 1] k' ∧
    ys = [0] ∧ 0 ∈ ys := by
  have hready : Schedule (fun k => (k.tcb 0).state = .ready) sampleKernel [] sampleKernel :=
    .start (by decide)
  have hseg := ((hready.selects (t := 1) (by decide) (by decide)).selects (t := 0) (by decide)
    (by decide)).selects (t := 1) (by decide) (by decide)
  obtain ⟨runs, hruns, hsub⟩ := hseg.ordered sample_ordered
  have htask : sampleKernel.Has 1 0 := sample_ordered.has_iff.mpr (by simp)
  have hother := hruns.has_iff.mpr (hsub 1 1 (by simp))
  exact ⟨_, [0], hseg, rfl, round_robin_fair sample_run hseg htask hother (by decide)
    (show _ = [] ++ 1 :: [0] ++ 1 :: [] from rfl)⟩

end Sample

end Crest
