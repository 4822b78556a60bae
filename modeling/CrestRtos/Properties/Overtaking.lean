import CrestRtos.System.Arrivals

/-!
# The order in which waiters are woken

Queues serve their waiters first come, first served. Semaphores and mutexes put a new
waiter in front of those that are there, and so the last one that came is woken first.
-/

namespace Crest
open IntrusiveList Transition Alloc

def Event.parks (w : WaitList) (t : Tid) : Event → Bool
  | .block w' t' _ => w' = w && t' = t
  | _ => false

/-- When `t` last came to wait on `w`: how many events had happened by then. -/
def arrival (log : List Event) (w : WaitList) (t : Tid) : Nat :=
  (log.dropWhile fun e => !e.parks w t).length

def WaitPhase.on (w : WaitList) : WaitPhase → Bool
  | .waiting w' _ => w' = w
  | _ => false

/-- `t` is in a wait on `w` that nothing has ended. -/
def Sys.Waits (s : Sys) (w : WaitList) (t : Tid) : Prop := (waitPhase s.log t).on w = true

instance (s : Sys) (w : WaitList) (t : Tid) : Decidable (s.Waits w t) :=
  inferInstanceAs (Decidable (_ = true))

/-- Between `s` and `s'` a give, an unlock, a push or a pop has woken `t` from `w`. -/
def Sys.Woke (s s' : Sys) (w : WaitList) (t : Tid) : Prop :=
  ∃ n, s'.log = n ++ s.log ∧ .handoff w t ∈ n

/-- Whoever the step wakes came before all of its priority that still wait there. -/
def Sys.InOrder (L : Layout) (s : Sys) (l : Label) : Prop :=
  ∀ s', s.step L l = some s' → ∀ w t, s.Woke s' w t → ∀ x, s'.Waits w x →
    (s.k.tcb x).priority = (s.k.tcb t).priority → arrival s.log w t < arrival s.log w x

/-- The step takes nobody off a semaphore's or mutex's list while another task of the
same priority is there. -/
def Sys.NoRival (s : Sys) (l : Label) : Prop :=
  ∀ h ∈ s.handsOff l, h.1.isQueue = true ∨
    ∀ x, x ≠ h.2 → s.Waits h.1 x → (s.k.tcb x).priority ≠ (s.k.tcb h.2).priority

instance (s : Sys) (l : Label) : Decidable (s.NoRival l) :=
  inferInstanceAs (Decidable (∀ h ∈ s.handsOff l, _))

/-- The step wakes another task of the priority of `x` from `w`. -/
def Sys.passes (s : Sys) (l : Label) (w : WaitList) (x : Tid) : Bool :=
  (s.handsOff l).any fun h =>
    h.1 = w && h.2 ≠ x && (s.k.tcb h.2).priority = (s.k.tcb x).priority

def bypasses (L : Layout) (w : WaitList) (x : Tid) : Sys → List Label → Nat
  | _, [] => 0
  | s, l :: ls =>
    match s.step L l with
    | none => 0
    | some s' => (if s.passes l w x then 1 else 0) + bypasses L w x s' ls

/-- `x` stands before `y` on a list that new tasks join in their way. -/
def Before (log : List Event) (w : WaitList) (x y : Tid) : Prop :=
  if w.isQueue then arrival log w x < arrival log w y else arrival log w y < arrival log w x

def InArrivalOrder (log : List Event) (W : WaitMap) : Prop := ∀ w, (W w).Pairwise (Before log w)

section Arrival
variable {log n : List Event} {W W' : WaitMap} {w : WaitList} {t x : Tid}

theorem WaitPhase.on_iff {p : WaitPhase} : p.on w = true ↔ ∃ ms, p = .waiting w ms := by
  cases p with
  | waiting w' ms =>
    simp only [WaitPhase.on, decide_eq_true_eq, WaitPhase.waiting.injEq]
    exact ⟨fun h => ⟨ms, h, rfl⟩, fun ⟨_, h, _⟩ => h⟩
  | _ => simp [WaitPhase.on]

theorem Placed.waits_iff {s : Sys} {place : Tid → Place} (h : Placed s W place) :
    s.Waits w t ↔ t ∈ W w :=
  WaitPhase.on_iff.trans (h.waiting_iff t w).symm

theorem arrival_le (log : List Event) (w : WaitList) (t : Tid) : arrival log w t ≤ log.length :=
  (List.dropWhile_sublist _).length_le

/-- Events that put `t` on no list leave its arrival alone. -/
theorem arrival_append (hn : ∀ e ∈ n, e.parks w t = false) :
    arrival (n ++ log) w t = arrival log w t := by
  rw [arrival, List.dropWhile_append_of_pos fun e he => by rw [hn e he]; rfl, arrival]

theorem parks_of_offList {e : Event} (h : e.offList = true) : e.parks w t = false := by
  cases e <;> first | rfl | cases h

theorem lt_arrival {ms : Nat} (log : List Event) (hmem : .block w t ms ∈ n) :
    log.length < arrival (n ++ log) w t := by
  induction n with
  | nil => cases hmem
  | cons e n ih =>
    rw [List.cons_append, arrival, List.dropWhile_cons]
    split
    · rename_i hnot
      rcases List.mem_cons.mp hmem with rfl | hrest
      · simp [Event.parks] at hnot
      · exact ih hrest
    · rw [List.length_cons, List.length_append]
      omega

/-- One step leaves the arrival of everybody alone who was on the list before. -/
theorem Moved.arrival (h : Moved W n W') (log : List Event) (hnd : ∀ w, (W' w).Nodup)
    (hx : x ∈ W w) :
    arrival (n ++ log) w x = Crest.arrival log w x := by
  refine arrival_append fun e he => ?_
  cases h with
  | fewer hn hsub => exact parks_of_offList (hn e he)
  | leave hw hmem hn =>
    rcases hn e he with hoff | rfl
    · exact parks_of_offList hoff
    · rfl
  | @join v t ms hmem hn =>
    rcases hn e he with hoff | rfl
    · exact parks_of_offList hoff
    · -- `x` cannot join the list that it is on
      by_contra hparks
      simp only [Event.parks, Bool.and_eq_true, decide_eq_true_eq, Bool.not_eq_false] at hparks
      obtain ⟨rfl, rfl⟩ := hparks
      have hnodup := hnd v
      rw [Function.update_self, joined] at hnodup
      split at hnodup
      · exact (List.nodup_append.mp hnodup).2.2 t hx t (List.mem_singleton_self t) rfl
      · exact (List.nodup_cons.mp hnodup).1 hx

theorem InArrivalOrder.sublist (h : InArrivalOrder log W) (hsub : ∀ w, (W' w).Sublist (W w)) :
    InArrivalOrder log W' := fun w => (h w).sublist (hsub w)

/-- Lists keep their order: newcomers come last. -/
theorem Moved.ordered (h : Moved W n W') (hnd : ∀ w, (W' w).Nodup) (ho : InArrivalOrder log W) :
    InArrivalOrder (n ++ log) W' := by
  have hkept : InArrivalOrder (n ++ log) W := by
    intro w
    refine (ho w).imp_of_mem fun {x y} hx hy hxy => ?_
    rw [Before, h.arrival log hnd hx, h.arrival log hnd hy]
    exact hxy
  have hlate := fun v t ms (hmem : Event.block v t ms ∈ n) => lt_arrival log hmem
  have hmoved := h
  cases h with
  | fewer hn hsub => exact hkept.sublist hsub
  | @leave w t r hw hmem hn =>
    refine hkept.sublist fun v => ?_
    by_cases hv : v = w
    · subst hv
      rw [Function.update_self, hw]
      exact List.sublist_cons_self t r
    · rw [Function.update_of_ne hv]
  | @join v t ms hmem hn =>
    intro w
    by_cases hv : w = v
    · subst hv
      have hbefore : ∀ x ∈ W w, Crest.arrival (n ++ log) w x < Crest.arrival (n ++ log) w t := by
        intro x hx
        rw [hmoved.arrival log hnd hx]
        exact lt_of_le_of_lt (arrival_le log w x) (hlate w t ms hmem)
      rw [Function.update_self, joined]
      split
      · rename_i hqueue
        refine List.pairwise_append.mpr ⟨hkept w, List.pairwise_singleton _ _, ?_⟩
        intro x hx y hy
        rw [List.mem_singleton.mp hy, Before, if_pos hqueue]
        exact hbefore x hx
      · rename_i hqueue
        refine List.pairwise_cons.mpr ⟨fun x hx => ?_, hkept w⟩
        rw [Before, if_neg hqueue]
        exact hbefore x hx
    · rw [Function.update_of_ne hv]
      exact hkept w

end Arrival

section System
variable {L : Layout} {s s' : Sys} {g : Ghost} {w : WaitList} {t x : Tid} {l : Label}

theorem lists_unique {k : Kernel} {W W' : WaitMap} (h : Lists k W) (h' : Lists k W') : W = W' :=
  funext fun w => linked_unique (h w) (h' w)

/-- The wait lists of every state are in the order of arrival. -/
theorem Sys.Reached.ordered (hL : L.heap.Placed) (h : s.Reached L) {W : WaitMap}
    (hW : Lists s.k W) : InArrivalOrder s.log W := by
  refine h.induction (P := fun s => ∀ W, Lists s.k W → InArrivalOrder s.log W) hL ?_ ?_ W hW
  · intro s hs W hW w
    have hhead : s.k.head w = none := by
      have hobjects := hs.bare.2.1
      have hsem := congrArg (fun o => o.1) hobjects
      have hmutex := congrArg (fun o => o.2.1) hobjects
      have hqueue := congrArg (fun o => o.2.2) hobjects
      cases w <;> simp only [Kernel.objects] at hsem hmutex hqueue <;>
        simp [Kernel.head, ← hsem, ← hmutex, ← hqueue, Kernel.reset]
    rw [(head_eq_none_iff hW w).mp hhead]
    exact List.Pairwise.nil
  · intro s g l s' hg hs hl W hW
    obtain ⟨n, hlog, ⟨W', hW', hmoved⟩, _⟩ := hg.shift hL hl
    obtain rfl := lists_unique hW hW'
    rw [hlog]
    exact hmoved.ordered (fun w => linked_nodup (hW w)) (hs _ hg.placed.lists)

/-- A step that would hand a waiter off is possible. -/
theorem Sys.step_of_handsOff {h : WaitList × Tid} (hoff : s.handsOff l = some h) :
    ∃ s', s.step L l = some s' := by
  cases l with
  | go =>
    rw [Sys.handsOff] at hoff
    split at hoff
    · cases hoff
    · rename_i hpend
      obtain ⟨u, hcur, hu⟩ := Option.bind_eq_some_iff.mp hoff
      have hgo : s.step L .go = s.go L u := by
        simp [Sys.step, hpend, hcur, Sys.thread]
      cases hpc : s.pc u with
      | enter op r => exact ⟨_, hgo.trans (by rw [Sys.go, hpc])⟩
      | retry op r => exact ⟨_, hgo.trans (by rw [Sys.go, hpc])⟩
      | _ =>
        rw [hpc] at hu
        cases hu
  | _ => cases hoff

/-- What a hand-over looks like: the first task leaves, the others still wait. -/
theorem Inv.handedOff (hL : L.heap.Placed) (h : Inv L s g) (hstep : s.step L l = some s')
    (hoff : s.handsOff l = some (w, t)) :
    s.Woke s' w t ∧ ∃ r, g.lists w = t :: r ∧ ∀ x, s'.Waits w x ↔ x ∈ r := by
  obtain ⟨n, hlog, ⟨W', hW', hmoved⟩, hhand⟩ := h.shift hL hstep
  have hmem := (hhand w t).mpr hoff
  obtain ⟨g', hg', _⟩ := h.step hL hstep
  obtain rfl := lists_unique hW' hg'.placed.lists
  refine ⟨⟨n, hlog, hmem⟩, ?_⟩
  generalize hnow : g'.lists = W' at hmoved
  cases hmoved with
  | fewer hn hsub => exact absurd (hn _ hmem) (by simp [Event.offList])
  | join hblock hn =>
    rcases hn _ hmem with hoff | heq
    · cases hoff
    · cases heq
  | @leave v y r hv hleft hn =>
    rcases hn _ hmem with hbad | heq
    · cases hbad
    obtain ⟨rfl, rfl⟩ := Event.handoff.inj heq
    refine ⟨r, hv, fun x => ?_⟩
    rw [hg'.placed.waits_iff, hnow, Function.update_self]

theorem woke_handsOff (hL : L.heap.Placed) (h : Inv L s g) (hstep : s.step L l = some s')
    (hwoke : s.Woke s' w t) : s.handsOff l = some (w, t) := by
  obtain ⟨n, hlog, _, hhand⟩ := h.shift hL hstep
  obtain ⟨n', hlog', hmem⟩ := hwoke
  obtain rfl := List.append_cancel_right (hlog'.symm.trans hlog)
  exact (hhand w t).mp hmem

/-- A step wakes in order exactly when it does not choose between rivals. -/
theorem Inv.inOrder_iff (hL : L.heap.Placed) (h : Inv L s g) (ho : InArrivalOrder s.log g.lists) :
    s.InOrder L l ↔ s.NoRival l := by
  constructor
  · rintro horder ⟨w, t⟩ hoff
    obtain ⟨s', hstep⟩ := Sys.step_of_handsOff (L := L) hoff
    obtain ⟨hwoke, r, hlist, hwaits⟩ := h.handedOff hL hstep hoff
    by_cases hqueue : w.isQueue = true
    · exact Or.inl hqueue
    · refine Or.inr fun x hx hwait hprio => ?_
      have hmem : x ∈ r := by
        have hin := h.placed.waits_iff.mp hwait
        rw [hlist] at hin
        exact (List.mem_cons.mp hin).resolve_left hx
      have hearlier := horder s' hstep w t hwoke x ((hwaits x).mpr hmem) hprio
      have hfirst := ho w
      rw [hlist] at hfirst
      have hlater := (List.pairwise_cons.mp hfirst).1 x hmem
      rw [Before, if_neg hqueue] at hlater
      exact absurd hearlier (Nat.lt_asymm hlater)
  · intro hrival s' hstep w t hwoke x hwait hprio
    have hoff := woke_handsOff hL h hstep hwoke
    obtain ⟨_, r, hlist, hwaits⟩ := h.handedOff hL hstep hoff
    have hmem := (hwaits x).mp hwait
    have hnd := linked_nodup (h.placed.lists w)
    rw [hlist] at hnd
    have hne : x ≠ t := by
      rintro rfl
      exact (List.nodup_cons.mp hnd).1 hmem
    rcases hrival (w, t) hoff with hqueue | hother
    · have hfirst := ho w
      rw [hlist] at hfirst
      have hlater := (List.pairwise_cons.mp hfirst).1 x hmem
      rw [Before, if_pos hqueue] at hlater
      exact hlater
    · refine absurd hprio (hother x hne ?_)
      rw [h.placed.waits_iff, hlist]
      exact List.mem_cons_of_mem t hmem

/-- The tasks on the list of `x` that came before it. -/
def Ghost.ahead (g : Ghost) (log : List Event) (w : WaitList) (x : Tid) : Nat :=
  (g.lists w).countP fun y => arrival log w y < arrival log w x

/-- One bypass less is left after each. -/
theorem Inv.ahead_step {g' : Ghost} (hL : L.heap.Placed) (h : Inv L s g)
    (ho : InArrivalOrder s.log g.lists) (hrival : s.NoRival l) (hx : s.Waits w x)
    (hstep : s.step L l = some s') (h' : Inv L s' g') :
    (if s.passes l w x then 1 else 0) + g'.ahead s'.log w x ≤ g.ahead s.log w x := by
  obtain ⟨n, hlog, ⟨W', hW', hmoved⟩, hhand⟩ := h.shift hL hstep
  obtain rfl := lists_unique hW' h'.placed.lists
  have hnd := fun w => linked_nodup (hW' w)
  have hmem := h.placed.waits_iff.mp hx
  have hcount : ∀ l : List Tid, l.Sublist (g.lists w) →
      (l.countP fun y => arrival s'.log w y < arrival s'.log w x) =
        l.countP fun y => arrival s.log w y < arrival s.log w x := by
    intro l hl
    refine List.countP_congr fun y hy => ?_
    rw [hlog, hmoved.arrival s.log hnd (hl.subset hy), hmoved.arrival s.log hnd hmem]
  have hlater := hmoved.arrival s.log hnd hmem
  rw [← hlog] at hlater
  have horder := (h.inOrder_iff (L := L) hL ho).mpr hrival s' hstep
  have hnone : (∀ v t, .handoff v t ∉ n) → s.passes l w x = false := by
    intro hno
    rw [Sys.passes]
    cases hoff : s.handsOff l with
    | none => rfl
    | some p => exact absurd ((hhand p.1 p.2).mpr hoff) (hno p.1 p.2)
  rw [Ghost.ahead, Ghost.ahead]
  generalize hnow : g'.lists = W' at hmoved hnd
  cases hmoved with
  | fewer hn hsub =>
    rw [hnone fun v t hin => Bool.noConfusion (hn _ hin), hcount _ (hsub w)]
    simpa using (hsub w).countP_le
  | @join v t ms hblock hn =>
    have hno : ∀ v t, Event.handoff v t ∉ n := by
      intro v t hin
      rcases hn _ hin with hbad | heq
      · cases hbad
      · cases heq
    rw [hnone hno]
    by_cases hv : w = v
    · subst hv
      have hnew : ¬ arrival s'.log w t < arrival s'.log w x := by
        rw [hlater, hlog]
        have hlt := lt_arrival s.log hblock
        have hle := arrival_le s.log w x
        omega
      rw [Function.update_self, joined, if_neg Bool.false_ne_true, Nat.zero_add]
      split
      · rw [List.countP_append, hcount _ (List.Sublist.refl _)]
        simp [hnew]
      · rw [List.countP_cons, hcount _ (List.Sublist.refl _)]
        simp [hnew]
    · rw [Function.update_of_ne hv, hcount _ (List.Sublist.refl _)]
      simp
  | @leave v t r hlist hleft hn =>
    have hoff := (hhand v t).mp hleft
    by_cases hv : w = v
    · subst hv
      have hpass : s.passes l w x = true → arrival s.log w t < arrival s.log w x := by
        intro hp
        rw [Sys.passes, hoff] at hp
        simp only [Option.any_some, Bool.and_eq_true, decide_eq_true_eq] at hp
        obtain ⟨⟨_, hne⟩, hprio⟩ := hp
        obtain ⟨hwoke, r', hlist', hwaits⟩ := h.handedOff hL hstep hoff
        refine horder w t hwoke x ((hwaits x).mpr ?_) hprio.symm
        rw [hlist'] at hmem
        exact (List.mem_cons.mp hmem).resolve_left (Ne.symm (by simpa using hne))
      have hsub : r.Sublist (g.lists w) := by
        rw [hlist]
        exact List.sublist_cons_self t r
      rw [Function.update_self, hcount r hsub, hlist, List.countP_cons]
      split
      · rename_i hp
        rw [if_pos (by simpa using hpass hp)]
        omega
      · omega
    · have hno : s.passes l w x = false := by
        simp [Sys.passes, hoff, Ne.symm hv]
      rw [hno, Function.update_of_ne hv, hcount _ (List.Sublist.refl _)]
      simp

/-- While `x` waits, at most seven tasks of its priority are woken from its list. -/
theorem Sys.Reached.bypasses_le (hL : L.heap.Placed) (h : s.Reached L) (hg : Inv L s g)
    {ls : List Label} (hrival : Permitted Sys.NoRival (Sys.step L) s ls)
    (hwaits : Permitted (fun s _ => s.Waits w x) (Sys.step L) s ls) :
    bypasses L w x s ls ≤ g.ahead s.log w x := by
  induction ls generalizing s g with
  | nil => exact Nat.zero_le _
  | cons l ls ih =>
    rw [bypasses]
    cases hstep : s.step L l with
    | none => exact Nat.zero_le _
    | some s' =>
      obtain ⟨g', hg', _⟩ := hg.step hL hstep
      have hrest := ih (h.step hstep) hg' (hrival.2 s' hstep) (hwaits.2 s' hstep)
      have hnow := hg.ahead_step hL (h.ordered hL hg.placed.lists) hrival.1 hwaits.1 hstep hg'
      exact (Nat.add_le_add_left hrest _).trans hnow

/-- In a run waiters of one priority are woken in the order in which they came exactly
when no give and no unlock takes one of them off its list while another is there; and
then others pass a waiter seven times at most. -/
theorem no_overtaking (hL : L.heap.Placed) (h : s.Reached L) (ls : List Label) :
    (Permitted (Sys.InOrder L) (Sys.step L) s ls ↔ Permitted Sys.NoRival (Sys.step L) s ls) ∧
      ∀ w x, Permitted Sys.NoRival (Sys.step L) s ls →
        Permitted (fun s _ => s.Waits w x) (Sys.step L) s ls → bypasses L w x s ls < maxTasks := by
  constructor
  · refine permitted_iff (I := Sys.Reached L) (fun _ _ _ hs hl => hs.step hl) ?_ h ls
    intro s l hs
    obtain ⟨g, hg⟩ := hs.inv hL
    exact hg.inOrder_iff hL (hs.ordered hL hg.placed.lists)
  · intro w x hrival hwaits
    cases ls with
    | nil => exact Nat.succ_pos 7
    | cons l ls =>
      obtain ⟨g, hg⟩ := h.inv hL
      refine lt_of_le_of_lt (h.bypasses_le hL hg hrival hwaits) ?_
      have hmem := hg.placed.waits_iff.mp hwaits.1
      refine lt_of_lt_of_le ?_ (length_le_tasks hg.placed.lists w)
      refine lt_of_le_of_ne List.countP_le_length fun heq => ?_
      exact lt_irrefl _ (of_decide_eq_true (List.countP_eq_length.mp heq x hmem))

end System

/-- Task 1 makes a task 4 of its own priority; both wait in turn, and task 2 comes to
run. -/
def twoWaiters (c : Creation) (wait : Call) : List Label :=
  boardReady ++ [.call (.create c), .go, .go] ++ (if c.type = .queue then [.go] else []) ++
    [.call (.taskCreate ⟨0x08005000, 1, 512, 0⟩), .go, .go, .go, .pendSV 0x2001F000,
      .call wait, .go, .go, .pendSV 0x2001F000, .call wait, .go, .go, .pendSV 0x2001F000]

/-- Both wait on a queue; the push of task 2 wakes task 1 and passes task 4 once. -/
theorem no_overtaking_board : ∃ s : Sys, s.Reached boardLayout ∧
    Permitted (Sys.InOrder boardLayout) (Sys.step boardLayout) s
      [.call (.queuePush 0x10000 0x20001300 0), .go, .go] ∧
    bypasses boardLayout (.recv 0x20006428) 4 s
      [.call (.queuePush 0x10000 0x20001300 0), .go, .go] = 1 ∧ 1 < maxTasks := by
  obtain ⟨s, hs, hrival, hwaits, hcount⟩ := boardRun_at
    (P := fun s => Permitted Sys.NoRival (Sys.step boardLayout) s
        [.call (.queuePush 0x10000 0x20001300 0), .go, .go] ∧
      Permitted (fun s _ => s.Waits (.recv 0x20006428) 4) (Sys.step boardLayout) s
        [.call (.queuePush 0x10000 0x20001300 0), .go, .go] ∧
      bypasses boardLayout (.recv 0x20006428) 4 s
        [.call (.queuePush 0x10000 0x20001300 0), .go, .go] = 1)
    (twoWaiters (.queue 4 1) (.queuePop 0x10000 0x20001200 waitForever)) (by decide +kernel)
  obtain ⟨hiff, hbound⟩ := no_overtaking boardLayout_placed hs
    [.call (.queuePush 0x10000 0x20001300 0), .go, .go]
  exact ⟨s, hs, hiff.mpr hrival, hcount, hcount ▸ hbound _ _ hrival hwaits⟩

/-- Both wait on a semaphore, task 1 first; the give of task 2 wakes task 4. -/
theorem give_wakes_the_last : ∃ s s' : Sys, s.Reached boardLayout ∧
    s.step boardLayout .go = some s' ∧ s.Woke s' (.sem 0x20006428) 4 ∧
    s'.Waits (.sem 0x20006428) 1 ∧ (s.k.tcb 1).priority = (s.k.tcb 4).priority ∧
    arrival s.log (.sem 0x20006428) 1 < arrival s.log (.sem 0x20006428) 4 ∧
    ¬ s.InOrder boardLayout .go := by
  obtain ⟨s, hs, hprio, hfirst, hstep⟩ := boardRun_at
    (P := fun s => (s.k.tcb 1).priority = (s.k.tcb 4).priority ∧
      arrival s.log (.sem 0x20006428) 1 < arrival s.log (.sem 0x20006428) 4 ∧
      (s.step boardLayout .go).any (fun s' => decide (s'.Waits (.sem 0x20006428) 1 ∧
        s'.log = [Event.semTaken 0x20006428 4, Event.handoff (.sem 0x20006428) 4,
          Event.semGiven 0x20006428] ++ s.log)) = true)
    (twoWaiters (.sem 0) (.semTake 0x10000 waitForever) ++ [.call (.semGive 0x10000)])
    (by decide +kernel)
  obtain ⟨s', hgo, hafter⟩ := (Option.any_eq_true _ _).mp hstep
  obtain ⟨hwaits, hlog⟩ := of_decide_eq_true hafter
  have hwoke : s.Woke s' (.sem 0x20006428) 4 := ⟨_, hlog, by simp⟩
  refine ⟨s, s', hs, hgo, hwoke, hwaits, hprio, hfirst, fun horder => ?_⟩
  exact Nat.lt_asymm hfirst (horder s' hgo _ 4 hwoke 1 hwaits hprio)

end Crest
