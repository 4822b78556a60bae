import CrestRtos.Properties.Expiry

/-!
# Who leaves a wait list when its time is up

Any number of tasks may time out in one tick, wherever they stand on their lists, and the
loop comes to them in the order of the run lists. Each visit splices one task out of a list
that earlier visits have spliced already; what is left is the old list without them.
-/

namespace Crest
open IntrusiveList MachineWord Alloc Transition

section Unlink
variable {k : Kernel} {W : WaitMap} {w : WaitList} {t x : Tid} {l r : List Tid}

/-- A timeout changes links on its own list only. -/
theorem unlinkWaiter_waitNext (h : Lists k W) (hw : W w = l ++ t :: r) :
    (unlinkWaiter k w t).waitNext t = none ∧
      ∀ x, x ∉ W w → (unlinkWaiter k w t).waitNext x = k.waitNext x := by
  have hlist := h w
  have hlen := length_le_tasks h w
  rw [hw] at hlist hlen ⊢
  rw [List.length_append, List.length_cons] at hlen
  have hsearch := searchFrom_found maxTasks none hlist (by omega)
  simp only [unlinkWaiter, hsearch, if_true]
  rw [waitNext_setTcb]
  refine ⟨Function.update_self _ _ _, fun x hx => ?_⟩
  have hxt : x ≠ t := by
    rintro rfl
    exact hx (List.mem_append_right l List.mem_cons_self)
  rw [Function.update_of_ne hxt]
  cases hprev : l.getLast? with
  | none =>
    simp only [lastOr, hprev, Option.or_none]
    rw [setHead_waitNext]
  | some p =>
    have hxp : x ≠ p := by
      rintro rfl
      exact hx (List.mem_append_left _ (List.mem_of_getLast? hprev))
    simp only [lastOr, hprev, Option.some_or]
    rw [waitNext_setTcb, Function.update_of_ne hxp]

theorem expireWaiter_waitNext (h : Lists k W) (hw : W w = l ++ t :: r) :
    (expireWaiter k w t).waitNext t = none ∧
      ∀ x, x ∉ W w → (expireWaiter k w t).waitNext x = k.waitNext x := by
  have hcount : Lists (k.setTcb t Tcb.waited) W := lists_setTcb rfl h
  have hsame : (k.setTcb t Tcb.waited).waitNext = k.waitNext := setTcb_waitNext_of_same rfl
  obtain ⟨hself, hother⟩ := unlinkWaiter_waitNext hcount hw
  have hwake : ∀ k : Kernel, (schedulerWakeTask k t minusOne).waitNext = k.waitNext := fun k => by
    have hsection : (wakeSection k t minusOne).waitNext = k.waitNext := setTcb_waitNext_of_same rfl
    exact hsection
  have hflags : (expireWaiter k w t).waitNext =
      (unlinkWaiter (k.setTcb t Tcb.waited) w t).waitNext := by
    rw [expireWaiter, hwake]
    exact setTcb_waitNext_of_same rfl
  rw [hflags]
  exact ⟨hself, fun x hx => (hother x hx).trans (congrFun hsame x)⟩

end Unlink

/-- `t` is not among those that the visits of `l` time out. -/
def Kernel.outlasts (k : Kernel) (l : List Tid) (t : Tid) : Bool :=
  !(decide (t ∈ l) && (expires k t).isSome)

/-- The wait lists after visits of the tasks in `l`. -/
structure Swept (k k' : Kernel) (W : WaitMap) (l : List Tid) : Prop where
  lists : Lists k' fun w => (W w).filter (k.outlasts l)
  freed : ∀ t ∈ l, (expires k t).isSome = true → k'.waitNext t = none
  off : ∀ t, (∀ w, t ∉ W w) → k'.waitNext t = k.waitNext t

section Sweep
variable {k : Kernel} {W : WaitMap} {w : WaitList} {t x : Tid} {l : List Tid}

/-- One visit. -/
theorem syncTickTask_swept (h : Lists k W) (hd : Apart W)
    (hfit : ∀ w, expires k x = some w → x ∈ W w) : Swept k (syncTickTask k x) W [x] := by
  have hvisit := syncTickTask_visit k x
  generalize syncTickTask k x = k' at hvisit ⊢
  have hstays : expires k x = none → k'.waitNext = k.waitNext → Lists k' W →
      Swept k k' W [x] := by
    intro hnone hlinks hlists
    have hmap : (fun w => (W w).filter (k.outlasts [x])) = W := by
      funext w
      refine List.filter_eq_self.mpr fun t _ => ?_
      by_cases ht : t = x
      · subst ht
        simp [Kernel.outlasts, hnone]
      · simp [Kernel.outlasts, ht]
    refine ⟨by rwa [hmap], fun t ht hexp => ?_, fun t _ => congrFun hlinks t⟩
    rw [List.mem_singleton.mp ht, hnone] at hexp
    cases hexp
  cases hvisit with
  | passes hnot => exact hstays (expires_of_passes hnot) rfl h
  | counts hst hmore hlist =>
    exact hstays (if_neg fun hcond => by omega) (setTcb_waitNext_of_same rfl) (lists_setTcb rfl h)
  | @expires w hst hone hlist =>
    have hsome : expires k x = some w := expires_eq_some.mpr ⟨hst, hone, hlist⟩
    have hmem := hfit w hsome
    obtain ⟨a, b, hab⟩ := List.append_of_mem hmem
    obtain ⟨hself, hother⟩ := expireWaiter_waitNext h hab
    have hnot : ∀ t, k.outlasts [x] t = decide (t ≠ x) := by
      intro t
      by_cases ht : t = x
      · subst ht
        simp [Kernel.outlasts, hsome]
      · simp [Kernel.outlasts, ht]
    have hmap : (fun w => (W w).filter (k.outlasts [x])) = Function.update W w (a ++ b) := by
      funext v
      rw [List.filter_congr fun t _ => hnot t]
      by_cases hv : v = w
      · subst hv
        have hnd := linked_nodup (h v)
        rw [hab] at hnd
        have hout := List.nodup_middle.mp hnd
        have hkeep : ∀ t ∈ a ++ b, decide (t ≠ x) = true := by
          intro t ht
          refine decide_eq_true ?_
          rintro rfl
          exact (List.nodup_cons.mp hout).1 ht
        rw [Function.update_self, hab, List.filter_append, List.filter_cons_of_neg (by simp),
          ← List.filter_append, List.filter_eq_self.mpr hkeep]
      · rw [Function.update_of_ne hv]
        refine List.filter_eq_self.mpr fun t ht => decide_eq_true ?_
        rintro rfl
        exact hv (hd v w t ht hmem)
    refine ⟨?_, fun t ht _ => ?_, fun t ht => hother t (ht w)⟩
    · rw [hmap]
      exact lists_expireWaiter h hd hab
    · rw [List.mem_singleton.mp ht]
      exact hself

/-- A visit of another task does not matter for whether the wait of `t` is over. -/
theorem expires_syncTickTask (hx : t ≠ x) : expires (syncTickTask k x) t = expires k t := by
  have htcb := congrFun (syncTickTask_frame k x).1 t
  rw [Function.update_of_ne hx] at htcb
  have hstate : ((syncTickTask k x).tcb t).state = (k.tcb t).state := (congrArg Tcb.state htcb :)
  have hdelay : ((syncTickTask k x).tcb t).delayTicks = (k.tcb t).delayTicks :=
    (congrArg Tcb.delayTicks htcb :)
  have hlist : ((syncTickTask k x).tcb t).blockingWaitList = (k.tcb t).blockingWaitList :=
    (congrArg Tcb.blockingWaitList htcb :)
  rw [expires, expires, hstate, hdelay, hlist]

/-- And so the visits of a list of tasks, whatever their order. -/
theorem foldl_swept (h : Lists k W) (hd : Apart W) (hnd : l.Nodup)
    (hfit : ∀ t ∈ l, ∀ w, expires k t = some w → t ∈ W w) :
    Swept k (l.foldl syncTickTask k) W l := by
  induction l generalizing k W with
  | nil =>
    have hmap : (fun w => (W w).filter (k.outlasts [])) = W :=
      funext fun w => List.filter_eq_self.mpr fun t _ => by simp [Kernel.outlasts]
    refine ⟨?_, fun t ht => (List.not_mem_nil ht).elim, fun _ _ => rfl⟩
    rw [hmap]
    exact h
  | cons x l ih =>
    obtain ⟨hx, hnd⟩ := List.nodup_cons.mp hnd
    have hfirst := syncTickTask_swept h hd (hfit x List.mem_cons_self)
    have hkept : ∀ t ∈ l, expires (syncTickTask k x) t = expires k t := fun t ht =>
      expires_syncTickTask fun heq => hx (heq ▸ ht)
    have hsub : ∀ w, ((W w).filter (k.outlasts [x])).Sublist (W w) := fun w =>
      List.filter_sublist
    have hrest := ih hfirst.lists (apart_sublist hd hsub) hnd fun t ht w hexp => by
      rw [hkept t ht] at hexp
      refine List.mem_filter.mpr ⟨hfit t (List.mem_cons_of_mem x ht) w hexp, ?_⟩
      have htx : ¬ t = x := fun heq => hx (heq ▸ ht)
      simp [Kernel.outlasts, htx]
    have hboth : ∀ t, (k.outlasts [x] t && (syncTickTask k x).outlasts l t) =
        k.outlasts (x :: l) t := by
      intro t
      by_cases ht : t ∈ l
      · have htx : ¬ t = x := fun heq => hx (heq ▸ ht)
        simp [Kernel.outlasts, ht, htx, hkept t ht]
      · simp [Kernel.outlasts, ht]
    have hmap : (fun w => ((W w).filter (k.outlasts [x])).filter
        ((syncTickTask k x).outlasts l)) = fun w => (W w).filter (k.outlasts (x :: l)) := by
      funext w
      rw [List.filter_filter]
      exact List.filter_congr fun t _ => (Bool.and_comm _ _).trans (hboth t)
    constructor
    · rw [← hmap]
      exact hrest.lists
    · intro t ht hexp
      rcases List.mem_cons.mp ht with rfl | hin
      · refine (hrest.off t fun w hw => ?_).trans (hfirst.freed t (List.mem_singleton_self t) hexp)
        have hout := (List.mem_filter.mp hw).2
        simp [Kernel.outlasts, hexp] at hout
      · exact hrest.freed t hin (by rw [hkept t hin]; exact hexp)
    · intro t ht
      refine (hrest.off t fun w hw => ht w ?_).trans (hfirst.off t ht)
      exact (List.mem_filter.mp hw).1

end Sweep

/-- What a tick does to the wait lists `W` and to the tasks. -/
structure Removes (k k' : Kernel) (W : WaitMap) : Prop where
  lists : Lists k' fun w => (W w).filter fun t => (expires k t).isNone
  expired : ∀ t w, expires k t = some w → t ∈ W w ∧
    k'.tcb t = { k.tcb t with
      delayTicks := 0
      state := .ready
      blockingWaitList := none
      waitNext := none
      timedOut := true
      svcBlocked := false
      savedR0 := if (k.tcb t).svcBlocked then minusOne else (k.tcb t).savedR0 }
  /-- The counter and the state of a task whose delay runs apart, others keep what they
  have, and their links unless the task behind them has left. -/
  others : ∀ t, expires k t = none →
    k'.tcb t = { k.tcb t with
      delayTicks := (k'.tcb t).delayTicks
      state := (k'.tcb t).state
      waitNext := (k'.tcb t).waitNext } ∧
    (k'.waitNext t = k.waitNext t ∨ ∃ w x, t ∈ W w ∧ k.waitNext t = some x ∧ expires k x = some w)
  ram : k'.ram = k.ram

section Tick
variable {L : Layout} {s : Sys} {g : Ghost} {t : Tid} {w : WaitList}

/-- The tasks that both loops come to, in their order. -/
def Ghost.visits (g : Ghost) : List Tid := (List.range maxTaskPriorities).flatMap g.runs

theorem Scheduled.mem_visits (h : Scheduled s g) : t ∈ g.visits ↔ g.place t ≠ .fresh := by
  rw [Ghost.visits, List.mem_flatMap, h.alive t]
  constructor
  · rintro ⟨pr, _, ht⟩
    rw [(h.rank pr t ht).1]
    exact ht
  · intro ht
    exact ⟨_, List.mem_range.mpr (h.rank _ t ht).2, ht⟩

theorem Scheduled.nodup_visits (h : Scheduled s g) : g.visits.Nodup := by
  refine List.nodup_flatMap.mpr ⟨fun pr _ => linked_nodup (h.linked pr), ?_⟩
  refine List.nodup_range.imp fun {pr q} hne t ht hq => ?_
  exact hne ((h.rank pr t ht).1.symm.trans (h.rank q t hq).1)

/-- The second loop visits them one after the other. -/
theorem Scheduled.synced (h : Scheduled s g) :
    s.synced.k = g.visits.foldl syncTickTask s.counted.k := by
  have hwalk : ∀ s : Sys, (walkAll (fun s : Sys => s.k.taskList) (fun s => s.k.next)
      Sys.syncTickTask s).k = walkAll Kernel.taskList Kernel.next syncTickTask s.k :=
    walkAll_map (fun _ => rfl) (fun _ => rfl) fun _ _ => rfl
  have hlinked : ∀ pr, Linked s.counted.k.next (s.counted.k.taskList pr) (g.runs pr) := by
    intro pr
    have hnext := walkAll_induction (f := tickDelay) (P := fun k => k.next = s.k.next)
      (fun k x hk => (tickDelay_frame k x).2.2.1.trans hk)
      { s.k with tickCount := wrap (s.k.tickCount + 1) } rfl Kernel.next Kernel.taskList
    rw [(counted_ticked s).taskList, counted_k, hnext]
    exact h.linked pr
  rw [Sys.synced, hwalk, walkAll_eq_foldl (fun k x => (syncTickTask_frame k x).2.2.1)
    (fun k x => congrArg Prod.fst (syncTickTask_frame k x).2.1) hlinked, Ghost.visits,
    List.foldl_flatMap]

theorem tickDelay_waitNext (k : Kernel) (t : Tid) : (tickDelay k t).waitNext = k.waitNext := by
  rw [tickDelay]
  split
  · exact setTcb_waitNext_of_same rfl
  · rfl

/-- The first loop changes no link. -/
theorem counted_waitNext {W : WaitMap} (h : Lists s.k W) :
    s.counted.k.waitNext = s.k.waitNext ∧ Lists s.counted.k W := by
  have hwalk := walkAll_induction (f := tickDelay)
    (P := fun k => k.waitNext = s.k.waitNext ∧ Lists k W) (fun k x hk => by
      refine ⟨(tickDelay_waitNext k x).trans hk.1, lists_of_same (tickDelay_waitNext k x) ?_ hk.2⟩
      intro w
      rw [tickDelay]
      split
      · exact setTcb_head k x _ w
      · rfl)
    { s.k with tickCount := wrap (s.k.tickCount + 1) } ⟨rfl, lists_of_same rfl (fun _ => rfl) h⟩
    Kernel.next Kernel.taskList
  rw [counted_k]
  exact hwalk

/-- And it ends no wait on a list. -/
theorem Scheduled.expires_counted (h : Scheduled s g) (hlive : g.place t ≠ .fresh) :
    expires s.counted.k t = expires s.k t := by
  have htcb := (h.counted hlive).1
  rw [Tcb.delayTicked] at htcb
  generalize s.counted.k = k at htcb ⊢
  split at htcb
  · rename_i hcond
    have hnone : (s.k.tcb t).blockingWaitList = none := hcond.2.2
    have hnone' : (k.tcb t).blockingWaitList = none :=
      (congrArg Tcb.blockingWaitList htcb :).trans hnone
    rw [expires, expires, hnone, hnone', ite_self, ite_self]
  · have hstate : (k.tcb t).state = (s.k.tcb t).state := (congrArg Tcb.state htcb :)
    have hdelay : (k.tcb t).delayTicks = (s.k.tcb t).delayTicks :=
      (congrArg Tcb.delayTicks htcb :)
    have hlist : (k.tcb t).blockingWaitList = (s.k.tcb t).blockingWaitList :=
      (congrArg Tcb.blockingWaitList htcb :)
    rw [expires, expires, hstate, hdelay, hlist]

theorem Inv.expires_mem (h : Inv L s g) (hexp : expires s.k t = some w) : t ∈ g.lists w := by
  obtain ⟨_, hone, hsome⟩ := expires_eq_some.mp hexp
  obtain ⟨_, ⟨_, hnone⟩ | ⟨w', hplace, hlist⟩⟩ := h.counting (t := t) (by omega)
  · rw [hsome] at hnone
    cases hnone
  · obtain rfl := Option.some.inj (hlist.symm.trans hsome)
    exact (h.placed.mem_list t w').mpr hplace

theorem sysTick_waits (s : Sys) : s.sysTick.k.waitNext = s.synced.k.waitNext ∧
    (∀ w, s.sysTick.k.head w = s.synced.k.head w) := by
  rw [sysTick_eq]
  generalize s.synced = s'
  split
  · exact ⟨rfl, fun w => by cases w <;> rfl⟩
  · exact ⟨rfl, fun _ => rfl⟩

/-- A tick, for any control block, used or not. -/
theorem Inv.sysTick_tcb (h : Inv L s g) (t : Tid) :
    s.sysTick.k.tasks.tcb t = (s.k.tasks.tcb t).ticked := by
  by_cases hlive : g.place t = .fresh
  · have hview := h.placed.task t
    rw [hlive] at hview
    have hstate : (s.k.tcb t).state ≠ .waiting := by
      intro hwait
      exact absurd (hwait.symm.trans hview.state) (by simp)
    rw [sysTick_awake hstate, Tcb.ticked, Tcb.delayTicked, if_neg fun hcond => hstate hcond.1,
      Tcb.syncTicked, if_neg fun hcond => hstate hcond.1]
  · exact h.scheduled.sysTick_tcb hlive

/-- No tick writes to memory. -/
theorem sysTick_ram (s : Sys) : s.sysTick.k.ram = s.k.ram := by
  refine sysTick_induction (P := fun s' => s'.k.ram = s.k.ram) s rfl ?_ ?_ fun s' hs' => hs'
  · intro s' x hs'
    change (tickDelay s'.k x).ram = _
    rw [tickDelay]
    split
    · exact hs'
    · exact hs'
  · intro s' x hs'
    change (syncTickTask s'.k x).ram = _
    refine Eq.trans ?_ hs'
    have hvisit := syncTickTask_visit s'.k x
    generalize syncTickTask s'.k x = k' at hvisit ⊢
    cases hvisit with
    | passes hnot => rfl
    | counts hst hmore hlist => rfl
    | @expires w hst hone hlist =>
      have hplain := plain_unlinkWaiter (s'.k.setTcb x Tcb.waited) w x
      exact (congrArg Kernel.ram hplain :)

theorem Inv.sysTick_swept (h : Inv L s g) :
    Lists s.sysTick.k (fun w => (g.lists w).filter fun t => (expires s.k t).isNone) ∧
    (∀ t, (expires s.k t).isSome = true → s.sysTick.k.waitNext t = none) ∧
    ∀ t, (∀ w, t ∉ g.lists w) → s.sysTick.k.waitNext t = s.k.waitNext t := by
  obtain ⟨hcounted, hlists⟩ := counted_waitNext h.placed.lists
  have hexp : ∀ t, g.place t ≠ .fresh → expires s.counted.k t = expires s.k t := fun t ht =>
    h.scheduled.expires_counted ht
  have hlisted : ∀ t w, t ∈ g.lists w → g.place t ≠ .fresh := fun t w ht => by
    rw [(h.placed.mem_list t w).mp ht]
    simp
  have hswept := foldl_swept hlists h.placed.apart h.scheduled.nodup_visits fun t ht w hw => by
    rw [hexp t (h.scheduled.mem_visits.mp ht)] at hw
    exact h.expires_mem hw
  rw [← h.scheduled.synced] at hswept
  obtain ⟨hnext, hheads⟩ := sysTick_waits s
  generalize s.sysTick.k = k' at hnext hheads ⊢
  have hmap : (fun w => (g.lists w).filter (s.counted.k.outlasts g.visits)) =
      fun w => (g.lists w).filter fun t => (expires s.k t).isNone := by
    funext w
    refine List.filter_congr fun t ht => ?_
    have hlive := hlisted t w ht
    simp [Kernel.outlasts, h.scheduled.mem_visits.mpr hlive, hexp t hlive]
  refine ⟨?_, fun t hsome => ?_, fun t hoff => ?_⟩
  · rw [← hmap]
    exact lists_of_same hnext hheads hswept.lists
  · obtain ⟨w, hw⟩ := Option.isSome_iff_exists.mp hsome
    have hlive := hlisted t w (h.expires_mem hw)
    rw [hnext]
    exact hswept.freed t (h.scheduled.mem_visits.mpr hlive) (by rw [hexp t hlive]; exact hsome)
  · rw [hnext, hswept.off t hoff, hcounted]

/-- Control blocks with the same plain fields differ in the wait link only. -/
theorem tcb_of_plain {a b : Tcb} (h : a.plain = b.plain) : a = { b with waitNext := a.waitNext } :=
  congrArg (fun tcb : Tcb => { tcb with waitNext := a.waitNext }) h

/-- The tick of a task whose wait on a list is over, and of any other one. -/
theorem ticked_of_expires {k : Kernel} (hexp : expires k t = some w) :
    (k.tcb t).ticked = (k.tcb t).expired ∧ (k.tcb t).delayTicks = 1 := by
  obtain ⟨hst, hone, hlist⟩ := expires_eq_some.mp hexp
  have hsome : (k.tcb t).blockingWaitList ≠ none := by
    rw [hlist]
    simp
  have hpos : 0 < (k.tcb t).delayTicks := by omega
  rw [Tcb.ticked, Tcb.delayTicked, if_neg fun hcond => hsome hcond.2.2, Tcb.syncTicked,
    if_pos ⟨hst, hpos, hsome⟩, if_pos hone]
  exact ⟨rfl, hone⟩

theorem ticked_of_spared {k : Kernel} (hexp : expires k t = none) :
    (k.tcb t).ticked = { k.tcb t with
      delayTicks := (k.tcb t).ticked.delayTicks
      state := (k.tcb t).ticked.state } := by
  rw [Tcb.ticked, Tcb.delayTicked]
  split
  · rename_i hcond
    rw [Tcb.syncTicked, if_neg fun h => h.2.2 hcond.2.2]
    rfl
  · rw [Tcb.syncTicked]
    split
    · rename_i hcond
      split
      · rename_i hone
        rw [expires, if_pos ⟨hcond.1, hone⟩] at hexp
        exact absurd hexp hcond.2.2
      · rfl
    · rfl

/-- Every tick takes exactly the tasks off their lists whose time is up, wherever they stand,
and leaves the others in their order. -/
theorem timeouts_removed (hL : L.heap.Placed) (hs : s.Reached L) :
    ∃ W, Lists s.k W ∧ Removes s.k s.sysTick.k W := by
  obtain ⟨g, hg⟩ := hs.inv hL
  obtain ⟨hlists, hfreed, hoff⟩ := hg.sysTick_swept
  have htick := hg.sysTick_tcb
  have hram := sysTick_ram s
  generalize s.sysTick.k = k' at hlists hfreed hoff htick hram
  refine ⟨g.lists, hg.placed.lists, hlists, fun t w hexp => ⟨hg.expires_mem hexp, ?_⟩,
    fun t hexp => ⟨?_, ?_⟩, hram⟩
  · have hplain : expires s.k.tasks t = some w := hexp
    obtain ⟨hticked, hone⟩ := ticked_of_expires hplain
    have htcb := tcb_of_plain (a := k'.tcb t) (b := (s.k.tcb t).expired)
      ((htick t).trans hticked)
    rw [htcb, show (k'.tcb t).waitNext = none from hfreed t (by rw [hexp]; rfl)]
    have hzero : (s.k.tcb t).expired.delayTicks = 0 := congrArg (· - 1) hone
    exact congrArg (fun n => { (s.k.tcb t).expired with delayTicks := n, waitNext := none }) hzero
  · have hplain : expires s.k.tasks t = none := hexp
    have htcb := (htick t).trans (ticked_of_spared hplain)
    rw [← htick t] at htcb
    exact tcb_of_plain (b := { s.k.tcb t with
      delayTicks := (k'.tcb t).delayTicks, state := (k'.tcb t).state }) htcb
  · by_cases hon : ∃ w, t ∈ g.lists w
    · obtain ⟨w, hmem⟩ := hon
      by_cases hnext : ∃ x, s.k.waitNext t = some x ∧ expires s.k x ≠ none
      · obtain ⟨x, hx, hne⟩ := hnext
        obtain ⟨v, hv⟩ := Option.ne_none_iff_exists'.mp hne
        refine Or.inr ⟨w, x, hmem, hx, ?_⟩
        have hxw : x ∈ g.lists w := linked_next_mem (hg.placed.lists w) hmem hx
        obtain rfl := hg.placed.apart v w x (hg.expires_mem hv) hxw
        exact hv
      · refine Or.inl (linked_filter_next (hg.placed.lists w) (hlists w) hmem ?_ ?_)
        · rw [hexp]
          rfl
        · intro x hx
          by_contra hne
          exact hnext ⟨x, hx, fun hnone => hne (by rw [hnone]; rfl)⟩
    · exact Or.inl (hoff t fun w hw => hon ⟨w, hw⟩)

/-- Tasks 1 and 2 wait on one semaphore, and the next tick is the last for both. -/
theorem timeouts_removed_together : ∃ s : Sys, s.Reached boardLayout ∧
    (∀ t ∈ [1, 2], expires s.k t = some (.sem 0x20006428)) ∧
    ∃ W, Lists s.k W ∧ Removes s.k s.sysTick.k W := by
  obtain ⟨s, _, hboth, hs⟩ := boardRun_comes
    (boardReady ++ [.call (.create (.sem 0)), .go, .go, .call (.semTake 0x10000 2), .go, .go,
      .pendSV 0x2001F000, .tick, .call (.semTake 0x10000 1), .go])
    (P := fun s => ∀ t ∈ ([1, 2] : List Tid), expires s.k t = some (.sem 0x20006428))
    (by decide +kernel) fun _ hs => hs
  exact ⟨s, hs, hboth, timeouts_removed boardLayout_placed hs⟩

end Tick

end Crest
