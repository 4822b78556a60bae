import CrestRtos.System.Changes

/-!
# How wait lists change

A step lets a task join one list, takes the first task of one list off for a wake-up,
or does neither; then lists can only lose tasks, by timeouts. Takes and locks put the
new task in front of the others, queues put it behind them.
-/

namespace Crest
open IntrusiveList MachineWord Alloc

/-- Events that are no arrival and no hand-over. -/
def Event.offList : Event → Bool
  | .block _ _ _ => false
  | .handoff _ _ => false
  | _ => true

/-- The list `l` of `w` once `t` has joined it. -/
def joined (w : WaitList) (l : List Tid) (t : Tid) : List Tid :=
  if w.isQueue then l ++ [t] else t :: l

inductive Moved (W : WaitMap) (n : List Event) : WaitMap → Prop
  | fewer {W' : WaitMap} (hn : ∀ e ∈ n, e.offList = true) (hsub : ∀ w, (W' w).Sublist (W w)) :
      Moved W n W'
  | join {w : WaitList} {t : Tid} {ms : Nat} (hmem : .block w t ms ∈ n)
      (hn : ∀ e ∈ n, e.offList = true ∨ e = .block w t ms) :
      Moved W n (Function.update W w (joined w (W w) t))
  | leave {w : WaitList} {t : Tid} {r : List Tid} (hw : W w = t :: r) (hmem : .handoff w t ∈ n)
      (hn : ∀ e ∈ n, e.offList = true ∨ e = .handoff w t) : Moved W n (Function.update W w r)

/-- The task that the next critical section of `u` takes off a list, with the list. -/
def Op.handsOff (k : Kernel) (u : Tid) : Op → Option (WaitList × Tid)
  | .semGive s => (k.head (.sem s)).map (Prod.mk (.sem s))
  | .mutexUnlock m =>
    if (k.mutex m).owner = some u then (k.head (.mutex m)).map (Prod.mk (.mutex m)) else none
  | .mutexUnlockFor m owner =>
    if (k.mutex m).owner = some owner then (k.head (.mutex m)).map (Prod.mk (.mutex m)) else none
  | .queuePush q _ _ =>
    if (k.queue q).nextIndex (k.queue q).tail ≠ (k.queue q).head then
      (k.head (.recv q)).map (Prod.mk (.recv q))
    else none
  | .queuePop q _ _ =>
    if (k.queue q).head ≠ (k.queue q).tail then (k.head (.send q)).map (Prod.mk (.send q))
    else none
  | _ => none

section Enter
variable {k : Kernel} {W : WaitMap} {u : Tid}

theorem Moved.none {n : List Event} (hn : ∀ e ∈ n, e.offList = true) : Moved W n W :=
  .fewer hn fun _ => List.Sublist.refl _

/-- Events of no list before and behind change nothing. -/
theorem Moved.extend {n n' : List Event} {W' : WaitMap} (h : Moved W n W')
    (hold : ∀ e ∈ n, e ∈ n') (hnew : ∀ e ∈ n', e.offList = true ∨ e ∈ n) : Moved W n' W' := by
  have hall : ∀ e₀, (∀ e ∈ n, e.offList = true ∨ e = e₀) → ∀ e ∈ n', e.offList = true ∨ e = e₀ := by
    intro e₀ hn e he
    rcases hnew e he with hoff | hmem
    · exact Or.inl hoff
    · exact hn e hmem
  cases h with
  | fewer hn hsub =>
    refine .fewer (fun e he => ?_) hsub
    rcases hnew e he with hoff | hmem
    · exact hoff
    · exact hn e hmem
  | join hmem hn => exact .join (hold _ hmem) (hall _ hn)
  | leave hw hmem hn => exact .leave hw (hold _ hmem) (hall _ hn)

/-- A critical section on the lists `W`, which hands off what `given` says. -/
structure Shift (W : WaitMap) (given : Option (WaitList × Tid)) (k' : Kernel) (n : List Event) :
    Prop where
  lists : ∃ W', Lists k' W' ∧ Moved W n W'
  handoff : ∀ w t, .handoff w t ∈ n ↔ given = some (w, t)

theorem Shift.still {k' : Kernel} {n : List Event} (h : Lists k' W)
    (hn : ∀ e ∈ n, e.offList = true) : Shift W none k' n := by
  refine ⟨⟨W, h, .none hn⟩, fun w t => ?_⟩
  simp only [reduceCtorEq, iff_false]
  exact fun hmem => Bool.noConfusion (hn _ hmem)

theorem Shift.join {k' : Kernel} {n : List Event} {w : WaitList} {t : Tid} {ms : Nat}
    (hmem : .block w t ms ∈ n) (hn : ∀ e ∈ n, e.offList = true ∨ e = .block w t ms)
    (h : Lists k' (Function.update W w (joined w (W w) t))) : Shift W none k' n := by
  refine ⟨⟨_, h, .join hmem hn⟩, fun w t => ?_⟩
  simp only [reduceCtorEq, iff_false]
  intro hin
  rcases hn _ hin with hoff | heq
  · cases hoff
  · cases heq

theorem Shift.leave {k' : Kernel} {n : List Event} {w : WaitList} {t : Tid} {r : List Tid}
    (hw : W w = t :: r) (hmem : .handoff w t ∈ n)
    (hn : ∀ e ∈ n, e.offList = true ∨ e = .handoff w t)
    (h : Lists k' (Function.update W w r)) : Shift W (some (w, t)) k' n := by
  refine ⟨⟨_, h, .leave hw hmem hn⟩, fun w' t' => ?_⟩
  constructor
  · intro hin
    rcases hn _ hin with hoff | heq
    · cases hoff
    · obtain ⟨rfl, rfl⟩ := Event.handoff.inj heq
      rfl
  · intro heq
    obtain ⟨rfl, rfl⟩ := Prod.mk.inj (Option.some.inj heq)
    exact hmem

theorem take_shift (direct : Bool) {s ms : Nat} {t : Tid} (h : Lists k W) (ht : ∀ w, t ∉ W w) :
    Shift W none (takeSection direct k s t ms).1
      (takeNote s t ms (takeSection direct k s t ms).2) := by
  rw [takeSection]
  by_cases hcount : 0 < (k.sem s).count
  · rw [if_pos hcount]
    exact .still (lists_setSem h) (by simp [takeNote, Event.offList])
  · rw [if_neg hcount]
    by_cases hms : ms = 0
    · rw [if_pos hms]
      exact .still h (by simp [takeNote, minusOne])
    · rw [if_neg hms]
      exact .join (List.mem_singleton_self _) (by simp [takeNote])
        (park_front (k := k) direct ms (w := .sem s) h ht).2

theorem give_shift {s : Nat} (h : Lists k W) (hd : Apart W) :
    Shift W ((k.head (.sem s)).map (Prod.mk (.sem s))) (zImplSemGive k s).1
      (giveNote s (zImplSemGive k s).2) := by
  rw [zImplSemGive]
  cases hhead : (k.sem s).waitList with
  | none =>
    rw [show k.head (.sem s) = none from hhead]
    exact .still (lists_setSem h) (by simp [giveNote, Event.offList])
  | some x =>
    rw [show k.head (.sem s) = some x from hhead]
    obtain ⟨r, hr⟩ := head_eq_some (w := .sem s) h hhead
    exact .leave hr (by simp [giveNote]) (by simp [giveNote, Event.offList])
      (lists_popWaiter h hd hr)

theorem lock_shift (direct : Bool) {m ms : Nat} {t : Tid} (h : Lists k W) (ht : ∀ w, t ∉ W w) :
    Shift W none (lockSection direct k m t ms).1
      (lockNote k m t ms (lockSection direct k m t ms).2) := by
  have hquiet : ∀ v, ∀ e ∈ lockNote k m t ms (.ret v), e.offList = true := by
    intro v e he
    simp only [lockNote] at he
    split at he
    · rw [List.mem_singleton.mp he]
      rfl
    · split at he
      · rw [List.mem_singleton.mp he]
        rfl
      · cases he
  rw [lockSection]
  by_cases hown : (k.mutex m).owner = some t
  · rw [if_pos hown]
    exact .still h (hquiet 0)
  · rw [if_neg hown]
    by_cases hfree : (k.mutex m).owner = none
    · rw [if_pos hfree]
      exact .still (lists_setMutex h) (hquiet 0)
    · rw [if_neg hfree]
      by_cases hms : ms = 0
      · rw [if_pos hms]
        exact .still h (hquiet minusOne)
      · rw [if_neg hms]
        exact .join (List.mem_singleton_self _) (by simp [lockNote])
          (park_front (k := k) direct ms (w := .mutex m) h ht).2

theorem unlock_shift {m : Nat} {t : Tid} (h : Lists k W) (hd : Apart W) :
    Shift W
      (if (k.mutex m).owner = some t then (k.head (.mutex m)).map (Prod.mk (.mutex m)) else none)
      (unlockSection k m t).1 (unlockNote m t (unlockSection k m t).2) := by
  rw [unlockSection]
  by_cases hown : (k.mutex m).owner = some t
  · rw [if_pos hown, if_neg (not_not.mpr hown)]
    cases hhead : (k.mutex m).waitList with
    | none =>
      rw [show k.head (.mutex m) = none from hhead]
      exact .still (lists_setMutex h) (by simp [unlockNote, Event.offList])
    | some x =>
      rw [show k.head (.mutex m) = some x from hhead]
      obtain ⟨r, hr⟩ := head_eq_some (w := .mutex m) h hhead
      exact .leave hr (by simp [unlockNote]) (by simp [unlockNote, Event.offList])
        (lists_setMutex (lists_popWaiter h hd hr))
  · rw [if_neg hown, if_pos hown]
    exact .still h (by simp [unlockNote])

/-- After a copy the first task on the other side is taken off its list. -/
theorem wakeFirst_shift {k' : Kernel} {w : WaitList} (notes : Outcome → List Event)
    (hhead : k'.head w = k.head w) (h : Lists k' W) (hd : Apart W)
    (hret : ∀ e ∈ notes (.ret 0), e.offList = true)
    (hwake : ∀ x, .handoff w x ∈ notes (.wake x 0) ∧
      ∀ e ∈ notes (.wake x 0), e.offList = true ∨ e = .handoff w x) :
    Shift W ((k.head w).map (Prod.mk w)) (wakeFirst k' w).1 (notes (wakeFirst k' w).2) := by
  rw [wakeFirst, ← hhead]
  cases hfirst : k'.head w with
  | none => exact .still h hret
  | some x =>
    obtain ⟨r, hr⟩ := head_eq_some h hfirst
    exact .leave hr (hwake x).1 (hwake x).2 (lists_popWaiter h hd hr)

theorem pass_shift {ready : Kernel → Prop} [DecidablePred ready] {copy : Kernel → Kernel}
    {w w' : WaitList} {copied found : Event} {ms : Nat} (h : Lists k W) (hd : Apart W)
    (ht : ∀ w, u ∉ W w) (hcopy : Lists (copy k) W) (hhead : (copy k).head w = k.head w)
    (hjoin : joined w' (W w') u = W w' ++ [u]) (hcopied : copied.offList = true)
    (hfound : found.offList = true) :
    Shift W (if ready k then (k.head w).map (Prod.mk w) else none)
      (queuePass ready copy w w' k u ms).1
      (passNote w w' copied found u ms (queuePass ready copy w w' k u ms).2) := by
  rw [queuePass]
  by_cases hready : ready k
  · rw [if_pos hready, if_pos hready]
    refine wakeFirst_shift (passNote w w' copied found u ms) hhead hcopy hd ?_ ?_
    · simpa [passNote] using hcopied
    · simp [passNote, hcopied]
  · rw [if_neg hready, if_neg hready]
    by_cases hms : ms = 0
    · rw [if_pos hms]
      exact .still h (by simpa [passNote, minusOne] using hfound)
    · rw [if_neg hms]
      exact .join List.mem_cons_self (by simp [queueBlock, passNote, hfound])
        (hjoin ▸ (queueBlock_spec (w := w') ms h hd ht).2)

theorem push_shift {q item ms : Nat} (h : Lists k W) (hd : Apart W) (ht : ∀ w, u ∉ W w) :
    Shift W (Op.handsOff k u (.queuePush q item ms)) (zImplQueuePush k q u item ms).1
      (pushNote k q u item ms (zImplQueuePush k q u item ms).2) := by
  have hhead : (copyIn k q item).head (.recv q) = k.head (.recv q) := by
    simp [copyIn, Kernel.head, Kernel.setQueue]
  rw [zImplQueuePush_pass]
  apply pass_shift h hd ht
  · exact lists_setQueue rfl rfl h
  · exact hhead
  · rfl
  · rfl
  · rfl

theorem pop_shift {q item ms : Nat} (h : Lists k W) (hd : Apart W) (ht : ∀ w, u ∉ W w) :
    Shift W (Op.handsOff k u (.queuePop q item ms)) (zImplQueuePop k q u item ms).1
      (popNote (zImplQueuePop k q u item ms).1 q u item ms
        (zImplQueuePop k q u item ms).2) := by
  have hhead : (copyOut k q item).head (.send q) = k.head (.send q) := by
    simp [copyOut, Kernel.head, Kernel.setQueue]
  rw [zImplQueuePop_pass]
  apply pass_shift h hd ht
  · exact lists_setQueue rfl rfl h
  · exact hhead
  · rfl
  · rfl
  · rfl

theorem lists_schedulerSleep (t : Tid) (ticks : Nat) (h : Lists k W) :
    Lists (schedulerSleep k t ticks) W := lists_setTcb rfl h

/-- What a critical section of a call does to the wait lists. -/
theorem enter_shift (op : Op) (h : Lists k W) (hd : Apart W) (ht : ∀ w, op.blocker u ∉ W w) :
    Shift W (op.handsOff k u) (op.enter k u).1
      (op.note k (op.enter k u).1 u (op.enter k u).2) := by
  cases op with
  | semTake s ms => exact take_shift true h ht
  | semTryTake s caller ms => exact take_shift false h ht
  | semGive s => exact give_shift h hd
  | mutexLock m ms => exact lock_shift true h ht
  | mutexTryLock m caller ms => exact lock_shift false h ht
  | mutexUnlock m => exact unlock_shift h hd
  | mutexUnlockFor m owner => exact unlock_shift h hd
  | queuePush q item ms => exact push_shift h hd ht
  | queuePop q item ms => exact pop_shift h hd ht
  | delay ticks =>
    simp only [Op.enter, zImplTaskDelay]
    by_cases hticks : ticks = 0
    · rw [if_pos hticks]
      exact .still h fun _ he => (List.not_mem_nil he).elim
    · rw [if_neg hticks]
      exact .still (lists_schedulerSleep u ticks h) fun _ he => (List.not_mem_nil he).elim

end Enter

/-- What the next step takes off a list to wake it up. -/
def Sys.handsOff (s : Sys) : Label → Option (WaitList × Tid)
  | .go =>
    if s.k.pendsv then none
    else
      s.k.currentTask.bind fun u =>
        match s.pc u with
        | .enter op _ => op.handsOff s.k u
        | .retry op _ => op.again.handsOff s.k u
        | _ => none
  | _ => none

section Step
variable {L : Layout} {s s' : Sys} {g : Ghost} {W : WaitMap} {u : Tid}

/-- The wait lists after some events of no list, with nothing handed off. -/
structure Still (s s' : Sys) (W : WaitMap) : Prop where
  log : ∃ n, s'.log = n ++ s.log ∧ ∀ e ∈ n, e.offList = true
  lists : ∃ W', Lists s'.k W' ∧ ∀ w, (W' w).Sublist (W w)

theorem Still.same {n : List Event} {k : Kernel} {pc : Tid → Pc}
    (hn : ∀ e ∈ n, e.offList = true) (h : Lists k W) : Still s ⟨k, pc, n ++ s.log⟩ W :=
  ⟨⟨n, rfl, hn⟩, W, h, fun _ => List.Sublist.refl _⟩

theorem Still.code {k : Kernel} {pc : Tid → Pc} (h : Lists k W) : Still s ⟨k, pc, s.log⟩ W :=
  .same (n := []) (fun _ he => (List.not_mem_nil he).elim) h

theorem Still.finish {k : Kernel} {pc : Tid → Pc} (r : Ret) (v : Nat) (h : Lists k W) :
    Still s ((⟨k, pc, s.log⟩ : Sys).finish u r v) W := by
  cases r with
  | app => exact .same (n := [.result u v]) (by simp [Event.offList]) h
  | serve c => exact .code h

theorem answerNote_offList (k : Kernel) (t : Tid) (v : Nat) :
    ∀ e ∈ answerNote k t v, e.offList = true := by
  rw [answerNote]
  split
  · simp [Event.offList]
  · simp

theorem lists_of_fields {k k' : Kernel} (htcb : k'.tcb = k.tcb) (hsem : k'.sem = k.sem)
    (hmutex : k'.mutex = k.mutex) (hqueue : k'.queue = k.queue) (h : Lists k W) : Lists k' W := by
  refine lists_of_same ?_ (fun w => ?_) h
  · funext t
    rw [Kernel.waitNext, Kernel.waitNext, htcb]
  · cases w <;> simp only [Kernel.head, hsem, hmutex, hqueue]

theorem still_dispatch (h : Lists s.k W) (item : WorkItem) : Still s (s.dispatch u item) W := by
  rw [Sys.dispatch]
  cases decode s.k item with
  | sleep ticks =>
    refine .same (answerNote_offList s.k item.caller 0) ?_
    have hanswer : Lists (s.k.setTcb item.caller fun tcb =>
        { tcb with savedR0 := 0, svcBlocked := false }) W := lists_setTcb rfl h
    exact lists_schedulerSleep item.caller ticks hanswer
  | _ => exact .code h

theorem still_check (h : Lists s.k W) (op : Op) (r : Ret) : Still s (s.checkWait u op r) W := by
  rw [Sys.checkWait]
  cases op.waitList with
  | none => exact .code h
  | some w =>
    simp only
    split
    · split
      · exact .finish r _ h
      · exact .code h
    · split
      · have hflag : Lists (s.k.setTcb u fun tcb => { tcb with timedOut := false }) W :=
          lists_setTcb rfl h
        exact .finish r _ hflag
      · exact .finish r _ h

/-- No task waits at an address that `malloc` has just handed out. -/
theorem still_create {c : Creation} {r : Ret} (hL : L.heap.Placed) (h : Inv L s g)
    (hstep : s.create L u c r = some s') : Still s s' g.lists := by
  obtain ⟨⟨k, p⟩, halloc, rfl⟩ := Option.map_eq_some_iff.mp hstep
  by_cases hp : p = 0
  · subst hp
    simp only [if_true]
    refine .finish r _ ?_
    rcases alloc_cases halloc with ⟨_, rfl⟩ | ⟨heap, _, _, rfl⟩
    · exact h.placed.lists
    · exact lists_of_fields (k := s.k) rfl rfl rfl rfl h.placed.lists
  · simp only [if_neg hp]
    rcases alloc_cases halloc with ⟨hzero, _⟩ | ⟨heap, hmalloc, hrej, hk⟩
    · exact absurd hzero hp
    rw [if_neg hp] at hk
    have hfresh := h.objects.heap.fresh hL hmalloc hp
    have hempty : ∀ w, w.addr = p → g.lists w = [] := by
      intro w hw
      by_contra hne
      exact hfresh (hw ▸ h.objects.known _ _ (h.objects.lists w hne))
    have hlists : Lists k g.lists := by
      rw [hk]
      exact lists_init c (lists_of_fields (k := s.k) rfl rfl rfl rfl h.placed.lists) hempty
    cases c with
    | sem initial => exact .same (n := [_]) (by simp [Event.offList]) hlists
    | mutex => exact .same (n := [_]) (by simp [Event.offList]) hlists
    | queue itemSize size => exact .same (n := [_]) (by simp [Event.offList]) hlists

theorem lists_queueBuffer {k : Kernel} {p : Nat} {ok : Bool} (h : Lists s.k W)
    (hrun : queueInitBuffer L s.k p = some (k, ok)) : Lists k W := by
  rw [queueInitBuffer] at hrun
  split at hrun
  · obtain ⟨rfl, _⟩ := Prod.mk.inj (Option.some.inj hrun)
    exact h
  · obtain ⟨⟨heap, buffer⟩, _, hk⟩ := Option.map_eq_some_iff.mp hrun
    obtain ⟨rfl, _⟩ := Prod.mk.inj hk
    exact lists_setQueue rfl rfl (lists_of_fields (k := s.k) rfl rfl rfl rfl h)

theorem lists_kObjAlloc {k : Kernel} (p : Nat) (type : KobjType) (h : Lists k W) :
    Lists (kObjAlloc k p type).1 W := by
  rw [kObjAlloc]
  repeat' split
  all_goals exact h

theorem lists_workerWait {k : Kernel} (h : Lists k W) : Lists (workerWait k) W := by
  rw [workerWait]
  split
  · exact h
  · exact lists_setTcb rfl h

/-- Kernel code outside the critical sections of calls. -/
theorem Inv.still_go (hL : L.heap.Placed) (h : Inv L s g)
    (henter : ∀ op r, s.pc u ≠ .enter op r) (hretry : ∀ op r, s.pc u ≠ .retry op r)
    (hstep : s.go L u = some s') : Still s s' g.lists := by
  have hlists := h.placed.lists
  cases go_cases hstep with
  | enter op r hpc => exact absurd hpc (henter op r)
  | retry op r hpc => exact absurd hpc (hretry op r)
  | svcRet hpc => exact .same (n := [_]) (by simp [Event.offList]) hlists
  | check op r hpc => exact still_check hlists op r
  | wake t v after hpc => exact .same (answerNote_offList s.k t v) (lists_wakeSection t v hlists)
  | pend after hpc =>
    cases after with
    | ret r v => exact .finish r v (k := portTriggerPendsv s.k) hlists
    | loop => exact .code (k := portTriggerPendsv s.k) hlists
  | popNone hpc hpop => exact .code hlists
  | popSome k item hpc hpop =>
    obtain ⟨rfl, _⟩ := kworkPop_some h.coded.head h.coded.tail hpop
    refine .same (n := [.taken item]) (by simp [Event.offList]) ?_
    exact lists_of_fields (k := s.k) rfl rfl rfl rfl hlists
  | workerSleep hpc => exact .code (lists_workerWait hlists)
  | dispatch item hpc => exact still_dispatch hlists item
  | create c r s' hpc hrun => exact still_create hL h hrun
  | queueBuffer p r k ok hpc hrun => exact .code (lists_queueBuffer hlists hrun)
  | queueFree p r k hpc hrun =>
    obtain ⟨heap, _, rfl⟩ := Option.map_eq_some_iff.mp hrun
    exact .finish r _ (lists_of_fields (k := s.k) rfl rfl rfl rfl hlists)
  | publish p type r hpc => exact .finish r _ (lists_kObjAlloc p type hlists)
  | spawnNone args hpc hfree => exact .finish .app 0 hlists
  | spawnTcb args k t hpc hfree =>
    obtain ⟨_, rfl⟩ := getFreeTcb_some hfree
    exact .code (lists_of_fields (k := s.k) rfl rfl rfl rfl hlists)
  | spawnStack t args heap alloc hpc hrun =>
    exact .code (lists_of_fields (k := s.k) rfl rfl rfl rfl hlists)
  | spawnFree t hpc => exact .finish .app 0 (lists_of_fields (k := s.k) rfl rfl rfl rfl hlists)
  | spawnAdd t alloc args hpc =>
    have hfresh := (h.scheduled.spawns u t (by rw [hpc]; rfl)).1
    exact .finish .app 0 (lists_joined (schedulerAddTask_joined _ _ _ _) hlists
      (h.placed.notMem fun w => by rw [hfresh]; simp))
  | _ hpc => exact .code (lists_of_fields (k := s.k) rfl rfl rfl rfl hlists)

theorem still_callObject (h : Lists s.k W) (handle : Nat) (type : KobjType) (f : Nat → Op)
    (missing : Nat) : Still s (s.callObject u handle type f missing) W := by
  rw [Sys.callObject]
  split
  · exact .finish .app missing h
  · exact .code h

theorem still_call (h : Lists s.k W) (c : Call) : Still s (s.call u c) W := by
  cases c with
  | semTake handle ms => exact still_callObject h _ _ _ _
  | semGive handle => exact still_callObject h _ _ _ _
  | mutexLock handle ms => exact still_callObject h _ _ _ _
  | mutexUnlock handle => exact still_callObject h _ _ _ _
  | queuePush handle item ms => exact still_callObject h _ _ _ _
  | queuePop handle item ms => exact still_callObject h _ _ _ _
  | taskCreate args =>
    rw [Sys.call]
    split
    · exact .code h
    · exact .finish .app 0 h
  | setUnprivileged =>
    have huser : Lists (s.k.setTcb u fun tcb => { tcb with user := true }) W := lists_setTcb rfl h
    exact .code (lists_of_fields rfl rfl rfl rfl huser)
  | _ => exact .code h

/-- A timeout finds its task on the list or leaves the list alone. -/
theorem lists_unlink {k : Kernel} (w : WaitList) (t : Tid) (h : Lists k W) (hd : Apart W) :
    ∃ W', Lists (unlinkWaiter k w t) W' ∧ ∀ w', (W' w').Sublist (W w') := by
  by_cases ht : t ∈ W w
  · obtain ⟨l, r, hw⟩ := List.append_of_mem ht
    refine ⟨_, lists_unlinkWaiter h hd hw, fun w' => ?_⟩
    by_cases hw' : w' = w
    · subst hw'
      rw [Function.update_self, hw]
      exact (List.Sublist.refl l).append (List.sublist_cons_self t r)
    · rw [Function.update_of_ne hw']
  · have hmissing := searchFrom_missing maxTasks none (h w) ht (length_le_tasks h w)
    refine ⟨W, ?_, fun _ => List.Sublist.refl _⟩
    rw [unlinkWaiter]
    simp only [hmissing, reduceCtorEq, if_false]
    exact h

theorem apart_sublist {W' : WaitMap} (hd : Apart W) (hsub : ∀ w, (W' w).Sublist (W w)) :
    Apart W' := fun w w' t hw hw' => hd w w' t ((hsub w).subset hw) ((hsub w').subset hw')

theorem lists_syncTickTask {k : Kernel} (t : Tid) (h : Lists k W) (hd : Apart W) :
    ∃ W', Lists (syncTickTask k t) W' ∧ ∀ w, (W' w).Sublist (W w) := by
  have hvisit := syncTickTask_visit k t
  generalize syncTickTask k t = k' at hvisit ⊢
  have hcount : Lists (k.setTcb t Tcb.waited) W := lists_setTcb rfl h
  cases hvisit with
  | passes hnot => exact ⟨W, h, fun _ => List.Sublist.refl _⟩
  | counts hst hmore hlist => exact ⟨W, hcount, fun _ => List.Sublist.refl _⟩
  | @expires w hst hone hlist =>
    obtain ⟨W', hW', hsub⟩ := lists_unlink w t hcount hd
    exact ⟨W', lists_wakeSection t minusOne (lists_setTcb rfl hW'), hsub⟩

theorem still_sysTick (h : Lists s.k W) (hd : Apart W) : Still s s.sysTick W := by
  refine sysTick_induction (P := fun s' => Still s s' W) s ?_ ?_ ?_ ?_
  · exact .code (lists_of_fields (k := s.k) rfl rfl rfl rfl h)
  · rintro s' t ⟨hlog, W', hW', hsub⟩
    refine ⟨hlog, W', ?_, hsub⟩
    change Lists (tickDelay s'.k t) W'
    rw [tickDelay]
    split
    · exact lists_setTcb rfl hW'
    · exact hW'
  · rintro s' t ⟨⟨n, hlog, hn⟩, W', hW', hsub⟩
    obtain ⟨W'', hW'', hsub'⟩ := lists_syncTickTask t hW' (apart_sublist hd hsub)
    refine ⟨?_, W'', hW'', fun w => (hsub' w).trans (hsub w)⟩
    rw [Sys.syncTickTask]
    cases expires s'.k t with
    | none => exact ⟨n, hlog, hn⟩
    | some w =>
      refine ⟨(answerNote s'.k t minusOne ++ [.expire w t]) ++ n, ?_, ?_⟩
      · simp only [Sys.note, hlog, List.append_assoc]
      · intro e he
        rcases List.mem_append.mp he with hnew | hold
        · rcases List.mem_append.mp hnew with hans | hlast
          · exact answerNote_offList _ _ _ e hans
          · rw [List.mem_singleton.mp hlast]
            rfl
        · exact hn e hold
  · rintro s' ⟨hlog, W', hW', hsub⟩
    exact ⟨hlog, W', hW', hsub⟩

theorem Still.shift (h : Still s s' W) {given : Option (WaitList × Tid)} (hgiven : given = none) :
    ∃ n, s'.log = n ++ s.log ∧ Shift W given s'.k n := by
  obtain ⟨⟨n, hlog, hn⟩, W', hW', hsub⟩ := h
  refine ⟨n, hlog, ⟨W', hW', .fewer hn hsub⟩, fun w t => ?_⟩
  simp only [hgiven, reduceCtorEq, iff_false]
  exact fun hmem => Bool.noConfusion (hn _ hmem)

theorem offList_of_offObject {e : Event} (h : e.offObject = true) : e.offList = true := by
  cases e <;> first | rfl | cases h

theorem runOp_shift {op : Op} (pre : List Event) (r : Ret)
    (hready : Ready s.k (pre ++ s.log) W u op) (hpre : ∀ e ∈ pre, e.offList = true) :
    ∃ n, ((s.note pre).runOp u op r).log = n ++ s.log ∧
      Shift W (op.handsOff s.k u) ((s.note pre).runOp u op r).k n := by
  obtain ⟨⟨W', hW', hmoved⟩, hhand⟩ := enter_shift op hready.lists hready.apart hready.blocker
  obtain ⟨n, hlog, hn⟩ := runOp_log (s.note pre) u op r
  change _ = n ++ (op.note s.k (op.enter s.k u).1 u (op.enter s.k u).2 ++ (pre ++ s.log)) at hlog
  rw [runOp_k]
  generalize op.note s.k (op.enter s.k u).1 u (op.enter s.k u).2 = notes at hmoved hhand hlog
  have hsplit : ∀ e ∈ n ++ notes ++ pre, e.offList = true ∨ e ∈ notes := by
    intro e he
    rcases List.mem_append.mp he with hmem | hmem
    · rcases List.mem_append.mp hmem with hfirst | hnote
      · exact Or.inl (offList_of_offObject (hn e hfirst))
      · exact Or.inr hnote
    · exact Or.inl (hpre e hmem)
  have hold : ∀ e ∈ notes, e ∈ n ++ notes ++ pre := fun e he =>
    List.mem_append_left _ (List.mem_append_right _ he)
  refine ⟨n ++ notes ++ pre, by simp [hlog], ⟨W', hW', hmoved.extend hold hsplit⟩, fun w t => ?_⟩
  rw [← hhand w t]
  refine ⟨fun hmem => ?_, hold _⟩
  rcases hsplit _ hmem with hoff | hnote
  · cases hoff
  · exact hnote

/-- What one step does to the wait lists. -/
theorem Inv.shift {l : Label} (hL : L.heap.Placed) (h : Inv L s g) (hstep : s.step L l = some s') :
    ∃ n, s'.log = n ++ s.log ∧ Shift g.lists (s.handsOff l) s'.k n := by
  have hlists := h.placed.lists
  obtain ⟨rfl, htick⟩ | ⟨oldSp, k, rfl, _, hrun, rfl⟩ | ⟨u, hpend, hcur, hthread⟩ :=
    step_cases hstep
  · rw [htick]
    exact (still_sysTick hlists h.placed.apart).shift rfl
  · refine (Still.code (s := s) ?_).shift rfl
    obtain ⟨x, hsw⟩ := h.switched hrun
    exact hsw.lists hlists
  · cases l with
    | tick => cases hthread
    | pendSV oldSp => cases hthread
    | svc id a0 a1 a2 a3 =>
      rw [Sys.thread] at hthread
      split at hthread
      · rename_i hc
        obtain rfl := Option.some.inj hthread
        have hposted := @Inv.svc_posted _ _ _ ⟨id, a0, a1, a2, a3, u⟩ h hc.1
        exact (Still.same (n := [_]) (by simp [Event.offList]) (hposted.lists _ hlists)).shift rfl
      · cases hthread
    | call c =>
      rw [Sys.thread] at hthread
      split at hthread
      · obtain rfl := Option.some.inj hthread
        exact (still_call hlists c).shift rfl
      · cases hthread
    | compute r0 ram =>
      rw [Sys.thread] at hthread
      split at hthread
      · obtain rfl := Option.some.inj hthread
        have hk : Lists { s.k with r0 := r0, ram := ram } g.lists := hlists
        exact (Still.code hk).shift rfl
      · cases hthread
    | go =>
      have hgiven : s.handsOff .go = match s.pc u with
          | .enter op _ => op.handsOff s.k u
          | .retry op _ => op.again.handsOff s.k u
          | _ => none := by
        rw [Sys.handsOff, hpend, hcur]
        rfl
      rw [hgiven]
      have hrefs := h.objects.refs u
      cases hpc : s.pc u with
      | enter op r =>
        rw [hpc] at hrefs
        simp only [Sys.thread, Sys.go, hpc, Option.some.injEq] at hthread
        subst hthread
        exact runOp_shift [] r (h.ready_enter hcur hpend hrefs hpc)
          fun _ he => (List.not_mem_nil he).elim
      | retry op r =>
        have hfits := h.coded.pcs u
        rw [hpc] at hfits hrefs
        obtain ⟨_, _, _, w, hw, hqueue⟩ := hfits
        simp only [Sys.thread, Sys.go, hpc, Option.some.injEq] at hthread
        subst hthread
        rw [hw]
        exact runOp_shift [.recheck w u] r (h.ready_retry hcur hpend hrefs hpc hw hqueue)
          (by simp [Event.offList])
      | _ =>
        exact (h.still_go hL (by rw [hpc]; simp) (by rw [hpc]; simp) hthread).shift rfl

end Step

end Crest
