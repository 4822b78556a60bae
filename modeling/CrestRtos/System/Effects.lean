import CrestRtos.System.Phases
import CrestRtos.System.WaitLists

/-!
# What a critical section does to tasks and wait lists

`tasks` keeps what scheduling and blocking depend on: the control blocks without
their wait links, the run lists, the work ring and the CPU. Every critical
section of a kernel call is one of five kinds of change to it, and to the wait
lists; `enter_effect` says which.
-/

namespace Crest
open IntrusiveList

def Kernel.tasks (k : Kernel) : Kernel :=
  { k.plain with
    heap := ⟨fun _ => 0, 0, false⟩
    table := fun _ => ⟨0, .queue, false, 0⟩
    sem := fun _ => ⟨0, none⟩
    mutex := fun _ => ⟨none, none⟩
    queue := fun _ => ⟨0, 0, 0, 0, 0, 0, fun _ => 0, none, none⟩
    ram := fun _ => 0 }

/-- The control block of a task that has been put on `w`. -/
def Tcb.parked (direct : Bool) (w : WaitList) (ms : Nat) (tcb : Tcb) : Tcb :=
  let tcb := if direct then { tcb with timedOut := false, state := .waiting } else tcb
  if ms ≠ waitForever then { tcb with delayTicks := ms, blockingWaitList := some w }
  else { tcb with delayTicks := 0, blockingWaitList := none }

/-- The control block of a task that has been taken off its list. -/
def Tcb.unlinked (tcb : Tcb) : Tcb :=
  { tcb with waitNext := none, delayTicks := 0, blockingWaitList := none }

theorem tasks_of_plain {k k' : Kernel} (h : k'.plain = k.plain) : k'.tasks = k.tasks := by
  rw [Kernel.tasks, Kernel.tasks, h]

theorem tasks_setTcb {k : Kernel} {t : Tid} {f : Tcb → Tcb}
    (hf : (f (k.tcb t)).plain = f (k.tcb t).plain) :
    (k.setTcb t f).tasks = k.tasks.setTcb t f := by
  have h := plain_setTcb hf
  rw [Kernel.tasks, h]
  rfl

theorem tasks_of_plain_setTcb {k k' : Kernel} {t : Tid} {f : Tcb → Tcb}
    (h : k'.plain = k.plain.setTcb t f) : k'.tasks = k.tasks.setTcb t f := by
  rw [Kernel.tasks, h]
  rfl

theorem plain_armTimeout (k : Kernel) (w : WaitList) (t : Tid) (ms : Nat) :
    (armTimeout k w t ms).plain = k.plain.setTcb t fun tcb =>
      if ms ≠ waitForever then { tcb with delayTicks := ms, blockingWaitList := some w }
      else { tcb with delayTicks := 0, blockingWaitList := none } := by
  refine plain_setTcb ?_
  by_cases h : ms ≠ waitForever
  · simp only [if_pos h]
    rfl
  · simp only [if_neg h]
    rfl

theorem lists_armTimeout {k : Kernel} {L : WaitMap} (w : WaitList) (t : Tid) (ms : Nat)
    (h : Lists k L) : Lists (armTimeout k w t ms) L := by
  refine lists_setTcb ?_ h
  by_cases hms : ms ≠ waitForever
  · simp only [if_pos hms]
  · simp only [if_neg hms]

theorem setTcb_setTcb (k : Kernel) (t : Tid) (f g : Tcb → Tcb) :
    (k.setTcb t f).setTcb t g = k.setTcb t fun tcb => g (f tcb) := by
  simp [Kernel.setTcb]

/-- The task a call can put on a wait list. -/
def Op.blocker (u : Tid) : Op → Tid
  | .semTryTake _ caller _ => caller
  | .mutexTryLock _ caller _ => caller
  | _ => u

/-- The list a call can put its task on. -/
def Op.target : Op → Option WaitList
  | .semTryTake s _ _ => some (.sem s)
  | .mutexTryLock m _ _ => some (.mutex m)
  | op => op.waitList

/-- The list a call can take a task from. -/
def Op.source : Op → Option WaitList
  | .semGive s => some (.sem s)
  | .mutexUnlock m => some (.mutex m)
  | .mutexUnlockFor m _ => some (.mutex m)
  | .queuePush q _ _ => some (.recv q)
  | .queuePop q _ _ => some (.send q)
  | _ => none

def Op.timeout : Op → Nat
  | .semTake _ ms => ms
  | .semTryTake _ _ ms => ms
  | .mutexLock _ ms => ms
  | .mutexTryLock _ _ ms => ms
  | .queuePush _ _ ms => ms
  | .queuePop _ _ ms => ms
  | _ => 0

inductive Effect (k : Kernel) (L : WaitMap) (u : Tid) (op : Op) :
    Kernel → Outcome → List Event → WaitMap → Prop
  | ret {k' : Kernel} {v : Nat} {notes : List Event} (htasks : k'.tasks = k.tasks)
      (hlists : Lists k' L)
      (hnotes : ∀ log x, waitPhase (notes ++ log) x = waitPhase log x) :
      Effect k L u op k' (.ret v) notes L
  | pend {k' : Kernel} {v : Nat} {notes : List Event} (htasks : k'.tasks = k.tasks)
      (hlists : Lists k' L)
      (hnotes : ∀ log x, waitPhase (notes ++ log) x = waitPhase log x) :
      Effect k L u op k' (.pend v) notes L
  | sleep {ticks : Nat} {notes : List Event} (hop : op = .delay ticks) (hticks : ticks ≠ 0)
      (hlists : Lists (schedulerSleep k u ticks) L)
      (hnotes : ∀ log x, waitPhase (notes ++ log) x = waitPhase log x) :
      Effect k L u op (schedulerSleep k u ticks) (.pend 0) notes L
  | block {k' : Kernel} {notes : List Event} {w : WaitList} {l : List Tid}
      (hop : op.target = some w) (hms : op.timeout ≠ 0)
      (htasks : k'.tasks =
        k.tasks.setTcb (op.blocker u) (Tcb.parked op.waitList.isSome w op.timeout))
      (hlists : Lists k' (Function.update L w l))
      (hmem : ∀ x, x ∈ l ↔ x = op.blocker u ∨ x ∈ L w)
      (hnotes : ∀ log x, waitPhase (notes ++ log) x =
        (waitPhase log x).next x (.block w (op.blocker u) op.timeout)) :
      Effect k L u op k' .block notes (Function.update L w l)
  | wake {k' : Kernel} {notes : List Event} {w : WaitList} {x : Tid} {r : List Tid} {v : Nat}
      (hop : op.source = some w) (hw : L w = x :: r)
      (htasks : k'.tasks = k.tasks.setTcb x Tcb.unlinked)
      (hlists : Lists k' (Function.update L w r))
      (hnotes : ∀ log y, waitPhase (notes ++ log) y =
        (waitPhase log y).next y (.handoff w x)) :
      Effect k L u op k' (.wake x v) notes (Function.update L w r)

section Sections
variable {k : Kernel} {L : WaitMap} {u : Tid}

theorem lists_setSem {s : Nat} {n : Int} (h : Lists k L) :
    Lists (k.setSem s { k.sem s with count := n }) L := by
  refine lists_of_same (k := k) rfl (fun w => ?_) h
  cases w with
  | sem a =>
    by_cases ha : a = s
    · subst ha
      simp [Kernel.head, Kernel.setSem]
    · simp [Kernel.head, Kernel.setSem, ha]
  | mutex a => rfl
  | send a => rfl
  | recv a => rfl

theorem lists_setMutex {m : Nat} {o : Option Tid} (h : Lists k L) :
    Lists (k.setMutex m { k.mutex m with owner := o }) L := by
  refine lists_of_same (k := k) rfl (fun w => ?_) h
  cases w with
  | mutex a =>
    by_cases ha : a = m
    · subst ha
      simp [Kernel.head, Kernel.setMutex]
    · simp [Kernel.head, Kernel.setMutex, ha]
  | sem a => rfl
  | send a => rfl
  | recv a => rfl

theorem lists_setQueue {a : Nat} {q : Queue} (hs : q.sendWait = (k.queue a).sendWait)
    (hr : q.recvWait = (k.queue a).recvWait) (h : Lists k L) : Lists (k.setQueue a q) L := by
  refine lists_of_same (k := k) rfl (fun w => ?_) h
  cases w with
  | send b =>
    by_cases hb : b = a
    · subst hb
      simp [Kernel.head, Kernel.setQueue, hs]
    · simp [Kernel.head, Kernel.setQueue, hb]
  | recv b =>
    by_cases hb : b = a
    · subst hb
      simp [Kernel.head, Kernel.setQueue, hr]
    · simp [Kernel.head, Kernel.setQueue, hb]
  | sem b => rfl
  | mutex b => rfl

theorem plain_markWaiting (k : Kernel) (t : Tid) :
    (markWaiting k t).plain = k.plain.setTcb t fun tcb =>
      { tcb with timedOut := false, state := .waiting } := by
  refine plain_setTcb ?_
  rfl

theorem lists_markWaiting (t : Tid) (h : Lists k L) : Lists (markWaiting k t) L :=
  lists_setTcb rfl h

/-- Marking, linking in front and arming the timeout, as takes and locks do. -/
theorem park_front (direct : Bool) (ms : Nat) {w : WaitList} {t : Tid} (h : Lists k L)
    (ht : ∀ w', t ∉ L w') :
    (armTimeout (pushWaiter (if direct then markWaiting k t else k) w t) w t ms).plain =
      k.plain.setTcb t (Tcb.parked direct w ms) ∧
    Lists (armTimeout (pushWaiter (if direct then markWaiting k t else k) w t) w t ms)
      (Function.update L w (t :: L w)) := by
  constructor
  · rw [plain_armTimeout, plain_pushWaiter]
    cases direct with
    | true => simp only [if_true, plain_markWaiting, setTcb_setTcb]; rfl
    | false => rfl
  · refine lists_armTimeout w t ms (lists_pushWaiter ?_ ht)
    cases direct with
    | true => exact lists_markWaiting t h
    | false => exact h

theorem queueBlock_spec {w : WaitList} (ms : Nat) (h : Lists k L) (hd : Apart L)
    (ht : ∀ w', u ∉ L w') :
    (queueBlock k w u ms).1.plain = k.plain.setTcb u (Tcb.parked true w ms) ∧
    Lists (queueBlock k w u ms).1 (Function.update L w (L w ++ [u])) := by
  constructor
  · rw [queueBlock, plain_armTimeout, plain_appendWaiter, plain_markWaiting, setTcb_setTcb]
    rfl
  · exact lists_armTimeout w u ms (lists_appendWaiter (lists_markWaiting u h) hd ht)

theorem takeSection_effect {op : Op} (direct : Bool) {s ms : Nat} {t : Tid} (h : Lists k L)
    (ht : ∀ w, t ∉ L w) (htarget : op.target = some (.sem s)) (hblocker : op.blocker u = t)
    (htimeout : op.timeout = ms) (hdirect : op.waitList.isSome = direct) :
    ∃ L', Effect k L u op (takeSection direct k s t ms).1 (takeSection direct k s t ms).2
      (takeNote s t ms (takeSection direct k s t ms).2) L' := by
  subst hblocker htimeout hdirect
  rw [takeSection]
  by_cases hcount : 0 < (k.sem s).count
  · rw [if_pos hcount]
    exact ⟨L, .ret rfl (lists_setSem h) fun _ _ => rfl⟩
  · rw [if_neg hcount]
    by_cases hms : op.timeout = 0
    · rw [if_pos hms]
      exact ⟨L, .ret rfl h fun _ _ => rfl⟩
    · rw [if_neg hms]
      obtain ⟨hplain, hlists⟩ :=
        park_front (k := k) op.waitList.isSome op.timeout (w := .sem s) h ht
      exact ⟨_, .block htarget hms (tasks_of_plain_setTcb hplain) hlists
        (fun x => List.mem_cons) fun _ _ => rfl⟩

theorem give_effect {op : Op} {s : Nat} (h : Lists k L) (hd : Apart L)
    (hsource : op.source = some (.sem s)) :
    ∃ L', Effect k L u op (zImplSemGive k s).1 (zImplSemGive k s).2
      (giveNote s (zImplSemGive k s).2) L' := by
  rw [zImplSemGive]
  cases hhead : (k.sem s).waitList with
  | none => exact ⟨L, .ret rfl (lists_setSem h) fun _ _ => rfl⟩
  | some x =>
    obtain ⟨r, hr⟩ := head_eq_some (w := .sem s) h hhead
    exact ⟨_, .wake hsource hr (tasks_of_plain_setTcb (plain_popWaiter k _ x))
      (lists_popWaiter h hd hr) fun _ _ => rfl⟩

theorem lockSection_effect {op : Op} (direct : Bool) {m ms : Nat} {t : Tid} (h : Lists k L)
    (ht : ∀ w, t ∉ L w) (htarget : op.target = some (.mutex m)) (hblocker : op.blocker u = t)
    (htimeout : op.timeout = ms) (hdirect : op.waitList.isSome = direct) :
    ∃ L', Effect k L u op (lockSection direct k m t ms).1 (lockSection direct k m t ms).2
      (lockNote k m t ms (lockSection direct k m t ms).2) L' := by
  subst hblocker htimeout hdirect
  have hquiet : ∀ v log x, waitPhase (lockNote k m (op.blocker u) op.timeout (.ret v) ++ log) x =
      waitPhase log x := by
    intro v log x
    refine waitPhase_append_of_offWait x fun e he => ?_
    simp only [lockNote] at he
    split at he
    · rw [List.mem_singleton.mp he]
      rfl
    · split at he
      · rw [List.mem_singleton.mp he]
        rfl
      · cases he
  rw [lockSection]
  by_cases hown : (k.mutex m).owner = some (op.blocker u)
  · rw [if_pos hown]
    exact ⟨L, .ret rfl h (hquiet 0)⟩
  · rw [if_neg hown]
    by_cases hfree : (k.mutex m).owner = none
    · rw [if_pos hfree]
      exact ⟨L, .ret rfl (lists_setMutex h) (hquiet 0)⟩
    · rw [if_neg hfree]
      by_cases hms : op.timeout = 0
      · rw [if_pos hms]
        exact ⟨L, .ret rfl h (hquiet minusOne)⟩
      · rw [if_neg hms]
        obtain ⟨hplain, hlists⟩ :=
          park_front (k := k) op.waitList.isSome op.timeout (w := .mutex m) h ht
        exact ⟨_, .block htarget hms (tasks_of_plain_setTcb hplain) hlists
          (fun x => List.mem_cons) fun _ _ => rfl⟩

theorem unlockSection_effect {op : Op} {m : Nat} {t : Tid} (h : Lists k L) (hd : Apart L)
    (hsource : op.source = some (.mutex m)) :
    ∃ L', Effect k L u op (unlockSection k m t).1 (unlockSection k m t).2
      (unlockNote m t (unlockSection k m t).2) L' := by
  rw [unlockSection]
  by_cases hown : (k.mutex m).owner ≠ some t
  · rw [if_pos hown]
    exact ⟨L, .ret rfl h fun _ _ => rfl⟩
  · rw [if_neg hown]
    cases hhead : (k.mutex m).waitList with
    | none => exact ⟨L, .pend rfl (lists_setMutex h) fun _ _ => rfl⟩
    | some x =>
      obtain ⟨r, hr⟩ := head_eq_some (w := .mutex m) h hhead
      have htasks := tasks_of_plain_setTcb (plain_popWaiter k (.mutex m) x)
      exact ⟨_, .wake hsource hr htasks (lists_setMutex (lists_popWaiter h hd hr))
        fun _ _ => rfl⟩

/-- After a copy the first waiter of the other side is unlinked. -/
theorem wakeFirst_effect {op : Op} {k' : Kernel} {w : WaitList} {notes : Outcome → List Event}
    (htasks : k'.tasks = k.tasks) (h : Lists k' L) (hd : Apart L) (hsource : op.source = some w)
    (hquiet : ∀ log x, waitPhase (notes (.ret 0) ++ log) x = waitPhase log x)
    (hwake : ∀ x log y, waitPhase (notes (.wake x 0) ++ log) y =
      (waitPhase log y).next y (.handoff w x)) :
    ∃ L', Effect k L u op (wakeFirst k' w).1 (wakeFirst k' w).2 (notes (wakeFirst k' w).2) L' := by
  rw [wakeFirst]
  cases hhead : k'.head w with
  | none => exact ⟨L, .ret htasks h hquiet⟩
  | some x =>
    obtain ⟨r, hr⟩ := head_eq_some h hhead
    have hplain := tasks_of_plain_setTcb (plain_popWaiter k' w x)
    rw [htasks] at hplain
    exact ⟨_, .wake hsource hr hplain (lists_popWaiter h hd hr) (hwake x)⟩

/-- A pass of a queue call copies and wakes the first waiter of `w`, or waits on `w'`. -/
theorem pass_effect {op : Op} {ready : Kernel → Prop} [DecidablePred ready]
    {copy : Kernel → Kernel} {w w' : WaitList} {copied found : Event} {ms : Nat} (h : Lists k L)
    (hd : Apart L) (ht : ∀ w, u ∉ L w) (htasks : (copy k).tasks = k.tasks)
    (hcopy : Lists (copy k) L) (hsource : op.source = some w) (htarget : op.target = some w')
    (hblocker : op.blocker u = u) (htimeout : op.timeout = ms) (hdirect : op.waitList.isSome = true)
    (hcopied : ∀ log x, waitPhase (copied :: log) x = waitPhase log x)
    (hfound : ∀ log x, waitPhase (found :: log) x = waitPhase log x) :
    ∃ L', Effect k L u op (queuePass ready copy w w' k u ms).1
      (queuePass ready copy w w' k u ms).2
      (passNote w w' copied found u ms (queuePass ready copy w w' k u ms).2) L' := by
  rw [queuePass]
  by_cases hready : ready k
  · rw [if_pos hready]
    refine wakeFirst_effect htasks hcopy hd hsource hcopied fun x log y => ?_
    exact congrArg (fun p => p.next y (.handoff w x)) (hcopied log y)
  · rw [if_neg hready]
    by_cases hms : ms = 0
    · rw [if_pos hms]
      exact ⟨L, .ret rfl h hfound⟩
    · rw [if_neg hms]
      obtain ⟨hplain, hlists⟩ := queueBlock_spec (w := w') ms h hd ht
      refine ⟨_, .block htarget (by rw [htimeout]; exact hms) ?_ hlists ?_ ?_⟩
      · rw [hblocker, htimeout, hdirect]
        exact tasks_of_plain_setTcb hplain
      · intro x
        rw [hblocker, List.mem_append, List.mem_singleton, or_comm]
      · intro log x
        rw [hblocker, htimeout]
        exact congrArg (fun p => p.next x (.block w' u ms)) (hfound log x)

theorem push_effect {q item ms : Nat} (h : Lists k L) (hd : Apart L) (ht : ∀ w, u ∉ L w) :
    ∃ L', Effect k L u (.queuePush q item ms) (zImplQueuePush k q u item ms).1
      (zImplQueuePush k q u item ms).2
      (pushNote k q u item ms (zImplQueuePush k q u item ms).2) L' := by
  rw [zImplQueuePush_pass]
  exact pass_effect h hd ht rfl (lists_setQueue rfl rfl h) rfl rfl rfl rfl rfl (fun _ _ => rfl)
    fun _ _ => rfl

theorem pop_effect {q item ms : Nat} (h : Lists k L) (hd : Apart L) (ht : ∀ w, u ∉ L w) :
    ∃ L', Effect k L u (.queuePop q item ms) (zImplQueuePop k q u item ms).1
      (zImplQueuePop k q u item ms).2
      (popNote (zImplQueuePop k q u item ms).1 q u item ms (zImplQueuePop k q u item ms).2) L' := by
  rw [zImplQueuePop_pass]
  exact pass_effect h hd ht rfl (lists_setQueue rfl rfl h) rfl rfl rfl rfl rfl (fun _ _ => rfl)
    fun _ _ => rfl

/-- Every critical section of a kernel call is one of the five kinds. -/
theorem enter_effect (op : Op) (h : Lists k L) (hd : Apart L) (ht : ∀ w, op.blocker u ∉ L w) :
    ∃ L', Effect k L u op (op.enter k u).1 (op.enter k u).2
      (op.note k (op.enter k u).1 u (op.enter k u).2) L' := by
  cases op with
  | semTake s ms => exact takeSection_effect true h ht rfl rfl rfl rfl
  | semTryTake s caller ms => exact takeSection_effect false h ht rfl rfl rfl rfl
  | semGive s => exact give_effect h hd rfl
  | mutexLock m ms => exact lockSection_effect true h ht rfl rfl rfl rfl
  | mutexTryLock m caller ms => exact lockSection_effect false h ht rfl rfl rfl rfl
  | mutexUnlock m => exact unlockSection_effect h hd rfl
  | mutexUnlockFor m owner => exact unlockSection_effect h hd rfl
  | queuePush q item ms => exact push_effect h hd ht
  | queuePop q item ms => exact pop_effect h hd ht
  | delay ticks =>
    simp only [Op.enter, zImplTaskDelay]
    by_cases hticks : ticks = 0
    · rw [if_pos hticks]
      exact ⟨L, .ret rfl h fun _ _ => rfl⟩
    · rw [if_neg hticks]
      exact ⟨L, .sleep rfl hticks (lists_setTcb rfl h) fun _ _ => rfl⟩

end Sections

end Crest
