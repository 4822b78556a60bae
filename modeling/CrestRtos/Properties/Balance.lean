import CrestRtos.Kernel.Critical

/-!
# Critical sections are balanced

Every path through every kernel function gives PRIMASK back as it found it. A
function that marks its caller as waiting requests the PendSV that switches away
from it behind its critical section, with PRIMASK back at the value on entry.
-/

namespace Crest.Critical
open CriticalSection MachineWord Alloc

section Instructions
variable {e p m : Bool} {α β : Type} {f : Kernel → KCode β} {g : Unit → KCode β}
  {w : Kernel → Kernel} {R : β → Bool → Bool → Prop}

theorem read_then (h : ∀ k, Runs e p m (f k) R) : Runs e p m (read >>= f) R :=
  load_then fun s => h s.k

theorem write_then (h : Runs e p m (g ()) R) : Runs e p m (write w >>= g) R := store_then h

theorem waiting_then (h : Runs e p true (g ()) R) : Runs e p m (writeWaiting w >>= g) R :=
  mark_then h

theorem pendsv_then (hcalm : m = true → p = e) (h : Runs e p m (g ()) R) :
    Runs e p m (portTriggerPendsv >>= g) R := request_then hcalm h

theorem current_then {f : Option Tid → KCode β} (h : ∀ t, Runs e p m (f t) R) :
    Runs e p m (schedulerGetCurrent >>= f) R :=
  (read_then (R := fun v p m => Runs e p m (f v) R) fun _ => runs_pure (h _)).bind
    fun _ _ _ hnext => hnext

theorem deref_then {v : Option α} {f : α → KCode β} (h : ∀ x, Runs e p m (f x) R) :
    Runs e p m (deref v >>= f) R := by
  refine Runs.bind (Q := fun x p m => Runs e p m (f x) R) ?_ fun _ _ _ hnext => hnext
  cases v with
  | none => exact runs_stuck
  | some x => exact runs_pure (h x)

theorem quiet_read : Quiet read := quiet_load State.k

theorem quiet_write (w : Kernel → Kernel) : Quiet (write w) := quiet_store _

theorem quiet_pendsv : Quiet portTriggerPendsv := quiet_request _

theorem rewriteFlags_quiet (t : Tid) (f : Flags → Flags) : Quiet (rewriteFlags t f) :=
  quiet_bind quiet_read fun _ => quiet_write _

end Instructions

/-! ## Allocation and the handle table -/

section Storage
variable (L : Layout) (n : Nat)

theorem mallocFrom_quiet (H : HeapRef) (size : Nat) : Quiet (mallocFrom H n size) := by
  intro e m
  rw [mallocFrom]
  split
  · exact runs_pure ⟨rfl, rfl⟩
  refine enter_then (store_then (load_then fun s => ?_))
  split
  · exact runs_stuck
  split
  · exact exit_return ⟨rfl, rfl⟩
  · exact store_then (exit_return ⟨rfl, rfl⟩)

theorem freeTo_quiet (H : HeapRef) (ptr : Nat) : Quiet (freeTo H n ptr) := by
  intro e m
  rw [freeTo]
  split
  · exact runs_pure ⟨rfl, rfl⟩
  dsimp only
  split
  · exact runs_pure ⟨rfl, rfl⟩
  refine enter_then (load_then fun s => ?_)
  split
  · exact exit_return ⟨rfl, rfl⟩
  split
  · exact exit_return ⟨rfl, rfl⟩
  refine store_then (load_then fun s => ?_)
  split
  · exact runs_stuck
  · exact store_then (runs_exit ⟨rfl, rfl⟩)

theorem kObjAlloc_quiet (ptr : Nat) (type : KobjType) : Quiet (kObjAlloc ptr type) := by
  intro e m
  rw [kObjAlloc]
  split
  · exact runs_pure ⟨rfl, rfl⟩
  refine enter_then (read_then fun k => ?_)
  split
  · exact write_then (exit_return ⟨rfl, rfl⟩)
  · exact exit_return ⟨rfl, rfl⟩

theorem kObjGet_quiet (handle : Nat) (type : KobjType) : Quiet (kObjGet handle type) := by
  intro e m
  rw [kObjGet]
  split
  · exact runs_pure ⟨rfl, rfl⟩
  dsimp only
  split
  · exact runs_pure ⟨rfl, rfl⟩
  refine enter_then (read_then fun k => ?_)
  split
  · exact exit_return ⟨rfl, rfl⟩
  split
  · exact exit_return ⟨rfl, rfl⟩
  split
  · exact exit_return ⟨rfl, rfl⟩
  · exact exit_return ⟨rfl, rfl⟩

theorem kObjFree_quiet (handle : Nat) : Quiet (kObjFree handle) := by
  intro e m
  rw [kObjFree]
  split
  · exact runs_pure ⟨rfl, rfl⟩
  dsimp only
  split
  · exact runs_pure ⟨rfl, rfl⟩
  · exact enter_then (write_then (runs_exit ⟨rfl, rfl⟩))

end Storage

/-! ## The scheduler -/

theorem schedulerInit_quiet : Quiet schedulerInit := quiet_write _

theorem schedulerSetCurrent_quiet (t : Option Tid) : Quiet (schedulerSetCurrent t) := quiet_write _

theorem schedulerSleep_steady (t : Tid) (ticks : Nat) : Steady (schedulerSleep t ticks) :=
  fun _ _ => enter_then (waiting_then (runs_exit rfl))

theorem schedulerWakeTask_quiet (t : Tid) (result : Nat) : Quiet (schedulerWakeTask t result) :=
  fun e m => enter_then (write_then (exit_then (quiet_pendsv e m)))

/-- The request inside the section: nobody may have been marked before. -/
theorem schedulerAddTask_runs (e : Bool) (t : Tid) :
    Runs e e false (schedulerAddTask t) (Keeps e false) := by
  refine enter_then (write_then (pendsv_then (fun hmark => ?_) (runs_exit ⟨rfl, rfl⟩)))
  cases hmark

theorem schedulerRemoveTask_quiet (t : Tid) : Quiet (schedulerRemoveTask t) :=
  fun _ _ => enter_then (read_then fun _ => write_then (write_then (write_then
    (runs_exit ⟨rfl, rfl⟩))))

theorem getNextFrom_runs (e m : Bool) (prs : List Nat) :
    Runs e true m (getNextFrom e prs) (Keeps e m) := by
  induction prs with
  | nil => exact exit_return ⟨rfl, rfl⟩
  | cons pr prs ih =>
    rw [getNextFrom]
    refine read_then fun k => ?_
    split
    · exact write_then (exit_return ⟨rfl, rfl⟩)
    · exact ih

theorem schedulerGetNext_quiet : Quiet schedulerGetNext :=
  fun e m => enter_then (getNextFrom_runs e m _)

theorem forTasks_quiet {body : Tid → KCode Unit} (h : ∀ t, Quiet (body t)) (n : Nat)
    (t : Option Tid) : Quiet (forTasks body n t) := by
  induction n generalizing t with
  | zero =>
    cases t with
    | none => exact quiet_pure ()
    | some t => exact quiet_stuck
  | succ n ih =>
    cases t with
    | none => exact quiet_pure ()
    | some t => exact quiet_bind (h t) fun _ => quiet_bind quiet_read fun k => ih _

theorem forAllTasks_quiet {body : Tid → KCode Unit} (h : ∀ t, Quiet (body t)) (n : Nat) :
    Quiet (forAllTasks n body) :=
  quiet_forM fun _ => quiet_bind quiet_read fun _ => forTasks_quiet h n _

theorem syncTickTask_quiet (t : Tid) : Quiet (syncTickTask t) := by
  intro e m
  rw [syncTickTask]
  refine enter_then (read_then fun k => ?_)
  dsimp only
  split
  · exact runs_exit ⟨rfl, rfl⟩
  split
  · refine write_then ?_
    split
    · exact write_then (write_then (exit_then (schedulerWakeTask_quiet t minusOne e m)))
    · exact runs_exit ⟨rfl, rfl⟩
  · exact runs_exit ⟨rfl, rfl⟩

theorem syncTickAll_quiet (n : Nat) : Quiet (syncTickAll n) :=
  forAllTasks_quiet syncTickTask_quiet n

theorem schedulerTick_quiet (n : Nat) : Quiet (schedulerTick n) :=
  quiet_bind (quiet_write _) fun _ =>
    quiet_bind (forAllTasks_quiet (fun _ => quiet_write _) n) fun _ => syncTickAll_quiet n

theorem sysTickHandler_quiet (n : Nat) : Quiet (sysTickHandler n) := by
  refine quiet_bind (schedulerTick_quiet n) fun _ =>
    quiet_bind (quiet_bind quiet_read fun _ => quiet_pure _) fun _ => ?_
  split
  · exact quiet_pendsv
  · exact quiet_pure ()

/-! ## Semaphores, mutexes and queues -/

section Objects
variable {e m : Bool} {w : WaitList} {ms : Nat}

/-- The PendSV of a direct wait comes behind the exit. -/
theorem blockCurrent_runs : Runs e true m (blockCurrent w ms e) (Returns e) := by
  rw [blockCurrent]
  refine current_then fun t => deref_then fun cur => ?_
  refine waiting_then (write_then (write_then (exit_then (pendsv_then (fun _ => rfl) ?_))))
  refine read_then fun k => ?_
  split
  · exact (rewriteFlags_quiet cur _).then fun _ => runs_pure rfl
  · exact runs_pure rfl

theorem blockCaller_runs {caller : Tid} :
    Runs e true m (blockCaller w caller ms e) (Keeps e m) :=
  write_then (write_then (exit_return ⟨rfl, rfl⟩))

theorem takeWith_runs {s : Nat} {wait : Bool → KCode Nat} {Q : Nat → Bool → Bool → Prop}
    (hQ : ∀ v, Q v e m) (h : Runs e true m (wait e) Q) : Runs e e m (takeWith s ms wait) Q := by
  rw [takeWith]
  refine enter_then (read_then fun k => ?_)
  split
  · exact write_then (exit_return (hQ 0))
  split
  · exact exit_return (hQ minusOne)
  · exact h

theorem semTake_steady (s ms : Nat) : Steady (zImplSemTakeTimeout s ms) :=
  fun _ _ => takeWith_runs (fun _ => rfl) blockCurrent_runs

theorem semTryTake_quiet (s : Nat) (caller : Tid) (ms : Nat) :
    Quiet (zImplSemTryTakeTimeout s caller ms) :=
  fun _ _ => takeWith_runs (fun _ => ⟨rfl, rfl⟩) blockCaller_runs

theorem semGive_quiet (s : Nat) : Quiet (zImplSemGive s) := by
  intro e m
  rw [zImplSemGive]
  refine enter_then (read_then fun k => ?_)
  split
  · exact write_then (exit_then (schedulerWakeTask_quiet _ 0 e m))
  · exact write_then (runs_exit ⟨rfl, rfl⟩)

theorem lockWith_runs {a : Nat} {t : Option Tid} {wait : Bool → KCode Nat}
    {Q : Nat → Bool → Bool → Prop} (hQ : ∀ v, Q v e m) (h : Runs e true m (wait e) Q) :
    Runs e true m (lockWith a t ms e wait) Q := by
  rw [lockWith]
  refine read_then fun k => ?_
  dsimp only
  split
  · exact exit_return (hQ 0)
  split
  · exact write_then (exit_return (hQ 0))
  split
  · exact exit_return (hQ minusOne)
  · exact h

theorem mutexLock_steady (a ms : Nat) : Steady (zImplMutexLockTimeout a ms) :=
  fun _ _ => enter_then (current_then fun _ => lockWith_runs (fun _ => rfl) blockCurrent_runs)

theorem mutexTryLock_quiet (a : Nat) (caller : Tid) (ms : Nat) :
    Quiet (zImplMutexTryLockTimeout a caller ms) :=
  fun _ _ => enter_then (lockWith_runs (fun _ => ⟨rfl, rfl⟩) blockCaller_runs)

theorem unlockWith_runs {a : Nat} {t : Option Tid} :
    Runs e true m (unlockWith a t e) (Keeps e m) := by
  rw [unlockWith]
  refine read_then fun k => ?_
  split
  · exact exit_return ⟨rfl, rfl⟩
  split
  · exact write_then (write_then (exit_then (schedulerWakeTask_quiet _ 0 e m)))
  · exact write_then (exit_then (quiet_pendsv e m))

theorem mutexUnlock_quiet (a : Nat) : Quiet (zImplMutexUnlock a) :=
  fun _ _ => enter_then (current_then fun _ => unlockWith_runs)

theorem mutexUnlockFor_quiet (a : Nat) (owner : Tid) : Quiet (zImplMutexUnlockFor a owner) :=
  fun _ _ => enter_then unlockWith_runs

theorem wakeAndReturn_runs : Runs e true m (wakeAndReturn w e) (Returns e) := by
  rw [wakeAndReturn]
  refine read_then fun k => ?_
  split
  · exact write_then (exit_then ((schedulerWakeTask_quiet _ 0).then fun _ => runs_pure rfl))
  · exact exit_return rfl

theorem lastWaiter_runs {p : Bool} (n : Nat) (t : Tid) :
    Runs e p m (lastWaiter n t) (Keeps p m) := by
  induction n generalizing t with
  | zero => exact runs_stuck
  | succ n ih =>
    rw [lastWaiter]
    refine read_then fun k => ?_
    split
    · exact runs_pure ⟨rfl, rfl⟩
    · exact ih _

theorem appendWaiter_runs {p : Bool} {cur : Tid} :
    Runs e p m (appendWaiter w cur) (Keeps p m) := by
  rw [appendWaiter]
  refine write_then (read_then fun k => ?_)
  split
  · exact runs_store ⟨rfl, rfl⟩
  · refine (lastWaiter_runs maxTasks _).bind fun tail p' m' hkeep => ?_
    obtain ⟨rfl, rfl⟩ := hkeep
    exact runs_store ⟨rfl, rfl⟩

theorem queueWait_runs : Runs e true m (queueWait w ms e) (Returns e) := by
  rw [queueWait]
  refine current_then fun t => deref_then fun cur => waiting_then ?_
  refine appendWaiter_runs.bind fun _ p m' hkeep => ?_
  obtain ⟨rfl, rfl⟩ := hkeep
  refine write_then (exit_then (pendsv_then (fun _ => rfl) ?_))
  exact read_then fun k => runs_pure rfl

/-- The loop of a queue call, from a pass that holds the mask: `pm` is the mask on entry each
time it is assigned. -/
theorem queueLoop_runs {ready : Kernel → Prop} [DecidablePred ready] {copy : Kernel → Kernel}
    {wakes : WaitList} (ms : Nat) :
    Runs e true m (queueLoop ready copy wakes w e ms) (Returns e) := by
  induction ms using Nat.strong_induction_on generalizing m with
  | _ ms ih =>
    rw [queueLoop]
    refine read_then fun k => ?_
    split
    · exact write_then wakeAndReturn_runs
    split
    · exact exit_return rfl
    · refine queueWait_runs.bind fun timedOut p m' hreturn => ?_
      obtain rfl := hreturn
      split
      · exact runs_pure rfl
      · exact enter_then (ih 0 (by omega))

theorem queuePush_steady (a item ms : Nat) : Steady (zImplQueuePush a item ms) :=
  fun _ _ => enter_then (queueLoop_runs ms)

theorem queuePop_steady (a item ms : Nat) : Steady (zImplQueuePop a item ms) :=
  fun _ _ => enter_then (queueLoop_runs ms)

end Objects

/-! ## Creation and deletion -/

section Tasks
variable (L : Layout) (n : Nat)

theorem semCreate_quiet (initial : Nat) : Quiet (zImplSemCreate L n initial) := by
  refine quiet_bind (mallocFrom_quiet n _ 8) fun s => ?_
  split
  · exact quiet_pure 0
  · exact quiet_bind (quiet_write _) fun _ => quiet_pure s

theorem mutexCreate_quiet : Quiet (zImplMutexCreate L n) := by
  refine quiet_bind (mallocFrom_quiet n _ 8) fun a => ?_
  split
  · exact quiet_pure 0
  · exact quiet_bind (quiet_write _) fun _ => quiet_pure a

theorem queueInitBuffer_quiet (a : Nat) : Quiet (queueInitBuffer L n a) := by
  refine quiet_bind quiet_read fun k => ?_
  dsimp only
  split
  · exact quiet_pure false
  · exact quiet_bind (mallocFrom_quiet n _ _) fun _ =>
      quiet_bind (quiet_write _) fun _ => quiet_pure _

theorem queueCreate_quiet (itemSize size : Nat) : Quiet (zImplQueueCreate L n itemSize size) := by
  rw [zImplQueueCreate]
  split
  · exact quiet_pure 0
  refine quiet_bind (mallocFrom_quiet n _ 32) fun queue => ?_
  split
  · exact quiet_pure 0
  refine quiet_bind (quiet_write _) fun _ => ?_
  refine quiet_bind (queueInitBuffer_quiet L n queue) fun ok => ?_
  split
  · exact quiet_bind (freeTo_quiet n _ queue) fun _ => quiet_pure 0
  · exact quiet_pure queue

theorem getFreeTcb_quiet : Quiet getFreeTcb := by
  intro e m
  rw [getFreeTcb]
  refine enter_then (read_then fun k => ?_)
  split
  · exact write_then (exit_return ⟨rfl, rfl⟩)
  · exact exit_return ⟨rfl, rfl⟩

theorem freeTcb_quiet (t : Option Tid) : Quiet (freeTcb t) := by
  intro e m
  rw [freeTcb]
  refine enter_then ?_
  split
  · exact write_then (runs_exit ⟨rfl, rfl⟩)
  · exact runs_exit ⟨rfl, rfl⟩

theorem taskCreate_balanced (args : TaskArgs) : Balanced (taskCreate L n args) := by
  intro e
  rw [taskCreate]
  split
  · exact runs_pure rfl
  refine getFreeTcb_quiet.then fun found => ?_
  split
  · exact runs_pure rfl
  refine (mallocFrom_quiet n _ _).then fun alloc => ?_
  split
  · exact (freeTcb_quiet _).then fun _ => runs_pure rfl
  · exact write_then ((schedulerAddTask_runs e _).mono fun _ _ _ hkeep => hkeep.1)

theorem taskDelete_quiet (t : Option Tid) : Quiet (taskDelete L n t) := by
  cases t with
  | none => exact quiet_pure ()
  | some t =>
    refine quiet_bind (schedulerRemoveTask_quiet t) fun _ => quiet_bind quiet_read fun k => ?_
    dsimp only
    split
    · exact quiet_bind (freeTo_quiet n _ _) fun _ =>
        quiet_bind (quiet_write _) fun _ => freeTcb_quiet _
    · exact freeTcb_quiet _

theorem taskDelay_steady (ticks : Nat) : Steady (zImplTaskDelay ticks) := by
  intro e m
  rw [zImplTaskDelay]
  split
  · exact runs_pure rfl
  refine current_then fun t => ?_
  split
  · exact runs_pure rfl
  · exact (schedulerSleep_steady _ ticks).then fun _ m => quiet_pendsv.steady e m

end Tasks

/-! ## The port, the syscall handler and the worker -/

section Worker
variable (L : Layout) (n : Nat)

theorem mpuConfigureForTask_quiet (t : Option Tid) : Quiet (mpuConfigureForTask L t) := by
  cases t with
  | none => exact quiet_pure ()
  | some t =>
    intro e m
    refine read_then fun k => ?_
    dsimp only
    split
    · exact runs_pure ⟨rfl, rfl⟩
    · exact enter_then (write_then (runs_exit ⟨rfl, rfl⟩))

theorem kworkPush_quiet (item : WorkItem) : Quiet (kworkPush item) := by
  intro e m
  rw [kworkPush]
  refine enter_then (read_then fun k => ?_)
  dsimp only
  split
  · exact exit_return ⟨rfl, rfl⟩
  · exact write_then (exit_return ⟨rfl, rfl⟩)

theorem svcHandlerC_steady (id a0 a1 a2 a3 : Nat) : Steady (svcHandlerC id a0 a1 a2 a3) := by
  intro e m
  rw [svcHandlerC]
  refine current_then fun t => ?_
  split
  · exact runs_pure rfl
  refine enter_then (waiting_then (exit_then ((kworkPush_quiet _).then fun r => ?_)))
  split
  · exact enter_then (write_then (exit_return rfl))
  · exact quiet_pendsv.steady e true

theorem onObject_steady (caller : Tid) (handle : Nat) (type : KobjType) {f : Nat → KCode Unit}
    (h : ∀ a, Steady (f a)) : Steady (onObject caller handle type f) := by
  refine steady_bind (kObjGet_quiet handle type).steady fun a => ?_
  split
  · exact (schedulerWakeTask_quiet caller minusOne).steady
  · exact h a

theorem complete_steady (caller : Tid) (v : Nat) : Steady (complete caller v) :=
  (schedulerWakeTask_quiet caller v).steady

theorem publish_quiet (a : Nat) (type : KobjType) : Quiet (publish a type) := by
  rw [publish]
  split
  · exact kObjAlloc_quiet a type
  · exact quiet_pure kobjInvalid

/-- Create an object, give it a handle, and complete. -/
theorem built_steady {c : KCode Nat} (h : Quiet c) (type : KobjType) (caller : Tid) :
    Steady (do
      let a ← c
      let handle ← publish a type
      complete caller handle) :=
  steady_bind h.steady fun a => steady_bind (publish_quiet a type).steady
    fun handle => complete_steady caller handle

theorem dispatch_steady (item : WorkItem) : Steady (dispatch L n item) := by
  have hdone := complete_steady item.caller
  have hnone : Steady (pure () : KCode Unit) := (quiet_pure ()).steady
  rw [dispatch]
  refine steady_ite ?delay (steady_ite ?send (steady_ite ?recv (steady_ite ?give (steady_ite ?take
    (steady_ite ?lock (steady_ite ?unlock (steady_ite (hdone 0) (steady_ite ?queue (steady_ite ?sem
      (steady_ite ?mutex (hdone minusOne)))))))))))
  case delay =>
    exact steady_bind (quiet_write _).steady fun _ =>
      steady_bind (rewriteFlags_quiet _ _).steady fun _ => schedulerSleep_steady _ _
  case send => exact onObject_steady _ _ _ fun q => steady_bind (queuePush_steady q _ 0) hdone
  case recv => exact onObject_steady _ _ _ fun q => steady_bind (queuePop_steady q _ 0) hdone
  case give =>
    exact onObject_steady _ _ _ fun s => steady_bind (semGive_quiet s).steady fun _ => hdone 0
  case take =>
    exact onObject_steady _ _ _ fun s => steady_bind (semTryTake_quiet s _ _).steady fun r =>
      steady_ite (hdone 0) (steady_ite (hdone minusOne) hnone)
  case lock =>
    exact onObject_steady _ _ _ fun a => steady_bind (mutexTryLock_quiet a _ _).steady fun r =>
      steady_ite (hdone 0) (steady_ite (hdone minusOne) hnone)
  case unlock =>
    exact onObject_steady _ _ _ fun a =>
      steady_bind (mutexUnlockFor_quiet a _).steady fun _ => hdone 0
  case queue => exact built_steady (queueCreate_quiet L n _ _) _ _
  case sem => exact built_steady (semCreate_quiet L n _) _ _
  case mutex => exact built_steady (mutexCreate_quiet L n) _ _

theorem drain_steady (more : Nat) : Steady (drain L n more) := by
  induction more with
  | zero => exact quiet_stuck.steady
  | succ more ih =>
    intro e m
    rw [drain]
    refine enter_then (read_then fun k => ?_)
    split
    · exact runs_exit rfl
    · exact write_then (exit_then ((dispatch_steady L n _).then fun _ _ => ih e _))

theorem workerRound_steady : Steady (workerRound L n) :=
  steady_bind (drain_steady L n n) fun _ e _ =>
    waiting_then (quiet_pendsv.steady e true)

end Worker

/-! ## All calls -/

theorem withHandle_steady (handle : Nat) (type : KobjType) (missing : Nat)
    {f : Nat → KCode Nat} (h : ∀ a, Steady (f a)) :
    Steady (withHandle handle type missing f) := by
  refine steady_bind (kObjGet_quiet handle type).steady fun a => ?_
  split
  · exact (quiet_pure missing).steady
  · exact h a

inductive KernelCall
  | malloc (size : Nat)
  | free (ptr : Nat)
  | userMalloc (size : Nat)
  | userFree (ptr : Nat)
  | kObjAlloc (ptr : Nat) (type : KobjType)
  | kObjGet (handle : Nat) (type : KobjType)
  | kObjFree (handle : Nat)
  | schedulerInit
  | schedulerGetFirstReadyPriority
  | schedulerGetCurrent
  | schedulerSetCurrent (t : Option Tid)
  | schedulerGetTickCount
  | schedulerSleep (t : Tid) (ticks : Nat)
  | schedulerWakeTask (t : Tid) (result : Nat)
  | schedulerAddTask (t : Tid)
  | schedulerRemoveTask (t : Tid)
  | schedulerGetNext
  | syncTickAll
  | schedulerTick
  | sysTickHandler
  | zImplSemCreate (initial : Nat)
  | zImplSemTakeTimeout (s ms : Nat)
  | zImplSemTryTakeTimeout (s : Nat) (caller : Tid) (ms : Nat)
  | zImplSemGive (s : Nat)
  | zImplMutexCreate
  | zImplMutexLockTimeout (m ms : Nat)
  | zImplMutexTryLockTimeout (m : Nat) (caller : Tid) (ms : Nat)
  | zImplMutexUnlock (m : Nat)
  | zImplMutexUnlockFor (m : Nat) (owner : Tid)
  | zImplQueueCreate (itemSize size : Nat)
  | zImplQueuePush (q item ms : Nat)
  | zImplQueuePop (q item ms : Nat)
  | getFreeTcb
  | freeTcb (t : Option Tid)
  | taskCreate (args : TaskArgs)
  | taskDelete (t : Option Tid)
  | taskYield
  | zImplTaskDelay (ticks : Nat)
  | mpuConfigureForTask (t : Option Tid)
  | kworkPush (item : WorkItem)
  | svcHandlerC (id a0 a1 a2 a3 : Nat)
  | dispatch (item : WorkItem)
  | workerRound
  | queueCreate (itemSize size : Nat)
  | semCreate (initial : Nat)
  | mutexCreate
  | queuePush (handle item ms : Nat)
  | queuePop (handle item ms : Nat)
  | semTake (handle ms : Nat)
  | semGive (handle : Nat)
  | mutexLock (handle ms : Nat)
  | mutexUnlock (handle : Nat)

/-- The code of a call, its result left out. -/
def KernelCall.code (L : Layout) (n : Nat) : KernelCall → KCode Unit
  | .malloc size => discard (Critical.malloc L n size)
  | .free ptr => Critical.free L n ptr
  | .userMalloc size => discard (Critical.userMalloc L n size)
  | .userFree ptr => Critical.userFree L n ptr
  | .kObjAlloc ptr type => discard (Critical.kObjAlloc ptr type)
  | .kObjGet handle type => discard (Critical.kObjGet handle type)
  | .kObjFree handle => Critical.kObjFree handle
  | .schedulerInit => Critical.schedulerInit
  | .schedulerGetFirstReadyPriority => discard Critical.schedulerGetFirstReadyPriority
  | .schedulerGetCurrent => discard Critical.schedulerGetCurrent
  | .schedulerSetCurrent t => Critical.schedulerSetCurrent t
  | .schedulerGetTickCount => discard Critical.schedulerGetTickCount
  | .schedulerSleep t ticks => Critical.schedulerSleep t ticks
  | .schedulerWakeTask t result => Critical.schedulerWakeTask t result
  | .schedulerAddTask t => Critical.schedulerAddTask t
  | .schedulerRemoveTask t => Critical.schedulerRemoveTask t
  | .schedulerGetNext => discard Critical.schedulerGetNext
  | .syncTickAll => Critical.syncTickAll n
  | .schedulerTick => Critical.schedulerTick n
  | .sysTickHandler => Critical.sysTickHandler n
  | .zImplSemCreate initial => discard (Critical.zImplSemCreate L n initial)
  | .zImplSemTakeTimeout s ms => discard (Critical.zImplSemTakeTimeout s ms)
  | .zImplSemTryTakeTimeout s caller ms => discard (Critical.zImplSemTryTakeTimeout s caller ms)
  | .zImplSemGive s => Critical.zImplSemGive s
  | .zImplMutexCreate => discard (Critical.zImplMutexCreate L n)
  | .zImplMutexLockTimeout m ms => discard (Critical.zImplMutexLockTimeout m ms)
  | .zImplMutexTryLockTimeout m caller ms =>
    discard (Critical.zImplMutexTryLockTimeout m caller ms)
  | .zImplMutexUnlock m => Critical.zImplMutexUnlock m
  | .zImplMutexUnlockFor m owner => Critical.zImplMutexUnlockFor m owner
  | .zImplQueueCreate itemSize size => discard (Critical.zImplQueueCreate L n itemSize size)
  | .zImplQueuePush q item ms => discard (Critical.zImplQueuePush q item ms)
  | .zImplQueuePop q item ms => discard (Critical.zImplQueuePop q item ms)
  | .getFreeTcb => discard Critical.getFreeTcb
  | .freeTcb t => Critical.freeTcb t
  | .taskCreate args => Critical.taskCreate L n args
  | .taskDelete t => Critical.taskDelete L n t
  | .taskYield => Critical.taskYield
  | .zImplTaskDelay ticks => Critical.zImplTaskDelay ticks
  | .mpuConfigureForTask t => Critical.mpuConfigureForTask L t
  | .kworkPush item => discard (Critical.kworkPush item)
  | .svcHandlerC id a0 a1 a2 a3 => Critical.svcHandlerC id a0 a1 a2 a3
  | .dispatch item => Critical.dispatch L n item
  | .workerRound => Critical.workerRound L n
  | .queueCreate itemSize size => discard (Critical.queueCreate L n itemSize size)
  | .semCreate initial => discard (Critical.semCreate L n initial)
  | .mutexCreate => discard (Critical.mutexCreate L n)
  | .queuePush handle item ms => discard (Critical.queuePush handle item ms)
  | .queuePop handle item ms => discard (Critical.queuePop handle item ms)
  | .semTake handle ms => discard (Critical.semTake handle ms)
  | .semGive handle => discard (Critical.semGive handle)
  | .mutexLock handle ms => discard (Critical.mutexLock handle ms)
  | .mutexUnlock handle => discard (Critical.mutexUnlock handle)

theorem steady_discard {α : Type} {c : KCode α} (h : Steady c) : Steady (discard c) :=
  steady_bind h fun _ => (quiet_pure ()).steady

theorem quiet_discard {α : Type} {c : KCode α} (h : Quiet c) : Steady (discard c) :=
  steady_discard h.steady

theorem kernelCall_balanced (L : Layout) (n : Nat) (call : KernelCall) :
    Balanced (call.code L n) := by
  cases call with
  | malloc size => exact (quiet_discard (mallocFrom_quiet n _ size)).balanced
  | free ptr => exact (freeTo_quiet n _ ptr).steady.balanced
  | userMalloc size => exact (quiet_discard (mallocFrom_quiet n _ size)).balanced
  | userFree ptr => exact (freeTo_quiet n _ ptr).steady.balanced
  | kObjAlloc ptr type => exact (quiet_discard (kObjAlloc_quiet ptr type)).balanced
  | kObjGet handle type => exact (quiet_discard (kObjGet_quiet handle type)).balanced
  | kObjFree handle => exact (kObjFree_quiet handle).steady.balanced
  | schedulerInit => exact schedulerInit_quiet.steady.balanced
  | schedulerGetFirstReadyPriority =>
    exact (quiet_discard (quiet_bind quiet_read fun _ => quiet_pure _)).balanced
  | schedulerGetCurrent =>
    exact (quiet_discard (quiet_bind quiet_read fun _ => quiet_pure _)).balanced
  | schedulerSetCurrent t => exact (schedulerSetCurrent_quiet t).steady.balanced
  | schedulerGetTickCount =>
    exact (quiet_discard (quiet_bind quiet_read fun _ => quiet_pure _)).balanced
  | schedulerSleep t ticks => exact (schedulerSleep_steady t ticks).balanced
  | schedulerWakeTask t result => exact (schedulerWakeTask_quiet t result).steady.balanced
  | schedulerAddTask t =>
    exact fun e => (schedulerAddTask_runs e t).mono fun _ _ _ hkeep => hkeep.1
  | schedulerRemoveTask t => exact (schedulerRemoveTask_quiet t).steady.balanced
  | schedulerGetNext => exact (quiet_discard schedulerGetNext_quiet).balanced
  | syncTickAll => exact (syncTickAll_quiet n).steady.balanced
  | schedulerTick => exact (schedulerTick_quiet n).steady.balanced
  | sysTickHandler => exact (sysTickHandler_quiet n).steady.balanced
  | zImplSemCreate initial => exact (quiet_discard (semCreate_quiet L n initial)).balanced
  | zImplSemTakeTimeout s ms => exact (steady_discard (semTake_steady s ms)).balanced
  | zImplSemTryTakeTimeout s caller ms =>
    exact (quiet_discard (semTryTake_quiet s caller ms)).balanced
  | zImplSemGive s => exact (semGive_quiet s).steady.balanced
  | zImplMutexCreate => exact (quiet_discard (mutexCreate_quiet L n)).balanced
  | zImplMutexLockTimeout m ms => exact (steady_discard (mutexLock_steady m ms)).balanced
  | zImplMutexTryLockTimeout m caller ms =>
    exact (quiet_discard (mutexTryLock_quiet m caller ms)).balanced
  | zImplMutexUnlock m => exact (mutexUnlock_quiet m).steady.balanced
  | zImplMutexUnlockFor m owner => exact (mutexUnlockFor_quiet m owner).steady.balanced
  | zImplQueueCreate itemSize size =>
    exact (quiet_discard (queueCreate_quiet L n itemSize size)).balanced
  | zImplQueuePush q item ms => exact (steady_discard (queuePush_steady q item ms)).balanced
  | zImplQueuePop q item ms => exact (steady_discard (queuePop_steady q item ms)).balanced
  | getFreeTcb => exact (quiet_discard getFreeTcb_quiet).balanced
  | freeTcb t => exact (freeTcb_quiet t).steady.balanced
  | taskCreate args => exact taskCreate_balanced L n args
  | taskDelete t => exact (taskDelete_quiet L n t).steady.balanced
  | taskYield => exact quiet_pendsv.steady.balanced
  | zImplTaskDelay ticks => exact (taskDelay_steady ticks).balanced
  | mpuConfigureForTask t => exact (mpuConfigureForTask_quiet L t).steady.balanced
  | kworkPush item => exact (quiet_discard (kworkPush_quiet item)).balanced
  | svcHandlerC id a0 a1 a2 a3 => exact (svcHandlerC_steady id a0 a1 a2 a3).balanced
  | dispatch item => exact (dispatch_steady L n item).balanced
  | workerRound => exact (workerRound_steady L n).balanced
  | queueCreate itemSize size =>
    exact (quiet_discard (quiet_bind (queueCreate_quiet L n itemSize size) fun a =>
      publish_quiet a _)).balanced
  | semCreate initial =>
    exact (quiet_discard (quiet_bind (semCreate_quiet L n initial) fun a =>
      publish_quiet a _)).balanced
  | mutexCreate =>
    exact (quiet_discard (quiet_bind (mutexCreate_quiet L n) fun a => publish_quiet a _)).balanced
  | queuePush handle item ms =>
    exact (steady_discard (withHandle_steady _ _ _ fun q => queuePush_steady q item ms)).balanced
  | queuePop handle item ms =>
    exact (steady_discard (withHandle_steady _ _ _ fun q => queuePop_steady q item ms)).balanced
  | semTake handle ms =>
    exact (steady_discard (withHandle_steady _ _ _ fun s => semTake_steady s ms)).balanced
  | semGive handle =>
    exact (steady_discard (withHandle_steady _ _ _ fun s =>
      steady_bind (semGive_quiet s).steady fun _ => (quiet_pure 0).steady)).balanced
  | mutexLock handle ms =>
    exact (steady_discard (withHandle_steady _ _ _ fun m => mutexLock_steady m ms)).balanced
  | mutexUnlock handle =>
    exact (steady_discard (withHandle_steady _ _ _ fun m =>
      steady_bind (mutexUnlock_quiet m).steady fun _ => (quiet_pure 0).steady)).balanced

/-- Every kernel function called with any mask, in any state and whatever else runs:
it returns with the mask on entry, and it asks for the switch of a task that it has
marked as waiting under that mask only. In a critical section of the caller, at any
depth, the mask is still set when the function returns. -/
theorem critical_sections_balanced (L : Layout) (n : Nat) (call : KernelCall) (env : Env State)
    (cpu : Cpu State) :
    (∀ r, call.code L n env cpu = some r →
      r.cpu.primask = cpu.primask ∧ Calm cpu.primask r.acts) ∧
    ∀ d r, nested (call.code L n) d env cpu = some r →
      r.value = List.replicate d true ∧ r.cpu.primask = cpu.primask :=
  ⟨fun _ hrun => (kernelCall_balanced L n call).run hrun,
    fun d _ hrun => (kernelCall_balanced L n call).nested d hrun⟩

/-- Nothing else runs. -/
def alone : Env State := fun _ s => s

/-- A mutex held by task 0, and task 1 on the CPU. -/
def contended (primask : Bool) : Cpu State where
  mem :=
    { k := { (Kernel.reset (fun _ => 0) fun _ => 0).setMutex 8 ⟨some 0, none⟩ with
        currentTask := some 1 }
      userHeap := ⟨fun _ => 0, 0, false⟩ }
  primask := primask
  clock := 0

/-- Task 1 waits for the mutex: marked first, then switched away with PRIMASK clear. The
same call from inside two critical sections. -/
theorem critical_sections_balanced_contended :
    ∃ r r' : Ran State _,
      (KernelCall.zImplMutexLockTimeout 8 5).code (linkerLayout 0x20000404) 9 alone
        (contended false) = some r ∧
      nested ((KernelCall.zImplMutexLockTimeout 8 5).code (linkerLayout 0x20000404) 9) 2 alone
        (contended false) = some r' ∧
      r.acts = [.requested false, .marked] ∧ r.cpu.primask = false ∧ Calm false r.acts ∧
      r'.value = [true, true] ∧ r'.cpu.primask = false := by
  obtain ⟨hrun, hnested⟩ := critical_sections_balanced (linkerLayout 0x20000404) 9
    (.zImplMutexLockTimeout 8 5) alone (contended false)
  have hplain := hrun _ rfl
  have hdeep := hnested 2 _ rfl
  exact ⟨_, _, rfl, rfl, rfl, hplain.1, hplain.2, hdeep.1, hdeep.2⟩

end Crest.Critical
