import CrestRtos.Kernel.Task
import CrestRtos.Library.IntrusiveList

/-!
# Scheduler

`kernel/sched.c` and the context switch of `arch/arm/cortex-m4`. Loops over a
priority list or a wait list are bounded by the number of control blocks.
-/

namespace Crest
open MachineWord Alloc Port IntrusiveList

def preemptTickInterval : Nat := 50

/-- `for (t = head; t; t = t->next)`, over any state that has the links. -/
def walk {σ : Type} (next : σ → Tid → Option Tid) (f : σ → Tid → σ) : Nat → Option Tid → σ → σ
  | 0, _, s => s
  | _ + 1, none, s => s
  | n + 1, some t, s => walk next f n (next (f s t) t) (f s t)

/-- `for (pr = 0; pr < MAX_TASK_PRIORITIES; pr++)` around that loop. -/
def walkAll {σ : Type} (heads : σ → Nat → Option Tid) (next : σ → Tid → Option Tid)
    (f : σ → Tid → σ) (s : σ) : σ :=
  (List.range maxTaskPriorities).foldl (fun s pr => walk next f maxTasks (heads s pr) s) s

def Kernel.next (k : Kernel) (t : Tid) : Option Tid := (k.tcb t).next

def schedulerSleep (k : Kernel) (t : Tid) (ticks : Nat) : Kernel :=
  k.setTcb t fun tcb => { tcb with delayTicks := ticks, state := .waiting }

/-- The critical section of `scheduler_wake_task`. -/
def wakeSection (k : Kernel) (t : Tid) (result : Nat) : Kernel :=
  k.setTcb t fun tcb =>
    { tcb with
      savedR0 := if tcb.svcBlocked then result else tcb.savedR0
      svcBlocked := false
      state := .ready }

def schedulerWakeTask (k : Kernel) (t : Tid) (result : Nat) : Kernel :=
  portTriggerPendsv (wakeSection k t result)

/-- The `do` loop of `scheduler_get_next` at one priority. -/
def searchReady (k : Kernel) (list start : Tid) : Nat → Tid → Option Tid
  | 0, _ => none
  | n + 1, t =>
    if (k.tcb t).state = .ready then some t
    else
      let t' := (k.next t).getD list
      if t' = start then none else searchReady k list start n t'

def getNextAt (k : Kernel) (pr : Nat) : Option (Kernel × Tid) :=
  match k.taskList pr with
  | none => none
  | some list =>
    let start := (k.rrCurrent pr).getD list
    match searchReady k list start maxTasks start with
    | none => none
    | some t =>
      some ({ k with rrCurrent := Function.update k.rrCurrent pr (some ((k.next t).getD list)) }, t)

def schedulerGetNext (k : Kernel) : Option (Kernel × Tid) :=
  (List.range maxTaskPriorities).findSome? (getNextAt k)

/-- The search moves one cursor and nothing else. -/
theorem schedulerGetNext_cursor {k k' : Kernel} {t : Tid} (h : schedulerGetNext k = some (k', t)) :
    ∃ pr c, k' = { k with rrCurrent := Function.update k.rrCurrent pr (some c) } := by
  obtain ⟨pr, _, hpr⟩ := List.exists_of_findSome?_eq_some h
  rw [getNextAt] at hpr
  split at hpr
  · cases hpr
  · simp only at hpr
    split at hpr
    · cases hpr
    · obtain ⟨rfl, _⟩ := Prod.mk.inj (Option.some.inj hpr)
      exact ⟨pr, _, rfl⟩

def schedulerGetFirstReadyPriority (k : Kernel) : Nat :=
  if k.priorityMask = 0 then maxTaskPriorities else ctz k.priorityMask

/-- Take `t` off the list `w`, looking for it from the head. -/
def unlinkWaiter (k : Kernel) (w : WaitList) (t : Tid) : Kernel :=
  let (cur, prev) := searchFrom k.waitNext t maxTasks (k.head w) none
  if cur = some t then
    let k := match prev with
      | some p => k.setTcb p fun tcb => { tcb with waitNext := k.waitNext t }
      | none => k.setHead w (k.waitNext t)
    k.setTcb t fun tcb => { tcb with waitNext := none }
  else k

/-- The loop body of `scheduler_tick`: tasks that sleep on no wait list. -/
def tickDelay (k : Kernel) (t : Tid) : Kernel :=
  let tcb := k.tcb t
  if tcb.state = .waiting ∧ 0 < tcb.delayTicks ∧ tcb.blockingWaitList = none then
    k.setTcb t fun tcb =>
      { tcb with
        delayTicks := tcb.delayTicks - 1
        state := if tcb.delayTicks - 1 = 0 then .ready else tcb.state }
  else k

/-- The loop body of `sync_tick_all`: tasks on a wait list with a timeout. -/
def syncTickTask (k : Kernel) (t : Tid) : Kernel :=
  let tcb := k.tcb t
  match tcb.blockingWaitList with
  | none => k
  | some w =>
    if tcb.state = .waiting ∧ 0 < tcb.delayTicks then
      let k := k.setTcb t fun tcb => { tcb with delayTicks := tcb.delayTicks - 1 }
      if tcb.delayTicks - 1 = 0 then
        let k := unlinkWaiter k w t
        let k := k.setTcb t fun tcb => { tcb with blockingWaitList := none, timedOut := true }
        schedulerWakeTask k t minusOne
      else k
    else k

def syncTickAll (k : Kernel) : Kernel := walkAll Kernel.taskList Kernel.next syncTickTask k

def schedulerTick (k : Kernel) : Kernel :=
  let k := { k with tickCount := wrap (k.tickCount + 1) }
  syncTickAll (walkAll Kernel.taskList Kernel.next tickDelay k)

/-- `SysTick_Handler`. -/
def sysTickHandler (k : Kernel) : Kernel :=
  let k := schedulerTick k
  if k.tickCount % preemptTickInterval = 0 then portTriggerPendsv k else k

/-- Save the context of the task on the CPU; `none` when its stack has overflowed
and the handler halts. -/
def saveCurrent (k : Kernel) (oldSp : Nat) : Option Kernel :=
  match k.currentTask with
  | none => some k
  | some cur =>
    if oldSp < (k.tcb cur).stackBase then none
    else
      some (k.setTcb cur fun tcb =>
        { tcb with
          stackPointer := oldSp
          savedR0 := k.r0
          state := if tcb.state = .running then .ready else tcb.state })

/-- Put `next` on the CPU. -/
def resume (L : Layout) (k : Kernel) (next : Tid) : Kernel :=
  let k := k.setTcb next fun tcb => { tcb with state := .running }
  { k with
    mpu := portMpuConfigureForTask L k.mpu (k.tcb next).stackBase (k.tcb next).stackSize
    currentTask := some next
    nPriv := (k.tcb next).user
    r0 := (k.tcb next).savedR0 }

/-- `PendSV_Handler` around `port_switch_context`. -/
def portSwitchContext (L : Layout) (k : Kernel) (oldSp : Nat) : Option Kernel :=
  match saveCurrent { k with pendsv := false } oldSp with
  | none => none
  | some k =>
    match schedulerGetNext k with
    | some (k, next) => some (resume L k next)
    | none =>
      match k.currentTask with
      | some cur => some (k.setTcb cur fun tcb => { tcb with state := .running })
      | none => some k

theorem saveCurrent_cases {k k' : Kernel} {oldSp : Nat} (h : saveCurrent k oldSp = some k') :
    (k.currentTask = none ∧ k' = k) ∨ ∃ cur, k.currentTask = some cur ∧
      k' = k.setTcb cur fun tcb =>
        { tcb with
          stackPointer := oldSp
          savedR0 := k.r0
          state := if tcb.state = .running then .ready else tcb.state } := by
  rw [saveCurrent] at h
  split at h
  · rename_i hcur
    exact Or.inl ⟨hcur, (Option.some.inj h).symm⟩
  · rename_i cur hcur
    split at h
    · cases h
    · exact Or.inr ⟨cur, hcur, (Option.some.inj h).symm⟩

/-- A switch puts the task that the search finds on the CPU. If it finds none, the old
one goes on. -/
theorem portSwitchContext_cases {L : Layout} {k k' : Kernel} {oldSp : Nat}
    (h : portSwitchContext L k oldSp = some k') :
    ∃ k₁, saveCurrent { k with pendsv := false } oldSp = some k₁ ∧
      ((∃ k₂ next, schedulerGetNext k₁ = some (k₂, next) ∧ k' = resume L k₂ next) ∨
        (∃ cur, k₁.currentTask = some cur ∧
          k' = k₁.setTcb cur fun tcb => { tcb with state := .running }) ∨ k' = k₁) := by
  rw [portSwitchContext] at h
  split at h
  · cases h
  · rename_i k₁ hsave
    refine ⟨k₁, hsave, ?_⟩
    split at h
    · rename_i k₂ next hnext
      exact Or.inl ⟨k₂, next, hnext, (Option.some.inj h).symm⟩
    · split at h
      · rename_i cur hcur
        exact Or.inr (Or.inl ⟨cur, hcur, (Option.some.inj h).symm⟩)
      · exact Or.inr (Or.inr (Option.some.inj h).symm)

end Crest
