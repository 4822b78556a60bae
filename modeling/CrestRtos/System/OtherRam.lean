import CrestRtos.System.CallSteps
import CrestRtos.System.ObjectEffects
import CrestRtos.System.SyncSteps

/-!
# The same code on another RAM

Only a push and a pop look into the RAM. Everything else that is done for a caller runs alike
whatever the RAM holds, and leaves it as it is.
-/

namespace Crest
open ByteMemory MachineWord Alloc

def Kernel.withRam (k : Kernel) (m : Memory) : Kernel := { k with ram := m }

def Sys.withRam (s : Sys) (m : Memory) : Sys := { s with k := s.k.withRam m }

/-- A section's kernel on another RAM, with the same outcome. -/
def onRam (m : Memory) (done : Kernel × Outcome) : Kernel × Outcome := (done.1.withRam m, done.2)

/-- The calls that copy an item. -/
def Op.copies : Op → Bool
  | .queuePush _ _ _ => true
  | .queuePop _ _ _ => true
  | _ => false

section Sections
variable {k : Kernel} {m : Memory} {w : WaitList} {t u : Tid}

theorem head_withRam : (k.withRam m).head w = k.head w := by
  cases w <;> rfl

theorem popWaiter_withRam : popWaiter (k.withRam m) w t = (popWaiter k w t).withRam m := by
  cases w <;> rfl

theorem take_withRam (direct : Bool) (s ms : Nat) :
    takeSection direct (k.withRam m) s t ms = onRam m (takeSection direct k s t ms) := by
  have hsem : (k.withRam m).sem = k.sem := rfl
  simp only [takeSection, hsem, onRam]
  split_ifs <;> rfl

theorem give_withRam (s : Nat) : zImplSemGive (k.withRam m) s = onRam m (zImplSemGive k s) := by
  have hsem : (k.withRam m).sem = k.sem := rfl
  rw [zImplSemGive, zImplSemGive, hsem]
  cases (k.sem s).waitList with
  | none => rfl
  | some x => rfl

theorem lock_withRam (direct : Bool) (a ms : Nat) :
    lockSection direct (k.withRam m) a t ms = onRam m (lockSection direct k a t ms) := by
  have hmutex : (k.withRam m).mutex = k.mutex := rfl
  simp only [lockSection, hmutex, onRam]
  split_ifs <;> rfl

theorem unlock_withRam (a : Nat) :
    unlockSection (k.withRam m) a t = onRam m (unlockSection k a t) := by
  have hmutex : (k.withRam m).mutex = k.mutex := rfl
  rw [unlockSection, unlockSection, hmutex]
  by_cases howner : (k.mutex a).owner ≠ some t
  · rw [if_pos howner, if_pos howner]
    rfl
  · rw [if_neg howner, if_neg howner]
    cases (k.mutex a).waitList with
    | none => rfl
    | some x => rfl

theorem wakeFirst_withRam : wakeFirst (k.withRam m) w = onRam m (wakeFirst k w) := by
  rw [wakeFirst, wakeFirst, head_withRam]
  cases k.head w with
  | none => rfl
  | some x => exact congrArg (·, Outcome.wake x 0) popWaiter_withRam

/-- Every other call has nothing to do with the RAM. -/
theorem enter_withRam {op : Op} (hop : op.copies = false) :
    op.enter (k.withRam m) u = onRam m (op.enter k u) := by
  cases op with
  | semTake s ms => exact take_withRam true s ms
  | semTryTake s caller ms => exact take_withRam false s ms
  | semGive s => exact give_withRam s
  | mutexLock a ms => exact lock_withRam true a ms
  | mutexTryLock a caller ms => exact lock_withRam false a ms
  | mutexUnlock a => exact unlock_withRam a
  | mutexUnlockFor a owner => exact unlock_withRam a
  | queuePush q item ms => cases hop
  | queuePop q item ms => cases hop
  | delay ticks =>
    change zImplTaskDelay (k.withRam m) u ticks = onRam m (zImplTaskDelay k u ticks)
    rw [zImplTaskDelay, zImplTaskDelay]
    split_ifs <;> rfl

/-- A push depends on the bytes that it copies. -/
theorem push_withRam {q item : Nat}
    (hsame : (k.queue q).nextIndex (k.queue q).tail ≠ (k.queue q).head →
      ∀ y, item ≤ y → y < item + (k.queue q).itemSize → m y = k.ram y) :
    zImplQueuePush (k.withRam m) q u item 0 = onRam m (zImplQueuePush k q u item 0) := by
  have hqueue : (k.withRam m).queue = k.queue := rfl
  have hram : (k.withRam m).ram = m := rfl
  simp only [zImplQueuePush, hqueue, hram]
  by_cases hroom : (k.queue q).nextIndex (k.queue q).tail ≠ (k.queue q).head
  · have hbytes := copyBytes_congr (k.queue q).bytes ((k.queue q).offset (k.queue q).tail)
      (hsame hroom)
    simp only [if_pos hroom, hbytes]
    refine Eq.trans ?_ wakeFirst_withRam
    rfl
  · simp only [if_neg hroom]
    rfl

/-- The RAM behind a pop. -/
def popRam (k : Kernel) (q item : Nat) (m : Memory) : Memory :=
  if (k.queue q).head ≠ (k.queue q).tail then
    copyBytes m item (k.queue q).bytes ((k.queue q).offset (k.queue q).head) (k.queue q).itemSize
  else m

/-- A pop stores its item whatever was there before. -/
theorem pop_withRam (q item : Nat) : zImplQueuePop (k.withRam m) q u item 0 =
    onRam (popRam k q item m) (zImplQueuePop k q u item 0) := by
  have hqueue : (k.withRam m).queue = k.queue := rfl
  have hram : (k.withRam m).ram = m := rfl
  simp only [zImplQueuePop, hqueue, hram, popRam]
  by_cases hitem : (k.queue q).head ≠ (k.queue q).tail
  · simp only [if_pos hitem]
    refine Eq.trans ?_ wakeFirst_withRam
    rfl
  · simp only [if_neg hitem]
    rfl

end Sections

section Steps
variable {L : Layout} {s : Sys} {m : Memory} {u c : Tid} {r : Ret}

theorem finish_withRam (v : Nat) : (s.withRam m).finish u r v = (s.finish u r v).withRam m := by
  cases r <;> rfl

theorem settle_withRam (op : Op) (out : Outcome) :
    (s.withRam m).settle u op r out = (s.settle u op r out).withRam m := by
  cases out with
  | ret v => exact finish_withRam v
  | _ => rfl

/-- A section that leads to the same events leads to the same system on the other RAM. -/
theorem runOp_onRam {op : Op} {m' : Memory}
    (henter : op.enter (s.withRam m).k u = onRam m' (op.enter s.k u))
    (hnote : op.note (s.withRam m).k ((op.enter s.k u).1.withRam m') u (op.enter s.k u).2 =
      op.note s.k (op.enter s.k u).1 u (op.enter s.k u).2) :
    (s.withRam m).runOp u op r = (s.runOp u op r).withRam m' := by
  rw [runOp_eq, runOp_eq, henter, onRam, hnote]
  refine Eq.trans ?_ (settle_withRam op _)
  rfl

theorem runOp_withRam {op : Op} (hop : op.copies = false) :
    (s.withRam m).runOp u op r = (s.runOp u op r).withRam m := by
  refine runOp_onRam (enter_withRam hop) ?_
  cases op with
  | queuePush q item ms => cases hop
  | queuePop q item ms => cases hop
  | _ => rfl

theorem runOp_push {q item : Nat}
    (hsame : (s.k.queue q).nextIndex (s.k.queue q).tail ≠ (s.k.queue q).head →
      ∀ y, item ≤ y → y < item + (s.k.queue q).itemSize → m y = s.k.ram y) :
    (s.withRam m).runOp u (.queuePush q item 0) r =
      (s.runOp u (.queuePush q item 0) r).withRam m := by
  refine runOp_onRam (push_withRam hsame) ?_
  by_cases hroom : (s.k.queue q).nextIndex (s.k.queue q).tail ≠ (s.k.queue q).head
  · have hbytes : bytesAt (s.withRam m).k.ram item (s.k.queue q).itemSize =
        bytesAt s.k.ram item (s.k.queue q).itemSize := bytesAt_congr (hsame hroom)
    exact congrArg (fun b => passNote (.recv q) (.send q) (.pushed q b) (.foundFull q) u 0 _) hbytes
  · have hout : (Op.enter s.k u (.queuePush q item 0)).2 = .ret minusOne := by
      simp only [Op.enter, zImplQueuePush, if_neg hroom, if_true]
    rw [hout]
    rfl

theorem runOp_pop (q item : Nat) : (s.withRam m).runOp u (.queuePop q item 0) r =
    (s.runOp u (.queuePop q item 0) r).withRam (popRam s.k q item m) := by
  refine runOp_onRam (pop_withRam q item) ?_
  by_cases hitem : (s.k.queue q).head ≠ (s.k.queue q).tail
  · obtain ⟨hsize, hram⟩ := @pop_delivers s.k u q item 0 hitem
    have hbytes : bytesAt (popRam s.k q item m) item
        ((zImplQueuePop s.k q u item 0).1.queue q).itemSize =
        bytesAt (zImplQueuePop s.k q u item 0).1.ram item
          ((zImplQueuePop s.k q u item 0).1.queue q).itemSize := by
      rw [hsize, hram, popRam, if_pos hitem, bytesAt_copyBytes_same, bytesAt_copyBytes_same]
    exact congrArg
      (fun b => passNote (.send q) (.recv q) (.popped q b) (.foundEmpty q) u 0 _) hbytes
  · have hout : (Op.enter s.k u (.queuePop q item 0)).2 = .ret minusOne := by
      simp only [Op.enter, zImplQueuePop, if_neg hitem, if_true]
    rw [hout]
    rfl

theorem checkWait_withRam (op : Op) :
    (s.withRam m).checkWait u op r = (s.checkWait u op r).withRam m := by
  have htcb : (s.withRam m).k.tcb = s.k.tcb := rfl
  rw [Sys.checkWait, Sys.checkWait, htcb]
  cases op.waitList with
  | none => rfl
  | some w =>
    simp only
    split_ifs
    · exact finish_withRam _
    · rfl
    · exact finish_withRam (s := { s with k := s.k.setTcb u fun tcb =>
        { tcb with timedOut := false } }) _
    · exact finish_withRam _

theorem dispatch_withRam (item : WorkItem) :
    (s.withRam m).dispatch u item = (s.dispatch u item).withRam m := by
  have hdecode : decode (s.withRam m).k item = decode s.k item := rfl
  rw [Sys.dispatch, Sys.dispatch, hdecode]
  cases decode s.k item <;> rfl

theorem alloc_withRam {k : Kernel} (cr : Creation) : cr.alloc L (k.withRam m) =
    (cr.alloc L k).map fun done => (done.1.withRam m, done.2) := by
  rw [Creation.alloc, Creation.alloc]
  split
  · rfl
  · rw [Option.map_map]
    refine congrArg (Option.map · _) (funext fun done => ?_)
    obtain ⟨heap, p⟩ := done
    by_cases hp : p = 0
    · simp only [Function.comp, if_pos hp]
      rfl
    · simp only [Function.comp, if_neg hp]
      cases cr <;> rfl

theorem create_withRam (cr : Creation) :
    (s.withRam m).create L u cr r = (s.create L u cr r).map (·.withRam m) := by
  have halloc : cr.alloc L (s.withRam m).k = _ := alloc_withRam cr
  rw [Sys.create, Sys.create, halloc, Option.map_map, Option.map_map]
  refine congrArg (Option.map · _) (funext fun done => ?_)
  obtain ⟨k, p⟩ := done
  by_cases hp : p = 0
  · simp only [Function.comp, if_pos hp]
    exact finish_withRam (s := { s with k := k }) _
  · simp only [Function.comp, if_neg hp]
    cases cr <;> rfl

theorem queueBuffer_withRam {k : Kernel} (p : Nat) : queueInitBuffer L (k.withRam m) p =
    (queueInitBuffer L k p).map fun done => (done.1.withRam m, done.2) := by
  have hqueue : (k.withRam m).queue = k.queue := rfl
  simp only [queueInitBuffer, hqueue]
  split
  · rfl
  · rw [Option.map_map]
    rfl

theorem publish_withRam {k : Kernel} (p : Nat) (type : KobjType) :
    kObjAlloc (k.withRam m) p type =
      ((kObjAlloc k p type).1.withRam m, (kObjAlloc k p type).2) := by
  have htable : (k.withRam m).table = k.table := rfl
  rw [kObjAlloc, kObjAlloc, htable]
  split
  · rfl
  · cases (List.range kobjMax).find? fun i => !(k.table i).inUse <;> rfl

/-- Copies for a client, and the stack of a new task. -/
def Pc.usesRam : Pc → Bool
  | .enter op _ => op.copies
  | .retry op _ => op.copies
  | .spawnAdd _ _ _ => true
  | _ => false

/-- All other code runs alike on every RAM, and keeps it. -/
theorem go_alike (hpc : (s.pc u).usesRam = false) :
    (s.withRam m).go L u = (s.go L u).map (·.withRam m) := by
  have hsame : (s.withRam m).pc u = s.pc u := rfl
  cases hcode : s.pc u with
  | app =>
    simp only [Sys.go, hsame, hcode]
    rfl
  | idle =>
    simp only [Sys.go, hsame, hcode]
    rfl
  | svcRet =>
    simp only [Sys.go, hsame, hcode]
    rfl
  | enter op r =>
    rw [hcode] at hpc
    simp only [Sys.go, hsame, hcode]
    exact congrArg some (runOp_withRam hpc)
  | retry op r =>
    rw [hcode] at hpc
    have hagain : op.again.copies = false := by
      cases op <;> first | rfl | cases hpc
    simp only [Sys.go, hsame, hcode]
    exact congrArg some (runOp_withRam (s := s.note _) hagain)
  | block op r =>
    simp only [Sys.go, hsame, hcode]
    rfl
  | check op r =>
    simp only [Sys.go, hsame, hcode]
    exact congrArg some (checkWait_withRam op)
  | wake t v after =>
    simp only [Sys.go, hsame, hcode]
    rfl
  | pend after =>
    simp only [Sys.go, hsame, hcode]
    cases after with
    | ret r v =>
      exact congrArg some (finish_withRam (s := { s with k := portTriggerPendsv s.k }) v)
    | loop => rfl
  | workerStart =>
    simp only [Sys.go, hsame, hcode]
    rfl
  | workerPop =>
    have hpop : kworkPopLocked (s.withRam m).k =
        (kworkPopLocked s.k).map fun done => (done.1.withRam m, done.2) := by
      have hends : (s.withRam m).k.kworkHead = s.k.kworkHead ∧
          (s.withRam m).k.kworkTail = s.k.kworkTail := ⟨rfl, rfl⟩
      simp only [kworkPopLocked, hends]
      split_ifs <;> rfl
    simp only [Sys.go, hsame, hcode, hpop]
    cases kworkPopLocked s.k <;> rfl
  | workerSleep =>
    have hwait : workerWait (s.withRam m).k = (workerWait s.k).withRam m := by
      have htcb : (s.withRam m).k.kernelTcb = s.k.kernelTcb := rfl
      rw [workerWait, workerWait, htcb]
      cases s.k.kernelTcb <;> rfl
    simp only [Sys.go, hsame, hcode, hwait]
    rfl
  | dispatch item =>
    simp only [Sys.go, hsame, hcode]
    exact congrArg some (dispatch_withRam item)
  | create cr r =>
    simp only [Sys.go, hsame, hcode]
    exact create_withRam cr
  | queueBuffer p r =>
    have hbuffer : queueInitBuffer L (s.withRam m).k p = _ := queueBuffer_withRam p
    simp only [Sys.go, hsame, hcode, hbuffer, Option.map_map]
    rfl
  | queueFree p r =>
    simp only [Sys.go, hsame, hcode, queueFree, Option.map_map]
    refine congrArg (Option.map · _) (funext fun heap => ?_)
    exact finish_withRam (s := { s with k := { s.k with heap := heap } }) _
  | publish p type r =>
    have halloc : kObjAlloc (s.withRam m).k p type = _ := publish_withRam p type
    simp only [Sys.go, hsame, hcode, halloc]
    exact congrArg some (finish_withRam (s := { s with k := (kObjAlloc s.k p type).1 }) _)
  | spawnTcb args =>
    have htcb : getFreeTcb (s.withRam m).k =
        (getFreeTcb s.k).map fun done => (done.1.withRam m, done.2) := by
      have hused : (s.withRam m).k.tcbUsed = s.k.tcbUsed := rfl
      rw [getFreeTcb, getFreeTcb, hused]
      cases (List.finRange 8).find? fun i => !s.k.tcbUsed i <;> rfl
    simp only [Sys.go, hsame, hcode, htcb]
    cases getFreeTcb s.k <;> rfl
  | spawnStack t args =>
    simp only [Sys.go, hsame, hcode, Option.map_map]
    rfl
  | spawnFree t =>
    simp only [Sys.go, hsame, hcode]
    rfl
  | spawnAdd t alloc args =>
    rw [hcode] at hpc
    cases hpc

/-- Code that works for a caller and copies nothing. -/
theorem go_withRam {worker : Prop} (hserves : (s.pc u).serves = some c)
    (hfits : (s.pc u).fits worker) (hop : ∀ op r, s.pc u = .enter op r → op.copies = false) :
    (s.withRam m).go L u = (s.go L u).map (·.withRam m) := by
  apply go_alike
  cases hpc : s.pc u with
  | enter op r => exact hop op r hpc
  | retry op r =>
    rw [hpc] at hserves hfits
    obtain ⟨_, rfl, _⟩ := hfits
    cases hserves
  | spawnAdd t alloc args =>
    rw [hpc] at hserves
    cases hserves
  | _ => rfl

theorem svcHandler_withRam {k : Kernel} (item : WorkItem) :
    svcHandler (k.withRam m) item = (svcHandler k item).withRam m := by
  have hring : ∀ k : Kernel, kworkPush (k.withRam m) item =
      ((kworkPush k item).1.withRam m, (kworkPush k item).2) := by
    intro k
    have hsame : (k.withRam m).kworkTail = k.kworkTail ∧ (k.withRam m).kworkHead = k.kworkHead ∧
        (k.withRam m).kernelTcb = k.kernelTcb ∧ (k.withRam m).tcb = k.tcb := ⟨rfl, rfl, rfl, rfl⟩
    simp only [kworkPush, hsame]
    split_ifs
    · rfl
    · cases k.kernelTcb with
      | none => rfl
      | some w =>
        simp only
        split_ifs <;> rfl
  have hpost := hring ({ k with r0 := item.arg0 }.setTcb item.caller fun tcb =>
    { tcb with svcBlocked := true, state := .waiting })
  change kworkPush ({ k.withRam m with r0 := item.arg0 }.setTcb item.caller fun tcb =>
    { tcb with svcBlocked := true, state := .waiting }) item = _ at hpost
  simp only [svcHandler, hpost]
  split_ifs <;> rfl

theorem call_withRam (call : Call) : (s.withRam m).call u call = (s.call u call).withRam m := by
  have hobject : ∀ handle type f missing, (s.withRam m).callObject u handle type f missing =
      (s.callObject u handle type f missing).withRam m := by
    intro handle type f missing
    have hget : kObjGet (s.withRam m).k handle type = kObjGet s.k handle type := rfl
    rw [Sys.callObject, Sys.callObject, hget]
    cases kObjGet s.k handle type <;> rfl
  cases call with
  | semTake h ms => exact hobject _ _ _ _
  | semGive h => exact hobject _ _ _ _
  | mutexLock h ms => exact hobject _ _ _ _
  | mutexUnlock h => exact hobject _ _ _ _
  | queuePush h item ms => exact hobject _ _ _ _
  | queuePop h item ms => exact hobject _ _ _ _
  | taskCreate args =>
    rw [Sys.call, Sys.call]
    split_ifs <;> rfl
  | _ => rfl

theorem switch_withRam {k : Kernel} (oldSp : Nat) : portSwitchContext L (k.withRam m) oldSp =
    (portSwitchContext L k oldSp).map (·.withRam m) := by
  have hsave : ∀ k : Kernel,
      saveCurrent (k.withRam m) oldSp = (saveCurrent k oldSp).map (·.withRam m) := by
    intro k
    have hsame : (k.withRam m).currentTask = k.currentTask ∧ (k.withRam m).tcb = k.tcb :=
      ⟨rfl, rfl⟩
    simp only [saveCurrent, hsame]
    cases k.currentTask with
    | none => rfl
    | some cur =>
      simp only
      split_ifs <;> rfl
  have hnext : ∀ k : Kernel, schedulerGetNext (k.withRam m) =
      (schedulerGetNext k).map fun done => (done.1.withRam m, done.2) := by
    intro k
    have hsearch : ∀ n list start t,
        searchReady (k.withRam m) list start n t = searchReady k list start n t := by
      intro n
      induction n with
      | zero => exact fun _ _ _ => rfl
      | succ n ih =>
        intro list start t
        simp only [searchReady, ih]
        rfl
    have hat : ∀ pr, getNextAt (k.withRam m) pr =
        (getNextAt k pr).map fun done => (done.1.withRam m, done.2) := by
      intro pr
      have hsame : (k.withRam m).taskList = k.taskList ∧ (k.withRam m).rrCurrent = k.rrCurrent :=
        ⟨rfl, rfl⟩
      simp only [getNextAt, hsame, hsearch]
      cases k.taskList pr with
      | none => rfl
      | some list =>
        simp only
        cases searchReady k list ((k.rrCurrent pr).getD list) maxTasks
          ((k.rrCurrent pr).getD list) <;> rfl
    rw [schedulerGetNext, schedulerGetNext, List.map_findSome?]
    exact congrArg (List.findSome? · _) (funext hat)
  have hfirst := hsave { k with pendsv := false }
  change saveCurrent { k.withRam m with pendsv := false } oldSp = _ at hfirst
  rw [portSwitchContext, portSwitchContext, hfirst]
  cases saveCurrent { k with pendsv := false } oldSp with
  | none => rfl
  | some k₁ =>
    simp only [Option.map_some, hnext]
    cases schedulerGetNext k₁ with
    | some done => rfl
    | none =>
      have hcur : (k₁.withRam m).currentTask = k₁.currentTask := rfl
      simp only [Option.map_none, hcur]
      cases k₁.currentTask <;> rfl

end Steps

end Crest
