import CrestRtos.System.Runs
import CrestRtos.System.Twins

/-!
# Takes, gives, locks and unlocks on both paths

A call on a semaphore or a mutex made directly, and the same call made by the worker
after `svc_handler_c`. Behind either the object and the caller are the same, and no
later give, unlock or tick tells them apart: the caller becomes ready at the same
time, and gets the same result.
-/

namespace Crest
open MachineWord Alloc

inductive SyncCall
  | take (handle ms : Nat)
  | give (handle : Nat)
  | lock (handle ms : Nat)
  | unlock (handle : Nat)

namespace SyncCall

def call : SyncCall → Call
  | .take h ms => .semTake h ms
  | .give h => .semGive h
  | .lock h ms => .mutexLock h ms
  | .unlock h => .mutexUnlock h

def handle : SyncCall → Nat
  | .take h _ => h
  | .give h => h
  | .lock h _ => h
  | .unlock h => h

def type : SyncCall → KobjType
  | .take _ _ => .sem
  | .give _ => .sem
  | .lock _ _ => .mutex
  | .unlock _ => .mutex

/-- The call on the object that the handle stands for, made directly. -/
def op (p : Nat) : SyncCall → Op
  | .take _ ms => .semTake p ms
  | .give _ => .semGive p
  | .lock _ ms => .mutexLock p ms
  | .unlock _ => .mutexUnlock p

/-- The worker's variant for the caller `t`. -/
def workerOp (t : Tid) (p : Nat) : SyncCall → Op
  | .take _ ms => .semTryTake p t ms
  | .give _ => .semGive p
  | .lock _ ms => .mutexTryLock p t ms
  | .unlock _ => .mutexUnlockFor p t

def item (t : Tid) : SyncCall → WorkItem
  | .take h ms => ⟨syscallSemWait, h, ms, 0, 0, t⟩
  | .give h => ⟨syscallSemPost, h, 0, 0, 0, t⟩
  | .lock h ms => ⟨syscallMutexLock, h, ms, 0, 0, t⟩
  | .unlock h => ⟨syscallMutexUnlock, h, 0, 0, 0, t⟩

/-- The stub returns a result; those of a give and an unlock are `void`. -/
def returns : SyncCall → Bool
  | .take _ _ => true
  | .lock _ _ => true
  | _ => false

/-- What the direct call returns for a bad handle. -/
def missing : SyncCall → Nat
  | .take _ _ => minusOne
  | .lock _ _ => minusOne
  | _ => 0

end SyncCall

/-- From the posting of the item to its dispatch: the worker is switched to, and takes
the item out of the ring. -/
inductive Underway (L : Layout) (item : WorkItem) (k : Kernel) : Kernel → Prop
  | posted : Underway L item k (svcHandler k item)
  | switched {oldSp : Nat} {k' : Kernel}
      (h : portSwitchContext L (svcHandler k item) oldSp = some k') : Underway L item k k'
  | taken {k₁ k₂ : Kernel} (h : Underway L item k k₁)
      (hpop : kworkPopLocked k₁ = some (k₂, item)) : Underway L item k k₂

/-- The direct call of `t` has returned this value, or has slept and will return what the
flag says. -/
def Sys.Comes (s : Sys) (t : Tid) : Option Nat → Prop
  | some v => s.pc t = .app ∧ s.log.head? = some (.result t v)
  | none => ∃ op l, s.pc t = .check op .app ∧ op.waitList = some l ∧ l.isQueue = false

/-- What can happen to objects and waiting tasks afterwards. -/
inductive Later
  | give (s : Nat)
  | unlock (m : Nat) (u : Tid)
  | tick

def Later.run (k : Kernel) : Later → Kernel
  | .give s => (zImplSemGive k s).1.behind (zImplSemGive k s).2
  | .unlock m u => (zImplMutexUnlock k m u).1.behind (zImplMutexUnlock k m u).2
  | .tick => sysTickHandler k

/-- The objects, and the caller `t` of a call that has returned `r` directly, or `none`
if it has blocked, are the same in both kernels. -/
structure SyncAgree (c : SyncCall) (t : Tid) (r : Option Nat) (d v : Kernel) : Prop where
  sem : v.sem = d.sem
  mutex : v.mutex = d.mutex
  waitNext : v.waitNext = d.waitNext
  delay : (v.tcb t).delayTicks = (d.tcb t).delayTicks
  list : (v.tcb t).blockingWaitList = (d.tcb t).blockingWaitList
  waiting : (v.tcb t).state = .waiting ↔ (d.tcb t).state = .waiting
  runnable : (v.tcb t).state.runnable = (d.tcb t).state.runnable
  result : c.returns = true → (d.tcb t).state.runnable = true →
    (v.tcb t).savedR0 = r.getD (d.tcb t).flagged

/-- Behind a section of a direct call, up to its return or its sleep. -/
def directEnd (k : Kernel) : Outcome → Kernel
  | .block => portTriggerPendsv k
  | out => k.behind out

/-- Behind a section of the worker: it answers the caller unless that sleeps now. -/
def serveEnd (k : Kernel) (caller : Tid) (out : Outcome) : Kernel :=
  match out.result with
  | some v => schedulerWakeTask (k.behind out) caller v
  | none => k

section Code
variable {L : Layout} {s : Sys} {t u w : Tid} {op : Op} {out : Outcome}

theorem go_wake {x : Tid} {v : Nat} {after : After} (hpc : s.pc u = .wake x v after) :
    s.go L u = some (({ s with k := wakeSection s.k x v }.note (answerNote s.k x v)).setPc u
      (.pend after)) := by
  simp only [Sys.go, hpc]

theorem go_pend {after : After} (hpc : s.pc u = .pend after) :
    s.go L u = some (({ s with k := portTriggerPendsv s.k } : Sys).proceed u after) := by
  simp only [Sys.go, hpc]

theorem setPc_self (s : Sys) (u : Tid) (p : Pc) : (s.setPc u p).pc u = p :=
  Function.update_self _ _ _

/-- The code of a direct call behind its section. -/
theorem settle_app_goes (hop : out = .block → ∃ l, op.waitList = some l ∧ l.isQueue = false) :
    ∃ s', Goes L t (s.settle t op .app out) s' ∧ s'.k = directEnd s.k out ∧
      s'.Comes t out.result := by
  cases out with
  | ret v => exact ⟨_, .refl _, finish_k s t .app v, setPc_self s t .app, rfl⟩
  | block =>
    obtain ⟨l, hl, hkind⟩ := hop rfl
    have hpc : (s.settle t op .app .block).pc t = .block op .app := by
      rw [Sys.settle, hl]
      exact setPc_self s t _
    have hgo : (s.settle t op .app .block).go L t = some (({ (s.settle t op .app .block) with
        k := portTriggerPendsv s.k } : Sys).setPc t (.check op .app)) := by
      simp only [Sys.go, hpc]
      rfl
    exact ⟨_, .step hgo (.refl _), rfl, op, l, setPc_self _ t _, hl, hkind⟩
  | wake x v =>
    have hpc := setPc_self s t (.wake x 0 (.ret .app v))
    exact ⟨_, .step (go_wake hpc) (.step (go_pend (setPc_self _ t _)) (.refl _)), rfl,
      setPc_self _ t .app, rfl⟩
  | pend v =>
    have hpc := setPc_self s t (.pend (.ret .app v))
    exact ⟨_, .step (go_pend hpc) (.refl _), rfl, setPc_self _ t .app, rfl⟩

/-- The worker answers a caller. -/
theorem serve_goes {v : Nat} (hpc : s.pc w = .wake t v .loop) :
    ∃ s', Goes L w s s' ∧ s'.k = schedulerWakeTask s.k t v ∧ s'.pc w = .workerPop :=
  ⟨_, .step (go_wake hpc) (.step (go_pend (setPc_self _ w _)) (.refl _)), rfl, setPc_self _ w _⟩

theorem pend_serve_goes {v : Nat} (hpc : s.pc w = .pend (.ret (.serve t) v)) :
    ∃ s', Goes L w s s' ∧ s'.k = schedulerWakeTask (portTriggerPendsv s.k) t v ∧
      s'.pc w = .workerPop := by
  obtain ⟨s', hgo, hk, hend⟩ := serve_goes (L := L)
    (setPc_self ({ s with k := portTriggerPendsv s.k } : Sys) w (.wake t v .loop))
  exact ⟨s', .step (go_pend hpc) hgo, hk, hend⟩

/-- The code of the worker behind the section of a call for `t`. -/
theorem settle_serve_goes (hop : op.waitList = none) :
    ∃ s', Goes L w (s.settle w op (.serve t) out) s' ∧ s'.k = serveEnd s.k t out ∧
      s'.pc w = .workerPop := by
  cases out with
  | ret v => exact serve_goes (setPc_self s w (.wake t v .loop))
  | block =>
    refine ⟨_, .refl _, rfl, ?_⟩
    rw [Sys.settle, hop]
    exact setPc_self s w _
  | wake x v =>
    have hpc := setPc_self s w (.wake x 0 (.ret (.serve t) v))
    obtain ⟨s', hgo, hk, hend⟩ := pend_serve_goes (L := L)
      (setPc_self (({ (s.setPc w (.wake x 0 (.ret (.serve t) v))) with
        k := wakeSection s.k x 0 } : Sys).note (answerNote s.k x 0)) w (.pend (.ret (.serve t) v)))
    exact ⟨s', .step (go_wake hpc) hgo, hk, hend⟩
  | pend v => exact pend_serve_goes (setPc_self s w (.pend (.ret (.serve t) v)))

end Code

section Calls
variable {L : Layout} {s : Sys} {t w : Tid} (c : SyncCall)

namespace SyncCall

theorem call_eq : s.call t c.call = s.callObject t c.handle c.type c.op c.missing := by
  cases c <;> rfl

theorem decode_eq (k : Kernel) : decode k (c.item t) =
    withObject k c.handle c.type fun p => .call (c.workerOp t p) := by
  cases c <;> rfl

theorem op_waits {p : Nat} (hout : ((c.op p).enter s.k t).2 = .block) :
    ∃ l, (c.op p).waitList = some l ∧ l.isQueue = false := by
  cases c with
  | take h ms => exact ⟨_, rfl, rfl⟩
  | lock h ms => exact ⟨_, rfl, rfl⟩
  | give h =>
    change (zImplSemGive s.k p).2 = .block at hout
    rw [zImplSemGive] at hout
    cases hlist : (s.k.sem p).waitList with
    | none =>
      rw [hlist] at hout
      cases hout
    | some x =>
      rw [hlist] at hout
      cases hout
  | unlock h =>
    change (unlockSection s.k p t).2 = .block at hout
    rw [unlockSection] at hout
    by_cases howner : (s.k.mutex p).owner ≠ some t
    · rw [if_pos howner] at hout
      cases hout
    · rw [if_neg howner] at hout
      cases hlist : (s.k.mutex p).waitList with
      | none =>
        rw [hlist] at hout
        cases hout
      | some x =>
        rw [hlist] at hout
        cases hout

theorem workerOp_waitList (p : Nat) : (c.workerOp t p).waitList = none := by
  cases c <;> rfl

/-- The kernel at the end of the direct call, and what the call has returned. -/
def directRun (k : Kernel) (t : Tid) : Kernel × Option Nat :=
  match kObjGet k c.handle c.type with
  | none => (k, some c.missing)
  | some p =>
    let done := (c.op p).enter k t
    (directEnd done.1 done.2, done.2.result)

/-- The kernel when the worker is done with the item, and its answer. -/
def serveRun (k : Kernel) (t w : Tid) : Kernel × Option Nat :=
  match kObjGet k c.handle c.type with
  | none => (schedulerWakeTask k t minusOne, some minusOne)
  | some p =>
    let done := (c.workerOp t p).enter k w
    (serveEnd done.1 t done.2, done.2.result)

end SyncCall

/-- A direct call runs to its end or to its sleep. -/
theorem call_goes : ∃ d, Goes L t (s.call t c.call) d ∧ d.k = (c.directRun s.k t).1 ∧
    d.Comes t (c.directRun s.k t).2 := by
  rw [c.call_eq, Sys.callObject, SyncCall.directRun]
  cases kObjGet s.k c.handle c.type with
  | none => exact ⟨_, .refl _, finish_k s t .app _, setPc_self s t .app, rfl⟩
  | some p =>
    have hgo : (s.setPc t (.enter (c.op p) .app)).go L t = some (s.runOp t (c.op p) .app) := by
      rw [← runOp_setPc (.enter (c.op p) .app)]
      simp only [Sys.go, Sys.setPc, Function.update_self]
    rw [runOp_eq] at hgo
    obtain ⟨d, hrest, hk, hcomes⟩ := settle_app_goes (L := L)
      (s := ({ s with k := ((c.op p).enter s.k t).1 } : Sys).note
        ((c.op p).note s.k ((c.op p).enter s.k t).1 t ((c.op p).enter s.k t).2)) c.op_waits
    exact ⟨d, .step hgo hrest, hk, hcomes⟩

/-- The worker runs from the dispatch of an item to the next one. -/
theorem dispatch_goes : ∃ e, Goes L w (s.dispatch w (c.item t)) e ∧
    e.k = (c.serveRun s.k t w).1 ∧ e.pc w = .workerPop := by
  rw [Sys.dispatch, c.decode_eq, withObject, SyncCall.serveRun]
  have hcaller : (c.item t).caller = t := by cases c <;> rfl
  rw [hcaller]
  cases kObjGet s.k c.handle c.type with
  | none => exact serve_goes (setPc_self s w (.wake t minusOne .loop))
  | some p =>
    have hgo : (s.setPc w (.enter (c.workerOp t p) (.serve t))).go L w =
        some (s.runOp w (c.workerOp t p) (.serve t)) := by
      rw [← runOp_setPc (.enter (c.workerOp t p) (.serve t))]
      simp only [Sys.go, Sys.setPc, Function.update_self]
    rw [runOp_eq] at hgo
    obtain ⟨e, hrest, hk, hpc⟩ := settle_serve_goes (L := L)
      (s := ({ s with k := ((c.workerOp t p).enter s.k w).1 } : Sys).note
        ((c.workerOp t p).note s.k ((c.workerOp t p).enter s.k w).1 w
          ((c.workerOp t p).enter s.k w).2)) (c.workerOp_waitList p)
    exact ⟨e, .step hgo hrest, hk, hpc⟩

end Calls

section Agreement
variable {L : Layout} {s : Sys} {g : Ghost} {d v : Kernel} {t w : Tid} {c : SyncCall}

/-- The section on both paths, from the state in which the caller has asked for it. -/
theorem Twin.paths (h : Twin Asked t d v) (hhead : ∀ l, d.head l ≠ some t) (w : Tid) :
    Twin (Caller (c.serveRun v t w).2) t (c.directRun d t).1 (c.serveRun v t w).1 ∧
      (c.returns = true → (c.directRun d t).2 = (c.serveRun v t w).2) := by
  have hget : kObjGet v c.handle c.type = kObjGet d c.handle c.type := by
    rw [kObjGet, kObjGet, h.table]
  have hvariants : ∀ {D V : Kernel × Outcome}, Variants t D V →
      Twin (Caller V.2.result) t (directEnd D.1 D.2) (serveEnd V.1 t V.2) ∧
        D.2.result = V.2.result := by
    intro D V hv
    cases hv with
    | blocks hd hv h =>
      rw [hd, hv]
      exact ⟨h.pend true V.1.pendsv, rfl⟩
    | @returns n hd hv h =>
      rw [hd, hv]
      exact ⟨h.answer n, rfl⟩
  have hends : ∀ {D V : Kernel × Outcome} {n : Nat}, Twin.Ends Asked t D V →
      D.2.result = some n →
      Twin (Caller V.2.result) t (directEnd D.1 D.2) (serveEnd V.1 t V.2) := by
    intro D V n hends hn
    have hdirect : directEnd D.1 D.2 = D.1.behind D.2 := by
      cases hout : D.2 with
      | block =>
        rw [hout] at hn
        cases hn
      | _ => rfl
    have hV : V.2.result = some n := by rw [hends.outcome, hn]
    rw [hdirect, serveEnd, hV]
    exact hends.twin.answer n
  rw [SyncCall.directRun, SyncCall.serveRun, hget]
  cases kObjGet d c.handle c.type with
  | none =>
    refine ⟨h.answer minusOne, fun hreturns => ?_⟩
    cases c with
    | take h ms => rfl
    | lock h ms => rfl
    | give h => cases hreturns
    | unlock h => cases hreturns
  | some p =>
    have hnone : ∀ l, d.head l = some t → Handed Asked := fun l hl => absurd hl (hhead l)
    cases c with
    | take hd ms =>
      obtain ⟨htwin, hresult⟩ := hvariants (h.take p ms)
      exact ⟨htwin, fun _ => hresult⟩
    | lock hd ms =>
      obtain ⟨htwin, hresult⟩ := hvariants (h.lock p ms)
      exact ⟨htwin, fun _ => hresult⟩
    | give hd =>
      have hzero : (zImplSemGive d p).2.result = some 0 := by
        rw [zImplSemGive]
        cases (d.sem p).waitList <;> rfl
      exact ⟨hends (h.give hnone p) hzero, fun hreturns => by cases hreturns⟩
    | unlock hd =>
      have hzero : (unlockSection d p t).2.result = some 0 := by
        rw [unlockSection]
        by_cases howner : (d.mutex p).owner ≠ some t
        · rw [if_pos howner]
          rfl
        · rw [if_neg howner]
          cases (d.mutex p).waitList <;> rfl
      exact ⟨hends (h.unlock hnone p t) hzero, fun hreturns => by cases hreturns⟩

theorem Twin.later {r : Option Nat} (h : Twin (Caller r) t d v) (l : Later) :
    Twin (Caller r) t (l.run d) (l.run v) := by
  cases l with
  | give s => exact (h.give (fun _ _ => caller_handed r) s).twin
  | unlock m u => exact (h.unlock (fun _ _ => caller_handed r) m u).twin
  | tick => exact h.tick

/-- No sequence of gives, unlocks and ticks tells the two apart. -/
theorem Twin.run {r : Option Nat} (h : Twin (Caller r) t d v) (later : List Later) :
    Twin (Caller r) t (later.foldl Later.run d) (later.foldl Later.run v) := by
  induction later generalizing d v with
  | nil => exact h
  | cons l later ih => exact ih (h.later l)

theorem Twin.agree {r r' : Option Nat} (h : Twin (Caller r) t d v)
    (hr : c.returns = true → r' = r) : SyncAgree c t r' d v := by
  obtain ⟨_, _, hdelay, hlist⟩ := links_eq (h.tcb t).links
  refine ⟨h.sem, h.mutex, h.waitNext, hdelay, hlist, ?_, ?_, ?_⟩
  · cases (h.tcb t).own rfl with
    | waits _ hd hv _ _ _ => exact iff_of_true hv hd
    | runs hd hv _ _ =>
      refine iff_of_false (fun hst => ?_) fun hst => ?_
      · rw [hst] at hv
        cases hv
      · rw [hst] at hd
        cases hd
  · cases (h.tcb t).own rfl with
    | waits _ hd hv _ _ _ => rw [hd, hv]
    | runs hd hv _ _ => rw [hd, hv]
  · intro hreturns hrun
    rw [hr hreturns]
    cases (h.tcb t).own rfl with
    | waits _ hd _ _ _ _ =>
      rw [hd] at hrun
      cases hrun
    | runs _ _ _ hresult => exact hresult

/-- The handler leaves semaphores and mutexes alone. -/
theorem svcHandler_sync (k : Kernel) (item : WorkItem) :
    (svcHandler k item).sem = k.sem ∧ (svcHandler k item).mutex = k.mutex := by
  rw [svcHandler, kworkPush]
  dsimp only
  split
  · exact ⟨rfl, rfl⟩
  · split
    · exact ⟨rfl, rfl⟩
    · split
      · exact ⟨rfl, rfl⟩
      · exact ⟨rfl, rfl⟩

/-- Behind `svc_handler_c` the caller has asked, and nothing else has happened. -/
theorem Inv.asked {item : WorkItem} (h : Inv L s g) (hcur : s.k.currentTask = some item.caller)
    (hpend : s.k.pendsv = false) (hpc : s.pc item.caller = .app) :
    Twin Asked item.caller s.k (svcHandler s.k item) := by
  have hyields : (s.pc item.caller).yields = false := by rw [hpc]; rfl
  have hrun := h.running_of hcur hpend hyields
  obtain ⟨_, _, hdelay, _⟩ := h.own_tcb (h.own hcur hpend (Or.inr hyields))
  have hposted := h.svc_posted hpc
  have hsync := svcHandler_sync s.k item
  refine ⟨hsync.1, hsync.2, hposted.objects.2.2, hposted.objects.2.1,
    congrArg Prod.fst hposted.frame, fun x => ?_⟩
  by_cases hx : x = item.caller
  · subst hx
    rw [hposted.caller]
    exact ⟨rfl, fun hne => absurd rfl hne, fun _ =>
      ⟨hrun, rfl, rfl, hdelay (Or.inl (by rw [hrun]; simp))⟩⟩
  · by_cases hw : x = g.worker
    · subst hw
      have hlinks : ((svcHandler s.k item).tcb g.worker).links = (s.k.tcb g.worker).links := by
        rcases hposted.worker with hsame | hready
        · rw [hsame]
        · rw [hready]
          rfl
      refine ⟨hlinks, fun _ hpos => ?_, fun heq => absurd heq hx⟩
      rw [h.coded.rested] at hpos
      exact absurd hpos (Nat.lt_irrefl 0)
    · rw [hposted.other x hx hw]
      exact ⟨rfl, fun _ _ => Iff.rfl, fun heq => absurd heq hx⟩

/-- A switch away from the caller changes nothing that the relation sees. -/
theorem Twin.switched {k k' : Kernel} {runs : Nat → List Tid} {n : Tid} (h : Twin Asked t d k)
    (hsw : Switched k k' runs n) : Twin Asked t d k' := by
  have hrest : ∀ {α : Type} (f : Kernel → α), f { k' with
      tcb := k.tcb
      rrCurrent := k.rrCurrent
      currentTask := k.currentTask
      pendsv := k.pendsv
      nPriv := k.nPriv
      r0 := k.r0
      mpu := k.mpu } = f k := fun f => congrArg f hsw.rest
  have hn : (k.tcb n).state ≠ .waiting := by
    rcases hsw.state with hst | hst <;> rw [hst] <;> simp
  have hstate : ∀ x, ((k'.tcb x).state = .waiting ↔ (k.tcb x).state = .waiting) := by
    intro x
    obtain ⟨sp, r0, htcb⟩ := hsw.tcb x
    rw [htcb, Tcb.switched]
    by_cases hx : x = n
    · subst hx
      simp [hn]
    · simp only [hx, decide_false, Bool.false_eq_true, if_false]
      by_cases hrun : (k.tcb x).state = .running <;> simp [hrun]
  refine ⟨(hrest Kernel.sem).trans h.sem, (hrest Kernel.mutex).trans h.mutex,
    (hrest Kernel.queue).trans h.queue, (hrest Kernel.table).trans h.table,
    (hrest Kernel.taskList).trans h.taskList, fun x => ?_⟩
  obtain ⟨sp, r0, htcb⟩ := hsw.tcb x
  have hlinks : (k'.tcb x).links = (k.tcb x).links := by rw [htcb]; rfl
  refine ⟨hlinks.trans (h.tcb x).links, fun hx hpos => ?_, fun hx => ?_⟩
  · exact (hstate x).trans ((h.tcb x).other hx hpos)
  · obtain ⟨hst, hblocked, hsvc, hdelay⟩ := (h.tcb x).own hx
    refine ⟨hst, (hstate x).mpr hblocked, ?_, hdelay⟩
    rw [htcb]
    exact hsvc

/-- Whatever has happened on the way to the dispatch, the caller has asked. -/
theorem Inv.underway {item : WorkItem} {k : Kernel} (h : Inv L s g)
    (hcur : s.k.currentTask = some item.caller) (hpend : s.k.pendsv = false)
    (hpc : s.pc item.caller = .app) (hk : Underway L item s.k k) :
    Twin Asked item.caller s.k k := by
  have hasked := h.asked hcur hpend hpc
  induction hk with
  | posted => exact hasked
  | @switched oldSp k' hrun =>
    obtain ⟨n, hsw⟩ := (h.post hcur hpend hpc).switched hrun
    exact hasked.switched hsw
  | @taken k₁ k₂ _ hpop ih =>
    rw [kworkPopLocked] at hpop
    split at hpop
    · cases hpop
    · obtain ⟨rfl, _⟩ := Prod.mk.inj (Option.some.inj hpop)
      exact ⟨ih.sem, ih.mutex, ih.queue, ih.table, ih.taskList, ih.tcb⟩

theorem Inv.no_head (h : Inv L s g) (hcur : s.k.currentTask = some t)
    (hpend : s.k.pendsv = false) (hpc : s.pc t = .app) (l : WaitList) : s.k.head l ≠ some t := by
  intro hhead
  have hown := h.own hcur hpend (Or.inr (by rw [hpc]; rfl))
  have hl := h.placed.lists l
  rw [hhead] at hl
  obtain ⟨r, hr, _⟩ := IntrusiveList.linked_some_iff.mp hl
  have hmem := (h.placed.mem_list t l).mp (by rw [hr]; exact List.mem_cons_self)
  rw [hown] at hmem
  cases hmem

end Agreement

/-- A call on a semaphore or a mutex made directly by `t`, and the same call served by
the worker `w` for `t`, end alike, and stay alike in every later run of gives, unlocks
and ticks. -/
theorem sync_paths_agree {L : Layout} {s : Sys} {t w : Tid} {k : Kernel}
    (hL : L.heap.Placed) (hs : s.Reached L) (hcur : s.k.currentTask = some t)
    (hpend : s.k.pendsv = false) (hpc : s.pc t = .app) (c : SyncCall)
    (hk : Underway L (c.item t) s.k k) :
    ∃ d e r, Goes L t (s.call t c.call) d ∧ d.Comes t r ∧
      Goes L w (({ s with k := k } : Sys).dispatch w (c.item t)) e ∧ e.pc w = .workerPop ∧
      ∀ later : List Later,
        SyncAgree c t r (later.foldl Later.run d.k) (later.foldl Later.run e.k) := by
  obtain ⟨g, hg⟩ := hs.inv hL
  have hcaller : (c.item t).caller = t := by cases c <;> rfl
  have hasked := hg.underway (by rw [hcaller]; exact hcur) hpend (by rw [hcaller]; exact hpc) hk
  rw [hcaller] at hasked
  obtain ⟨htwin, hresult⟩ := hasked.paths (c := c) (hg.no_head hcur hpend hpc) w
  obtain ⟨d, hd, hdk, hcomes⟩ := call_goes (L := L) (s := s) (t := t) c
  obtain ⟨e, he, hek, hepc⟩ := dispatch_goes (L := L) (s := ({ s with k := k } : Sys)) (t := t)
    (w := w) c
  refine ⟨d, e, _, hd, hcomes, he, hepc, fun later => ?_⟩
  rw [hdk, hek]
  exact (htwin.run later).agree hresult

/-- Task 1 takes a new semaphore of count 0 with a timeout of 5. -/
theorem sync_paths_agree_take : ∃ s : Sys, s.Reached boardLayout ∧
    (kObjGet s.k 0x10000 .sem).isSome = true ∧
    ∃ d e r, Goes boardLayout 1 (s.call 1 (.semTake 0x10000 5)) d ∧ d.Comes 1 r ∧
      Goes boardLayout 0 (({ s with k := svcHandler s.k ⟨syscallSemWait, 0x10000, 5, 0, 0, 1⟩ } :
        Sys).dispatch 0 ⟨syscallSemWait, 0x10000, 5, 0, 0, 1⟩) e ∧ e.pc 0 = .workerPop ∧
      ∀ later : List Later, SyncAgree (.take 0x10000 5) 1 r (later.foldl Later.run d.k)
        (later.foldl Later.run e.k) := by
  obtain ⟨s, hs, hcur, hpend, hpc, hget⟩ := boardRun_at
    (boardReady ++ [.call (.create (.sem 0)), .go, .go])
    (P := fun s => s.k.currentTask = some 1 ∧ s.k.pendsv = false ∧ s.pc 1 = .app ∧
      (kObjGet s.k 0x10000 .sem).isSome = true) (by decide +kernel)
  exact ⟨s, hs, hget, sync_paths_agree boardLayout_placed hs hcur hpend hpc (.take 0x10000 5)
    .posted⟩

end Crest
