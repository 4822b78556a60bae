import CrestRtos.Properties.Semaphores
import CrestRtos.System.Changes

/-!
# `sem_give` in an interrupt handler

The stub asks CONTROL.nPRIV which way to go. Handlers always have privilege, but the
register keeps the value of the interrupted thread, so the give goes through SVC
whenever a user task was running, and `svc_handler_c` blocks that task.
-/

namespace Crest
open MachineWord Alloc Transition

def portIsPrivileged (k : Kernel) : Bool := !k.nPriv

/-- The two branches of a stub in `kernel/syscall_api.c`. -/
inductive Route
  | direct
  | svc
  deriving DecidableEq

/-- `port_syscall_invoke` in a handler. The frame is the handler's own, so the R0 that
the interrupted thread goes on with is not in it. -/
def portSyscallInvoke (k : Kernel) (id arg0 arg1 arg2 : Nat) : Kernel :=
  match k.currentTask with
  | none => k
  | some caller => { svcHandler k ⟨id, arg0, arg1, arg2, arg2, caller⟩ with r0 := k.r0 }

/-- `sem_give` from a handler, from its start to its end. -/
def semGive (k : Kernel) (handle : Nat) : Route × Kernel :=
  if portIsPrivileged k then
    (.direct,
      match kObjGet k handle .sem with
      | none => k
      | some s =>
        match zImplSemGive k s with
        | (k, .wake t v) => schedulerWakeTask k t v
        | (k, _) => k)
  else (.svc, portSyscallInvoke k syscallSemPost handle 0 0)

/-- The system with interrupts whose handlers give semaphores. -/
inductive IsrLabel
  | sys (l : Label)
  | isr (handle : Nat)

def Sys.isrStep (L : Layout) (s : Sys) : IsrLabel → Option Sys
  | .sys l => s.step L l
  | .isr handle => some { s with k := (semGive s.k handle).2 }

def Sys.IsrReached (L : Layout) (s : Sys) : Prop :=
  ∃ s₀, s₀.Started L ∧ Reachable (Sys.isrStep L) s₀ s

/-- One token of the semaphore at `a`, delivered without a trap: to the first waiter,
or else to the counter. Nothing else of tasks and semaphores is different. -/
structure Delivered (k : Kernel) (a : Nat) (route : Route) (k' : Kernel) : Prop where
  route : route = .direct
  counted : (k.sem a).waitList = none → k'.sem a = { k.sem a with count := (k.sem a).count + 1 }
  woken : ∀ t, (k.sem a).waitList = some t →
    k'.sem a = { k.sem a with waitList := k.waitNext t } ∧ (k'.tcb t).state = .ready
  semaphores : ∀ b, b ≠ a → k'.sem b = k.sem b
  tasks : ∀ t, (k.sem a).waitList ≠ some t → k'.tcb t = k.tcb t
  current : k'.currentTask = k.currentTask ∧ k'.nPriv = k.nPriv ∧ k'.r0 = k.r0

/-- Every counter is a C `int`. -/
def Kernel.CountsFit (k : Kernel) : Prop :=
  ∀ a, -2 ^ 31 ≤ (k.sem a).count ∧ (k.sem a).count ≤ intMax

section Counts
variable {L : Layout} {k k' : Kernel} {s s' : Sys} {u : Tid}

theorem toInt32_fits (x : Int) : -2 ^ 31 ≤ toInt32 x ∧ toInt32 x ≤ intMax := by
  simp only [toInt32, intMax]
  omega

/-- An increment is exact unless the counter is full. -/
theorem toInt32_succ {x : Int} (h : -2 ^ 31 ≤ x ∧ x ≤ intMax) :
    toInt32 (x + 1) = x + 1 ↔ x < intMax := by
  simp only [toInt32, intMax] at h ⊢
  omega

theorem Kernel.CountsFit.same (h : k.CountsFit)
    (hcount : ∀ a, (k'.sem a).count = (k.sem a).count) : k'.CountsFit := by
  intro a
  rw [hcount a]
  exact h a

theorem Kernel.CountsFit.update (h : k.CountsFit) {a : Nat} {x : Int}
    (hx : -2 ^ 31 ≤ x ∧ x ≤ intMax)
    (hstore : k'.store.count = Function.update k.store.count a x) : k'.CountsFit := by
  intro b
  have hb := congrFun hstore b
  by_cases hba : b = a
  · subst hba
    rw [Function.update_self] at hb
    rw [show (k'.sem b).count = x from hb]
    exact hx
  · rw [Function.update_of_ne hba] at hb
    rw [show (k'.sem b).count = (k.sem b).count from hb]
    exact h b

theorem Kernel.CountsFit.take (h : k.CountsFit) (direct : Bool) (a : Nat) (t : Tid) (ms : Nat) :
    (takeSection direct k a t ms).1.CountsFit := by
  have hstore := take_store k t ms direct a
  by_cases hpos : 0 < (k.sem a).count
  · rw [if_pos hpos] at hstore
    have ha := h a
    exact h.update ⟨by omega, by omega⟩ (congrArg Store.count hstore)
  · rw [if_neg hpos] at hstore
    exact h.same fun b => congrFun (congrArg Store.count hstore) b

theorem Kernel.CountsFit.give (h : k.CountsFit) (a : Nat) : (zImplSemGive k a).1.CountsFit := by
  have hstore := give_store k a
  by_cases hnone : (k.sem a).waitList = none
  · rw [if_pos hnone] at hstore
    exact h.update (toInt32_fits _) (congrArg Store.count hstore)
  · rw [if_neg hnone] at hstore
    exact h.same fun b => congrFun (congrArg Store.count hstore) b

theorem Kernel.CountsFit.enter (h : k.CountsFit) (op : Op) : (op.enter k u).1.CountsFit := by
  cases op with
  | semTake a ms => exact h.take true a u ms
  | semTryTake a caller ms => exact h.take false a caller ms
  | semGive a => exact h.give a
  | _ => exact h.same fun b => (enter_touches k u _).count b (by simp [Op.object])

theorem Kernel.CountsFit.init (h : k.CountsFit) (c : Creation) (p : Nat) :
    (c.init k p).CountsFit := by
  cases c with
  | sem initial =>
    intro b
    by_cases hb : b = p
    · subst hb
      simp only [Creation.init, Kernel.setSem, Function.update_self]
      split
      · exact toInt32_fits _
      · decide
    · simp only [Creation.init, Kernel.setSem, Function.update_of_ne hb]
      exact h b
  | mutex => exact h
  | queue itemSize size => exact h

theorem Kernel.CountsFit.svcHandler (h : k.CountsFit) (item : WorkItem) :
    (svcHandler k item).CountsFit := h.same (quiet_svcHandler k item).count

theorem Kernel.CountsFit.alloc {c : Creation} {p : Nat} (h : k.CountsFit)
    (halloc : c.alloc L k = some (k', p)) : k'.CountsFit := by
  rcases alloc_cases halloc with ⟨_, rfl⟩ | ⟨heap, _, _, hk⟩
  · exact h
  · rw [hk]
    split
    · exact h
    · exact Kernel.CountsFit.init (k := { k with heap := heap }) h c p

theorem Kernel.CountsFit.queueBuffer {p : Nat} {ok : Bool} (h : k.CountsFit)
    (hbuffer : queueInitBuffer L k p = some (k', ok)) : k'.CountsFit := by
  rw [queueInitBuffer] at hbuffer
  split at hbuffer
  · obtain ⟨rfl, _⟩ := Prod.mk.inj (Option.some.inj hbuffer)
    exact h
  · obtain ⟨⟨heap, buffer⟩, _, hk⟩ := Option.map_eq_some_iff.mp hbuffer
    obtain ⟨rfl, _⟩ := Prod.mk.inj hk
    exact h

theorem finish_fits (h : s.k.CountsFit) (r : Ret) (v : Nat) : (s.finish u r v).k.CountsFit := by
  rw [finish_k]
  exact h

theorem dispatch_fits (h : s.k.CountsFit) (item : WorkItem) : (s.dispatch u item).k.CountsFit := by
  rw [Sys.dispatch]
  cases decode s.k item <;> exact h

theorem checkWait_fits (h : s.k.CountsFit) (op : Op) (r : Ret) :
    (s.checkWait u op r).k.CountsFit := by
  rw [Sys.checkWait]
  repeat' split
  · exact h
  · exact finish_fits h r _
  · exact h
  · exact finish_fits (s := { s with k := s.k.setTcb u fun tcb => { tcb with timedOut := false } })
      h r _
  · exact finish_fits h r _

theorem Kernel.CountsFit.kObjAlloc (h : k.CountsFit) (p : Nat) (type : KobjType) :
    (kObjAlloc k p type).1.CountsFit := by
  rw [Crest.kObjAlloc]
  repeat' split
  all_goals exact h

theorem create_fits {c : Creation} {r : Ret} (h : s.k.CountsFit)
    (hcreate : s.create L u c r = some s') : s'.k.CountsFit := by
  obtain ⟨⟨k, p⟩, halloc, rfl⟩ := Option.map_eq_some_iff.mp hcreate
  have hk := h.alloc halloc
  by_cases hp : p = 0
  · simp only [if_pos hp]
    exact finish_fits (s := { s with k := k }) hk r _
  · simp only [if_neg hp]
    cases c <;> exact hk

theorem runOp_fits (h : s.k.CountsFit) (op : Op) (r : Ret) : (s.runOp u op r).k.CountsFit := by
  rw [runOp_k]
  exact h.enter op

theorem go_fits (h : s.k.CountsFit) (hgo : s.go L u = some s') : s'.k.CountsFit := by
  cases go_cases hgo with
  | enter op r hpc => exact runOp_fits h op r
  | retry op r hpc => exact runOp_fits (s := s.note _) h op.again r
  | check op r hpc => exact checkWait_fits h op r
  | pend after hpc =>
    cases after with
    | ret r v => exact finish_fits (s := { s with k := portTriggerPendsv s.k }) h r v
    | loop => exact h
  | popNone hpc hpop => exact h
  | popSome k item hpc hpop =>
    rw [kworkPopLocked] at hpop
    split at hpop
    · cases hpop
    · obtain ⟨rfl, _⟩ := Prod.mk.inj (Option.some.inj hpop)
      exact h
  | workerSleep hpc =>
    change (workerWait s.k).CountsFit
    rw [workerWait]
    split <;> exact h
  | dispatch item hpc => exact dispatch_fits h item
  | create c r s' hpc hrun => exact create_fits h hrun
  | queueBuffer p r k ok hpc hbuffer => exact h.queueBuffer hbuffer
  | queueFree p r k hpc hfree =>
    obtain ⟨heap, _, rfl⟩ := Option.map_eq_some_iff.mp hfree
    exact finish_fits (s := { s with k := { s.k with heap := heap } }) h r _
  | publish p type r hpc =>
    exact finish_fits (s := { s with k := (kObjAlloc s.k p type).1 }) (h.kObjAlloc p type) r _
  | spawnNone args hpc hfree => exact finish_fits h _ _
  | spawnTcb args k t hpc hfree =>
    obtain ⟨_, hk⟩ := getFreeTcb_some hfree
    change k.CountsFit
    rw [hk]
    exact h
  | spawnStack t args heap alloc hpc hrun => exact h
  | _ hpc => exact h

theorem call_fits (h : s.k.CountsFit) (c : Call) : (s.call u c).k.CountsFit := by
  have hobject : ∀ handle type f missing,
      (s.callObject u handle type f missing).k.CountsFit := by
    intro handle type f missing
    rw [Sys.callObject]
    split <;> exact h
  cases c with
  | semTake handle ms => exact hobject _ _ _ _
  | semGive handle => exact hobject _ _ _ _
  | mutexLock handle ms => exact hobject _ _ _ _
  | mutexUnlock handle => exact hobject _ _ _ _
  | queuePush handle item ms => exact hobject _ _ _ _
  | queuePop handle item ms => exact hobject _ _ _ _
  | taskCreate args =>
    rw [Sys.call]
    split <;> exact h
  | _ => exact h

theorem step_fits {l : Label} (h : s.k.CountsFit) (hstep : s.step L l = some s') :
    s'.k.CountsFit := by
  obtain ⟨_, htick⟩ | ⟨oldSp, k, _, _, hrun, rfl⟩ | ⟨u, _, _, hthread⟩ := step_cases hstep
  · rw [htick]
    exact sysTick_induction (P := fun s' => s'.k.CountsFit) s h
      (fun s' t hs' => hs'.same (quiet_tickDelay s'.k t).count)
      (fun s' t hs' => hs'.same (quiet_syncTickTask s'.k t).count) fun _ hs' => hs'
  · exact h.same (quiet_switch hrun).count
  · cases l with
    | svc id a0 a1 a2 a3 =>
      simp only [Sys.thread] at hthread
      split at hthread
      · obtain rfl := Option.some.inj hthread
        exact h.svcHandler _
      · cases hthread
    | call c =>
      simp only [Sys.thread] at hthread
      split at hthread
      · obtain rfl := Option.some.inj hthread
        exact call_fits h c
      · cases hthread
    | compute r0 ram =>
      simp only [Sys.thread] at hthread
      split at hthread
      · obtain rfl := Option.some.inj hthread
        exact h
      · cases hthread
    | go => exact go_fits h hthread
    | tick => cases hthread
    | pendSV oldSp => cases hthread

theorem semGive_fits (h : k.CountsFit) (handle : Nat) : (semGive k handle).2.CountsFit := by
  rw [semGive]
  split
  · dsimp only
    split
    · exact h
    · rename_i a _
      have hgive := h.give a
      split
      · rename_i heq
        rw [heq] at hgive
        exact hgive
      · rename_i heq
        rw [heq] at hgive
        exact hgive
  · dsimp only
    rw [portSyscallInvoke]
    split
    · exact h
    · exact h.svcHandler _

/-- No counter ever leaves the range of an `int`. -/
theorem Sys.IsrReached.fits (h : s.IsrReached L) : s.k.CountsFit := by
  obtain ⟨s₀, hs₀, hreach⟩ := h
  refine reachable_invariant (I := fun s : Sys => s.k.CountsFit) ?_ ?_ hreach
  · intro s l s' hs hstep
    cases l with
    | sys l => exact step_fits hs hstep
    | isr handle =>
      obtain rfl := Option.some.inj hstep
      exact semGive_fits hs handle
  · intro a
    have hsem : s₀.k.sem = fun _ => ⟨0, none⟩ := (congrArg Prod.fst hs₀.bare.2.1).symm
    rw [hsem]
    exact ⟨by simp, by simp [intMax]⟩

end Counts

section Isr
variable {L : Layout} {k : Kernel} {s : Sys} {a handle : Nat}

/-- What the handler does when the interrupted thread has privilege. -/
theorem semGive_direct (hpriv : k.nPriv = false) (ha : kObjGet k handle .sem = some a) :
    semGive k handle = (.direct,
      match (k.sem a).waitList with
      | some t => schedulerWakeTask (popWaiter k (.sem a) t) t 0
      | none => k.setSem a { k.sem a with count := toInt32 ((k.sem a).count + 1) }) := by
  have hdirect : portIsPrivileged k = true := by rw [portIsPrivileged, hpriv]; rfl
  rw [semGive, if_pos hdirect, ha]
  simp only [zImplSemGive]
  cases (k.sem a).waitList <;> rfl

/-- A give on the direct path delivers its token unless the counter is full. -/
theorem semGive_delivered (hfits : k.CountsFit) (hpriv : k.nPriv = false)
    (ha : kObjGet k handle .sem = some a) :
    Delivered k a (semGive k handle).1 (semGive k handle).2 ↔
      (k.sem a).waitList ≠ none ∨ (k.sem a).count < intMax := by
  rw [semGive_direct hpriv ha]
  cases hlist : (k.sem a).waitList with
  | some t =>
    refine iff_of_true ?_ (Or.inl (by simp))
    constructor
    · rfl
    · intro hnone
      rw [hlist] at hnone
      cases hnone
    · intro t' ht'
      obtain rfl := Option.some.inj (hlist.symm.trans ht')
      constructor
      · simp [schedulerWakeTask, portTriggerPendsv, wakeSection, popWaiter, Kernel.setTcb,
          Kernel.setHead, Kernel.setSem]
      · simp [schedulerWakeTask, portTriggerPendsv, wakeSection]
    · intro b hb
      simp [schedulerWakeTask, portTriggerPendsv, wakeSection, popWaiter, Kernel.setTcb,
          Kernel.setHead, Kernel.setSem, hb]
    · intro x hx
      have hne : x ≠ t := fun heq => hx (by rw [hlist, heq])
      simp [schedulerWakeTask, portTriggerPendsv, wakeSection, popWaiter, Kernel.setTcb,
        Kernel.setHead, Kernel.setSem, hne]
    · exact ⟨rfl, rfl, rfl⟩
  | none =>
    constructor
    · intro hdel
      have hcount := congrArg Semaphore.count (hdel.counted hlist)
      simp only [Kernel.setSem, Function.update_self] at hcount
      exact Or.inr ((toInt32_succ (hfits a)).mp hcount)
    · rintro (hwait | hroom)
      · exact absurd rfl hwait
      · have hsucc := (toInt32_succ (hfits a)).mpr hroom
        constructor
        · rfl
        · intro _
          simp only [Kernel.setSem, Function.update_self, hsucc]
        · intro t ht
          rw [hlist] at ht
          cases ht
        · intro b hb
          simp only [Kernel.setSem, Function.update_of_ne hb]
        · exact fun _ _ => rfl
        · exact ⟨rfl, rfl, rfl⟩

/-- An interrupt handler's give delivers one token and leaves the interrupted task
alone exactly when that task has privilege and the counter is not full. -/
theorem sem_give_from_isr (h : s.IsrReached L) (ha : kObjGet s.k handle .sem = some a) :
    Delivered s.k a (semGive s.k handle).1 (semGive s.k handle).2 ↔
      s.k.nPriv = false ∧ ((s.k.sem a).waitList ≠ none ∨ (s.k.sem a).count < intMax) := by
  cases hpriv : s.k.nPriv with
  | false =>
    rw [semGive_delivered h.fits hpriv ha]
    exact ⟨fun hroom => ⟨rfl, hroom⟩, And.right⟩
  | true =>
    refine iff_of_false ?_ (fun hcond => Bool.noConfusion hcond.1)
    intro hdel
    have hroute := hdel.route
    rw [semGive, if_neg (by simp [portIsPrivileged, hpriv])] at hroute
    cases hroute

theorem Sys.Reached.isr (h : s.Reached L) : s.IsrReached L := by
  obtain ⟨s₀, hs₀, ls, hrun⟩ := h
  exact ⟨s₀, hs₀, ls.map .sys, (run_map (fun _ _ => rfl) s₀ ls).trans hrun⟩

/-- A handler gives while task 1, a privileged task, runs. -/
theorem sem_give_from_isr_board : ∃ s : Sys, s.IsrReached boardLayout ∧ s.k.nPriv = false ∧
    kObjGet s.k 0x10000 .sem = some 0x20006428 ∧
    Delivered s.k 0x20006428 (semGive s.k 0x10000).1 (semGive s.k 0x10000).2 := by
  obtain ⟨s, hs, hobject, hpriv, hroom⟩ := boardRun_at
    (P := fun s => kObjGet s.k 0x10000 .sem = some 0x20006428 ∧ s.k.nPriv = false ∧
      (s.k.sem 0x20006428).count < intMax)
    (boardReady ++ [.call (.create (.sem 0)), .go, .go]) (by decide +kernel)
  exact ⟨s, hs.isr, hpriv, hobject,
    (sem_give_from_isr hs.isr hobject).mpr ⟨hpriv, Or.inr hroom⟩⟩

/-- Task 1 has dropped its privilege: the handler's give blocks it on a syscall that
it has not made, and the semaphore gets no token. -/
theorem sem_give_blocks_interrupted : ∃ s : Sys, s.IsrReached boardLayout ∧
    kObjGet s.k 0x10000 .sem = some 0x20006428 ∧
    ((s.k.tcb 1).state = .running ∧ s.k.kwork = []) ∧
    (((semGive s.k 0x10000).2.tcb 1).state = .waiting ∧
      ((semGive s.k 0x10000).2.tcb 1).svcBlocked = true ∧
      (semGive s.k 0x10000).2.kwork = [⟨syscallSemPost, 0x10000, 0, 0, 0, 1⟩] ∧
      ((semGive s.k 0x10000).2.sem 0x20006428).count = 0) ∧
    ¬ Delivered s.k 0x20006428 (semGive s.k 0x10000).1 (semGive s.k 0x10000).2 := by
  obtain ⟨s, hs, hobject, hbefore, hafter, hroute⟩ := boardRun_at
    (P := fun s => kObjGet s.k 0x10000 .sem = some 0x20006428 ∧
      ((s.k.tcb 1).state = .running ∧ s.k.kwork = []) ∧
      (((semGive s.k 0x10000).2.tcb 1).state = .waiting ∧
        ((semGive s.k 0x10000).2.tcb 1).svcBlocked = true ∧
        (semGive s.k 0x10000).2.kwork = [⟨syscallSemPost, 0x10000, 0, 0, 0, 1⟩] ∧
        ((semGive s.k 0x10000).2.sem 0x20006428).count = 0) ∧
      (semGive s.k 0x10000).1 = .svc)
    (boardReady ++ [.call (.create (.sem 0)), .go, .go, .call .setUnprivileged])
    (by decide +kernel)
  refine ⟨s, hs.isr, hobject, hbefore, hafter, fun hdel => ?_⟩
  rw [hdel.route] at hroute
  cases hroute

end Isr

end Crest
