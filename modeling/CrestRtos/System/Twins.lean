import CrestRtos.System.Paths

/-!
# One kernel, two paths

`Twin` relates a kernel in which `t` has made a call directly to one in which the
worker has made it for `t`. Objects and links are the same, and every timeout that
is running belongs to a task that waits in both. Gives, unlocks and ticks keep the
relation, so whatever wakes `t` wakes it in both.
-/

namespace Crest
open MachineWord Alloc IntrusiveList

/-- The fields that run lists, wait lists and timeouts are made of. -/
def Tcb.links (tcb : Tcb) := (tcb.next, tcb.waitNext, tcb.delayTicks, tcb.blockingWaitList)

/-- The control blocks of one task on the two paths. Apart from the caller, whose
blocks are in the relation `C`, only tasks with a timeout need to agree on waiting. -/
structure Alike (C : Tcb → Tcb → Prop) (caller : Prop) (d v : Tcb) : Prop where
  links : v.links = d.links
  other : ¬ caller → 0 < d.delayTicks → (v.state = .waiting ↔ d.state = .waiting)
  own : caller → C d v

structure Twin (C : Tcb → Tcb → Prop) (t : Tid) (d v : Kernel) : Prop where
  sem : v.sem = d.sem
  mutex : v.mutex = d.mutex
  queue : v.queue = d.queue
  table : v.table = d.table
  taskList : v.taskList = d.taskList
  tcb : ∀ x, Alike C (x = t) (d.tcb x) (v.tcb x)

def TaskState.runnable : TaskState → Bool
  | .ready => true
  | .running => true
  | _ => false

/-- The result of a direct call that has blocked, once its wait is over. -/
def Tcb.flagged (tcb : Tcb) : Nat := if tcb.timedOut then minusOne else 0

/-- The caller behind its section: it waits on both paths, or goes on in both, and
then its saved R0 is `r`, or what the flag says if the call has blocked. -/
inductive Caller (r : Option Nat) (d v : Tcb) : Prop
  | waits (hr : r = none) (hd : d.state = .waiting) (hv : v.state = .waiting)
      (hsvc : v.svcBlocked = true) (hflag : d.timedOut = false)
      (hlist : 0 < d.delayTicks → d.blockingWaitList ≠ none)
  | runs (hd : d.state.runnable = true) (hv : v.state.runnable = true)
      (hsvc : v.svcBlocked = false) (hresult : v.savedR0 = r.getD d.flagged)

/-- The caller before the answer to its system call. -/
structure Asked (d v : Tcb) : Prop where
  state : d.state = .running
  blocked : v.state = .waiting
  svc : v.svcBlocked = true
  delay : d.delayTicks = 0

/-- The relation does not depend on wait links. -/
def Linkless (C : Tcb → Tcb → Prop) : Prop :=
  ∀ (a b : Tcb) (n : Option Tid), C a b → C { a with waitNext := n } { b with waitNext := n }

/-- A control block that `popWaiter` has taken off. -/
def Tcb.popped (tcb : Tcb) : Tcb :=
  { tcb with waitNext := none, delayTicks := 0, blockingWaitList := none }

/-- The relation stays when a call hands the caller what it waits for. -/
structure Handed (C : Tcb → Tcb → Prop) : Prop where
  popped : ∀ a b, C a b → C a.popped b.popped
  woken : ∀ a b, C a b → C (a.woken 0) (b.woken 0)

/-- Behind a section: the wake-up that it asks for. -/
def Kernel.behind (k : Kernel) : Outcome → Kernel
  | .ret _ => k
  | .block => k
  | .wake x _ => schedulerWakeTask k x 0
  | .pend _ => portTriggerPendsv k

/-- Two sections with the same outcome, and the kernels behind them. -/
structure Twin.Ends (C : Tcb → Tcb → Prop) (t : Tid) (d v : Kernel × Outcome) : Prop where
  outcome : v.2 = d.2
  twin : Twin C t (d.1.behind d.2) (v.1.behind v.2)

/-- The two variants of a section that may block the caller: both block it, or both
return the same value to it. -/
inductive Variants (t : Tid) (d v : Kernel × Outcome) : Prop
  | blocks (hd : d.2 = .block) (hv : v.2 = .block) (h : Twin (Caller none) t d.1 v.1)
  | returns {n : Nat} (hd : d.2 = .ret n) (hv : v.2 = .ret n) (h : Twin Asked t d.1 v.1)

theorem caller_linkless (r : Option Nat) : Linkless (Caller r) := by
  intro a b n h
  cases h with
  | waits hr hd hv hsvc hflag hlist => exact .waits hr hd hv hsvc hflag hlist
  | runs hd hv hsvc hresult => exact .runs hd hv hsvc hresult

theorem caller_handed (r : Option Nat) : Handed (Caller r) := by
  constructor
  · intro a b h
    cases h with
    | waits hr hd hv hsvc hflag hlist =>
      exact .waits hr hd hv hsvc hflag fun hpos => absurd hpos (Nat.lt_irrefl 0)
    | runs hd hv hsvc hresult => exact .runs hd hv hsvc hresult
  · intro a b h
    cases h with
    | waits hr hd hv hsvc hflag hlist =>
      refine .runs rfl rfl rfl ?_
      have hzero : (a.woken 0).flagged = 0 := by
        rw [Tcb.flagged]
        exact if_neg (by rw [Tcb.woken, hflag]; decide)
      rw [hr, Option.getD_none, hzero]
      exact if_pos hsvc
    | runs hd hv hsvc hresult =>
      refine .runs rfl rfl rfl (Eq.trans ?_ hresult)
      exact if_neg (by rw [hsvc]; decide)

section Twins
variable {C C' : Tcb → Tcb → Prop} {t x : Tid} {d v : Kernel}

theorem links_eq {a b : Tcb} (h : b.links = a.links) : b.next = a.next ∧ b.waitNext = a.waitNext ∧
    b.delayTicks = a.delayTicks ∧ b.blockingWaitList = a.blockingWaitList := by
  simpa [Tcb.links] using h

theorem links_of {a b : Tcb} (hnext : b.next = a.next) (hwait : b.waitNext = a.waitNext)
    (hdelay : b.delayTicks = a.delayTicks) (hlist : b.blockingWaitList = a.blockingWaitList) :
    b.links = a.links := by
  simp only [Tcb.links, hnext, hwait, hdelay, hlist]

theorem Twin.next (h : Twin C t d v) : v.next = d.next :=
  funext fun x => (links_eq (h.tcb x).links).1

theorem Twin.waitNext (h : Twin C t d v) : v.waitNext = d.waitNext :=
  funext fun x => (links_eq (h.tcb x).links).2.1

theorem Twin.head (h : Twin C t d v) (l : WaitList) : v.head l = d.head l := by
  cases l <;> simp only [Kernel.head, h.sem, h.mutex, h.queue]

/-- The caller comes into another relation. -/
theorem Twin.change (h : Twin C t d v) (hC : C' (d.tcb t) (v.tcb t)) : Twin C' t d v := by
  refine ⟨h.sem, h.mutex, h.queue, h.table, h.taskList, fun x => ?_⟩
  refine ⟨(h.tcb x).links, (h.tcb x).other, ?_⟩
  rintro rfl
  exact hC

theorem Twin.setTcb {f f' : Tcb → Tcb} (h : Twin C t d v)
    (hf : Alike C (x = t) (f (d.tcb x)) (f' (v.tcb x))) :
    Twin C t (d.setTcb x f) (v.setTcb x f') := by
  refine ⟨h.sem, h.mutex, h.queue, h.table, h.taskList, fun y => ?_⟩
  by_cases hy : y = x
  · subst hy
    rw [setTcb_tcb_same, setTcb_tcb_same]
    exact hf
  · rw [setTcb_tcb_of_ne _ _ hy, setTcb_tcb_of_ne _ _ hy]
    exact h.tcb y

/-- A step that sets the caller's control block alone, on either path. -/
theorem Twin.setCaller {f f' : Tcb → Tcb} (h : Twin C t d v)
    (hlinks : (f' (v.tcb t)).links = (f (d.tcb t)).links)
    (hC : C' (f (d.tcb t)) (f' (v.tcb t))) : Twin C' t (d.setTcb t f) (v.setTcb t f') := by
  refine ⟨h.sem, h.mutex, h.queue, h.table, h.taskList, fun y => ?_⟩
  by_cases hy : y = t
  · subst hy
    rw [setTcb_tcb_same, setTcb_tcb_same]
    exact ⟨hlinks, fun hne => absurd rfl hne, fun _ => hC⟩
  · rw [setTcb_tcb_of_ne _ _ hy, setTcb_tcb_of_ne _ _ hy]
    exact ⟨(h.tcb y).links, (h.tcb y).other, fun heq => absurd heq hy⟩

theorem Twin.setSem (h : Twin C t d v) (a : Nat) (s : Semaphore) :
    Twin C t (d.setSem a s) (v.setSem a s) := by
  refine ⟨?_, h.mutex, h.queue, h.table, h.taskList, h.tcb⟩
  rw [Kernel.setSem, Kernel.setSem, h.sem]

theorem Twin.setMutex (h : Twin C t d v) (a : Nat) (m : Mutex) :
    Twin C t (d.setMutex a m) (v.setMutex a m) := by
  refine ⟨h.sem, ?_, h.queue, h.table, h.taskList, h.tcb⟩
  rw [Kernel.setMutex, Kernel.setMutex, h.mutex]

theorem Twin.setQueue (h : Twin C t d v) (a : Nat) (q : Queue) :
    Twin C t (d.setQueue a q) (v.setQueue a q) := by
  refine ⟨h.sem, h.mutex, ?_, h.table, h.taskList, h.tcb⟩
  rw [Kernel.setQueue, Kernel.setQueue, h.queue]

theorem Twin.setHead (h : Twin C t d v) (l : WaitList) (x : Option Tid) :
    Twin C t (d.setHead l x) (v.setHead l x) := by
  cases l with
  | sem a =>
    rw [Kernel.setHead, Kernel.setHead, h.sem]
    exact h.setSem a _
  | mutex a =>
    rw [Kernel.setHead, Kernel.setHead, h.mutex]
    exact h.setMutex a _
  | send a =>
    rw [Kernel.setHead, Kernel.setHead, h.queue]
    exact h.setQueue a _
  | recv a =>
    rw [Kernel.setHead, Kernel.setHead, h.queue]
    exact h.setQueue a _

theorem Twin.relink (h : Twin C t d v) (hC : Linkless C) (n : Option Tid) :
    Twin C t (d.setTcb x fun tcb => { tcb with waitNext := n })
      (v.setTcb x fun tcb => { tcb with waitNext := n }) := by
  obtain ⟨hnext, _, hdelay, hlist⟩ := links_eq (h.tcb x).links
  exact h.setTcb ⟨links_of hnext rfl hdelay hlist, (h.tcb x).other,
    fun hx => hC _ _ n ((h.tcb x).own hx)⟩

/-- Both kernels unlink the same waiter. -/
theorem Twin.unlinkWaiter (h : Twin C t d v) (hC : Linkless C) (l : WaitList) (x : Tid) :
    Twin C t (Crest.unlinkWaiter d l x) (Crest.unlinkWaiter v l x) := by
  rw [Crest.unlinkWaiter, Crest.unlinkWaiter, h.waitNext, h.head]
  generalize searchFrom d.waitNext x maxTasks (d.head l) none = found
  obtain ⟨cur, prev⟩ := found
  by_cases hcur : cur = some x
  · simp only [if_pos hcur]
    cases prev with
    | none => exact (h.setHead l _).relink hC none
    | some p => exact (h.relink hC _).relink hC none
  · simp only [if_neg hcur]
    exact h

/-- Both kernels take the first waiter off. -/
theorem Twin.popWaiter (h : Twin C t d v) (l : WaitList) (hC : x = t → Handed C) :
    Twin C t (Crest.popWaiter d l x) (Crest.popWaiter v l x) := by
  have hhead := h.setHead l (d.waitNext x)
  have hown := (hhead.tcb x).own
  rw [Crest.popWaiter, Crest.popWaiter, h.waitNext]
  exact hhead.setTcb ⟨links_of (links_eq (hhead.tcb x).links).1 rfl rfl rfl,
    fun _ hpos => absurd hpos (Nat.lt_irrefl 0), fun hx => (hC hx).popped _ _ (hown hx)⟩

/-- Both kernels wake a task. -/
theorem Twin.wake (h : Twin C t d v) (hC : x = t → Handed C) :
    Twin C t (schedulerWakeTask d x 0) (schedulerWakeTask v x 0) := by
  have hset : Twin C t (d.setTcb x (Tcb.woken 0)) (v.setTcb x (Tcb.woken 0)) :=
    h.setTcb ⟨(h.tcb x).links, fun _ _ => Iff.rfl, fun hx => (hC hx).woken _ _ ((h.tcb x).own hx)⟩
  exact ⟨hset.sem, hset.mutex, hset.queue, hset.table, hset.taskList, hset.tcb⟩

/-- Both kernels ask for a switch, or either of them. -/
theorem Twin.pend (h : Twin C t d v) (p q : Bool) :
    Twin C t { d with pendsv := p } { v with pendsv := q } :=
  ⟨h.sem, h.mutex, h.queue, h.table, h.taskList, h.tcb⟩

/-- The worker answers the caller. -/
theorem Twin.answer (h : Twin Asked t d v) (n : Nat) :
    Twin (Caller (some n)) t d (schedulerWakeTask v t n) := by
  obtain ⟨hstate, _, hsvc, _⟩ := (h.tcb t).own rfl
  have hset : Twin (Caller (some n)) t (d.setTcb t id) (v.setTcb t (Tcb.woken n)) := by
    refine h.setCaller (h.tcb t).links (.runs ?_ rfl rfl (if_pos hsvc))
    rw [id, hstate]
    rfl
  have hsame : d.setTcb t id = d := by simp [Kernel.setTcb]
  rw [hsame] at hset
  exact hset.pend d.pendsv true

end Twins

section Sections
variable {C : Tcb → Tcb → Prop} {t : Tid} {d v : Kernel}

/-- A give does the same in both. -/
theorem Twin.give (h : Twin C t d v) (hC : ∀ l, d.head l = some t → Handed C) (s : Nat) :
    Twin.Ends C t (zImplSemGive d s) (zImplSemGive v s) := by
  rw [zImplSemGive, zImplSemGive, h.sem]
  cases hlist : (d.sem s).waitList with
  | some waiter =>
    have hhanded : waiter = t → Handed C := by
      rintro rfl
      exact hC (.sem s) hlist
    exact ⟨rfl, (h.popWaiter (.sem s) hhanded).wake hhanded⟩
  | none => exact ⟨rfl, h.setSem s _⟩

/-- An unlock does the same in both. -/
theorem Twin.unlock (h : Twin C t d v) (hC : ∀ l, d.head l = some t → Handed C) (m : Nat)
    (u : Tid) : Twin.Ends C t (unlockSection d m u) (unlockSection v m u) := by
  rw [unlockSection, unlockSection, h.mutex]
  by_cases howner : (d.mutex m).owner ≠ some u
  · rw [if_pos howner, if_pos howner]
    exact ⟨rfl, h⟩
  rw [if_neg howner, if_neg howner]
  cases hlist : (d.mutex m).waitList with
  | some waiter =>
    have hhanded : waiter = t → Handed C := by
      rintro rfl
      exact hC (.mutex m) hlist
    have hpop := h.popWaiter (.mutex m) hhanded
    have hset := hpop.setMutex m
      { (Crest.popWaiter d (.mutex m) waiter).mutex m with owner := some waiter }
    refine ⟨rfl, ?_⟩
    dsimp only [Kernel.behind]
    rw [hpop.mutex]
    exact hset.wake hhanded
  | none => exact ⟨rfl, (h.setMutex m _).pend true true⟩

/-- Both paths put the caller on the list; only the direct one still has to mark it. -/
theorem Twin.park (h : Twin Asked t d v) (l : WaitList) (ms : Nat) :
    Twin (Caller none) t (armTimeout (pushWaiter (markWaiting d t) l t) l t ms)
      (armTimeout (pushWaiter v l t) l t ms) := by
  obtain ⟨_, hblocked, hsvc, hdelay⟩ := (h.tcb t).own rfl
  have hmark : Twin (Caller none) t (markWaiting d t) v := by
    have hset : Twin (Caller none) t (markWaiting d t) (v.setTcb t id) := by
      refine h.setCaller (h.tcb t).links (.waits rfl rfl hblocked hsvc rfl fun hpos => ?_)
      exact absurd (hdelay ▸ hpos) (Nat.lt_irrefl 0)
    have hsame : v.setTcb t id = v := by simp [Kernel.setTcb]
    rw [hsame] at hset
    exact hset
  generalize markWaiting d t = d at hmark
  have hpush : Twin (Caller none) t (pushWaiter d l t) (pushWaiter v l t) := by
    rw [pushWaiter, pushWaiter, hmark.head]
    exact (hmark.relink (caller_linkless none) _).setHead l _
  generalize pushWaiter d l t = d at hpush
  generalize pushWaiter v l t = v at hpush
  obtain ⟨hnext, hwait, _, _⟩ := links_eq (hpush.tcb t).links
  have harm : ∀ (n : Nat) (b : Option WaitList), (0 < n → b ≠ none) →
      Twin (Caller none) t
        (d.setTcb t fun tcb => { tcb with delayTicks := n, blockingWaitList := b })
        (v.setTcb t fun tcb => { tcb with delayTicks := n, blockingWaitList := b }) := by
    intro n b hlist
    refine hpush.setCaller (links_of hnext hwait rfl rfl) ?_
    cases (hpush.tcb t).own rfl with
    | waits hr hd hv hsvc hflag _ => exact .waits hr hd hv hsvc hflag hlist
    | runs hd hv hsvc hresult => exact .runs hd hv hsvc hresult
  rw [armTimeout, armTimeout]
  by_cases hms : ms ≠ waitForever
  · simp only [if_pos hms]
    exact harm ms (some l) (by simp)
  · simp only [if_neg hms]
    exact harm 0 none fun hpos => absurd hpos (Nat.lt_irrefl 0)

/-- The two variants of a take. -/
theorem Twin.take (h : Twin Asked t d v) (s ms : Nat) :
    Variants t (takeSection true d s t ms) (takeSection false v s t ms) := by
  rw [takeSection, takeSection, h.sem]
  by_cases hcount : 0 < (d.sem s).count
  · simp only [if_pos hcount]
    exact .returns rfl rfl (h.setSem s _)
  by_cases hms : ms = 0
  · simp only [if_neg hcount, if_pos hms]
    exact .returns rfl rfl h
  · simp only [if_neg hcount, if_neg hms, if_true]
    exact .blocks rfl rfl (h.park (.sem s) ms)

/-- The two variants of a lock. -/
theorem Twin.lock (h : Twin Asked t d v) (m ms : Nat) :
    Variants t (lockSection true d m t ms) (lockSection false v m t ms) := by
  rw [lockSection, lockSection, h.mutex]
  by_cases hagain : (d.mutex m).owner = some t
  · simp only [if_pos hagain]
    exact .returns rfl rfl h
  by_cases hfree : (d.mutex m).owner = none
  · simp only [if_neg hagain, if_pos hfree]
    exact .returns rfl rfl (h.setMutex m _)
  by_cases hms : ms = 0
  · simp only [if_neg hagain, if_neg hfree, if_pos hms]
    exact .returns rfl rfl h
  · simp only [if_neg hagain, if_neg hfree, if_neg hms, if_true]
    exact .blocks rfl rfl (h.park (.mutex m) ms)

end Sections

section Ticks
variable {r : Option Nat} {t x : Tid} {d v : Kernel}

/-- The sleepers of both kernels count down alike; the caller is not one of them. -/
theorem Twin.tickDelay (h : Twin (Caller r) t d v) (x : Tid) :
    Twin (Caller r) t (Crest.tickDelay d x) (Crest.tickDelay v x) := by
  obtain ⟨hnext, hwait, hdelay, hlist⟩ := links_eq (h.tcb x).links
  rw [Crest.tickDelay, Crest.tickDelay]
  by_cases hx : x = t
  · have hnot : ∀ {a : Tcb}, a.state ≠ .waiting ∨ (0 < a.delayTicks → a.blockingWaitList ≠ none) →
        ¬ (a.state = .waiting ∧ 0 < a.delayTicks ∧ a.blockingWaitList = none) := by
      rintro a (hst | hblocked) ⟨hwaiting, hpos, hnone⟩
      · exact hst hwaiting
      · exact hblocked hpos hnone
    have hboth : ((d.tcb x).state ≠ .waiting ∨
          (0 < (d.tcb x).delayTicks → (d.tcb x).blockingWaitList ≠ none)) ∧
        ((v.tcb x).state ≠ .waiting ∨
          (0 < (v.tcb x).delayTicks → (v.tcb x).blockingWaitList ≠ none)) := by
      cases (h.tcb x).own hx with
      | waits hr hd hv hsvc hflag hblocked =>
        rw [hdelay, hlist]
        exact ⟨Or.inr hblocked, Or.inr hblocked⟩
      | runs hd hv hsvc hresult =>
        refine ⟨Or.inl fun hst => ?_, Or.inl fun hst => ?_⟩
        · rw [hst] at hd
          cases hd
        · rw [hst] at hv
          cases hv
    rw [if_neg (hnot hboth.1), if_neg (hnot hboth.2)]
    exact h
  · have hcond : (v.tcb x).state = .waiting ∧ 0 < (v.tcb x).delayTicks ∧
          (v.tcb x).blockingWaitList = none ↔
        (d.tcb x).state = .waiting ∧ 0 < (d.tcb x).delayTicks ∧
          (d.tcb x).blockingWaitList = none := by
      rw [hdelay, hlist]
      exact ⟨fun hc => ⟨((h.tcb x).other hx hc.2.1).mp hc.1, hc.2⟩,
        fun hc => ⟨((h.tcb x).other hx hc.2.1).mpr hc.1, hc.2⟩⟩
    by_cases hc : (d.tcb x).state = .waiting ∧ 0 < (d.tcb x).delayTicks ∧
        (d.tcb x).blockingWaitList = none
    · rw [if_pos hc, if_pos (hcond.mpr hc)]
      refine h.setTcb ⟨links_of hnext hwait ?_ hlist, fun _ hmore => ?_, fun heq => absurd heq hx⟩
      · exact congrArg (· - 1) hdelay
      · have hpos : (d.tcb x).delayTicks - 1 ≠ 0 := Nat.pos_iff_ne_zero.mp hmore
        have hpos' : (v.tcb x).delayTicks - 1 ≠ 0 := by rw [hdelay]; exact hpos
        simp only [if_neg hpos, if_neg hpos']
        exact (h.tcb x).other hx hc.2.1
    · rw [if_neg hc, if_neg (fun hv => hc (hcond.mp hv))]
      exact h

/-- A task on a list counts down in both. -/
theorem Twin.waited {C : Tcb → Tcb → Prop} (h : Twin C t d v) (hpos : 0 < (d.tcb x).delayTicks)
    (hC : x = t → C (d.tcb x).waited (v.tcb x).waited) :
    Twin C t (d.setTcb x Tcb.waited) (v.setTcb x Tcb.waited) := by
  obtain ⟨hnext, hwait, hdelay, hlist⟩ := links_eq (h.tcb x).links
  exact h.setTcb ⟨links_of hnext hwait (congrArg (· - 1) hdelay) hlist,
    fun hx _ => (h.tcb x).other hx hpos, hC⟩

/-- The time of a task on a list is up in both. The unlinking loop touches links alone, so the
caller still waits behind it. -/
theorem Twin.expireWaiter (h : Twin (Caller r) t d v) (l : WaitList)
    (hd : (d.tcb x).state = .waiting) (hpos : 0 < (d.tcb x).delayTicks) :
    Twin (Caller r) t (Crest.expireWaiter d l x) (Crest.expireWaiter v l x) := by
  have hstill : Linkless fun a b => Caller r a b ∧ (x = t → a.state = .waiting) :=
    fun a b n hab => ⟨caller_linkless r a b n hab.1, hab.2⟩
  have hfirst : Twin (fun a b => Caller r a b ∧ (x = t → a.state = .waiting)) t d v :=
    h.change ⟨(h.tcb t).own rfl, fun hx => hx ▸ hd⟩
  have hcount := hfirst.waited (x := x) hpos fun hx => by
    refine ⟨?_, fun _ => hd⟩
    cases (h.tcb x).own hx with
    | waits hr hd hv hsvc hflag hlist => exact .waits hr hd hv hsvc hflag fun _ => hlist hpos
    | runs hd hv hsvc hresult => exact .runs hd hv hsvc hresult
  have hunlink := hcount.unlinkWaiter hstill l x
  rw [Crest.expireWaiter, Crest.expireWaiter]
  generalize Crest.unlinkWaiter (d.setTcb x Tcb.waited) l x = d at hunlink
  generalize Crest.unlinkWaiter (v.setTcb x Tcb.waited) l x = v at hunlink
  obtain ⟨hnext, hwait, hdelay, _⟩ := links_eq (hunlink.tcb x).links
  have hC := (hunlink.tcb x).own
  rw [schedulerWakeTask, schedulerWakeTask, wakeSection, wakeSection, setTcb_setTcb, setTcb_setTcb]
  refine Twin.pend (Twin.setTcb (hunlink.change ((hunlink.tcb t).own rfl).1) ?_) true true
  refine ⟨links_of hnext hwait hdelay rfl, fun _ _ => Iff.rfl, fun hx => ?_⟩
  obtain ⟨hcaller, hst⟩ := hC hx
  cases hcaller with
  | waits hr hd hv hsvc hflag hlist =>
    refine .runs rfl rfl rfl ?_
    rw [hr]
    exact if_pos hsvc
  | runs hd hv hsvc hresult =>
    rw [hst hx] at hd
    cases hd

/-- One turn of the second loop. -/
theorem Twin.syncTickTask (h : Twin (Caller r) t d v) (x : Tid) :
    Twin (Caller r) t (Crest.syncTickTask d x) (Crest.syncTickTask v x) := by
  obtain ⟨_, _, hdelay, hlist⟩ := links_eq (h.tcb x).links
  have hstate : 0 < (d.tcb x).delayTicks →
      ((v.tcb x).state = .waiting ↔ (d.tcb x).state = .waiting) := by
    intro hpos
    by_cases hx : x = t
    · cases (h.tcb x).own hx with
      | waits hr hd hv hsvc hflag hblocked => exact iff_of_true hv hd
      | runs hd hv hsvc hresult =>
        refine iff_of_false (fun hst => ?_) fun hst => ?_
        · rw [hst] at hv
          cases hv
        · rw [hst] at hd
          cases hd
    · exact (h.tcb x).other hx hpos
  have hd := syncTickTask_visit d x
  have hv := syncTickTask_visit v x
  generalize Crest.syncTickTask d x = d' at hd ⊢
  generalize Crest.syncTickTask v x = v' at hv ⊢
  cases hd with
  | passes hnot =>
    have hsame : v' = v := by
      have hnot' : ∀ w, (v.tcb x).state = .waiting → 0 < (v.tcb x).delayTicks →
          (v.tcb x).blockingWaitList ≠ some w := by
        intro w hst hpos hw
        rw [hdelay] at hpos
        rw [hlist] at hw
        exact hnot ⟨(hstate hpos).mp hst, hpos, by rw [hw]; simp⟩
      cases hv with
      | passes _ => rfl
      | counts hst hmore hw => exact absurd hw (hnot' _ hst (by omega))
      | expires hst hone hw => exact absurd hw (hnot' _ hst (by omega))
    rw [hsame]
    exact h
  | @counts w hst hmore hw =>
    have hpos : 0 < (d.tcb x).delayTicks := by omega
    have hst' := (hstate hpos).mpr hst
    have hsame : v' = v.setTcb x Tcb.waited := by
      cases hv with
      | passes hnot => exact absurd ⟨hst', hdelay ▸ hpos, by rw [hlist, hw]; simp⟩ hnot
      | counts _ _ _ => rfl
      | expires _ hone _ => omega
    rw [hsame]
    refine h.waited hpos fun hx => ?_
    cases (h.tcb x).own hx with
    | waits hr hd hv hsvc hflag hblocked => exact .waits hr hd hv hsvc hflag fun _ => hblocked hpos
    | runs hd hv hsvc hresult => exact .runs hd hv hsvc hresult
  | @expires w hst hone hw =>
    have hpos : 0 < (d.tcb x).delayTicks := by omega
    have hst' := (hstate hpos).mpr hst
    have hsame : v' = Crest.expireWaiter v w x := by
      cases hv with
      | passes hnot => exact absurd ⟨hst', hdelay ▸ hpos, by rw [hlist, hw]; simp⟩ hnot
      | counts _ hmore _ => omega
      | expires _ _ hw' =>
        obtain rfl := Option.some.inj (hw'.symm.trans (hlist.trans hw))
        rfl
    rw [hsame]
    exact h.expireWaiter w hst hpos

/-- A loop over the run lists takes the same way in both kernels. -/
theorem Twin.walkAll {C : Tcb → Tcb → Prop} {f : Kernel → Tid → Kernel}
    (hf : ∀ d v x, Twin C t d v → Twin C t (f d x) (f v x)) (h : Twin C t d v) :
    Twin C t (Crest.walkAll Kernel.taskList Kernel.next f d)
      (Crest.walkAll Kernel.taskList Kernel.next f v) := by
  have hwalk : ∀ (n : Nat) (head : Option Tid) (d v : Kernel), Twin C t d v →
      Twin C t (walk Kernel.next f n head d) (walk Kernel.next f n head v) := by
    intro n
    induction n with
    | zero => exact fun _ _ _ h => h
    | succ n ih =>
      intro head d v h
      cases head with
      | none => exact h
      | some x =>
        have hstep := hf d v x h
        rw [walk, walk, hstep.next]
        exact ih _ _ _ hstep
  rw [Crest.walkAll, Crest.walkAll]
  generalize List.range maxTaskPriorities = prs
  induction prs generalizing d v with
  | nil => exact h
  | cons pr prs ih =>
    rw [List.foldl_cons, List.foldl_cons, h.taskList]
    exact ih (hwalk maxTasks _ d v h)

/-- A tick, whatever the two clocks say. -/
theorem Twin.tick (h : Twin (Caller r) t d v) : Twin (Caller r) t (sysTickHandler d)
    (sysTickHandler v) := by
  have hclock : Twin (Caller r) t { d with tickCount := wrap (d.tickCount + 1) }
      { v with tickCount := wrap (v.tickCount + 1) } :=
    ⟨h.sem, h.mutex, h.queue, h.table, h.taskList, h.tcb⟩
  have hfirst := hclock.walkAll fun d v x h => Twin.tickDelay h x
  have hsecond := hfirst.walkAll fun d v x h => Twin.syncTickTask h x
  have hpend : ∀ k : Kernel, ∃ p, (if k.tickCount % preemptTickInterval = 0 then
      portTriggerPendsv k else k) = { k with pendsv := p } := by
    intro k
    split
    · exact ⟨true, rfl⟩
    · exact ⟨k.pendsv, rfl⟩
  rw [sysTickHandler, sysTickHandler, schedulerTick, schedulerTick, syncTickAll, syncTickAll]
  obtain ⟨p, hp⟩ := hpend (Crest.walkAll Kernel.taskList Kernel.next Crest.syncTickTask
    (Crest.walkAll Kernel.taskList Kernel.next Crest.tickDelay
      { d with tickCount := wrap (d.tickCount + 1) }))
  obtain ⟨q, hq⟩ := hpend (Crest.walkAll Kernel.taskList Kernel.next Crest.syncTickTask
    (Crest.walkAll Kernel.taskList Kernel.next Crest.tickDelay
      { v with tickCount := wrap (v.tickCount + 1) }))
  rw [hp, hq]
  exact hsecond.pend p q

end Ticks

end Crest
