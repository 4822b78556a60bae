import CrestRtos.System.Runs

/-!
# What a step does to the objects

Seen from the semaphores, mutexes and queues a step is one of three things: a
critical section of a call, the creation of an object, or something else, which
leaves counts, owners and contents alone and lets wait lists only get shorter.
-/

namespace Crest
open MachineWord Alloc

/-- Events that no object takes part in. -/
def Event.offObject : Event → Bool
  | .expire _ _ => true
  | .result _ _ => true
  | .posted _ => true
  | .taken _ => true
  | .answered _ _ => true
  | .resumed _ _ => true
  | _ => false

theorem object_none {e : Event} (h : e.offObject = true) : e.object = none := by
  cases e <;> first | rfl | cases h

/-- What a queue holds, apart from where its buffer is. -/
def Queue.core (q : Queue) : Queue := { q with buffer := 0, sendWait := none, recvWait := none }

structure Kernel.Quiet (k k' : Kernel) : Prop where
  count : ∀ a, (k'.sem a).count = (k.sem a).count
  owner : ∀ a, (k'.mutex a).owner = (k.mutex a).owner
  queue : ∀ a, (k'.queue a).core = (k.queue a).core
  heads : ∀ w, k.head w = none → k'.head w = none

inductive Deed (L : Layout) (s : Sys) (g : Ghost) : Sys → Prop
  | other {s' : Sys} {n : List Event} (hlog : s'.log = n ++ s.log)
      (hn : ∀ e ∈ n, e.offObject = true) (hquiet : s.k.Quiet s'.k) : Deed L s g s'
  /-- A critical section, in the second pass of a queue's loop behind a note. -/
  | enter {u : Tid} {op op' : Op} {r : Ret} {pre : List Event}
      (hcur : s.k.currentTask = some u) (hpend : s.k.pendsv = false) (hfits : op.fits r)
      (hobject : ∀ a type, op.object = some (a, type) → g.objs a = some type)
      (hpc : (s.pc u = .enter op r ∧ pre = []) ∨
        (s.pc u = .retry op' r ∧ op = op'.again ∧ ∃ w, op'.waitList = some w ∧
          w.isQueue = true ∧ pre = [.recheck w u])) :
      Deed L s g ((s.note pre).runOp u op r)
  | create {s' : Sys} {c : Creation} {p : Nat} {k : Kernel} (hfresh : p ∉ g.live)
      (hnew : g.objs p = none) (hk : s'.k = c.init k p) (hquiet : s.k.Quiet k)
      (hrej : c.rejected = false)
      (hlog : s'.log = c.note s'.k p ++ s.log) : Deed L s g s'

section Quiet
variable {k k' : Kernel}

theorem Kernel.Quiet.refl (k : Kernel) : k.Quiet k :=
  ⟨fun _ => rfl, fun _ => rfl, fun _ => rfl, fun _ h => h⟩

theorem Kernel.Quiet.trans {k'' : Kernel} (h : k.Quiet k') (h' : k'.Quiet k'') : k.Quiet k'' :=
  ⟨fun a => (h'.count a).trans (h.count a), fun a => (h'.owner a).trans (h.owner a),
    fun a => (h'.queue a).trans (h.queue a), fun w hw => h'.heads w (h.heads w hw)⟩

/-- The objects are the same records. -/
theorem quiet_of_objects (hsem : k'.sem = k.sem) (hmutex : k'.mutex = k.mutex)
    (hqueue : k'.queue = k.queue) : k.Quiet k' := by
  constructor
  · intro a
    rw [hsem]
  · intro a
    rw [hmutex]
  · intro a
    rw [hqueue]
  · intro w hw
    rw [← hw]
    cases w <;> simp only [Kernel.head, hsem, hmutex, hqueue]

theorem quiet_setTcb (k : Kernel) (t : Tid) (f : Tcb → Tcb) : k.Quiet (k.setTcb t f) :=
  quiet_of_objects rfl rfl rfl

/-- Counts, owners and contents are those of the same store. -/
theorem quiet_of_store (hstore : k'.store = k.store)
    (hheads : ∀ w, k.head w = none → k'.head w = none) : k.Quiet k' := by
  constructor
  · intro a
    exact congrFun (congrArg Store.count hstore) a
  · intro a
    exact congrFun (congrArg Store.owner hstore) a
  · intro a
    have hqueue := congrFun (congrArg Store.queue hstore) a
    exact congrArg (fun q : Queue => { q with buffer := 0 }) hqueue
  · exact hheads

theorem searchFrom_none (next : Tid → Option Tid) (t : Tid) (n : Nat) (prev : Option Tid) :
    (IntrusiveList.searchFrom next t n none prev).1 = none := by
  cases n <;> rfl

theorem unlinkWaiter_head {w w' : WaitList} {t : Tid} (h : k.head w' = none) :
    (unlinkWaiter k w t).head w' = none := by
  rw [unlinkWaiter]
  by_cases hfound : (IntrusiveList.searchFrom k.waitNext t maxTasks (k.head w) none).1 = some t
  · have hne : w' ≠ w := by
      rintro rfl
      rw [h, searchFrom_none] at hfound
      cases hfound
    simp only [hfound, if_true, setTcb_head]
    cases (IntrusiveList.searchFrom k.waitNext t maxTasks (k.head w) none).2 with
    | none => exact (setHead_head_of_ne k _ hne).trans h
    | some p => exact (setTcb_head k p _ w').trans h
  · simp only [if_neg hfound]
    exact h

theorem quiet_unlinkWaiter (k : Kernel) (w : WaitList) (t : Tid) : k.Quiet (unlinkWaiter k w t) :=
  quiet_of_store (store_unlinkWaiter k w t) fun _ hw => unlinkWaiter_head hw

theorem quiet_syncTickTask (k : Kernel) (t : Tid) : k.Quiet (Crest.syncTickTask k t) := by
  have hvisit := syncTickTask_visit k t
  generalize Crest.syncTickTask k t = k' at hvisit ⊢
  cases hvisit with
  | passes hnot => exact Kernel.Quiet.refl k
  | counts hst hmore hlist => exact quiet_setTcb k t Tcb.waited
  | @expires w hst hone hlist =>
    have hcount := quiet_setTcb k t Tcb.waited
    have hunlink := hcount.trans (quiet_unlinkWaiter (k.setTcb t Tcb.waited) w t)
    exact hunlink.trans (quiet_of_objects rfl rfl rfl)

theorem quiet_tickDelay (k : Kernel) (t : Tid) : k.Quiet (Crest.tickDelay k t) := by
  rw [Crest.tickDelay]
  by_cases hcond : (k.tcb t).state = .waiting ∧ 0 < (k.tcb t).delayTicks ∧
      (k.tcb t).blockingWaitList = none
  · simp only [if_pos hcond]
    exact quiet_setTcb k t _
  · simp only [if_neg hcond]
    exact Kernel.Quiet.refl k

theorem quiet_switch {L : Layout} {oldSp : Nat} (h : portSwitchContext L k oldSp = some k') :
    k.Quiet k' := by
  obtain ⟨k₁, hsave, hrest⟩ := portSwitchContext_cases h
  have hfirst : k.Quiet k₁ := by
    rcases saveCurrent_cases hsave with ⟨_, rfl⟩ | ⟨cur, _, rfl⟩ <;>
      exact quiet_of_objects rfl rfl rfl
  refine hfirst.trans ?_
  rcases hrest with ⟨k₂, next, hnext, rfl⟩ | ⟨cur, _, rfl⟩ | rfl
  · obtain ⟨pr, c, rfl⟩ := schedulerGetNext_cursor hnext
    exact quiet_of_objects rfl rfl rfl
  · exact quiet_of_objects rfl rfl rfl
  · exact Kernel.Quiet.refl k'

theorem quiet_svcHandler (k : Kernel) (item : WorkItem) : k.Quiet (svcHandler k item) := by
  have hpush : ∀ k₁ : Kernel, (kworkPush k₁ item).1.sem = k₁.sem ∧
      (kworkPush k₁ item).1.mutex = k₁.mutex ∧ (kworkPush k₁ item).1.queue = k₁.queue := by
    intro k₁
    rw [kworkPush]
    by_cases hfull : (k₁.kworkTail + 1) % kworkQueueSize = k₁.kworkHead
    · rw [if_pos hfull]
      exact ⟨rfl, rfl, rfl⟩
    · rw [if_neg hfull]
      simp only
      cases k₁.kernelTcb with
      | none => exact ⟨rfl, rfl, rfl⟩
      | some u =>
        dsimp only
        split <;> exact ⟨rfl, rfl, rfl⟩
  rw [svcHandler]
  obtain ⟨hsem, hmutex, hqueue⟩ := hpush ({ k with r0 := item.arg0 }.setTcb item.caller fun tcb =>
    { tcb with svcBlocked := true, state := .waiting })
  simp only
  split
  · exact quiet_of_objects hsem hmutex hqueue
  · exact quiet_of_objects hsem hmutex hqueue

end Quiet

section Deed
variable {L : Layout} {s s' : Sys} {g : Ghost} {u : Tid}

/-- A change of code, with events of no object. -/
theorem deed_code {n : List Event} {k : Kernel} {pc : Tid → Pc}
    (hn : ∀ e ∈ n, e.offObject = true) (hquiet : s.k.Quiet k) :
    Deed L s g ⟨k, pc, n ++ s.log⟩ := .other rfl hn hquiet

theorem deed_finish {n : List Event} {k : Kernel} {pc : Tid → Pc} (r : Ret) (v : Nat)
    (hn : ∀ e ∈ n, e.offObject = true) (hquiet : s.k.Quiet k) :
    Deed L s g ((⟨k, pc, n ++ s.log⟩ : Sys).finish u r v) := by
  cases r with
  | app =>
    refine .other (n := [.result u v] ++ n) rfl ?_ hquiet
    intro e he
    rcases List.mem_append.mp he with hmem | hmem
    · rw [List.mem_singleton.mp hmem]
      rfl
    · exact hn e hmem
  | serve c => exact .other (n := n) rfl hn hquiet

theorem answerNote_offObject (k : Kernel) (t : Tid) (v : Nat) :
    ∀ e ∈ answerNote k t v, e.offObject = true := by
  intro e he
  rw [answerNote] at he
  by_cases hsvc : (k.tcb t).svcBlocked = true
  · rw [if_pos hsvc] at he
    rw [List.mem_singleton.mp he]
    rfl
  · rw [if_neg hsvc] at he
    cases he

/-- A part of a tick: some events of no object, and a quiet change. -/
structure Passed (s s' : Sys) : Prop where
  log : ∃ n, s'.log = n ++ s.log ∧ ∀ e ∈ n, e.offObject = true
  quiet : s.k.Quiet s'.k

theorem Passed.syncTickTask {s₀ : Sys} (h : Passed s₀ s) (t : Tid) :
    Passed s₀ (s.syncTickTask t) := by
  obtain ⟨⟨n, hlog, hn⟩, hquiet⟩ := h
  refine ⟨?_, hquiet.trans (quiet_syncTickTask s.k t)⟩
  cases hexp : expires s.k t with
  | none =>
    refine ⟨n, ?_, hn⟩
    simp [Sys.syncTickTask, hexp, Sys.note, hlog]
  | some w =>
    refine ⟨(answerNote s.k t minusOne ++ [Event.expire w t]) ++ n, ?_, ?_⟩
    · simp [Sys.syncTickTask, hexp, Sys.note, hlog]
    · intro e he
      rcases List.mem_append.mp he with hmem | hmem
      · rcases List.mem_append.mp hmem with hans | hlast
        · exact answerNote_offObject s.k t minusOne e hans
        · rw [List.mem_singleton.mp hlast]
          rfl
      · exact hn e hmem

theorem passed_tick (s : Sys) : Passed s s.sysTick := by
  refine sysTick_induction (P := Passed s) s ?_
    (fun s' t hs' => ⟨hs'.log, hs'.quiet.trans (quiet_tickDelay s'.k t)⟩)
    (fun _ t hs' => hs'.syncTickTask t)
    fun s' hs' => ⟨hs'.log, hs'.quiet.trans (quiet_of_objects rfl rfl rfl)⟩
  exact ⟨⟨[], rfl, fun _ he => (List.not_mem_nil he).elim⟩, quiet_of_objects rfl rfl rfl⟩

theorem deed_tick : Deed L s g s.sysTick := by
  obtain ⟨⟨n, hlog, hn⟩, hquiet⟩ := passed_tick s
  exact .other hlog hn hquiet

theorem deed_none {k : Kernel} {pc : Tid → Pc} (hquiet : s.k.Quiet k) :
    Deed L s g ⟨k, pc, s.log⟩ :=
  deed_code (n := []) (fun _ he => (List.not_mem_nil he).elim) hquiet

theorem deed_callObject (handle : Nat) (type : KobjType) (f : Nat → Op) (missing : Nat) :
    Deed L s g (s.callObject u handle type f missing) := by
  rw [Sys.callObject]
  cases kObjGet s.k handle type with
  | none =>
    exact deed_finish (n := []) .app missing (fun _ he => (List.not_mem_nil he).elim)
      (Kernel.Quiet.refl _)
  | some p => exact deed_none (Kernel.Quiet.refl _)

theorem deed_call (c : Call) : Deed L s g (s.call u c) := by
  cases c with
  | semTake handle ms => exact deed_callObject _ _ _ _
  | semGive handle => exact deed_callObject _ _ _ _
  | mutexLock handle ms => exact deed_callObject _ _ _ _
  | mutexUnlock handle => exact deed_callObject _ _ _ _
  | queuePush handle item ms => exact deed_callObject _ _ _ _
  | queuePop handle item ms => exact deed_callObject _ _ _ _
  | taskDelay ticks => exact deed_none (Kernel.Quiet.refl _)
  | taskYield => exact deed_none (Kernel.Quiet.refl _)
  | create c => exact deed_none (Kernel.Quiet.refl _)
  | taskCreate args =>
    rw [Sys.call]
    by_cases hacc : args.accepted = true
    · rw [if_pos hacc]
      exact deed_none (Kernel.Quiet.refl _)
    · rw [if_neg hacc]
      exact deed_finish (n := []) .app 0 (fun _ he => (List.not_mem_nil he).elim)
        (Kernel.Quiet.refl _)
  | setUnprivileged => exact deed_none (quiet_of_objects rfl rfl rfl)

theorem deed_dispatch (item : WorkItem) : Deed L s g (s.dispatch u item) := by
  rw [Sys.dispatch]
  cases decode s.k item with
  | sleep ticks =>
    exact deed_code (answerNote_offObject s.k item.caller 0) (quiet_of_objects rfl rfl rfl)
  | complete v => exact deed_none (Kernel.Quiet.refl _)
  | uart a => exact deed_none (Kernel.Quiet.refl _)
  | call op => exact deed_none (Kernel.Quiet.refl _)
  | create c => exact deed_none (Kernel.Quiet.refl _)

theorem deed_create {c : Creation} {r : Ret} (hL : L.heap.Placed) (h : Inv L s g)
    (hstep : s.create L u c r = some s') : Deed L s g s' := by
  obtain ⟨⟨k, p⟩, halloc, rfl⟩ := Option.map_eq_some_iff.mp hstep
  by_cases hp : p = 0
  · subst hp
    simp only [if_true]
    refine deed_finish (n := []) r _ (fun _ he => (List.not_mem_nil he).elim) ?_
    rcases alloc_cases halloc with ⟨_, rfl⟩ | ⟨heap, _, _, rfl⟩
    · exact Kernel.Quiet.refl _
    · exact quiet_of_objects rfl rfl rfl
  · simp only [if_neg hp]
    rcases alloc_cases halloc with ⟨hzero, _⟩ | ⟨heap, hmalloc, hrej, hk⟩
    · exact absurd hzero hp
    rw [if_neg hp] at hk
    have hlive := h.objects.heap.fresh hL hmalloc hp
    have hnew : g.objs p = none := by
      cases hobj : g.objs p with
      | none => rfl
      | some type => exact absurd (h.objects.known p type hobj) hlive
    have hquiet : s.k.Quiet { s.k with heap := heap } := quiet_of_objects rfl rfl rfl
    cases c with
    | sem initial => exact .create hlive hnew hk hquiet hrej rfl
    | mutex => exact .create hlive hnew hk hquiet hrej rfl
    | queue itemSize size => exact .create hlive hnew hk hquiet hrej rfl

theorem deed_queueBuffer {p : Nat} {k : Kernel} {ok : Bool} {pc : Tid → Pc}
    (hdraft : (s.k.queue p).Draft) (hrun : queueInitBuffer L s.k p = some (k, ok)) :
    Deed L s g ⟨k, pc, s.log⟩ := by
  refine deed_none ?_
  rcases queueInitBuffer_cases hrun hdraft with ⟨_, rfl⟩ | ⟨heap, buffer, size, _, rfl, _⟩
  · exact Kernel.Quiet.refl _
  · constructor
    · exact fun _ => rfl
    · exact fun _ => rfl
    · intro a
      by_cases ha : a = p
      · subst ha
        simp [Kernel.setQueue, Queue.core]
      · simp [Kernel.setQueue, ha]
    · intro w hw
      rw [← hw]
      cases w with
      | sem a => rfl
      | mutex a => rfl
      | send a =>
        by_cases ha : a = p
        · subst ha
          simp [Kernel.setQueue, Kernel.head]
        · simp [Kernel.setQueue, Kernel.head, ha]
      | recv a =>
        by_cases ha : a = p
        · subst ha
          simp [Kernel.setQueue, Kernel.head]
        · simp [Kernel.setQueue, Kernel.head, ha]

theorem deed_go (hL : L.heap.Placed) (h : Inv L s g) (hcur : s.k.currentTask = some u)
    (hpend : s.k.pendsv = false) (hstep : s.go L u = some s') : Deed L s g s' := by
  have hfits := h.coded.pcs u
  have hrefs := h.objects.refs u
  cases go_cases hstep with
  | svcRet hpc =>
    refine deed_code (n := [.resumed u s.k.r0]) ?_ (Kernel.Quiet.refl _)
    intro e he
    rw [List.mem_singleton.mp he]
    rfl
  | enter op r hpc =>
    rw [hpc] at hfits hrefs
    exact @Deed.enter L s g u op op r [] hcur hpend hfits.1 hrefs (Or.inl ⟨hpc, rfl⟩)
  | retry op r hpc =>
    rw [hpc] at hfits hrefs
    obtain ⟨hop, rfl, _, w, hw, hq⟩ := hfits
    rw [hw]
    refine .enter hcur hpend (again_fits hop) ?_ (Or.inr ⟨hpc, rfl, w, hw, hq, rfl⟩)
    intro a type ha
    rw [again_object] at ha
    exact hrefs a type ha
  | block op r hpc => exact deed_none (quiet_of_objects rfl rfl rfl)
  | check op r hpc =>
    have hnil : ∀ e ∈ ([] : List Event), e.offObject = true :=
      fun _ he => (List.not_mem_nil he).elim
    rw [Sys.checkWait]
    cases op.waitList with
    | none => exact deed_none (Kernel.Quiet.refl _)
    | some w =>
      simp only
      split
      · split
        · exact deed_finish (n := []) r _ hnil (Kernel.Quiet.refl _)
        · exact deed_none (Kernel.Quiet.refl _)
      · split
        · exact deed_finish (n := []) r _ hnil (quiet_of_objects rfl rfl rfl)
        · exact deed_finish (n := []) r _ hnil (Kernel.Quiet.refl _)
  | wake t v after hpc =>
    exact deed_code (answerNote_offObject s.k t v) (quiet_of_objects rfl rfl rfl)
  | pend after hpc =>
    have hquiet : s.k.Quiet (portTriggerPendsv s.k) := quiet_of_objects rfl rfl rfl
    cases after with
    | ret r v => exact deed_finish (n := []) r v (fun _ he => (List.not_mem_nil he).elim) hquiet
    | loop => exact deed_none hquiet
  | workerStart hpc => exact deed_none (quiet_of_objects rfl rfl rfl)
  | popNone hpc hpop => exact deed_none (Kernel.Quiet.refl _)
  | popSome k item hpc hpop =>
    obtain ⟨hk, _⟩ := kworkPop_some h.coded.head h.coded.tail hpop
    refine deed_code (n := [.taken item]) ?_ ?_
    · intro e he
      rw [List.mem_singleton.mp he]
      rfl
    · rw [hk]
      exact quiet_of_objects rfl rfl rfl
  | workerSleep hpc =>
    refine deed_none ?_
    rw [workerWait]
    cases s.k.kernelTcb with
    | none => exact Kernel.Quiet.refl _
    | some w => exact quiet_of_objects rfl rfl rfl
  | dispatch item hpc => exact deed_dispatch item
  | create c r s' hpc hrun => exact deed_create hL h hrun
  | queueBuffer p r k ok hpc hrun => exact deed_queueBuffer (h.objects.drafts u p r hpc) hrun
  | queueFree p r k hpc hrun =>
    obtain ⟨heap, _, rfl⟩ := Option.map_eq_some_iff.mp hrun
    exact deed_finish (n := []) r _ (fun _ he => (List.not_mem_nil he).elim)
      (quiet_of_objects rfl rfl rfl)
  | publish p type r hpc =>
    refine deed_finish (n := []) r _ (fun _ he => (List.not_mem_nil he).elim) ?_
    rw [kObjAlloc]
    split
    · exact Kernel.Quiet.refl _
    · split
      · exact Kernel.Quiet.refl _
      · exact quiet_of_objects rfl rfl rfl
  | spawnNone args hpc hfree =>
    exact deed_finish (n := []) .app 0 (fun _ he => (List.not_mem_nil he).elim)
      (Kernel.Quiet.refl _)
  | spawnTcb args k t hpc hfree =>
    obtain ⟨_, rfl⟩ := getFreeTcb_some hfree
    exact deed_none (quiet_of_objects rfl rfl rfl)
  | spawnStack t args heap alloc hpc hrun => exact deed_none (quiet_of_objects rfl rfl rfl)
  | spawnFree t hpc =>
    exact deed_finish (n := []) .app 0 (fun _ he => (List.not_mem_nil he).elim)
      (quiet_of_objects rfl rfl rfl)
  | spawnAdd t alloc args hpc =>
    exact deed_finish (n := []) .app 0 (fun _ he => (List.not_mem_nil he).elim)
      (quiet_of_objects rfl rfl rfl)

/-- Every step of the system is one of the three kinds. -/
theorem Inv.deed {l : Label} (hL : L.heap.Placed) (h : Inv L s g) (hstep : s.step L l = some s') :
    Deed L s g s' := by
  obtain ⟨_, htick⟩ | ⟨oldSp, k, _, _, hrun, rfl⟩ | ⟨u, hpend, hcur, hthread⟩ := step_cases hstep
  · rw [htick]
    exact deed_tick
  · exact deed_none (quiet_switch hrun)
  · cases l with
    | tick => cases hthread
    | pendSV oldSp => cases hthread
    | svc id a0 a1 a2 a3 =>
      rw [Sys.thread] at hthread
      by_cases hc : s.pc u = .app ∧ s.k.nPriv = true
      · rw [if_pos hc] at hthread
        obtain rfl := Option.some.inj hthread
        refine deed_code (n := [.posted ⟨id, a0, a1, a2, a3, u⟩]) ?_ (quiet_svcHandler _ _)
        intro e he
        rw [List.mem_singleton.mp he]
        rfl
      · rw [if_neg hc] at hthread
        cases hthread
    | call c =>
      rw [Sys.thread] at hthread
      by_cases hc : s.pc u = .app ∧ s.k.nPriv = false
      · rw [if_pos hc] at hthread
        obtain rfl := Option.some.inj hthread
        exact deed_call c
      · rw [if_neg hc] at hthread
        cases hthread
    | compute r0 ram =>
      rw [Sys.thread] at hthread
      by_cases hc : s.pc u = .app
      · rw [if_pos hc] at hthread
        obtain rfl := Option.some.inj hthread
        exact deed_none (quiet_of_objects rfl rfl rfl)
      · rw [if_neg hc] at hthread
        cases hthread
    | go => exact deed_go hL h hcur hpend hthread

/-- A critical section adds its own events to the log, and perhaps the result. -/
theorem runOp_log (s : Sys) (u : Tid) (op : Op) (r : Ret) :
    ∃ n, (s.runOp u op r).log =
        n ++ (op.note s.k (op.enter s.k u).1 u (op.enter s.k u).2 ++ s.log) ∧
      ∀ e ∈ n, e.offObject = true := by
  rw [runOp_eq]
  cases (op.enter s.k u).2 with
  | ret v =>
    cases r with
    | app =>
      refine ⟨[.result u v], rfl, ?_⟩
      intro e he
      rw [List.mem_singleton.mp he]
      rfl
    | serve c => exact ⟨[], rfl, fun _ he => (List.not_mem_nil he).elim⟩
  | block => exact ⟨[], rfl, fun _ he => (List.not_mem_nil he).elim⟩
  | wake t v => exact ⟨[], rfl, fun _ he => (List.not_mem_nil he).elim⟩
  | pend v => exact ⟨[], rfl, fun _ he => (List.not_mem_nil he).elim⟩

end Deed

/-- What a critical section of a call of `u` may rely on. -/
structure Ready (k : Kernel) (log : List Event) (W : WaitMap) (u : Tid) (op : Op) : Prop where
  lists : Lists k W
  apart : Apart W
  waiting : ∀ t w, t ∈ W w ↔ ∃ ms, waitPhase log t = .waiting w ms
  idle : waitPhase log (op.blocker u) = .idle
  shaped : ∀ q, op.object = some (q, .queue) → (k.queue q).Shaped

/-- The first pass of a call, and the second pass of a queue's loop, which notes
itself first. -/
inductive Pass (log : List Event) (u : Tid) (op : Op) : List Event → Prop
  | first : Pass log u op []
  | second {w : WaitList} (hw : op.waitList = some w) (hqueue : w.isQueue = true)
      (hphase : waitPhase log u = .handed w) : Pass log u op [.recheck w u]

theorem Pass.object {log pre : List Event} {u : Tid} {op : Op} (h : Pass log u op pre) :
    ∀ e ∈ pre, e.object = none := by
  intro e he
  cases h with
  | first => cases he
  | second hw hqueue hphase =>
    rw [List.mem_singleton.mp he]
    rfl

theorem Ready.blocker {k : Kernel} {log : List Event} {W : WaitMap} {u : Tid} {op : Op}
    (h : Ready k log W u op) (w : WaitList) : op.blocker u ∉ W w := by
  intro hmem
  obtain ⟨ms, hphase⟩ := (h.waiting _ w).mp hmem
  rw [h.idle] at hphase
  cases hphase

/-- Only a call that can put a task on a list makes an empty list non-empty. -/
theorem Ready.head_none {k : Kernel} {log : List Event} {W : WaitMap} {u : Tid} {op : Op}
    {w : WaitList} (h : Ready k log W u op) (htarget : op.target ≠ some w)
    (hnone : k.head w = none) :
    (op.enter k u).1.head w = none := by
  have hnil := (head_eq_none_iff h.lists w).mp hnone
  obtain ⟨W', heff⟩ := enter_effect op h.lists h.apart h.blocker
  generalize op.note k (op.enter k u).1 u (op.enter k u).2 = notes at heff
  generalize (op.enter k u).1 = k' at heff ⊢
  generalize (op.enter k u).2 = out at heff
  cases heff with
  | ret htasks hlists hnotes => exact (head_eq_none_iff hlists w).mpr hnil
  | pend htasks hlists hnotes => exact (head_eq_none_iff hlists w).mpr hnil
  | sleep hop hticks hlists hnotes => exact (head_eq_none_iff hlists w).mpr hnil
  | @block _ _ w' l hop hms htasks hlists hmem hnotes =>
    refine (head_eq_none_iff hlists w).mpr ?_
    have hne : w ≠ w' := by
      rintro rfl
      exact htarget hop
    rw [Function.update_of_ne hne]
    exact hnil
  | @wake _ _ w' x r v hop hw htasks hlists hnotes =>
    refine (head_eq_none_iff hlists w).mpr ?_
    have hne : w ≠ w' := by
      rintro rfl
      rw [hnil] at hw
      cases hw
    rw [Function.update_of_ne hne]
    exact hnil

theorem again_waitList (op : Op) : op.again.waitList = op.waitList := by
  cases op <;> rfl

/-- The task that a critical section may block has no wait behind it. -/
theorem Inv.blocker_idle {L : Layout} {s : Sys} {g : Ghost} {u : Tid} {op : Op} {r : Ret}
    (h : Inv L s g) (hown : g.place u = .own) (hpc : s.pc u = .enter op r) :
    waitPhase s.log (op.blocker u) = .idle := by
  have hfits := h.coded.pcs u
  rw [hpc] at hfits
  have hview := h.placed.task u
  rw [hown] at hview
  have hself : waitPhase s.log u = .idle := by
    have hphase : waitPhase s.log u = (s.pc u).settled _ := hview.phase
    rw [hphase, hpc]
    rfl
  have hserved : ∀ c, r = .serve c → waitPhase s.log c = .idle := by
    rintro c rfl
    have hplace : g.place c = .served u := (h.placed.serves_iff u c).mp (by rw [hpc]; rfl)
    have hheld := h.placed.task c
    rw [hplace] at hheld
    exact hheld.phase
  cases op with
  | semTryTake s caller ms =>
    cases r with
    | app => exact absurd hfits.1 (by simp [Op.fits])
    | serve c =>
      obtain rfl : caller = c := hfits.1
      exact hserved caller rfl
  | mutexTryLock m caller ms =>
    cases r with
    | app => exact absurd hfits.1 (by simp [Op.fits])
    | serve c =>
      obtain rfl : caller = c := hfits.1
      exact hserved caller rfl
  | _ => exact hself

theorem Inv.ready {L : Layout} {s : Sys} {g : Ghost} {u : Tid} {op op' : Op} {r : Ret}
    {pre : List Event} (h : Inv L s g) (hcur : s.k.currentTask = some u)
    (hpend : s.k.pendsv = false)
    (hobject : ∀ a type, op.object = some (a, type) → g.objs a = some type)
    (hpc : (s.pc u = .enter op r ∧ pre = []) ∨
      (s.pc u = .retry op' r ∧ op = op'.again ∧ ∃ w, op'.waitList = some w ∧
        w.isQueue = true ∧ pre = [.recheck w u])) :
    Ready s.k (pre ++ s.log) g.lists u op ∧ Pass s.log u op pre := by
  have hshaped : ∀ q, op.object = some (q, .queue) → (s.k.queue q).Shaped :=
    fun q hq => h.objects.shaped q (hobject q _ hq)
  have hown := h.own hcur hpend
    (Or.inr (by rcases hpc with ⟨hpc, _⟩ | ⟨hpc, _⟩ <;> rw [hpc] <;> rfl))
  rcases hpc with ⟨hpc, rfl⟩ | ⟨hpc, rfl, w, hw, hqueue, rfl⟩
  · exact ⟨⟨h.placed.lists, h.placed.apart, h.placed.waiting_iff, h.blocker_idle hown hpc, hshaped⟩,
      .first⟩
  · have hview := h.placed.task u
    rw [hown] at hview
    have hphase : waitPhase s.log u = .handed w := by
      have hsettled : waitPhase s.log u = (s.pc u).settled _ := hview.phase
      rw [hsettled, hpc]
      simp [Pc.settled, hw]
    have hnow : waitPhase ([.recheck w u] ++ s.log) u = .idle := by
      simp [WaitPhase.next, hphase, hqueue]
    have hblocker : op'.again.blocker u = u := by
      cases op' with
      | queuePush q item ms => rfl
      | queuePop q item ms => rfl
      | semTake a ms => rfl
      | mutexLock a ms => rfl
      | _ => cases hw
    refine ⟨⟨h.placed.lists, h.placed.apart, ?_, ?_, hshaped⟩,
      .second ((again_waitList op').trans hw) hqueue hphase⟩
    · intro t w'
      by_cases ht : t = u
      · subst ht
        rw [hnow]
        have hoff : t ∉ g.lists w' := h.placed.notMem (fun w'' => by rw [hown]; simp) w'
        simp [hoff]
      · have hsame : waitPhase ([.recheck w u] ++ s.log) t = waitPhase s.log t := by
          simp [WaitPhase.next, Ne.symm ht]
        rw [hsame]
        exact h.placed.waiting_iff t w'
    · rw [hblocker]
      exact hnow

theorem Inv.ready_enter {L : Layout} {s : Sys} {g : Ghost} {u : Tid} {op : Op} {r : Ret}
    (h : Inv L s g) (hcur : s.k.currentTask = some u) (hpend : s.k.pendsv = false)
    (hobject : ∀ a type, op.object = some (a, type) → g.objs a = some type)
    (hpc : s.pc u = .enter op r) : Ready s.k s.log g.lists u op :=
  (@Inv.ready L s g u op op r [] h hcur hpend hobject (Or.inl ⟨hpc, rfl⟩)).1

theorem Inv.ready_retry {L : Layout} {s : Sys} {g : Ghost} {u : Tid} {op : Op} {r : Ret}
    {w : WaitList} (h : Inv L s g) (hcur : s.k.currentTask = some u) (hpend : s.k.pendsv = false)
    (hobject : ∀ a type, op.object = some (a, type) → g.objs a = some type)
    (hpc : s.pc u = .retry op r) (hw : op.waitList = some w) (hqueue : w.isQueue = true) :
    Ready s.k ([.recheck w u] ++ s.log) g.lists u op.again :=
  (@Inv.ready L s g u op.again op r [.recheck w u] h hcur hpend
    (by rw [again_object]; exact hobject) (Or.inr ⟨hpc, rfl, w, hw, hqueue, rfl⟩)).1

/-- One step of a relation between objects and log that critical sections and
creations keep and that does not see the rest. -/
theorem Deed.keeps {L : Layout} {P : Kernel → List Event → Prop} {s s' : Sys} {g g' : Ghost}
    (hdeed : Deed L s g s') (hg : Inv L s g) (hg' : Inv L s' g')
    (hother : ∀ k k' n log, P k log → k.Quiet k' → (∀ e ∈ n, e.offObject = true) →
      (∀ t, waitPhase (n ++ log) t ≠ .broken) → P k' (n ++ log))
    (henter : ∀ u op op' r pre, s.k.currentTask = some u → s.k.pendsv = false →
      (s.pc u = .enter op r ∨ s.pc u = .retry op' r ∧ ∃ w, op.waitList = some w) →
      Pass s.log u op pre → Ready s.k (pre ++ s.log) g.lists u op → P s.k s.log →
      P (op.enter s.k u).1 (op.note s.k (op.enter s.k u).1 u (op.enter s.k u).2 ++ (pre ++ s.log)))
    (hcreate : ∀ k (c : Creation) p log, P k log → c.rejected = false →
      (∀ t w ms, waitPhase log t = .waiting w ms → w.addr ≠ p) →
      P (c.init k p) (c.note (c.init k p) p ++ log)) (hp : P s.k s.log) : P s'.k s'.log := by
  have hwhole : ∀ t, waitPhase s'.log t ≠ .broken := fun t => (hg'.placed.task t).unbroken.1
  cases hdeed with
  | other hlog hn hquiet =>
    rw [hlog] at hwhole ⊢
    exact hother _ _ _ _ hp hquiet hn hwhole
  | @enter u op op' r pre hcur hpend hfits hobject hpc =>
    obtain ⟨hready, hpass⟩ := hg.ready hcur hpend hobject hpc
    obtain ⟨n, hlog, hn⟩ := runOp_log (s.note pre) u op r
    rw [hlog] at hwhole ⊢
    rw [runOp_k]
    have hcode : s.pc u = .enter op r ∨ s.pc u = .retry op' r ∧ ∃ w, op.waitList = some w := by
      rcases hpc with ⟨hpc, _⟩ | ⟨hpc, rfl, w, hw, _⟩
      · exact Or.inl hpc
      · exact Or.inr ⟨hpc, w, (again_waitList op').trans hw⟩
    have hentered := henter u op op' r pre hcur hpend hcode hpass hready hp
    exact hother _ _ n _ hentered (Kernel.Quiet.refl _) hn hwhole
  | create hfresh hnew hk hquiet hrej hlog =>
    have hsame : ∀ t, waitPhase ([] ++ s.log) t ≠ .broken :=
      fun t => (hg.placed.task t).unbroken.1
    rw [hlog, hk]
    refine hcreate _ _ _ _ (hother _ _ [] _ hp hquiet (fun _ he => (List.not_mem_nil he).elim)
      hsame) hrej ?_
    rintro t w ms hphase rfl
    have hmem := (hg.placed.waiting_iff t w).mpr ⟨ms, hphase⟩
    have hknown := hg.objects.lists w (List.ne_nil_of_mem hmem)
    rw [hnew] at hknown
    cases hknown

/-- A relation between objects and log that every critical section and creation
keeps, and that does not see the rest, holds in every state. -/
theorem Sys.Reached.objects {L : Layout} {P : Kernel → List Event → Prop} (hL : L.heap.Placed)
    (hstart : ∀ k, (Kernel.reset (fun _ => 0) fun _ => 0).objects = k.objects → P k [])
    (hother : ∀ k k' n log, P k log → k.Quiet k' → (∀ e ∈ n, e.offObject = true) →
      (∀ t, waitPhase (n ++ log) t ≠ .broken) → P k' (n ++ log))
    (henter : ∀ k W u op pre log, P k log → Pass log u op pre → Ready k (pre ++ log) W u op →
      P (op.enter k u).1 (op.note k (op.enter k u).1 u (op.enter k u).2 ++ (pre ++ log)))
    (hcreate : ∀ k (c : Creation) p log, P k log → c.rejected = false →
      (∀ t w ms, waitPhase log t = .waiting w ms → w.addr ≠ p) →
      P (c.init k p) (c.note (c.init k p) p ++ log)) {s : Sys} (h : s.Reached L) : P s.k s.log := by
  refine h.induction (P := fun s => P s.k s.log) hL (fun s hs => ?_) fun s g l s' hg hp hl => ?_
  · rw [hs.bare.1]
    exact hstart s.k hs.bare.2.1
  · obtain ⟨g', hg', _⟩ := hg.step hL hl
    exact (hg.deed hL hl).keeps hg hg' hother
      (fun u op _ _ pre _ _ _ hpass hready hp => henter s.k g.lists u op pre s.log hp hpass hready)
      hcreate hp

end Crest
