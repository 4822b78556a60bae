import CrestRtos.System.Deeds

/-!
# Syscalls are answered once

A task in a syscall is at one place: its item is in the ring or at the worker, or
the task is on a wait list, or somebody is about to wake it. Items leave the ring
in the order in which they came, and each gets one answer.
-/

namespace Crest
open IntrusiveList MachineWord

/-- The items that have been posted, and those that the worker has taken, oldest
first. -/
def postedItems (log : List Event) : List WorkItem :=
  log.foldr (fun e l => match e with | .posted item => l ++ [item] | _ => l) []

def takenItems (log : List Event) : List WorkItem :=
  log.foldr (fun e l => match e with | .taken item => l ++ [item] | _ => l) []

/-- Events of anything but the ring. -/
def Event.calm : Event → Bool
  | .posted _ => false
  | .taken _ => false
  | _ => true

/-- What a step does to the ring: nothing, or one item goes in or comes out. -/
inductive RingStep (s s' : Sys) : Prop
  | kept {n : List Event} (hring : s'.k.ring = s.k.ring) (hlog : s'.log = n ++ s.log)
      (hn : ∀ e ∈ n, e.calm = true)
  | post {item : WorkItem} (hring : s'.k.kwork = s.k.kwork ++ [item])
      (hlog : s'.log = .posted item :: s.log)
  | take {item : WorkItem} (hring : s.k.kwork = item :: s'.k.kwork)
      (hlog : s'.log = .taken item :: s.log)

section Ring
variable {L : Alloc.Layout} {s s' : Sys} {g : Ghost} {u : Tid} {k : Kernel}

theorem calm_of_offSys {e : Event} (h : e.offSys = true) : e.calm = true := by
  cases e <;> first | rfl | cases h

theorem ring_enter {W : WaitMap} {op : Op} (hlists : Lists k W) (hd : Apart W)
    (hb : ∀ w, op.blocker u ∉ W w) : (op.enter k u).1.ring = k.ring := by
  obtain ⟨W', heff⟩ := enter_effect op hlists hd hb
  generalize op.note k (op.enter k u).1 u (op.enter k u).2 = notes at heff
  generalize (op.enter k u).1 = k' at heff ⊢
  generalize (op.enter k u).2 = out at heff
  cases heff with
  | ret htasks hl hnotes => exact (congrArg Kernel.ring htasks :)
  | pend htasks hl hnotes => exact (congrArg Kernel.ring htasks :)
  | sleep hop hticks hl hnotes => rfl
  | block hop hms htasks hl hmem hnotes => exact (congrArg Kernel.ring htasks :)
  | wake hop hw htasks hl hnotes => exact (congrArg Kernel.ring htasks :)

theorem ring_syncTickTask (k : Kernel) (t : Tid) : (Crest.syncTickTask k t).ring = k.ring := by
  rw [Crest.syncTickTask]
  cases (k.tcb t).blockingWaitList with
  | none => rfl
  | some w =>
    by_cases hcond : (k.tcb t).state = .waiting ∧ 0 < (k.tcb t).delayTicks
    · simp only [if_pos hcond]
      by_cases hzero : (k.tcb t).delayTicks - 1 = 0
      · simp only [if_pos hzero]
        exact (congrArg Kernel.ring (tasks_expireWaiter k w t) :)
      · simp only [if_neg hzero]
        rfl
    · simp only [if_neg hcond]

theorem ring_rouse (k : Kernel) : (portTriggerPendsv (rouseWorker k)).ring = k.ring := by
  rw [rouseWorker]
  cases k.kernelTcb with
  | none => rfl
  | some u =>
    simp only
    split <;> rfl

/-- Nothing happens to the ring. -/
structure RingKept (s s' : Sys) : Prop where
  ring : s'.k.ring = s.k.ring
  log : ∃ n, s'.log = n ++ s.log ∧ ∀ e ∈ n, e.calm = true

theorem RingKept.step (h : RingKept s s') : RingStep s s' := by
  obtain ⟨n, hlog, hn⟩ := h.log
  exact .kept h.ring hlog hn

theorem ringKept_of (hring : k.ring = s.k.ring) {pc : Tid → Pc} : RingKept s ⟨k, pc, s.log⟩ :=
  ⟨hring, [], rfl, fun _ he => (List.not_mem_nil he).elim⟩

theorem answerNote_calm (k : Kernel) (t : Tid) (v : Nat) :
    ∀ e ∈ answerNote k t v, e.calm = true := by
  intro e he
  rw [answerNote] at he
  by_cases hsvc : (k.tcb t).svcBlocked = true
  · rw [if_pos hsvc] at he
    rw [List.mem_singleton.mp he]
    rfl
  · rw [if_neg hsvc] at he
    cases he

theorem RingKept.note {n : List Event} (h : RingKept s s') (hn : ∀ e ∈ n, e.calm = true) :
    RingKept s (s'.note n) := by
  obtain ⟨hring, m, hlog, hm⟩ := h
  refine ⟨hring, n ++ m, ?_, ?_⟩
  · rw [Sys.note, hlog, List.append_assoc]
  · intro e he
    rcases List.mem_append.mp he with hmem | hmem
    · exact hn e hmem
    · exact hm e hmem

theorem RingKept.setPc (h : RingKept s s') (t : Tid) (p : Pc) : RingKept s (s'.setPc t p) :=
  ⟨h.ring, h.log⟩

theorem RingKept.change (h : RingKept s s') (hring : k.ring = s'.k.ring) :
    RingKept s { s' with k := k } := ⟨hring.trans h.ring, h.log⟩

theorem RingKept.finish (h : RingKept s s') (t : Tid) (r : Ret) (v : Nat) :
    RingKept s (s'.finish t r v) := by
  cases r with
  | app =>
    refine (h.setPc t .app).note ?_
    intro e he
    rw [List.mem_singleton.mp he]
    rfl
  | serve c => exact h.setPc t _

theorem RingKept.settle (h : RingKept s s') (t : Tid) (op : Op) (r : Ret) (out : Outcome) :
    RingKept s (s'.settle t op r out) := by
  cases out with
  | ret v => exact h.finish t r v
  | block => exact h.setPc t _
  | wake x v => exact h.setPc t _
  | pend v => exact h.setPc t _

theorem RingKept.refl (s : Sys) : RingKept s s :=
  ⟨rfl, [], rfl, fun _ he => (List.not_mem_nil he).elim⟩

theorem ringKept_tick : RingKept s s.sysTick := by
  refine sysTick_induction (P := RingKept s) s ((RingKept.refl s).change rfl)
    (fun s' t hs' => ?_) (fun s' t hs' => ?_) fun s' hs' => hs'.change rfl
  · refine hs'.change ?_
    rw [Crest.tickDelay]
    split <;> rfl
  · refine (hs'.change (ring_syncTickTask s'.k t)).note ?_
    intro e he
    cases hexp : expires s'.k t with
    | none =>
      rw [hexp] at he
      cases he
    | some w =>
      rw [hexp] at he
      rcases List.mem_append.mp he with hmem | hmem
      · exact answerNote_calm s'.k t minusOne e hmem
      · rw [List.mem_singleton.mp hmem]
        rfl

theorem ring_switch {oldSp : Nat} (h : Inv L s g)
    (hrun : portSwitchContext L s.k oldSp = some k) : k.ring = s.k.ring := by
  obtain ⟨n, hs⟩ := h.switched hrun
  exact (congrArg Kernel.ring hs.rest :)

theorem ringKept_callObject (handle : Nat) (type : KobjType) (f : Nat → Op) (missing : Nat) :
    RingKept s (s.callObject u handle type f missing) := by
  rw [Sys.callObject]
  cases kObjGet s.k handle type with
  | none => exact (RingKept.refl s).finish u .app missing
  | some p => exact (RingKept.refl s).setPc u _

theorem ringKept_call (c : Call) : RingKept s (s.call u c) := by
  cases c with
  | semTake handle ms => exact ringKept_callObject _ _ _ _
  | semGive handle => exact ringKept_callObject _ _ _ _
  | mutexLock handle ms => exact ringKept_callObject _ _ _ _
  | mutexUnlock handle => exact ringKept_callObject _ _ _ _
  | queuePush handle item ms => exact ringKept_callObject _ _ _ _
  | queuePop handle item ms => exact ringKept_callObject _ _ _ _
  | taskDelay ticks => exact (RingKept.refl s).setPc u _
  | taskYield => exact (RingKept.refl s).setPc u _
  | create c => exact (RingKept.refl s).setPc u _
  | taskCreate args =>
    rw [Sys.call]
    split
    · exact (RingKept.refl s).setPc u _
    · exact (RingKept.refl s).finish u .app 0
  | setUnprivileged => exact (RingKept.refl s).change rfl

theorem ringKept_dispatch (item : WorkItem) : RingKept s (s.dispatch u item) := by
  rw [Sys.dispatch]
  cases decode s.k item with
  | sleep ticks =>
    have hslept : RingKept s { s with k := delaySection s.k item.caller ticks } :=
      (RingKept.refl s).change rfl
    exact (hslept.note (answerNote_calm s.k item.caller 0)).setPc u _
  | complete v => exact (RingKept.refl s).setPc u _
  | uart a => exact (RingKept.refl s).setPc u _
  | call op => exact (RingKept.refl s).setPc u _
  | create c => exact (RingKept.refl s).setPc u _

theorem ringKept_create {c : Creation} {r : Ret} (hstep : s.create L u c r = some s') :
    RingKept s s' := by
  obtain ⟨⟨k, p⟩, halloc, rfl⟩ := Option.map_eq_some_iff.mp hstep
  have hring : k.ring = s.k.ring := by
    rcases alloc_cases halloc with ⟨_, rfl⟩ | ⟨heap, _, _, rfl⟩
    · rfl
    · split
      · rfl
      · cases c <;> rfl
  have hkept : RingKept s { s with k := k } := (RingKept.refl s).change hring
  by_cases hp : p = 0
  · simp only [if_pos hp]
    exact hkept.finish u r _
  · simp only [if_neg hp]
    have hnoted : RingKept s (({ s with k := k } : Sys).note (c.note k p)) := by
      refine hkept.note ?_
      intro e he
      cases c <;> rw [List.mem_singleton.mp he] <;> rfl
    cases c with
    | sem initial => exact hnoted.setPc u _
    | mutex => exact hnoted.setPc u _
    | queue itemSize size => exact hnoted.setPc u _

theorem ringKept_runOp {op : Op} {W : WaitMap} (r : Ret) (hlists : Lists s.k W) (hd : Apart W)
    (hb : ∀ w, op.blocker u ∉ W w) : RingKept s (s.runOp u op r) := by
  rw [runOp_eq]
  have hkept : RingKept s (({ s with k := (op.enter s.k u).1 } : Sys).note
      (op.note s.k (op.enter s.k u).1 u (op.enter s.k u).2)) :=
    ((RingKept.refl s).change (ring_enter hlists hd hb)).note fun e he =>
      calm_of_offSys (note_within _ _ _ _ _ e he).sys
  exact hkept.settle u op r _

theorem ringStep_goto {p : Pc} (hring : k.ring = s.k.ring) :
    RingStep s (({ s with k := k } : Sys).setPc u p) :=
  (((RingKept.refl s).change hring).setPc u p).step

theorem ringStep_finish {r : Ret} {v : Nat} (hring : k.ring = s.k.ring) :
    RingStep s (({ s with k := k } : Sys).finish u r v) :=
  (((RingKept.refl s).change hring).finish u r v).step

theorem ringStep_go (h : Inv L s g) (hcur : s.k.currentTask = some u) (hpend : s.k.pendsv = false)
    (hstep : s.go L u = some s') : RingStep s s' := by
  cases go_cases hstep with
  | popNone hpc hpop => exact ringStep_goto rfl
  | popSome k item hpc hpop => exact .take (kworkPop_some h.coded.head h.coded.tail hpop).2 rfl
  | svcRet hpc =>
    refine (((RingKept.refl s).setPc u _).note ?_).step
    intro e he
    rw [List.mem_singleton.mp he]
    rfl
  | enter op r hpc =>
    have hown := h.own hcur hpend (Or.inr (by rw [hpc]; rfl))
    exact (ringKept_runOp r h.placed.lists h.placed.apart (h.blocker_notMem hown hpc)).step
  | retry op r hpc =>
    have hfits := h.coded.pcs u
    have hrefs := h.objects.refs u
    rw [hpc] at hfits hrefs
    obtain ⟨_, _, _, w, hw, hqueue⟩ := hfits
    have hready := h.ready_retry hcur hpend hrefs hpc hw hqueue
    have hnoted : RingKept s (s.note (op.waitList.toList.map fun w => .recheck w u)) := by
      refine (RingKept.refl s).note ?_
      rw [hw]
      intro e he
      rw [List.mem_singleton.mp he]
      rfl
    have hrun := ringKept_runOp (s := s.note (op.waitList.toList.map fun w => .recheck w u)) r
      hready.lists hready.apart hready.blocker
    obtain ⟨n, hlog, hn⟩ := hrun.log
    obtain ⟨m, hlog', hm⟩ := hnoted.log
    refine .kept (n := n ++ m) hrun.ring ?_ ?_
    · rw [hlog, hlog', List.append_assoc]
    · intro e he
      rcases List.mem_append.mp he with hmem | hmem
      · exact hn e hmem
      · exact hm e hmem
  | block op r hpc => exact ringStep_goto rfl
  | check op r hpc =>
    rw [Sys.checkWait]
    cases op.waitList with
    | none => exact (RingKept.refl s).step
    | some w =>
      simp only
      split
      · split
        · exact ringStep_finish rfl
        · exact ringStep_goto rfl
      · split
        · exact ringStep_finish rfl
        · exact ringStep_finish rfl
  | wake t v after hpc =>
    have hwoken : RingKept s { s with k := wakeSection s.k t v } := (RingKept.refl s).change rfl
    exact ((hwoken.note (answerNote_calm s.k t v)).setPc u _).step
  | pend after hpc =>
    cases after with
    | ret r v => exact ringStep_finish rfl
    | loop => exact ringStep_goto rfl
  | workerStart hpc => exact ringStep_goto rfl
  | workerSleep hpc =>
    refine ringStep_goto ?_
    rw [workerWait]
    cases s.k.kernelTcb <;> rfl
  | dispatch item hpc => exact (ringKept_dispatch item).step
  | create c r s' hpc hrun => exact (ringKept_create hrun).step
  | queueBuffer p r k ok hpc hrun =>
    refine ringStep_goto ?_
    rcases queueInitBuffer_cases hrun (h.objects.drafts u p r hpc) with ⟨_, rfl⟩ |
      ⟨heap, buffer, size, _, rfl, _⟩
    · rfl
    · rfl
  | queueFree p r k hpc hrun =>
    obtain ⟨heap, _, rfl⟩ := Option.map_eq_some_iff.mp hrun
    exact ringStep_finish rfl
  | publish p type r hpc =>
    refine ringStep_finish ?_
    rw [kObjAlloc]
    split
    · rfl
    · split <;> rfl
  | spawnNone args hpc hfree => exact ringStep_finish rfl
  | spawnTcb args k t hpc hfree =>
    obtain ⟨_, rfl⟩ := getFreeTcb_some hfree
    exact ringStep_goto rfl
  | spawnStack t args heap alloc hpc hrun => exact ringStep_goto rfl
  | spawnFree t hpc => exact ringStep_finish rfl
  | spawnAdd t alloc args hpc =>
    have hadded : RingKept s { s with k := schedulerAddTask (initTcb s.k t alloc args) t } :=
      (RingKept.refl s).change rfl
    exact ((hadded.setPc t .app).finish u .app 0).step

/-- Every step of the system leaves the ring alone, posts an item or takes one. -/
theorem Inv.ringStep {l : Label} (h : Inv L s g) (hstep : s.step L l = some s') :
    RingStep s s' := by
  obtain ⟨_, htick⟩ | ⟨oldSp, k, _, _, hrun, rfl⟩ | ⟨u, hpend, hcur, hthread⟩ := step_cases hstep
  · rw [htick]
    exact ringKept_tick.step
  · exact (ringKept_of (ring_switch h hrun)).step
  · cases l with
    | tick => cases hthread
    | pendSV oldSp => cases hthread
    | svc id a0 a1 a2 a3 =>
      rw [Sys.thread] at hthread
      by_cases hc : s.pc u = .app ∧ s.k.nPriv = true
      · rw [if_pos hc] at hthread
        obtain rfl := Option.some.inj hthread
        have hroom := kwork_room h.coded.head h.coded.tail h.placed.once
        have hpost := postItem_kwork (k := s.k) ⟨id, a0, a1, a2, a3, u⟩ h.coded.head h.coded.tail
          hroom
        refine @RingStep.post _ _ ⟨id, a0, a1, a2, a3, u⟩ ?_ rfl
        rw [← hpost]
        change (svcHandler s.k _).kwork = _
        rw [svcHandler_room hroom]
        exact kwork_of_ring (ring_rouse _)
      · rw [if_neg hc] at hthread
        cases hthread
    | call c =>
      rw [Sys.thread] at hthread
      by_cases hc : s.pc u = .app ∧ s.k.nPriv = false
      · rw [if_pos hc] at hthread
        obtain rfl := Option.some.inj hthread
        exact (ringKept_call c).step
      · rw [if_neg hc] at hthread
        cases hthread
    | compute r0 ram =>
      rw [Sys.thread] at hthread
      by_cases hc : s.pc u = .app
      · rw [if_pos hc] at hthread
        obtain rfl := Option.some.inj hthread
        exact .kept (n := []) rfl rfl fun _ he => (List.not_mem_nil he).elim
      · rw [if_neg hc] at hthread
        cases hthread
    | go => exact ringStep_go h hcur hpend hthread

end Ring

/-- Items are taken in the order in which they were posted, none is lost or made up. -/
theorem Sys.Reached.fifo {L : Alloc.Layout} {s : Sys} (hL : L.heap.Placed) (h : s.Reached L) :
    postedItems s.log = takenItems s.log ++ s.k.kwork := by
  have hcalm : ∀ n log : List Event, (∀ e ∈ n, e.calm = true) →
      postedItems (n ++ log) = postedItems log ∧ takenItems (n ++ log) = takenItems log := by
    intro n log hn
    induction n with
    | nil => exact ⟨rfl, rfl⟩
    | cons e n ih =>
      obtain ⟨hp, ht⟩ := ih fun x hx => hn x (List.mem_cons_of_mem e hx)
      have he := hn e List.mem_cons_self
      rw [← hp, ← ht]
      cases e <;> first | exact ⟨rfl, rfl⟩ | cases he
  refine h.induction (P := fun s => postedItems s.log = takenItems s.log ++ s.k.kwork) hL ?_ ?_
  · intro s hs
    obtain ⟨hlog, _, hhead, htail⟩ := hs.bare
    have hempty : s.k.kwork = [] := by
      rw [Kernel.kwork, hhead, htail]
      rfl
    rw [hlog, hempty]
    rfl
  · intro s g l s' hg hp hl
    cases hg.ringStep hl with
    | kept hring hlog hn =>
      obtain ⟨hposted, htaken⟩ := hcalm _ s.log hn
      rw [hlog, hposted, htaken, kwork_of_ring hring]
      exact hp
    | post hring hlog =>
      rw [hlog, hring, ← List.append_assoc]
      exact congrArg (· ++ _) hp
    | take hring hlog =>
      rw [hlog]
      rw [hring] at hp
      refine hp.trans ?_
      exact (List.append_assoc _ [_] _).symm

/-- Posted, answered and running again with the answer, in turn, for every task. -/
structure Answers (log : List Event) : Prop where
  posted : ∀ post pre item, log = post ++ .posted item :: pre → sysPhase pre item.caller = .idle
  answered : ∀ post pre t v, log = post ++ .answered t v :: pre → sysPhase pre t = .posted
  resumed : ∀ post pre t v, log = post ++ .resumed t v :: pre → sysPhase pre t = .answered v

theorem sysNext_broken (t : Tid) (e : Event) : SysPhase.broken.next t e = .broken := by
  cases e <;> simp [SysPhase.next]

theorem sysPhase_of_append {events log : List Event} {t : Tid}
    (h : sysPhase (events ++ log) t ≠ .broken) : sysPhase log t ≠ .broken := by
  induction events with
  | nil => exact h
  | cons e events ih =>
    refine ih fun hbroken => h ?_
    rw [List.cons_append, sysPhase_cons, hbroken, sysNext_broken]

theorem answers_of_unbroken {log : List Event} (h : ∀ t, sysPhase log t ≠ .broken) :
    Answers log := by
  have hlast : ∀ {post pre : List Event} {e : Event} (t : Tid), log = post ++ e :: pre →
      (sysPhase pre t).next t e ≠ .broken := by
    intro post pre e t hlog
    exact sysPhase_of_append (hlog ▸ h t)
  constructor
  · intro post pre item hlog
    by_contra hnot
    exact hlast item.caller hlog (by simp [SysPhase.next, hnot])
  · intro post pre t v hlog
    by_contra hnot
    exact hlast t hlog (by simp [SysPhase.next, hnot])
  · intro post pre t v hlog
    by_contra hnot
    exact hlast t hlog (by simp [SysPhase.next, hnot])

/-- Where the syscalls of a system are, with the wait lists `W`; `place` is where
each task is, and no two places have a task in common. -/
structure Sys.Answered (s : Sys) (W : WaitMap) (place : Tid → Place) : Prop where
  lists : Lists s.k W
  home : ∀ t p, p.tracked = true → (t ∈ s.occupants W p ↔ place t = p)
  once : (s.k.kwork.map WorkItem.caller).Nodup ∧ ∀ w, (W w).Nodup
  /-- A task that waits for an answer waits at one of the four places. -/
  blocked : ∀ t, (s.k.tcb t).svcBlocked = true → (s.k.tcb t).state = .waiting ∧
    (place t = .ring ∨ (∃ u, place t = .served u) ∨
      (∃ w, w.isQueue = false ∧ place t = .listed w) ∨ ∃ u, place t = .waking u)
  /-- Items name tasks that wait for an answer. -/
  items : ∀ t, place t = .ring ∨ (∃ u, place t = .served u) → (s.k.tcb t).svcBlocked = true
  /-- On a list, or taken off one, are also tasks that called directly. -/
  route : ∀ t, (∃ w, place t = .listed w) ∨ (∃ u, place t = .waking u) →
    ((s.k.tcb t).svcBlocked = true ↔ s.pc t = .svcRet)
  /-- The task leaves the CPU as soon as the pending PendSV is taken. -/
  off : ∀ t, s.k.currentTask = some t → (s.k.tcb t).svcBlocked = true →
    s.k.pendsv = true ∧ place t = .ring
  fifo : postedItems s.log = takenItems s.log ++ s.k.kwork
  answers : Answers s.log
  reply : ∀ t v, sysPhase s.log t = .answered v → s.k.reply t = v
  room : (s.k.kworkTail + 1) % kworkQueueSize ≠ s.k.kworkHead

theorem Inv.answered {L : Alloc.Layout} {s : Sys} {g : Ghost} (h : Inv L s g)
    (hfifo : postedItems s.log = takenItems s.log ++ s.k.kwork) : s.Answered g.lists g.place := by
  constructor
  · exact h.placed.lists
  · exact h.placed.home
  · exact ⟨h.placed.once, fun w => linked_nodup (h.placed.lists w)⟩
  · intro t hsvc
    have hview := h.placed.task t
    cases hp : g.place t with
    | fresh =>
      rw [hp] at hview
      exact absurd (hsvc.symm.trans hview.svc) (by simp)
    | own =>
      rw [hp] at hview
      exact absurd (hsvc.symm.trans hview.svc) (by simp)
    | ring =>
      rw [hp] at hview
      exact ⟨hview.state, Or.inl rfl⟩
    | served u =>
      rw [hp] at hview
      exact ⟨hview.state, Or.inr (Or.inl ⟨u, rfl⟩)⟩
    | listed w =>
      rw [hp] at hview
      refine ⟨hview.state, Or.inr (Or.inr (Or.inl ⟨w, ?_, rfl⟩))⟩
      rcases hview.route with ⟨_, _, _, hqueue⟩ | ⟨hnot, _⟩
      · exact hqueue
      · exact absurd (hsvc.symm.trans hnot) (by simp)
    | waking u =>
      rw [hp] at hview
      obtain ⟨w, hw⟩ := hview
      exact ⟨hw.state, Or.inr (Or.inr (Or.inr ⟨u, rfl⟩))⟩
  · intro t ht
    have hview := h.placed.task t
    rcases ht with hp | ⟨u, hp⟩
    · rw [hp] at hview
      exact hview.svc
    · rw [hp] at hview
      exact hview.svc
  · intro t ht
    have hview := h.placed.task t
    have hroute : ∀ w, (s.view t).Route w →
        ((s.k.tcb t).svcBlocked = true ↔ s.pc t = .svcRet) := by
      rintro w (⟨hsvc, hpc, _⟩ | ⟨hsvc, hwaits, _⟩)
      · exact ⟨fun _ => hpc, fun _ => hsvc⟩
      · have hfalse : (s.k.tcb t).svcBlocked = false := hsvc
        have hpcw : (s.pc t).waits = some w := hwaits
        constructor
        · intro hsvc'
          rw [hfalse] at hsvc'
          cases hsvc'
        · intro hpc
          rw [hpc] at hpcw
          cases hpcw
    rcases ht with ⟨w, hp⟩ | ⟨u, hp⟩
    · rw [hp] at hview
      exact hroute w hview.route
    · rw [hp] at hview
      obtain ⟨w, hw⟩ := hview
      exact hroute w hw.route
  · intro t hcur hsvc
    have hring := h.running.gate t hcur hsvc
    refine ⟨?_, hring⟩
    have hview := h.placed.task t
    rw [hring] at hview
    rcases (h.pendsv_or hcur).2 with hrun | hpend | hyields
    · exact absurd (hrun.symm.trans hview.state) (by simp)
    · exact hpend
    · rw [show s.pc t = .svcRet from hview.pc] at hyields
      cases hyields
  · exact hfifo
  · exact answers_of_unbroken fun t => (h.placed.task t).unbroken.2
  · intro t v hphase
    have hview := h.placed.task t
    have hroute : ∀ w, ¬ (s.view t).Route w := by
      rintro w (⟨_, _, hsys, _⟩ | ⟨_, _, hsys, _⟩) <;>
        exact absurd (hsys.symm.trans hphase) (by simp)
    cases hp : g.place t with
    | fresh =>
      rw [hp] at hview
      exact absurd (hview.sys.symm.trans hphase) (by simp)
    | own =>
      rw [hp] at hview
      have hsys := hview.sys.symm.trans hphase
      split at hsys
      · exact SysPhase.answered.inj hsys
      · cases hsys
    | ring =>
      rw [hp] at hview
      exact absurd (hview.sys.symm.trans hphase) (by simp)
    | served u =>
      rw [hp] at hview
      exact absurd (hview.sys.symm.trans hphase) (by simp)
    | listed w =>
      rw [hp] at hview
      exact absurd hview.route (hroute w)
    | waking u =>
      rw [hp] at hview
      obtain ⟨w, hw⟩ := hview
      exact absurd hw.route (hroute w)
  · exact kwork_room h.coded.head h.coded.tail h.placed.once

/-- No syscall is lost, duplicated or answered twice. -/
theorem syscalls_answered_once {L : Alloc.Layout} {s : Sys} (hL : L.heap.Placed)
    (h : s.Reached L) : ∃ W place, s.Answered W place := by
  obtain ⟨g, hg⟩ := h.inv hL
  exact ⟨g.lists, g.place, hg.answered (h.fifo hL)⟩

/-- A syscall of task 1 that the worker has put on the wait list of a semaphore. -/
theorem syscalls_answered_once_board :
    ∃ s, boardRun (boardReady ++ [.call (.create (.sem 0)), .go, .go, .call .setUnprivileged,
        .svc syscallSemWait 0x10000 5 0 0, .pendSV 0x2001F000, .go, .go, .go]) = some s ∧
      ((s.k.tcb 1).svcBlocked = true ∧ (s.k.sem 0x20006428).waitList = some 1 ∧
        takenItems s.log = [⟨syscallSemWait, 0x10000, 5, 0, 0, 1⟩]) ∧
      ∃ W place, s.Answered W place :=
  boardRun_comes _ (by decide +kernel) fun _ hs => syscalls_answered_once boardLayout_placed hs

/-- A task that waits in a direct call is on a list without the flag of a syscall. -/
theorem listed_without_svc :
    ¬ ∀ s : Sys, s.Reached boardLayout → ∀ W, Lists s.k W → ∀ t,
      ((s.k.tcb t).svcBlocked = true ↔ t ∈ s.k.kwork.map WorkItem.caller ∨
        (∃ u, (s.pc u).serves = some t) ∨ (∃ w, w.isQueue = false ∧ t ∈ W w) ∨
        ∃ u, (s.pc u).wakes = some t) := by
  intro h
  obtain ⟨s, hs, hhead, hsvc⟩ := boardRun_at (boardReady ++ [.call (.create (.sem 0)), .go, .go,
    .call (.semTake 0x10000 5), .go]) (P := fun s =>
      (s.k.sem 0x20006428).waitList = some 1 ∧ (s.k.tcb 1).svcBlocked = false) (by decide +kernel)
  obtain ⟨g, hg⟩ := hs.inv boardLayout_placed
  obtain ⟨r, hr⟩ := head_eq_some (w := .sem 0x20006428) hg.placed.lists hhead
  have hflag := (h s hs g.lists hg.placed.lists 1).mpr
    (Or.inr (Or.inr (Or.inl ⟨.sem 0x20006428, rfl, by rw [hr]; exact List.mem_cons_self⟩)))
  rw [hsvc] at hflag
  cases hflag

end Crest
