import CrestRtos.System.CallSteps
import CrestRtos.System.ObjectEffects
import CrestRtos.System.Steps

/-!
# Critical sections and wake-ups

A critical section returns, puts the running task or the served caller on a
list, or takes a waiter off one; `scheduler_wake_task` then gives that waiter
back to itself. Each of these keeps the invariant.
-/

namespace Crest
open IntrusiveList MachineWord Alloc

section Objects
variable {k : Kernel} {u : Tid} {op : Op} {a : Nat}

/-- A critical section stores into its own object only. -/
theorem enter_touches (k : Kernel) (u : Tid) (op : Op) : k.Touches (op.enter k u).1 op.object := by
  cases op with
  | semTake s ms => exact take_touches true s u ms
  | semTryTake s caller ms => exact take_touches false s caller ms
  | semGive s => exact give_touches s
  | mutexLock m ms => exact lock_touches true m u ms
  | mutexTryLock m caller ms => exact lock_touches false m caller ms
  | mutexUnlock m => exact unlock_touches m u
  | mutexUnlockFor m owner => exact unlock_touches m owner
  | queuePush q item ms => exact push_touches q item u ms
  | queuePop q item ms => exact pop_touches q item u ms
  | delay ticks =>
    refine touches_same ?_
    simp only [Op.enter, zImplTaskDelay]
    by_cases hticks : ticks = 0
    · rw [if_pos hticks]
    · rw [if_neg hticks]
      rfl

theorem nextIndex_lt {q : Queue} (h : q.Shaped) (i : Nat) : q.nextIndex i < q.slots :=
  Nat.mod_lt _ h.pos

theorem shaped_of_plain {k' : Kernel} (h : k'.plain.queue a = k.plain.queue a)
    (hq : (k.queue a).Shaped) : (k'.queue a).Shaped := by
  have hplain : (k.plain.queue a).Shaped := ⟨hq.item, hq.size, hq.slots, hq.pos, hq.fits,
    hq.head, hq.tail⟩
  rw [← h] at hplain
  exact ⟨hplain.item, hplain.size, hplain.slots, hplain.pos, hplain.fits, hplain.head,
    hplain.tail⟩

theorem draft_of_plain {k' : Kernel} (h : k'.plain.queue a = k.plain.queue a)
    (hq : (k.queue a).Draft) : (k'.queue a).Draft := by
  have hplain : (k.plain.queue a).Draft := ⟨hq.item, hq.size, hq.slots, hq.head, hq.tail⟩
  rw [← h] at hplain
  exact ⟨hplain.item, hplain.size, hplain.slots, hplain.head, hplain.tail⟩

theorem shaped_of_store {k' : Kernel} {v : Queue}
    (h : k'.store = { k.store with queue := Function.update k.store.queue a v })
    (hv : v.Shaped) : (k'.queue a).Shaped := by
  have hqueue : k'.plain.queue a = v := by
    have hq := congrFun (congrArg Store.queue h) a
    exact hq.trans (Function.update_self a v k.store.queue)
  rw [← hqueue] at hv
  exact ⟨hv.item, hv.size, hv.slots, hv.pos, hv.fits, hv.head, hv.tail⟩

theorem pushedQueue_shaped {item : Nat} (h : (k.queue a).Shaped) :
    (k.pushedQueue a item).Shaped :=
  ⟨h.item, h.size, h.slots, h.pos, h.fits, h.head, nextIndex_lt h _⟩

theorem poppedQueue_shaped (h : (k.queue a).Shaped) : (k.poppedQueue a).Shaped :=
  ⟨h.item, h.size, h.slots, h.pos, h.fits, nextIndex_lt h _, h.tail⟩

/-- Indices stay inside the buffer. -/
theorem enter_shaped (h : (k.queue a).Shaped) : ((op.enter k u).1.queue a).Shaped := by
  have hother : op.object ≠ some (a, .queue) → ((op.enter k u).1.queue a).Shaped :=
    fun hne => shaped_of_plain ((enter_touches k u op).queue a hne) h
  cases op with
  | queuePush q item ms =>
    by_cases hq : q = a
    · subst hq
      have hstore := push_store k u ms q item
      by_cases hroom : (k.queue q).nextIndex (k.queue q).tail ≠ (k.queue q).head
      · rw [if_pos hroom] at hstore
        exact shaped_of_store hstore (pushedQueue_shaped h)
      · rw [if_neg hroom] at hstore
        exact shaped_of_plain (congrFun (congrArg Store.queue hstore) q) h
    · exact hother (by simp [Op.object, hq])
  | queuePop q item ms =>
    by_cases hq : q = a
    · subst hq
      have hstore := pop_store k u ms q item
      by_cases hitem : (k.queue q).head ≠ (k.queue q).tail
      · rw [if_pos hitem] at hstore
        exact shaped_of_store hstore (poppedQueue_shaped h)
      · rw [if_neg hitem] at hstore
        exact shaped_of_plain (congrFun (congrArg Store.queue hstore) q) h
    · exact hother (by simp [Op.object, hq])
  | _ => exact hother (by simp [Op.object])

end Objects

theorem takeNote_within {s ms : Nat} {t : Tid} {out : Outcome} :
    ∀ e ∈ takeNote s t ms out, e.Within (some (s, .sem)) := by
  intro e he
  cases out with
  | ret v =>
    simp only [takeNote] at he
    split at he
    · rw [List.mem_singleton.mp he]
      exact ⟨rfl, Or.inr rfl⟩
    · cases he
  | block =>
    rw [List.mem_singleton.mp he]
    exact ⟨rfl, Or.inr rfl⟩
  | wake t v => cases he
  | pend v => cases he

theorem giveNote_within {s : Nat} {out : Outcome} :
    ∀ e ∈ giveNote s out, e.Within (some (s, .sem)) := by
  have hgiven : Event.Within (some (s, .sem)) (.semGiven s) := ⟨rfl, Or.inr rfl⟩
  cases out with
  | wake t v =>
    intro e he
    simp only [giveNote, List.mem_cons, List.not_mem_nil, or_false] at he
    rcases he with rfl | rfl | rfl
    · exact ⟨rfl, Or.inr rfl⟩
    · exact ⟨rfl, Or.inr rfl⟩
    · exact hgiven
  | _ =>
    intro e he
    rw [List.mem_singleton.mp he]
    exact hgiven

theorem lockNote_within {k : Kernel} {m ms : Nat} {t : Tid} {out : Outcome} :
    ∀ e ∈ lockNote k m t ms out, e.Within (some (m, .mutex)) := by
  intro e he
  cases out with
  | ret v =>
    simp only [lockNote] at he
    split at he
    · rw [List.mem_singleton.mp he]
      exact ⟨rfl, Or.inr rfl⟩
    · split at he
      · rw [List.mem_singleton.mp he]
        exact ⟨rfl, Or.inr rfl⟩
      · cases he
  | block =>
    rw [List.mem_singleton.mp he]
    exact ⟨rfl, Or.inr rfl⟩
  | wake t v => cases he
  | pend v => cases he

theorem unlockNote_within {m : Nat} {t : Tid} {out : Outcome} :
    ∀ e ∈ unlockNote m t out, e.Within (some (m, .mutex)) := by
  intro e he
  cases out with
  | ret v => cases he
  | block => cases he
  | wake next v =>
    simp only [unlockNote, List.mem_cons, List.not_mem_nil, or_false] at he
    rcases he with rfl | rfl | rfl
    · exact ⟨rfl, Or.inr rfl⟩
    · exact ⟨rfl, Or.inr rfl⟩
    · exact ⟨rfl, Or.inr rfl⟩
  | pend v =>
    rw [List.mem_singleton.mp he]
    exact ⟨rfl, Or.inr rfl⟩

theorem passNote_within {w w' : WaitList} {copied found : Event} {t : Tid} {ms : Nat}
    {obj : Option (Nat × KobjType)} {out : Outcome} (hcopied : copied.Within obj)
    (hfound : found.Within obj) (hwakes : ∀ x, (Event.handoff w x).Within obj)
    (hwaits : (Event.block w' t ms).Within obj) :
    ∀ e ∈ passNote w w' copied found t ms out, e.Within obj := by
  intro e he
  cases out with
  | ret v =>
    simp only [passNote] at he
    split at he
    · rwa [List.mem_singleton.mp he]
    · rwa [List.mem_singleton.mp he]
  | block =>
    rcases List.mem_pair.mp he with rfl | rfl
    · exact hwaits
    · exact hfound
  | wake x v =>
    rcases List.mem_pair.mp he with rfl | rfl
    · exact hwakes x
    · exact hcopied
  | pend v => cases he

/-- Critical sections say nothing about syscalls or about other objects. -/
theorem note_within (k k' : Kernel) (u : Tid) (out : Outcome) (op : Op) :
    ∀ e ∈ op.note k k' u out, e.Within op.object := by
  cases op with
  | semTake s ms => exact takeNote_within
  | semTryTake s caller ms => exact takeNote_within
  | semGive s => exact giveNote_within
  | mutexLock m ms => exact lockNote_within
  | mutexTryLock m caller ms => exact lockNote_within
  | mutexUnlock m => exact unlockNote_within
  | mutexUnlockFor m owner => exact unlockNote_within
  | queuePush q item ms =>
    exact passNote_within ⟨rfl, Or.inr rfl⟩ ⟨rfl, Or.inr rfl⟩ (fun _ => ⟨rfl, Or.inr rfl⟩)
      ⟨rfl, Or.inr rfl⟩
  | queuePop q item ms =>
    exact passNote_within ⟨rfl, Or.inr rfl⟩ ⟨rfl, Or.inr rfl⟩ (fun _ => ⟨rfl, Or.inr rfl⟩)
      ⟨rfl, Or.inr rfl⟩
  | delay ticks => exact fun e he => by cases he

/-- A call on another object leaves the history of `o` alone. -/
theorem note_other {k k' : Kernel} {u : Tid} {out : Outcome} {op : Op} {o : Nat × KobjType}
    (h : op.object ≠ some o) : ∀ e ∈ op.note k k' u out, e.object ≠ some o := by
  intro e he heq
  rcases (note_within k k' u out op e he).object with hnone | hsame
  · rw [hnone] at heq
    cases heq
  · exact h (hsame.symm.trans heq)

theorem target_object {op : Op} {w : WaitList} (h : op.target = some w) :
    op.object = some (w.addr, w.kind) := by
  cases op <;> cases h <;> rfl

/-- Who is put on a list: the task itself, or the caller that the worker serves. -/
theorem fits_block {op : Op} {r : Ret} {w : WaitList} (u : Tid) (hfits : op.fits r)
    (hop : op.target = some w) (hms : op.timeout ≠ 0) :
    (r = .app ∧ op.waitList = some w ∧ op.blocker u = u) ∨
    (∃ c, r = .serve c ∧ op.waitList = none ∧ op.blocker u = c ∧ w.isQueue = false) := by
  cases r with
  | app =>
    refine Or.inl ⟨rfl, ?_⟩
    cases op <;> cases hop <;> first | cases hfits; done | exact ⟨rfl, rfl⟩
  | serve c =>
    refine Or.inr ⟨c, rfl, ?_⟩
    cases op with
    | semTryTake s caller ms =>
      cases hop
      exact ⟨rfl, hfits, rfl⟩
    | mutexTryLock m caller ms =>
      cases hop
      exact ⟨rfl, hfits, rfl⟩
    | queuePush q item ms => exact absurd hfits hms
    | queuePop q item ms => exact absurd hfits hms
    | _ => first | cases hop; done | cases hfits

section Sections
variable {L : Layout} {s : Sys} {g : Ghost} {u : Tid} {op : Op} {r : Ret}

/-- What every critical section of a call of `u` leaves behind. -/
structure Entered (s : Sys) (op : Op) (k' : Kernel) (notes : List Event) : Prop where
  touches : s.k.Touches k' op.object
  shaped : ∀ a, (s.k.queue a).Shaped → (k'.queue a).Shaped
  sys : ∀ t, sysPhase (notes ++ s.log) t = sysPhase s.log t

theorem entered (s : Sys) (u : Tid) (op : Op) :
    Entered s op (op.enter s.k u).1 (op.note s.k (op.enter s.k u).1 u (op.enter s.k u).2) :=
  ⟨enter_touches s.k u op, fun _ => enter_shaped,
    fun t => sysPhase_append_of_offSys t fun e he => (note_within _ _ _ _ _ e he).sys⟩

/-- The objects behind a critical section whose code goes on at `p'`. -/
theorem Objects.entered {s' : Sys} {k' : Kernel} {notes : List Event} {W' : WaitMap}
    {place' : Tid → Place} {p : Pc} (h : Inv L s g) (he : Entered s op k' notes)
    (hpc : s.pc u = .enter op r) (hk : s'.k = k') (hpc' : s'.pc = Function.update s.pc u p)
    (hlists : ∀ w, W' w ≠ [] → g.objs w.addr = some w.kind)
    (hrefs : p.object = none ∨ p.object = op.object) (hbuilds : p.builds = none) :
    Objects L s' { g with lists := W', place := place' } := by
  have hself : s'.pc u = p := by
    rw [hpc', Function.update_self]
  have hknown : ∀ a type, op.object = some (a, type) → g.objs a = some type := fun a type ha =>
    h.objects.refs u a type (by rw [hpc]; exact ha)
  refine h.objects.frame (u := u) rfl rfl ?_ ?_ hlists ?_ ?_ ?_ ?_ ?_
  · rw [hk]
    exact he.touches.heap
  · rw [hk]
    exact he.touches.table
  · intro t ht
    rw [hpc', Function.update_of_ne ht]
  · intro a type ha
    rw [hself] at ha
    rcases hrefs with hnone | hsame
    · rw [hnone] at ha
      cases ha
    · exact hknown a type (hsame ▸ ha)
  · rw [hself]
    exact hbuilds
  · rw [hk]
    exact he.shaped
  · intro a ha
    rw [hk]
    refine draft_of_plain (he.touches.queue a fun heq => ?_)
    rw [hknown a _ heq] at ha
    cases ha

theorem inside_enter {worker : Prop} (op : Op) (h : r.fits worker) :
    Inside worker (.enter op r) r := by
  constructor <;> first | rfl | simp | exact h

/-- The task that a critical section may block is on no list before it. -/
theorem Inv.blocker_notMem (h : Inv L s g) (hown : g.place u = .own)
    (hpc : s.pc u = .enter op r) (w : WaitList) : op.blocker u ∉ g.lists w := by
  have hfits := h.coded.pcs u
  rw [hpc] at hfits
  have hself : u ∉ g.lists w := h.placed.notMem (fun w' => by rw [hown]; simp) w
  have hserved : ∀ c, r = .serve c → c ∉ g.lists w := by
    rintro c rfl
    have hplace : g.place c = .served u := (h.placed.serves_iff u c).mp (by rw [hpc]; rfl)
    exact h.placed.notMem (fun w' => by rw [hplace]; simp) w
  cases op with
  | semTryTake s caller ms =>
    cases r with
    | app => exact absurd hfits.1 (by simp [Op.fits])
    | serve c =>
      obtain rfl : caller = c := hfits.1
      exact hserved caller rfl
  | mutexTryLock m caller ms =>
    cases r with
    | app => exact absurd hfits.1 (by simp [Op.fits])
    | serve c =>
      obtain rfl : caller = c := hfits.1
      exact hserved caller rfl
  | _ => exact hself

section Outcomes
variable {k' : Kernel} {notes : List Event}

/-- The control block of the running task is as before, wait link apart. -/
theorem own_tcb_of_tasks (h : Inv L s g) (hown : g.place u = .own) (htasks : k'.tasks = s.k.tasks) :
    (k'.tcb u).blockingWaitList = none ∧ (k'.tcb u).svcBlocked = false ∧
      ((k'.tcb u).state ≠ .waiting ∨ u = g.worker → (k'.tcb u).delayTicks = 0) ∧
      (k'.tcb u).state = (s.k.tcb u).state := by
  obtain ⟨hbwl, hsvc, hdelay, _⟩ := h.own_tcb hown
  have htcb : (k'.tcb u).plain = (s.k.tcb u).plain := congrArg (fun k => k.tcb u) htasks
  have hb := congrArg Tcb.blockingWaitList htcb
  have hs := congrArg Tcb.svcBlocked htcb
  have hst := congrArg Tcb.state htcb
  have hd := congrArg Tcb.delayTicks htcb
  refine ⟨hb.trans hbwl, hs.trans hsvc, fun hor => hd.trans (hdelay ?_), hst⟩
  rcases hor with hne | hw
  · exact Or.inl fun heq => hne (hst.trans heq)
  · exact Or.inr hw

theorem Inv.runOp_ret {v : Nat} (h : Inv L s g) (hcur : s.k.currentTask = some u)
    (hpend : s.k.pendsv = false) (hpc : s.pc u = .enter op r) (he : Entered s op k' notes)
    (htasks : k'.tasks = s.k.tasks) (hlists : Lists k' g.lists)
    (hnotes : ∀ log x, waitPhase (notes ++ log) x = waitPhase log x) :
    Inv L (({ s with k := k' }.note notes).settle u op r (.ret v)) g := by
  have hyields : (s.pc u).yields = false := by
    rw [hpc]
    rfl
  have hown := h.own hcur hpend (Or.inr hyields)
  have hrun := h.running_of hcur hpend hyields
  obtain ⟨_, _, _, hphase⟩ := h.own_tcb hown
  obtain ⟨hbwl, hsvc, hdelay, hst⟩ := own_tcb_of_tasks h hown htasks
  have hfits := h.coded.pcs u
  rw [hpc] at hfits hphase
  have hin : Inside (u = g.worker) (s.pc u) r := by
    rw [hpc]
    exact inside_enter op hfits.2
  refine h.finish hcur hown (Kernel.Local.of_tasks htasks u) hin (by rw [hpc]; rfl)
    (hnotes s.log) he.sys ?_ hlists hbwl hsvc hdelay (Or.inl (hst.trans hrun)) ?_
  · rw [hphase]
    cases r <;> rfl
  · rw [finish_eq]
    refine Objects.entered (p := r.next v) h he hpc rfl rfl h.objects.lists ?_ ?_
    · cases r <;> exact Or.inl rfl
    · cases r <;> rfl

theorem follows_pend {worker : Prop} {v : Nat} (op : Op) (h : r.fits worker) :
    Follows worker (.enter op r) (.pend (.ret r v)) := by
  constructor <;> first | rfl | simp | exact h

theorem Inv.runOp_pend {v : Nat} (h : Inv L s g) (hcur : s.k.currentTask = some u)
    (hpend : s.k.pendsv = false) (hpc : s.pc u = .enter op r) (he : Entered s op k' notes)
    (htasks : k'.tasks = s.k.tasks) (hlists : Lists k' g.lists)
    (hnotes : ∀ log x, waitPhase (notes ++ log) x = waitPhase log x) :
    Inv L (({ s with k := k' }.note notes).settle u op r (.pend v)) g := by
  have hyields : (s.pc u).yields = false := by
    rw [hpc]
    rfl
  have hown := h.own hcur hpend (Or.inr hyields)
  obtain ⟨_, _, _, hphase⟩ := h.own_tcb hown
  obtain ⟨hbwl, hsvc, hdelay, _⟩ := own_tcb_of_tasks h hown htasks
  have hfits := h.coded.pcs u
  rw [hpc] at hfits hphase
  refine h.goto (p := .pend (.ret r v)) hcur hown (Kernel.Local.of_tasks htasks u) ?_
    (by rw [hpc]; rfl) ?_ ?_ ?_ (hnotes s.log) he.sys hphase hlists hbwl hsvc hdelay
      (Or.inr (Or.inr rfl)) ?_
  · rw [hpc]
    exact follows_pend op hfits.2
  · rw [hpc]
    simp
  · simp
  · simp
  · exact Objects.entered (p := .pend (.ret r v)) h he hpc rfl rfl h.objects.lists (Or.inl rfl) rfl

/-- A task puts itself to sleep, and never the worker. -/
theorem Inv.runOp_sleep {ticks : Nat} (h : Inv L s g) (hcur : s.k.currentTask = some u)
    (hpend : s.k.pendsv = false) (hpc : s.pc u = .enter op r)
    (he : Entered s op (schedulerSleep s.k u ticks) notes) (hop : op = .delay ticks)
    (hlists : Lists (schedulerSleep s.k u ticks) g.lists)
    (hnotes : ∀ log x, waitPhase (notes ++ log) x = waitPhase log x) :
    Inv L (({ s with k := schedulerSleep s.k u ticks }.note notes).settle u op r (.pend 0)) g := by
  have hyields : (s.pc u).yields = false := by
    rw [hpc]
    rfl
  have hown := h.own hcur hpend (Or.inr hyields)
  obtain ⟨hbwl, hsvc, _, hphase⟩ := h.own_tcb hown
  have hfits := h.coded.pcs u
  rw [hpc] at hfits hphase
  have hnot : ¬ u = g.worker := by
    obtain ⟨hfit, hret⟩ := hfits
    rw [hop] at hfit
    cases r with
    | app => exact hret
    | serve c => exact absurd hfit (by simp [Op.fits])
  have hself : (schedulerSleep s.k u ticks).tcb u =
      { s.k.tcb u with delayTicks := ticks, state := .waiting } := setTcb_tcb_same _ _ _
  have htasks : (schedulerSleep s.k u ticks).tasks =
      s.k.tasks.setTcb u fun tcb => { tcb with delayTicks := ticks, state := .waiting } := by
    refine tasks_setTcb ?_
    rfl
  refine h.goto (p := .pend (.ret r 0)) hcur hown
    (Kernel.Local.of_setTcb htasks (fun _ => rfl) fun _ => rfl) ?_ (by rw [hpc]; rfl) ?_ ?_ ?_
    (hnotes s.log) he.sys hphase hlists ?_ ?_ ?_ (Or.inr (Or.inr rfl)) ?_
  · rw [hpc]
    exact follows_pend op hfits.2
  · rw [hpc]
    simp
  · simp
  · simp
  · rw [hself]
    exact hbwl
  · rw [hself]
    exact hsvc
  · rw [hself]
    rintro (hne | hw)
    · exact absurd rfl hne
    · exact absurd hw hnot
  · exact Objects.entered (p := .pend (.ret r 0)) h he hpc rfl rfl h.objects.lists (Or.inl rfl) rfl

/-- A task at its own place whose code goes on. -/
theorem View.Own.goto {v v' : View} (h : v.Own) (htcb : v'.tcb = v.tcb)
    (hphase : v'.phase = v.phase) (hsys : v'.sys = v.sys)
    (hsettled : v'.pc.settled v.tcb.timedOut = v.pc.settled v.tcb.timedOut)
    (hsvc : v.pc ≠ .svcRet) (hsvc' : v'.pc ≠ .svcRet) (hidle : v'.pc ≠ .idle) : v'.Own := by
  constructor
  · rw [htcb]
    exact h.list
  · rw [htcb]
    exact h.svc
  · rw [htcb]
    exact h.delay
  · exact fun heq => absurd heq hidle
  · rw [hphase, h.phase, htcb, hsettled]
  · rw [hsys, h.sys, if_neg hsvc, if_neg hsvc']

section Views
variable {s' : Sys} {x t : Tid} {f : Tcb → Tcb} {p' : Pc}

/-- Neither the running task nor the one whose control block changes. -/
theorem view_other (hcur : s.k.currentTask = some u) (hframe : s'.k.frame = s.k.frame)
    (htasks : s'.k.tasks.tcb t = s.k.tasks.tcb t) (hpc : s'.pc = Function.update s.pc u p')
    (hphase : waitPhase s'.log t = waitPhase s.log t)
    (hsys : sysPhase s'.log t = sysPhase s.log t) (htu : t ≠ u) : s'.view t = s.view t := by
  have hcur' : s'.k.currentTask = some u := (congrArg (fun f => f.2.2) hframe).trans hcur
  have hreply : s'.k.reply t = s.k.reply t := by
    rw [reply_of_ne hcur' htu, reply_of_ne hcur htu, htasks]
  have hpct : s'.pc t = s.pc t := by
    rw [hpc, Function.update_of_ne htu]
  simp only [Sys.view, htasks, hpct, hphase, hsys, hreply]

end Views

theorem parked_armed {direct : Bool} {w : WaitList} {ms : Nat} {v : View} {tcb : Tcb}
    (hms : ms ≠ 0) (htcb : v.tcb = tcb.parked direct w ms) : v.Armed w ms := by
  rw [View.Armed, htcb, Tcb.parked]
  by_cases hforever : ms ≠ waitForever
  · rw [if_pos hforever]
    exact Or.inl ⟨hforever, Nat.pos_of_ne_zero hms, rfl⟩
  · rw [if_neg hforever]
    exact Or.inr ⟨not_not.mp hforever, rfl, rfl⟩

/-- The fields that putting a task on a list does not write. -/
theorem parked_same (direct : Bool) (w : WaitList) (ms : Nat) (tcb : Tcb) :
    (tcb.parked direct w ms).next = tcb.next ∧
    (tcb.parked direct w ms).priority = tcb.priority ∧
    (tcb.parked direct w ms).svcBlocked = tcb.svcBlocked ∧
    (tcb.parked direct w ms).savedR0 = tcb.savedR0 := by
  rw [Tcb.parked]
  by_cases hforever : ms ≠ waitForever
  · rw [if_pos hforever]
    cases direct <;> exact ⟨rfl, rfl, rfl, rfl⟩
  · rw [if_neg hforever]
    cases direct <;> exact ⟨rfl, rfl, rfl, rfl⟩

theorem parked_state (direct : Bool) (w : WaitList) (ms : Nat) (tcb : Tcb) :
    (tcb.parked direct w ms).state = (if direct then .waiting else tcb.state) ∧
    (tcb.parked direct w ms).timedOut = (if direct then false else tcb.timedOut) := by
  rw [Tcb.parked]
  by_cases hforever : ms ≠ waitForever
  · rw [if_pos hforever]
    cases direct <;> exact ⟨rfl, rfl⟩
  · rw [if_neg hforever]
    cases direct <;> exact ⟨rfl, rfl⟩

/-- The running task on the list of the call it is in. -/
theorem View.Own.parked {v v' : View} {w : WaitList} (h : v.Own) (hpc : v.pc = .enter op .app)
    (hpc' : v'.pc = .block op .app) (htcb : v'.tcb = v.tcb.parked true w op.timeout)
    (hphase : v.phase = .idle → v'.phase = .waiting w op.timeout) (hsys : v'.sys = v.sys)
    (hwait : op.waitList = some w) (hms : op.timeout ≠ 0) : v'.Parked w := by
  obtain ⟨hstate, htimed⟩ := parked_state true w op.timeout v.tcb
  have hold : v.phase = .idle := by
    rw [h.phase, hpc]
    rfl
  have hidle : v.sys = .idle := h.sys.trans (if_neg (by simp [hpc]))
  constructor
  · rw [htcb]
    exact hstate
  · refine Or.inr ⟨?_, ?_, hsys.trans hidle, ?_⟩
    · rw [htcb, (parked_same _ _ _ _).2.2.1]
      exact h.svc
    · rw [hpc']
      exact hwait
    · rw [htcb]
      exact htimed
  · exact ⟨op.timeout, hphase hold, parked_armed hms htcb⟩

/-- A caller that its worker puts on a list. -/
theorem View.Held.parked {v v' : View} {w : WaitList} {ms : Nat} (h : v.Held) (hpc : v'.pc = v.pc)
    (htcb : v'.tcb = v.tcb.parked false w ms)
    (hphase : v.phase = .idle → v'.phase = .waiting w ms) (hsys : v'.sys = v.sys)
    (hqueue : w.isQueue = false) (hms : ms ≠ 0) : v'.Parked w := by
  constructor
  · rw [htcb, (parked_state false w ms v.tcb).1]
    exact h.state
  · refine Or.inl ⟨?_, hpc.trans h.pc, hsys.trans h.sys, hqueue⟩
    rw [htcb, (parked_same _ _ _ _).2.2.1]
    exact h.svc
  · exact ⟨ms, hphase h.phase, parked_armed hms htcb⟩

/-- A waiter that is taken off its list. -/
theorem View.Parked.handed {v v' : View} {w : WaitList} (h : v.Parked w) (hpc : v'.pc = v.pc)
    (htcb : v'.tcb = v.tcb.unlinked) (hphase : v'.phase = v.phase.leave w (.handed w))
    (hsys : v'.sys = v.sys) : v'.Unlinked w := by
  obtain ⟨ms, hwaiting, _⟩ := h.phase
  constructor
  · rw [htcb]
    exact h.state
  · rw [htcb]
    rfl
  · rw [htcb]
    rfl
  · rcases h.route with ⟨hsvc, hret, hposted, hqueue⟩ | ⟨hsvc, hwaits, hidle, htimed⟩
    · refine Or.inl ⟨?_, hpc.trans hret, hsys.trans hposted, hqueue⟩
      rw [htcb]
      exact hsvc
    · refine Or.inr ⟨?_, ?_, hsys.trans hidle, ?_⟩
      · rw [htcb]
        exact hsvc
      · rw [hpc]
        exact hwaits
      · rw [htcb]
        exact htimed
  · rw [hphase, hwaiting]
    simp [WaitPhase.leave]

/-- The list of a known object may change, all others in use belong to known objects. -/
theorem Inv.lists_known {w : WaitList} {l : List Tid} (h : Inv L s g)
    (hw : g.objs w.addr = some w.kind) (w' : WaitList)
    (hne : Function.update g.lists w l w' ≠ []) : g.objs w'.addr = some w'.kind := by
  by_cases hw' : w' = w
  · subst hw'
    exact hw
  · rw [Function.update_of_ne hw'] at hne
    exact h.objects.lists w' hne

/-- The running task goes to sleep on a list. -/
theorem Inv.runOp_block_self {w : WaitList} {l : List Tid} (h : Inv L s g)
    (hcur : s.k.currentTask = some u) (hpend : s.k.pendsv = false)
    (hpc : s.pc u = .enter op .app) (he : Entered s op k' notes) (hop : op.target = some w)
    (hwait : op.waitList = some w) (hms : op.timeout ≠ 0)
    (htasks : k'.tasks = s.k.tasks.setTcb u (Tcb.parked true w op.timeout))
    (hlists : Lists k' (Function.update g.lists w l)) (hmem : ∀ x, x ∈ l ↔ x = u ∨ x ∈ g.lists w)
    (hnotes : ∀ log x, waitPhase (notes ++ log) x =
      (waitPhase log x).next x (.block w u op.timeout)) :
    Inv L (({ s with k := k' }.note notes).settle u op .app .block)
      { g with lists := Function.update g.lists w l
               place := Function.update g.place u (.listed w) } := by
  have hyields : (s.pc u).yields = false := by
    rw [hpc]
    rfl
  have hown := h.own hcur hpend (Or.inr hyields)
  have hfits := h.coded.pcs u
  rw [hpc] at hfits
  have hself := h.placed.task u
  rw [hown] at hself
  have hother : ∀ t, t ≠ u → k'.tasks.tcb t = s.k.tasks.tcb t := fun t ht => by
    rw [htasks, setTcb_tcb_of_ne _ _ ht]
  have htcb : k'.tasks.tcb u = (s.k.tcb u).plain.parked true w op.timeout := by
    rw [htasks, setTcb_tcb_same]
    rfl
  have hlast : ({ s with k := k' }.note notes : Sys).settle u op .app .block =
      ({ s with k := k' }.note notes : Sys).setPc u (.block op .app) := by
    rw [Sys.settle, hwait]
    rfl
  have hknown : g.objs w.addr = some w.kind :=
    h.objects.refs u _ _ (by rw [hpc]; exact target_object hop)
  have hsame : ∀ v, (Function.update s.pc u (.block op .app) v).serves = (s.pc v).serves ∧
      (Function.update s.pc u (.block op .app) v).wakes = (s.pc v).wakes := by
    intro v
    by_cases hv : v = u
    · subst hv
      rw [Function.update_self, hpc]
      exact ⟨rfl, rfl⟩
    · rw [Function.update_of_ne hv]
      exact ⟨rfl, rfl⟩
  have hkeeps := keeps_of_setTcb htasks fun tcb =>
    ⟨(parked_same true w op.timeout tcb).1, (parked_same true w op.timeout tcb).2.1⟩
  have hring := ring_of_setTcb htasks
  rw [hlast]
  refine h.move (p := .block op .app) hcur rfl ?_ (by rw [hown]; simp) (by simp) (by simp) hkeeps ?_
    ?_ ?_ ?_
    ?_ ?_ (Or.inr (Or.inr rfl)) ?_ (h.ring_bounds hring).1 (h.ring_bounds hring).2 ?_
  · refine h.placed.move (u := u) hlists ?_ ?_ ?_ ?_ ?_ ?_ ?_
    · have hwork : k'.kwork = s.k.kwork := kwork_of_ring hring
      exact hwork ▸ h.placed.once
    · intro htracked
      rw [hown] at htracked
      cases htracked
    · intro _ t
      change t ∈ Function.update g.lists w l w ↔ t ∈ g.lists w ∨ t = u
      rw [Function.update_self, hmem, or_comm]
    · intro p hp _ hq
      refine occupants_same (u := u) (kwork_of_ring hring) ?_ ?_ ?_ ?_
      · exact fun t ht => Function.update_of_ne ht _ _
      · exact fun _ => (hsame u).1
      · exact fun _ => (hsame u).2
      · rintro w' rfl
        exact Function.update_of_ne (fun heq => hq (by rw [heq])) _ _
    · intro t ht _
      refine view_other hcur hkeeps.frame (hother t ht) rfl ?_ (he.sys t) ht
      have hne : u ≠ t := fun heq => ht heq.symm
      refine (hnotes s.log t).trans ?_
      simp [WaitPhase.next, hne]
    · refine View.Own.parked hself hpc (Function.update_self _ _ _) htcb ?_ (he.sys u) hwait hms
      intro hidle
      refine (hnotes s.log u).trans ?_
      rw [show waitPhase s.log u = .idle from hidle]
      simp [WaitPhase.next]
    · exact fun hne => absurd rfl hne
  · rw [hpc]
    simp
  · rw [hpc]
    simp
  · simp
  · exact ⟨hfits.1, rfl, hfits.2, by rw [hwait]; rfl⟩
  · rw [hpc]
    rfl
  · intro t ht hrun
    have hst := congrArg Tcb.state (hother t ht)
    exact hst.symm.trans hrun
  · have hne : g.worker ≠ u := fun heq => hfits.2 heq.symm
    have hd := congrArg Tcb.delayTicks (hother g.worker hne)
    exact hd.trans h.coded.rested
  · exact Objects.entered (p := .block op .app) h he hpc rfl rfl (h.lists_known hknown)
      (Or.inr rfl) rfl

/-- The code of the running task goes on while another task moves. -/
theorem Inv.view_self {s' : Sys} {p : Pc} (h : Inv L s g) (hown : g.place u = .own)
    (hpc : s.pc u ≠ .svcRet ∧ ∀ b, (s.pc u).settled b = .idle)
    (hpc' : s'.pc = Function.update s.pc u p)
    (htcb : s'.k.tasks.tcb u = s.k.tasks.tcb u)
    (hphase : waitPhase s'.log u = waitPhase s.log u)
    (hsys : sysPhase s'.log u = sysPhase s.log u) (hsettled : ∀ b, p.settled b = .idle)
    (hsvc : p ≠ .svcRet) (hidle : p ≠ .idle) : (s'.view u).Ok (g.place u) := by
  have hself := h.placed.task u
  have hnew : (s'.view u).pc = p := by
    change s'.pc u = p
    rw [hpc', Function.update_self]
  rw [hown] at hself ⊢
  refine hself.goto htcb hphase hsys ?_ hpc.1 ?_ ?_
  · rw [hnew, hsettled]
    exact (hpc.2 _).symm
  · rw [hnew]
    exact hsvc
  · rw [hnew]
    exact hidle

/-- The worker puts the caller it serves on a list. -/
theorem Inv.runOp_block_served {w : WaitList} {l : List Tid} {c : Tid} (h : Inv L s g)
    (hcur : s.k.currentTask = some u) (hpend : s.k.pendsv = false)
    (hpc : s.pc u = .enter op (.serve c)) (he : Entered s op k' notes)
    (hop : op.target = some w) (hwait : op.waitList = none) (hqueue : w.isQueue = false)
    (hms : op.timeout ≠ 0) (htasks : k'.tasks = s.k.tasks.setTcb c (Tcb.parked false w op.timeout))
    (hlists : Lists k' (Function.update g.lists w l)) (hmem : ∀ x, x ∈ l ↔ x = c ∨ x ∈ g.lists w)
    (hnotes : ∀ log x, waitPhase (notes ++ log) x =
      (waitPhase log x).next x (.block w c op.timeout)) :
    Inv L (({ s with k := k' }.note notes).settle u op (.serve c) .block)
      { g with lists := Function.update g.lists w l
               place := Function.update g.place c (.listed w) } := by
  have hyields : (s.pc u).yields = false := by
    rw [hpc]
    rfl
  have hown := h.own hcur hpend (Or.inr hyields)
  have hrun := h.running_of hcur hpend hyields
  have hfits := h.coded.pcs u
  rw [hpc] at hfits
  have hserved : g.place c = .served u := (h.placed.serves_iff u c).mp (by rw [hpc]; rfl)
  have hcu : c ≠ u := by
    rintro rfl
    rw [hown] at hserved
    cases hserved
  have hheld := h.placed.task c
  rw [hserved] at hheld
  have hother : ∀ t, t ≠ c → k'.tasks.tcb t = s.k.tasks.tcb t := fun t ht => by
    rw [htasks, setTcb_tcb_of_ne _ _ ht]
  have htcb : k'.tasks.tcb c = (s.k.tcb c).plain.parked false w op.timeout := by
    rw [htasks, setTcb_tcb_same]
    rfl
  have hkeeps := keeps_of_setTcb htasks fun tcb =>
    ⟨(parked_same false w op.timeout tcb).1, (parked_same false w op.timeout tcb).2.1⟩
  have hring := ring_of_setTcb htasks
  have hlast : ({ s with k := k' }.note notes : Sys).settle u op (.serve c) .block =
      ({ s with k := k' }.note notes : Sys).setPc u .workerPop := by
    rw [Sys.settle, hwait]
    rfl
  have hknown : g.objs w.addr = some w.kind :=
    h.objects.refs u _ _ (by rw [hpc]; exact target_object hop)
  have hphase : ∀ t, t ≠ c → waitPhase (notes ++ s.log) t = waitPhase s.log t := by
    intro t ht
    have hne : c ≠ t := fun heq => ht heq.symm
    refine (hnotes s.log t).trans ?_
    simp [WaitPhase.next, hne]
  rw [hlast]
  refine h.move (p := .workerPop) hcur rfl ?_ (by rw [hserved]; simp) (by simp) (by simp) hkeeps ?_
    ?_ ?_ ?_
    ?_ ?_ (Or.inl ?_) ?_ (h.ring_bounds hring).1 (h.ring_bounds hring).2 ?_
  · refine h.placed.move (u := u) hlists ?_ ?_ ?_ ?_ ?_ ?_ ?_
    · have hwork : k'.kwork = s.k.kwork := kwork_of_ring hring
      exact hwork ▸ h.placed.once
    · intro _ _ t
      rw [hserved]
      change t ∈ (Function.update s.pc u .workerPop u).serves.toList ↔
        t ∈ (s.pc u).serves.toList ∧ t ≠ c
      rw [Function.update_self, hpc]
      simp [Pc.serves, Ret.caller]
    · intro _ t
      change t ∈ Function.update g.lists w l w ↔ t ∈ g.lists w ∨ t = c
      rw [Function.update_self, hmem, or_comm]
    · intro p hp hpx hq
      rw [hserved] at hpx
      refine occupants_same (u := u) (kwork_of_ring hring) ?_ ?_ ?_ ?_
      · exact fun t ht => Function.update_of_ne ht _ _
      · exact fun heq => absurd heq hpx
      · intro _
        change (Function.update s.pc u .workerPop u).wakes = (s.pc u).wakes
        rw [Function.update_self, hpc]
        rfl
      · rintro w' rfl
        exact Function.update_of_ne (fun heq => hq (by rw [heq])) _ _
    · intro t htc htu
      exact view_other hcur hkeeps.frame (hother t htc) rfl (hphase t htc) (he.sys t) htu
    · refine View.Held.parked hheld (Function.update_of_ne hcu _ _) htcb ?_ (he.sys c) hqueue hms
      intro hidle
      refine (hnotes s.log c).trans ?_
      rw [show waitPhase s.log c = .idle from hidle]
      simp [WaitPhase.next]
    · intro _
      exact h.view_self (p := .workerPop) hown (by rw [hpc]; simp [Pc.settled]) rfl
        (hother u hcu.symm)
        (hphase u hcu.symm) (he.sys u) (fun _ => rfl) (by simp) (by simp)
  · rw [hpc]
    simp
  · rw [hpc]
    simp
  · simp
  · exact hfits.2
  · rw [hpc]
    rfl
  · intro t _ hst
    by_cases htc : t = c
    · subst htc
      have hstate := (parked_state false w op.timeout (s.k.tcb t).plain).1
      rw [← htcb] at hstate
      exact hstate.symm.trans hst
    · have hsame := congrArg Tcb.state (hother t htc)
      exact hsame.symm.trans hst
  · have hsame := congrArg Tcb.state (hother u hcu.symm)
    exact hsame.trans hrun
  · have hworker : g.worker = u := hfits.2.symm
    have hd := congrArg Tcb.delayTicks (hother g.worker (by rw [hworker]; exact hcu.symm))
    exact hd.trans h.coded.rested
  · exact Objects.entered (p := .workerPop) h he hpc rfl rfl (h.lists_known hknown) (Or.inl rfl) rfl

/-- The section takes the first waiter off a list, and its wake-up is next. -/
theorem Inv.runOp_wake {w : WaitList} {x : Tid} {rest : List Tid} {v : Nat} (h : Inv L s g)
    (hcur : s.k.currentTask = some u) (hpend : s.k.pendsv = false) (hpc : s.pc u = .enter op r)
    (he : Entered s op k' notes) (hw : g.lists w = x :: rest)
    (htasks : k'.tasks = s.k.tasks.setTcb x Tcb.unlinked)
    (hlists : Lists k' (Function.update g.lists w rest))
    (hnotes : ∀ log y, waitPhase (notes ++ log) y = (waitPhase log y).next y (.handoff w x)) :
    Inv L (({ s with k := k' }.note notes).settle u op r (.wake x v))
      { g with lists := Function.update g.lists w rest
               place := Function.update g.place x (.waking u) } := by
  have hyields : (s.pc u).yields = false := by
    rw [hpc]
    rfl
  have hown := h.own hcur hpend (Or.inr hyields)
  have hrun := h.running_of hcur hpend hyields
  have hfits := h.coded.pcs u
  rw [hpc] at hfits
  have hlisted : g.place x = .listed w :=
    (h.placed.mem_list x w).mp (by rw [hw]; exact List.mem_cons_self)
  have hxu : x ≠ u := by
    rintro rfl
    rw [hown] at hlisted
    cases hlisted
  have hparked := h.placed.task x
  rw [hlisted] at hparked
  have hnodup := linked_nodup (h.placed.lists w)
  rw [hw, List.nodup_cons] at hnodup
  have hother : ∀ t, t ≠ x → k'.tasks.tcb t = s.k.tasks.tcb t := fun t ht => by
    rw [htasks, setTcb_tcb_of_ne _ _ ht]
  have htcb : k'.tasks.tcb x = (s.k.tcb x).plain.unlinked := by
    rw [htasks, setTcb_tcb_same]
    rfl
  have hkeeps := keeps_of_setTcb htasks fun tcb => ⟨rfl, rfl⟩
  have hring := ring_of_setTcb htasks
  have hknown : g.objs w.addr = some w.kind := h.objects.lists w (by rw [hw]; simp)
  have hphase : ∀ t, t ≠ x → waitPhase (notes ++ s.log) t = waitPhase s.log t := by
    intro t ht
    have hne : x ≠ t := fun heq => ht heq.symm
    refine (hnotes s.log t).trans ?_
    simp [WaitPhase.next, hne]
  rw [Sys.settle]
  refine h.move (p := .wake x 0 (.ret r v)) hcur rfl ?_ (by rw [hlisted]; simp) (by simp)
    (by simp) hkeeps
    ?_ ?_ ?_ ?_ ?_ ?_ (Or.inl ?_) ?_ (h.ring_bounds hring).1 (h.ring_bounds hring).2 ?_
  · refine h.placed.move (u := u) hlists ?_ ?_ ?_ ?_ ?_ ?_ ?_
    · have hwork : k'.kwork = s.k.kwork := kwork_of_ring hring
      exact hwork ▸ h.placed.once
    · intro _ _ t
      rw [hlisted]
      change t ∈ Function.update g.lists w rest w ↔ t ∈ g.lists w ∧ t ≠ x
      rw [Function.update_self, hw, List.mem_cons]
      constructor
      · intro hmem
        exact ⟨Or.inr hmem, fun heq => hnodup.1 (heq ▸ hmem)⟩
      · rintro ⟨heq | hmem, hne⟩
        · exact absurd heq hne
        · exact hmem
    · intro _ t
      change t ∈ (Function.update s.pc u (.wake x 0 (.ret r v)) u).wakes.toList ↔
        t ∈ (s.pc u).wakes.toList ∨ t = x
      rw [Function.update_self, hpc]
      simp [Pc.wakes, eq_comm]
    · intro p hp hpx hq
      rw [hlisted] at hpx
      refine occupants_same (u := u) (kwork_of_ring hring) ?_ ?_ ?_ ?_
      · exact fun t ht => Function.update_of_ne ht _ _
      · intro _
        change (Function.update s.pc u (.wake x 0 (.ret r v)) u).serves = (s.pc u).serves
        rw [Function.update_self, hpc]
        rfl
      · exact fun heq => absurd heq hq
      · rintro w' rfl
        exact Function.update_of_ne (fun heq => hpx (by rw [heq])) _ _
    · intro t htx htu
      exact view_other hcur hkeeps.frame (hother t htx) rfl (hphase t htx) (he.sys t) htu
    · refine ⟨w, View.Parked.handed hparked (Function.update_of_ne hxu _ _) htcb ?_ (he.sys x)⟩
      refine (hnotes s.log x).trans ?_
      rw [WaitPhase.next, if_pos rfl]
      rfl
    · intro _
      exact h.view_self (p := .wake x 0 (.ret r v)) hown (by rw [hpc]; simp [Pc.settled]) rfl
        (hother u hxu.symm) (hphase u hxu.symm) (he.sys u) (fun _ => rfl) (by simp) (by simp)
  · rw [hpc]
    simp
  · rw [hpc]
    simp
  · simp
  · exact ⟨rfl, hfits.2⟩
  · rw [hpc]
    rfl
  · intro t _ hst
    by_cases htx : t = x
    · subst htx
      have hstate : (k'.tasks.tcb t).state = .running := hst
      rw [htcb] at hstate
      exact hstate
    · have hsame := congrArg Tcb.state (hother t htx)
      exact hsame.symm.trans hst
  · have hsame := congrArg Tcb.state (hother u hxu.symm)
    exact hsame.trans hrun
  · by_cases hworker : g.worker = x
    · have hd : (k'.tasks.tcb x).delayTicks = 0 := by
        rw [htcb]
        rfl
      rw [hworker]
      exact hd
    · have hd := congrArg Tcb.delayTicks (hother g.worker hworker)
      exact hd.trans h.coded.rested
  · exact Objects.entered (p := .wake x 0 (.ret r v)) h he hpc rfl rfl (h.lists_known hknown)
      (Or.inl rfl) rfl

end Outcomes

/-- The worker neither waits nor makes syscalls. -/
theorem Inv.worker_own (h : Inv L s g) : g.place g.worker = .own := by
  have hfits := h.coded.pcs g.worker
  refine h.placed.own_of_pc h.coded.worker ?_ ?_
  · intro hpc
    rw [hpc] at hfits
    exact hfits rfl
  · cases hpc : s.pc g.worker with
    | block op r =>
      rw [hpc] at hfits
      exact absurd rfl hfits.2.2.1
    | check op r =>
      rw [hpc] at hfits
      exact absurd rfl hfits.2.2.1
    | _ => rfl

/-- The code of `u` gives a task it was responsible for back to itself. -/
theorem Inv.release {k : Kernel} {n : List Event} {x : Tid} {f : Tcb → Tcb} {p : Pc}
    (h : Inv L s g) (hcur : s.k.currentTask = some u) (hpend : s.k.pendsv = false)
    (hpc : s.pc u ≠ .svcRet ∧ s.pc u ≠ .idle ∧ s.pc u ≠ .workerStart ∧
      (s.pc u).waits = none ∧ (s.pc u).yields = false ∧ ∀ b, (s.pc u).settled b = .idle)
    (hpc' : p ≠ .svcRet ∧ p ≠ .idle ∧ p ≠ .workerStart ∧ ∀ b, p.settled b = .idle)
    (hplace : (g.place x = .served u ∧ p.serves = none ∧ p.wakes = (s.pc u).wakes) ∨
      (g.place x = .waking u ∧ p.wakes = none ∧ p.serves = (s.pc u).serves))
    (hfits : p.fits (u = g.worker)) (hspawns : p.spawns = (s.pc u).spawns)
    (hobject : p.object = none) (hbuilds : p.builds = none)
    (htasks : k.tasks = s.k.tasks.setTcb x f)
    (hf : ∀ tcb, (f tcb).next = tcb.next ∧ (f tcb).priority = tcb.priority)
    (hlists : Lists k g.lists) (hheap : k.heap = s.k.heap) (htable : k.table = s.k.table)
    (hqueue : k.queue = s.k.queue)
    (hphase : ∀ t, t ≠ x → waitPhase (n ++ s.log) t = waitPhase s.log t)
    (hsys : ∀ t, t ≠ x → sysPhase (n ++ s.log) t = sysPhase s.log t)
    (hstate : (k.tcb x).state ≠ .running)
    (hx : x ≠ u → (((({ s with k := k } : Sys).note n).setPc u p).view x).Own) :
    Inv L ((({ s with k := k } : Sys).note n).setPc u p)
      { g with place := Function.update g.place x .own } := by
  obtain ⟨hsvcpc, hidle, hbegun, hwaits, hyields, hsettled⟩ := hpc
  have hown := h.own hcur hpend (Or.inl hwaits)
  have hrun := h.running_of hcur hpend hyields
  have hxu : x ≠ u := by
    rintro rfl
    rcases hplace with ⟨hp, _⟩ | ⟨hp, _⟩
    · rw [hown] at hp
      cases hp
    · rw [hown] at hp
      cases hp
  have hother : ∀ t, t ≠ x → k.tasks.tcb t = s.k.tasks.tcb t := fun t ht => by
    rw [htasks, setTcb_tcb_of_ne _ _ ht]
  have hkeeps := keeps_of_setTcb htasks hf
  have hring := ring_of_setTcb htasks
  have hself : Function.update s.pc u p u = p := Function.update_self _ _ _
  have hworker : g.worker ≠ x := by
    rintro rfl
    have howner := h.worker_own
    rcases hplace with ⟨hp, _⟩ | ⟨hp, _⟩
    · rw [howner] at hp
      cases hp
    · rw [howner] at hp
      cases hp
  refine h.move (W := g.lists) (p := p) hcur rfl ?_ ?_ (by simp)
    (fun heq => absurd heq hpc'.1) hkeeps hidle hbegun
    hpc'.2.2.1 hfits hspawns ?_ (Or.inl ?_) ?_ (h.ring_bounds hring).1 (h.ring_bounds hring).2 ?_
  · refine h.placed.move (u := u) hlists ?_ ?_ (fun hq => by cases hq) ?_ ?_ (hx hxu) ?_
    · have hwork : k.kwork = s.k.kwork := kwork_of_ring hring
      exact hwork ▸ h.placed.once
    · intro _ _ t
      rcases hplace with ⟨hp, hnone, _⟩ | ⟨hp, hnone, _⟩
      · have hserves := (h.placed.serves_iff u x).mpr hp
        rw [hp]
        change t ∈ (Function.update s.pc u p u).serves.toList ↔ t ∈ (s.pc u).serves.toList ∧ t ≠ x
        rw [hself, hnone, hserves]
        simp
      · have hwakes := (h.placed.wakes_iff u x).mpr hp
        rw [hp]
        change t ∈ (Function.update s.pc u p u).wakes.toList ↔ t ∈ (s.pc u).wakes.toList ∧ t ≠ x
        rw [hself, hnone, hwakes]
        simp
    · intro y _ hpx _
      refine occupants_same (u := u) (kwork_of_ring hring) ?_ ?_ ?_ fun _ _ => rfl
      · exact fun t ht => Function.update_of_ne ht _ _
      · intro heq
        change (Function.update s.pc u p u).serves = (s.pc u).serves
        rw [hself]
        rcases hplace with ⟨hp, _⟩ | ⟨_, _, hsame⟩
        · exact absurd (heq.trans hp.symm) hpx
        · exact hsame
      · intro heq
        change (Function.update s.pc u p u).wakes = (s.pc u).wakes
        rw [hself]
        rcases hplace with ⟨_, _, hsame⟩ | ⟨hp, _⟩
        · exact hsame
        · exact absurd (heq.trans hp.symm) hpx
    · intro t htx htu
      exact view_other hcur hkeeps.frame (hother t htx) rfl (hphase t htx) (hsys t htx) htu
    · intro _
      exact h.view_self (p := p) hown ⟨hsvcpc, hsettled⟩ rfl (hother u hxu.symm)
        (hphase u hxu.symm) (hsys u hxu.symm) hpc'.2.2.2 hpc'.1 hpc'.2.1
  · rcases hplace with ⟨hp, _⟩ | ⟨hp, _⟩
    · rw [hp]
      simp
    · rw [hp]
      simp
  · intro t _ hst
    by_cases htx : t = x
    · subst htx
      exact absurd hst hstate
    · have hsame := congrArg Tcb.state (hother t htx)
      exact hsame.symm.trans hst
  · have hsame := congrArg Tcb.state (hother u hxu.symm)
    exact hsame.trans hrun
  · have hd := congrArg Tcb.delayTicks (hother g.worker hworker)
    exact hd.trans h.coded.rested
  · refine Objects.move ?_
    refine h.objects.local (p := p) hheap htable hqueue rfl ?_ hbuilds
    intro a type heq
    rw [hobject] at heq
    cases heq

/-- A critical section keeps the invariant, whatever it comes to. -/
theorem Inv.runOp (h : Inv L s g) (hcur : s.k.currentTask = some u)
    (hpend : s.k.pendsv = false) (hpc : s.pc u = .enter op r) :
    ∃ g', Inv L (s.runOp u op r) g' ∧ g'.worker = g.worker := by
  have hown := h.own hcur hpend (Or.inr (by rw [hpc]; rfl))
  have hfits := h.coded.pcs u
  rw [hpc] at hfits
  obtain ⟨W', heff⟩ :=
    enter_effect op h.placed.lists h.placed.apart (h.blocker_notMem hown hpc)
  have he := entered s u op
  rw [runOp_eq]
  generalize op.note s.k (op.enter s.k u).1 u (op.enter s.k u).2 = notes at heff he ⊢
  generalize (op.enter s.k u).1 = k' at heff he ⊢
  generalize (op.enter s.k u).2 = out at heff ⊢
  cases heff with
  | ret htasks hlists hnotes =>
    exact ⟨g, h.runOp_ret hcur hpend hpc he htasks hlists hnotes, rfl⟩
  | pend htasks hlists hnotes =>
    exact ⟨g, h.runOp_pend hcur hpend hpc he htasks hlists hnotes, rfl⟩
  | sleep hop _ hlists hnotes =>
    exact ⟨g, h.runOp_sleep hcur hpend hpc he hop hlists hnotes, rfl⟩
  | block hop hms htasks hlists hmem hnotes =>
    rcases fits_block u hfits.1 hop hms with ⟨rfl, hwait, hb⟩ | ⟨c, rfl, hwait, hb, hqueue⟩
    · rw [hwait, hb] at htasks
      rw [hb] at hmem hnotes
      exact ⟨_, h.runOp_block_self hcur hpend hpc he hop hwait hms htasks hlists hmem hnotes, rfl⟩
    · rw [hwait, hb] at htasks
      rw [hb] at hmem hnotes
      exact ⟨_, h.runOp_block_served hcur hpend hpc he hop hwait hqueue hms htasks hlists hmem
        hnotes, rfl⟩
  | wake _ hw htasks hlists hnotes =>
    exact ⟨_, h.runOp_wake hcur hpend hpc he hw htasks hlists hnotes, rfl⟩

end Sections

end Crest
