import CrestRtos.System.Deeds

/-!
# What a step does to control blocks

A step of the running task changes the control block of one task at most, in one
of ten ways. Two steps do more: the syscall gate also rouses the worker, and
`task_create` links a new task in. Blocks are compared without their wait links.
-/

namespace Crest
open MachineWord Alloc

def Tcb.asleep (n : Nat) (tcb : Tcb) : Tcb := { tcb with delayTicks := n, state := .waiting }

def Tcb.woken (v : Nat) (tcb : Tcb) : Tcb :=
  { tcb with
    savedR0 := if tcb.svcBlocked then v else tcb.savedR0
    svcBlocked := false
    state := .ready }

/-- `SYSCALL_DELAY` for its caller. -/
def Tcb.delayed (n : Nat) (tcb : Tcb) : Tcb :=
  { tcb with savedR0 := 0, svcBlocked := false }.asleep n

/-- A step of `u` that changes no control block but that of `t`. -/
structure Only (s s' : Sys) (u t : Tid) (f : Tcb → Tcb) : Prop where
  tcb : s'.k.tasks.tcb = Function.update s.k.tasks.tcb t (f (s.k.tasks.tcb t))
  frame : s'.k.frame = s.k.frame
  pc : ∀ x, x ≠ u → s'.pc x = s.pc x
  asks : (s.pc u).yields = true → s'.k.pendsv = true

inductive Change (s : Sys) (g : Ghost) (u : Tid) (s' : Sys) : Prop
  | quiet (h : Only s s' u u id)
  | sleep {n : Nat} {r : Ret} (hpc : s.pc u = .enter (.delay n) r) (hn : n ≠ 0)
      (h : Only s s' u u (Tcb.asleep n)) (hpc' : s'.pc u = .pend (.ret r 0))
  | park {op : Op} {r : Ret} {w : WaitList} (hpc : s.pc u = .enter op r)
      (htarget : op.target = some w) (hms : op.timeout ≠ 0)
      (h : Only s s' u (op.blocker u) (Tcb.parked op.waitList.isSome w op.timeout))
      (hpc' : s'.pc u = if op.waitList.isSome then .block op r else .workerPop)
  | unlink {op : Op} {r : Ret} {w : WaitList} {x : Tid} {v : Nat}
      (hpc : s.pc u = .enter op r ∨ ∃ op', s.pc u = .retry op' r ∧ op = op'.again)
      (hsource : op.source = some w) (hx : g.place x = .listed w)
      (h : Only s s' u x Tcb.unlinked) (hpc' : s'.pc u = .wake x 0 (.ret r v))
  | check {op : Op} {r : Ret} (hpc : s.pc u = .check op r)
      (h : Only s s' u u fun tcb => { tcb with timedOut := false })
  | wake {t : Tid} {v : Nat} {after : After} (hpc : s.pc u = .wake t v after)
      (h : Only s s' u t (Tcb.woken v)) (hpc' : s'.pc u = .pend after)
  | rest (hpc : s.pc u = .workerSleep) (hu : u = g.worker)
      (h : Only s s' u u fun tcb => { tcb with state := .waiting }) (hpc' : s'.pc u = .pend .loop)
  | delay {item : WorkItem} (hpc : s.pc u = .dispatch item) (hid : item.id = syscallDelay)
      (h : Only s s' u item.caller (Tcb.delayed item.arg0)) (hpc' : s'.pc u = .workerPop)
  | unprivileged (hpc : s.pc u = .app) (h : Only s s' u u fun tcb => { tcb with user := true })
  | post {item : WorkItem} (hpc : s.pc u = .app) (hpc' : s'.pc = Function.update s.pc u .svcRet)
      (hcaller : item.caller = u) (hu : u ≠ g.worker) (h : Posted s.k s'.k item g.worker)
  | born {t : Tid} {alloc : Nat} {args : TaskArgs} (hpc : s.pc u = .spawnAdd t alloc args)
      (hk : s'.k = schedulerAddTask (initTcb s.k t alloc args) t)
      (h : Joined s.k s'.k t args.priority)
      (hpc' : s'.pc = Function.update (Function.update s.pc t .app) u .app)

section Changes
variable {L : Layout} {s s' : Sys} {g : Ghost} {u : Tid}

theorem Only.of_tasks {t : Tid} {f : Tcb → Tcb} (htasks : s'.k.tasks = s.k.tasks.setTcb t f)
    (hpc : ∀ x, x ≠ u → s'.pc x = s.pc x) (hyields : (s.pc u).yields = false) :
    Only s s' u t f := by
  refine ⟨?_, (congrArg Kernel.frame htasks :), hpc, fun h => ?_⟩
  · rw [htasks]
    rfl
  · rw [hyields] at h
    cases h

theorem Only.of_same (htcb : s'.k.tcb = s.k.tcb) (hframe : s'.k.frame = s.k.frame)
    (hpc : ∀ x, x ≠ u → s'.pc x = s.pc x) (hasks : (s.pc u).yields = true → s'.k.pendsv = true) :
    Only s s' u u id := by
  refine ⟨?_, hframe, hpc, hasks⟩
  rw [id, Function.update_eq_self]
  funext x
  exact congrArg (fun tcb => (tcb x).plain) htcb

theorem Only.self {t : Tid} {f : Tcb → Tcb} (h : Only s s' u t f) :
    s'.k.tasks.tcb t = f (s.k.tasks.tcb t) := by
  rw [h.tcb, Function.update_self]

theorem Only.other {t x : Tid} {f : Tcb → Tcb} (h : Only s s' u x f) (ht : t ≠ x) :
    s'.k.tasks.tcb t = s.k.tasks.tcb t := by
  rw [h.tcb, Function.update_of_ne ht]

/-- The code of `u` goes on at `p`, and the memory may change. -/
theorem change_goto {k : Kernel} {p : Pc} {log : List Event} (htcb : k.tcb = s.k.tcb)
    (hframe : k.frame = s.k.frame) (hyields : (s.pc u).yields = false) :
    Change s g u ⟨k, Function.update s.pc u p, log⟩ := by
  refine .quiet (.of_same htcb hframe (fun x hx => Function.update_of_ne hx _ _) fun h => ?_)
  rw [hyields] at h
  cases h

theorem change_finish {k : Kernel} {log : List Event} (r : Ret) (v : Nat) (htcb : k.tcb = s.k.tcb)
    (hframe : k.frame = s.k.frame) (hyields : (s.pc u).yields = false) :
    Change s g u ((⟨k, s.pc, log⟩ : Sys).finish u r v) := by
  cases r <;> exact change_goto htcb hframe hyields

theorem runOp_pc_self (s : Sys) (u : Tid) (op : Op) (r : Ret) :
    (s.runOp u op r).pc u = match (op.enter s.k u).2 with
      | .ret v => r.next v
      | .block => if op.waitList.isSome then .block op r else .workerPop
      | .wake t v => .wake t 0 (.ret r v)
      | .pend v => .pend (.ret r v) := by
  rw [runOp_eq]
  cases (op.enter s.k u).2 with
  | ret v => cases r <;> exact Function.update_self _ _ _
  | _ => exact Function.update_self _ _ _

/-- A critical section, in either pass of a call. -/
theorem change_runOp {op : Op} {r : Ret} (pre : List Event) (h : Inv L s g)
    (hready : Ready s.k (pre ++ s.log) g.lists u op)
    (hpc : (s.pc u = .enter op r) ∨ ∃ op', s.pc u = .retry op' r ∧ op = op'.again)
    (hagain : ∀ op', s.pc u = .retry op' r → op.timeout = 0 ∧ ∀ n, op ≠ .delay n) :
    Change s g u ((s.note pre).runOp u op r) := by
  have hyields : (s.pc u).yields = false := by
    rcases hpc with hpc | ⟨op', hpc, _⟩ <;> rw [hpc] <;> rfl
  have henter : op.timeout ≠ 0 ∨ (∃ n, op = .delay n) → s.pc u = .enter op r := by
    intro hop
    rcases hpc with hpc | ⟨op', hpc, _⟩
    · exact hpc
    · obtain ⟨hzero, hdelay⟩ := hagain op' hpc
      rcases hop with hne | ⟨n, hn⟩
      · exact absurd hzero hne
      · exact absurd hn (hdelay n)
  have hk := runOp_k (s.note pre) u op r
  have hother : ∀ x, x ≠ u → ((s.note pre).runOp u op r).pc x = s.pc x := fun x hx =>
    runOp_pc (s.note pre) op r hx
  have hself := runOp_pc_self (s.note pre) u op r
  obtain ⟨W', heff⟩ := enter_effect op hready.lists hready.apart hready.blocker
  generalize (s.note pre).runOp u op r = s' at hk hother hself ⊢
  change s'.k = (op.enter s.k u).1 at hk
  change s'.pc u = match (op.enter s.k u).2 with
      | .ret v => r.next v
      | .block => if op.waitList.isSome then .block op r else .workerPop
      | .wake t v => .wake t 0 (.ret r v)
      | .pend v => .pend (.ret r v) at hself
  generalize op.note s.k (op.enter s.k u).1 u (op.enter s.k u).2 = notes at heff
  generalize (op.enter s.k u).1 = k' at heff hk
  generalize (op.enter s.k u).2 = out at heff hself
  have hsame : k'.tasks = s.k.tasks → Change s g u s' := by
    intro htasks
    rw [← hk] at htasks
    refine .quiet ⟨?_, frame_of_tasks htasks, hother, fun hy => ?_⟩
    · rw [htasks, id, Function.update_eq_self]
    · rw [hyields] at hy
      cases hy
  cases heff with
  | ret htasks hlists hnotes => exact hsame htasks
  | pend htasks hlists hnotes => exact hsame htasks
  | @sleep ticks _ hop hticks hlists hnotes =>
    have hpc' := henter (Or.inr ⟨ticks, hop⟩)
    rw [hop] at hpc'
    have htasks : (schedulerSleep s.k u ticks).tasks = s.k.tasks.setTcb u (Tcb.asleep ticks) := by
      refine tasks_setTcb ?_
      rfl
    rw [← hk] at htasks
    exact .sleep hpc' hticks (.of_tasks htasks hother hyields) hself
  | block hop hms htasks hlists hmem hnotes =>
    rw [← hk] at htasks
    exact .park (henter (Or.inl hms)) hop hms (.of_tasks htasks hother hyields) hself
  | wake hop hw htasks hlists hnotes =>
    rw [← hk] at htasks
    refine .unlink hpc hop ?_ (.of_tasks htasks hother hyields) hself
    exact (h.placed.mem_list _ _).mp (by rw [hw]; exact List.mem_cons_self)

theorem withObject_sleep {k : Kernel} {handle n : Nat} {type : KobjType} {f : Nat → Work}
    (hf : ∀ a, f a ≠ .sleep n) : withObject k handle type f ≠ .sleep n := by
  rw [withObject]
  cases kObjGet k handle type with
  | none => simp
  | some a => exact hf a

theorem decode_sleep {k : Kernel} {item : WorkItem} {n : Nat} (h : decode k item = .sleep n) :
    item.id = syscallDelay ∧ n = item.arg0 := by
  by_cases hid : item.id = syscallDelay
  · rw [decode, if_pos hid] at h
    exact ⟨hid, (Work.sleep.inj h).symm⟩
  · exfalso
    revert h
    rw [decode, if_neg hid]
    repeat' split
    all_goals first | exact withObject_sleep (by simp) | simp

theorem change_dispatch {item : WorkItem} (hpc : s.pc u = .dispatch item) :
    Change s g u (s.dispatch u item) := by
  have hyields : (s.pc u).yields = false := by
    rw [hpc]
    rfl
  have hgo : ∀ p, Change s g u (s.setPc u p) := fun p => change_goto rfl rfl hyields
  rw [Sys.dispatch]
  cases hdec : decode s.k item with
  | sleep n =>
    obtain ⟨hid, rfl⟩ := decode_sleep hdec
    have htasks : (delaySection s.k item.caller item.arg0).tasks =
        s.k.tasks.setTcb item.caller (Tcb.delayed item.arg0) := by
      rw [delaySection, schedulerSleep, setTcb_setTcb]
      refine tasks_setTcb ?_
      rfl
    exact .delay hpc hid (.of_tasks htasks (fun x hx => Function.update_of_ne hx _ _) hyields)
      (Function.update_self _ _ _)
  | complete v => exact hgo _
  | uart a => exact hgo _
  | call op => exact hgo _
  | create c => exact hgo _

theorem change_create {c : Creation} {r : Ret} (hyields : (s.pc u).yields = false)
    (hstep : s.create L u c r = some s') : Change s g u s' := by
  rw [Sys.create] at hstep
  obtain ⟨⟨k, p⟩, halloc, heq⟩ := Option.map_eq_some_iff.mp hstep
  have hkeep : k.tcb = s.k.tcb ∧ k.frame = s.k.frame := by
    rcases alloc_cases halloc with ⟨_, rfl⟩ | ⟨heap, _, _, rfl⟩
    · exact ⟨rfl, rfl⟩
    · by_cases hp : p = 0
      · rw [if_pos hp]
        exact ⟨rfl, rfl⟩
      · rw [if_neg hp]
        cases c <;> exact ⟨rfl, rfl⟩
  obtain ⟨htcb, hframe⟩ := hkeep
  by_cases hp : p = 0
  · simp only [if_pos hp] at heq
    subst heq
    exact change_finish r _ htcb hframe hyields
  · simp only [if_neg hp] at heq
    subst heq
    cases c <;> exact change_goto htcb hframe hyields

theorem change_retry {op : Op} {r : Ret} (h : Inv L s g) (hcur : s.k.currentTask = some u)
    (hpend : s.k.pendsv = false) (hpc : s.pc u = .retry op r) :
    Change s g u ((s.note (op.waitList.toList.map fun w => .recheck w u)).runOp u op.again r) := by
  have hfits := h.coded.pcs u
  have hrefs := h.objects.refs u
  rw [hpc] at hfits hrefs
  obtain ⟨_, _, _, w, hw, hqueue⟩ := hfits
  have hready := h.ready_retry hcur hpend hrefs hpc hw hqueue
  rw [hw]
  refine change_runOp [.recheck w u] h hready (Or.inr ⟨op, hpc, rfl⟩) fun op' hop' => ?_
  cases op with
  | queuePush q item ms => exact ⟨rfl, by simp [Op.again]⟩
  | queuePop q item ms => exact ⟨rfl, by simp [Op.again]⟩
  | semTake a ms => cases hw; cases hqueue
  | mutexLock a ms => cases hw; cases hqueue
  | _ => cases hw

theorem change_checkWait {op : Op} {r : Ret} (hpc : s.pc u = .check op r) :
    Change s g u (s.checkWait u op r) := by
  have hyields : (s.pc u).yields = false := by
    rw [hpc]
    rfl
  rw [Sys.checkWait]
  cases op.waitList with
  | none =>
    refine .quiet (.of_same rfl rfl (fun _ _ => rfl) fun hy => ?_)
    rw [hyields] at hy
    cases hy
  | some w =>
    simp only
    split
    · split
      · exact change_finish r _ rfl rfl hyields
      · exact change_goto rfl rfl hyields
    · split
      · have htasks : (s.k.setTcb u fun tcb => { tcb with timedOut := false }).tasks =
            s.k.tasks.setTcb u fun tcb => { tcb with timedOut := false } := by
          refine tasks_setTcb ?_
          rfl
        refine .check hpc (.of_tasks ?_ (fun x hx => finish_pc _ r _ hx) hyields)
        rw [finish_k]
        exact htasks
      · exact change_finish r _ rfl rfl hyields

/-- The request of PendSV, after which the code goes on as it has been told. -/
theorem change_proceed (after : After) :
    Change s g u (({ s with k := portTriggerPendsv s.k } : Sys).proceed u after) := by
  cases after with
  | ret r v =>
    exact .quiet (.of_same (congrArg Kernel.tcb (finish_k _ _ _ _) :)
      (congrArg Kernel.frame (finish_k _ _ _ _) :) (fun x hx => finish_pc _ r v hx)
      fun _ => (congrArg Kernel.pendsv (finish_k _ _ _ _) :))
  | loop => exact .quiet (.of_same rfl rfl (fun x hx => Function.update_of_ne hx _ _) fun _ => rfl)

theorem change_rest (h : Inv L s g) (hpc : s.pc u = .workerSleep) :
    Change s g u (({ s with k := workerWait s.k } : Sys).setPc u (.pend .loop)) := by
  have hfits := h.coded.pcs u
  rw [hpc] at hfits
  obtain rfl : u = g.worker := hfits
  have hkernel := h.coded.kernel
  rw [hpc, if_neg (by simp)] at hkernel
  refine .rest hpc rfl (.of_tasks ?_ (fun x hx => Function.update_of_ne hx _ _)
    (by rw [hpc]; rfl)) (Function.update_self _ _ _)
  have htasks : (s.k.setTcb g.worker fun tcb => { tcb with state := .waiting }).tasks =
      s.k.tasks.setTcb g.worker fun tcb => { tcb with state := .waiting } := by
    refine tasks_setTcb ?_
    rfl
  rw [← htasks]
  simp only [Sys.setPc, workerWait, hkernel]

theorem kObjAlloc_keeps (k : Kernel) (p : Nat) (type : KobjType) :
    (kObjAlloc k p type).1.tcb = k.tcb ∧ (kObjAlloc k p type).1.frame = k.frame := by
  rw [kObjAlloc]
  by_cases hp : p = 0
  · rw [if_pos hp]
    exact ⟨rfl, rfl⟩
  · rw [if_neg hp]
    cases (List.range kobjMax).find? fun i => !(k.table i).inUse with
    | none => exact ⟨rfl, rfl⟩
    | some i => exact ⟨rfl, rfl⟩

/-- One step of the kernel code that `u` is in. -/
theorem change_go (h : Inv L s g) (hcur : s.k.currentTask = some u) (hpend : s.k.pendsv = false)
    (hstep : s.go L u = some s') : Change s g u s' := by
  have hquiet : ∀ {p}, s.pc u = p → p.yields = false → (s.pc u).yields = false := by
    rintro p rfl hp
    exact hp
  cases go_cases hstep with
  | svcRet hpc => exact change_goto rfl rfl (hquiet hpc rfl)
  | enter op r hpc =>
    have hrefs := h.objects.refs u
    rw [hpc] at hrefs
    refine change_runOp [] h (h.ready_enter hcur hpend hrefs hpc) (Or.inl hpc) fun op' hop' => ?_
    rw [hpc] at hop'
    cases hop'
  | retry op r hpc => exact change_retry h hcur hpend hpc
  | block op r hpc =>
    exact .quiet (.of_same rfl rfl (fun x hx => Function.update_of_ne hx _ _) fun _ => rfl)
  | check op r hpc => exact change_checkWait hpc
  | wake t v after hpc =>
    exact .wake hpc (.of_tasks (tasks_wakeSection s.k t v)
      (fun x hx => Function.update_of_ne hx _ _) (hquiet hpc rfl)) (Function.update_self _ _ _)
  | pend after hpc => exact change_proceed after
  | workerStart hpc => exact change_goto rfl rfl (hquiet hpc rfl)
  | popNone hpc hpop => exact change_goto rfl rfl (hquiet hpc rfl)
  | popSome k item hpc hpop =>
    obtain ⟨rfl, _⟩ := kworkPop_some h.coded.head h.coded.tail hpop
    exact change_goto rfl rfl (hquiet hpc rfl)
  | workerSleep hpc => exact change_rest h hpc
  | dispatch item hpc => exact change_dispatch hpc
  | create c r s' hpc hrun => exact change_create (hquiet hpc rfl) hrun
  | queueBuffer p r k ok hpc hrun =>
    rcases queueInitBuffer_cases hrun (h.objects.drafts u p r hpc) with
      ⟨_, rfl⟩ | ⟨heap, buffer, size, _, rfl, _⟩
    · exact change_goto rfl rfl (hquiet hpc rfl)
    · exact change_goto rfl rfl (hquiet hpc rfl)
  | queueFree p r k hpc hrun =>
    obtain ⟨heap, _, rfl⟩ := Option.map_eq_some_iff.mp hrun
    exact change_finish r _ rfl rfl (hquiet hpc rfl)
  | publish p type r hpc =>
    obtain ⟨htcb, hframe⟩ := kObjAlloc_keeps s.k p type
    exact change_finish r _ htcb hframe (hquiet hpc rfl)
  | spawnNone args hpc hfree => exact change_finish .app _ rfl rfl (hquiet hpc rfl)
  | spawnTcb args k t hpc hfree =>
    obtain ⟨_, rfl⟩ := getFreeTcb_some hfree
    exact change_goto rfl rfl (hquiet hpc rfl)
  | spawnStack t args heap alloc hpc hrun => exact change_goto rfl rfl (hquiet hpc rfl)
  | spawnFree t hpc => exact change_finish .app _ rfl rfl (hquiet hpc rfl)
  | spawnAdd t alloc args hpc => exact .born hpc rfl (schedulerAddTask_joined _ _ _ _) rfl

theorem change_callObject (handle : Nat) (type : KobjType) (f : Nat → Op) (missing : Nat)
    (hpc : s.pc u = .app) : Change s g u (s.callObject u handle type f missing) := by
  have hyields : (s.pc u).yields = false := by
    rw [hpc]
    rfl
  rw [Sys.callObject]
  cases kObjGet s.k handle type with
  | none => exact change_finish .app _ rfl rfl hyields
  | some p => exact change_goto rfl rfl hyields

theorem change_call (c : Call) (hpc : s.pc u = .app) : Change s g u (s.call u c) := by
  have hyields : (s.pc u).yields = false := by
    rw [hpc]
    rfl
  have hgo : ∀ p, Change s g u (s.setPc u p) := fun p => change_goto rfl rfl hyields
  cases c with
  | semTake handle ms => exact change_callObject _ _ _ _ hpc
  | semGive handle => exact change_callObject _ _ _ _ hpc
  | mutexLock handle ms => exact change_callObject _ _ _ _ hpc
  | mutexUnlock handle => exact change_callObject _ _ _ _ hpc
  | queuePush handle item ms => exact change_callObject _ _ _ _ hpc
  | queuePop handle item ms => exact change_callObject _ _ _ _ hpc
  | taskDelay ticks => exact hgo _
  | taskYield => exact hgo _
  | create c => exact hgo _
  | taskCreate args =>
    rw [Sys.call]
    by_cases hacc : args.accepted = true
    · rw [if_pos hacc]
      exact hgo _
    · rw [if_neg hacc]
      exact change_finish .app _ rfl rfl hyields
  | setUnprivileged =>
    have htasks : (s.k.setTcb u fun tcb => { tcb with user := true }).tasks =
        s.k.tasks.setTcb u fun tcb => { tcb with user := true } := by
      refine tasks_setTcb ?_
      rfl
    refine .unprivileged hpc ⟨?_, rfl, fun _ _ => rfl, fun hy => ?_⟩
    · exact congrArg Kernel.tcb htasks
    · rw [hyields] at hy
      cases hy

/-- What a step of the running task does to control blocks. -/
theorem Inv.change {l : Label} (h : Inv L s g) (hcur : s.k.currentTask = some u)
    (hpend : s.k.pendsv = false) (hstep : s.thread L u l = some s') : Change s g u s' := by
  cases l with
  | tick => cases hstep
  | pendSV oldSp => cases hstep
  | svc id a0 a1 a2 a3 =>
    rw [Sys.thread] at hstep
    by_cases hc : s.pc u = .app ∧ s.k.nPriv = true
    · rw [if_pos hc] at hstep
      obtain rfl := Option.some.inj hstep
      exact .post hc.1 rfl rfl (h.app_not_worker hc.1)
        (@Inv.svc_posted _ _ _ ⟨id, a0, a1, a2, a3, u⟩ h hc.1)
    · rw [if_neg hc] at hstep
      cases hstep
  | call c =>
    rw [Sys.thread] at hstep
    by_cases hc : s.pc u = .app ∧ s.k.nPriv = false
    · rw [if_pos hc] at hstep
      obtain rfl := Option.some.inj hstep
      exact change_call c hc.1
    · rw [if_neg hc] at hstep
      cases hstep
  | compute r0 ram =>
    rw [Sys.thread] at hstep
    by_cases hc : s.pc u = .app
    · rw [if_pos hc] at hstep
      obtain rfl := Option.some.inj hstep
      refine .quiet (.of_same rfl rfl (fun _ _ => rfl) fun hy => ?_)
      rw [hc] at hy
      cases hy
    · rw [if_neg hc] at hstep
      cases hstep
  | go => exact change_go h hcur hpend hstep

/-- What a step of `u` does to another task, by the place of that task. -/
inductive Touch (s : Sys) (g : Ghost) (u : Tid) (s' : Sys) (t : Tid) : Prop
  | same (h : s'.k.tasks.tcb t = s.k.tasks.tcb t)
  | roused (ht : t = g.worker)
      (h : s'.k.tasks.tcb t = { s.k.tasks.tcb t with state := .ready })
  | served (hplace : g.place t = .served u)
  | unlinked {w : WaitList} (hplace : g.place t = .listed w)
      (h : s'.k.tasks.tcb t = (s.k.tasks.tcb t).unlinked)
  | woken {v : Nat} (hplace : g.place t = .waking u)
      (h : s'.k.tasks.tcb t = (s.k.tasks.tcb t).woken v)
  | born (hplace : g.place t = .fresh)

theorem Change.touch {t : Tid} (hc : Change s g u s') (h : Inv L s g) (ht : t ≠ u) :
    Touch s g u s' t := by
  have hother : ∀ {x f}, Only s s' u x f → t ≠ x → Touch s g u s' t := fun ho hne =>
    .same (ho.other hne)
  cases hc with
  | quiet ho => exact hother ho ht
  | sleep hpc hn ho hpc' => exact hother ho ht
  | @park op r w hpc htarget hms ho hpc' =>
    by_cases hb : t = op.blocker u
    · have hfits := h.coded.pcs u
      rw [hpc] at hfits
      rcases fits_block u hfits.1 htarget hms with ⟨_, _, hself⟩ | ⟨c, rfl, _, hcaller, _⟩
      · exact absurd (hb.trans hself) ht
      · refine .served ((h.placed.serves_iff u t).mp ?_)
        rw [hpc, hb, hcaller]
        rfl
    · exact hother ho hb
  | @unlink op r w x v hpc hsource hx ho hpc' =>
    by_cases htx : t = x
    · subst htx
      exact .unlinked hx ho.self
    · exact hother ho htx
  | check hpc ho => exact hother ho ht
  | @wake x v after hpc ho hpc' =>
    by_cases htx : t = x
    · subst htx
      cases after with
      | ret r v' => exact .woken ((h.placed.wakes_iff u t).mp (by rw [hpc]; rfl)) ho.self
      | loop => exact .served ((h.placed.serves_iff u t).mp (by rw [hpc]; rfl))
    · exact hother ho htx
  | rest hpc hu ho hpc' => exact hother ho ht
  | @delay item hpc hid ho hpc' =>
    by_cases htx : t = item.caller
    · refine .served ((h.placed.serves_iff u t).mp ?_)
      rw [hpc, htx]
      rfl
    · exact hother ho htx
  | unprivileged hpc ho => exact hother ho ht
  | @post item hpc hpc' hcaller hu hp =>
    by_cases htw : t = g.worker
    · subst htw
      rcases hp.worker with hw | hw
      · exact .same (congrArg Tcb.plain hw)
      · exact .roused rfl (congrArg Tcb.plain hw)
    · exact .same (congrArg Tcb.plain (hp.other t (by rw [hcaller]; exact ht) htw))
  | @born x alloc args hpc hk hj hpc' =>
    by_cases htx : t = x
    · refine .born ((h.scheduled.spawns u t ?_).1)
      rw [hpc, htx]
      rfl
    · exact .same (congrArg Tcb.plain (hj.other t htx))

/-- And it leaves the code of the other live tasks alone. -/
theorem Change.pc {t : Tid} (hc : Change s g u s') (h : Inv L s g) (ht : t ≠ u)
    (hlive : g.place t ≠ .fresh) : s'.pc t = s.pc t := by
  cases hc with
  | quiet ho => exact ho.pc t ht
  | sleep hpc hn ho hpc' => exact ho.pc t ht
  | park hpc htarget hms ho hpc' => exact ho.pc t ht
  | unlink hpc hsource hx ho hpc' => exact ho.pc t ht
  | check hpc ho => exact ho.pc t ht
  | wake hpc ho hpc' => exact ho.pc t ht
  | rest hpc hu ho hpc' => exact ho.pc t ht
  | delay hpc hid ho hpc' => exact ho.pc t ht
  | unprivileged hpc ho => exact ho.pc t ht
  | post hpc hpc' hcaller hu hp => rw [hpc', Function.update_of_ne ht]
  | @born x alloc args hpc hk hj hpc' =>
    have hx : t ≠ x := by
      rintro rfl
      exact hlive (h.scheduled.spawns u t (by rw [hpc]; rfl)).1
    rw [hpc', Function.update_of_ne ht, Function.update_of_ne hx]

end Changes

section Switch
variable {L : Layout} {s : Sys} {g : Ghost} {k' : Kernel} {oldSp : Nat} {n t : Tid}

/-- A switch puts a READY task, or the one on the CPU, into the state RUNNING. -/
theorem Switched.state_of_waiting (h : Switched s.k k' g.runs n)
    (hst : (s.k.tcb t).state = .waiting) : (k'.tcb t).state = .waiting ∧ t ≠ n := by
  have hne : t ≠ n := by
    rintro rfl
    rcases h.state with hr | hr <;> rw [hst] at hr <;> cases hr
  obtain ⟨sp, r0, htcb⟩ := h.tcb t
  refine ⟨?_, hne⟩
  rw [htcb]
  simp [Tcb.switched, hne, hst]

end Switch

end Crest
