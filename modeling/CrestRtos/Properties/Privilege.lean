import CrestRtos.Kernel.Standing
import CrestRtos.Properties.MemoryMap
import CrestRtos.System.Changes
import CrestRtos.System.Clock

/-!
# Dropping privilege

`port_set_unprivileged` instruction by instruction, in the running system: another task
can come in between any two of them. A switch sets CONTROL.nPRIV from the flags of
the task it puts on the CPU, and nothing but `task_create` clears TASK_FLAG_USER, as long as
nobody stores to the flags word itself. A receive into it does.
-/

namespace Crest
open MachineWord Alloc Transition

/-- How far a task is in `port_set_unprivileged`. -/
inductive Drop
  | out
  /-- `cur` is known, and then the word `cur->flags`. -/
  | located (cur : Tid)
  | loaded (cur : Tid) (flags : Flags)
  | stored
  /-- `mrs` has read CONTROL.nPRIV. -/
  | read (nPriv : Bool)
  deriving DecidableEq

/-- `msr control`: an unprivileged write is ignored. -/
def msrControl (k : Kernel) (nPriv : Bool) : Kernel :=
  { k with nPriv := if k.nPriv then k.nPriv else nPriv }

/-- The system with the tasks inside `port_set_unprivileged`, those that have ever been
there and those that have come to its end. -/
structure Drops where
  sys : Sys
  stage : Tid → Drop
  entered : Tid → Bool
  dropped : Tid → Bool

def Drops.start (s : Sys) : Drops := ⟨s, fun _ => .out, fun _ => false, fun _ => false⟩

/-- One instruction of `u`. The function reads kernel data, which faults without
privilege. -/
def Drops.advance (d : Drops) (u : Tid) : Option Drops :=
  match d.stage u with
  | .out =>
    if d.sys.k.nPriv then none
    else
      d.sys.k.currentTask.map fun cur =>
        { d with
          stage := Function.update d.stage u (.located cur)
          entered := Function.update d.entered u true }
  | .located cur =>
    some { d with stage := Function.update d.stage u (.loaded cur (d.sys.k.tcb cur).flags) }
  | .loaded cur flags =>
    let k := d.sys.k.setTcb cur fun tcb => tcb.setFlags { flags with user := true }
    some { d with sys := { d.sys with k := k }, stage := Function.update d.stage u .stored }
  | .stored => some { d with stage := Function.update d.stage u (.read d.sys.k.nPriv) }
  | .read nPriv =>
    some { d with
      sys := { d.sys with k := msrControl d.sys.k (nPriv || true) }
      stage := Function.update d.stage u .out
      dropped := Function.update d.dropped u true }

inductive DropLabel
  /-- A step of the system, other than the whole of `port_set_unprivileged` at once. -/
  | sys (l : Label)
  | instr

def Label.isInterrupt : Label → Bool
  | .tick => true
  | .pendSV _ => true
  | _ => false

def Label.drops : Label → Bool
  | .call .setUnprivileged => true
  | _ => false

/-- The control block that the code is about to build anew. -/
def Pc.creates : Pc → Option Tid
  | .spawnAdd t _ _ => some t
  | _ => none

def Sys.creates (s : Sys) (l : Label) : Option Tid :=
  match l with
  | .go => s.k.currentTask.bind fun u => (s.pc u).creates
  | _ => none

/-- A new task is outside. -/
def Drops.forget (d : Drops) : Option Tid → Drops
  | none => d
  | some t =>
    { d with
      stage := Function.update d.stage t .out
      entered := Function.update d.entered t false
      dropped := Function.update d.dropped t false }

/-- The code on the CPU is outside. -/
def Drops.outside (d : Drops) : Bool := d.sys.k.currentTask.all fun u => d.stage u = .out

/-- Interrupts may come at any time, all other steps only outside. -/
def Drops.Admits (d : Drops) (l : Label) : Prop :=
  l.drops = false ∧ (l.isInterrupt = true ∨ d.outside = true)

instance decidableAdmits (d : Drops) (l : Label) : Decidable (d.Admits l) :=
  inferInstanceAs (Decidable (_ ∧ _))

def Drops.step (L : Layout) (d : Drops) : DropLabel → Option Drops
  | .sys l =>
    if d.Admits l then
      (d.sys.step L l).map fun s => { d with sys := s }.forget (d.sys.creates l)
    else none
  | .instr =>
    if d.sys.k.pendsv then none
    else
      match d.sys.k.currentTask with
      | none => none
      | some u => if d.sys.pc u = .app then d.advance u else none

/-- The same steps in one memory. -/
inductive Drops.Moves (P : Placement) (L : Layout) (d : Drops) : DropLabel → Drops → Prop
  | sys (l : Label) (s' : Sys) (hl : d.Admits l) (hs : d.sys.Moves P L l s') :
      Drops.Moves P L d (.sys l) ({ d with sys := s' }.forget (d.sys.creates l))
  | instr (d' : Drops) (hd : d.step L .instr = some d') : Drops.Moves P L d .instr d'

def Drops.Tame (P : Placement) (L : Layout) (d : Drops) : DropLabel → Prop
  | .sys l => d.sys.Tame P L l
  | .instr => True

def Drops.TameStep (P : Placement) (L : Layout) (d d' : Drops) : Prop :=
  ∃ l, d.Tame P L l ∧ d.Moves P L l d'

def Drops.follow (P : Placement) (L : Layout) (d : Drops) : DropLabel → Option Drops
  | .sys l =>
    if d.Admits l then
      (d.sys.follow P L l).map fun s => { d with sys := s }.forget (d.sys.creates l)
    else none
  | .instr => d.step L .instr

def Drops.Still (d : Drops) : DropLabel → Bool
  | .sys l => d.sys.Still l
  | .instr => true

/-- What of a kernel the privilege of tasks depends on. -/
def Kernel.privilege (k : Kernel) := (k.nPriv, k.currentTask, fun t => (k.tcb t).user)

section Kept
variable {L : Layout} {k k' : Kernel} {s s' : Sys} {g : Ghost} {t u : Tid} {l : Label}

theorem privilege_of_standing (h : k'.standing = k.standing) : k'.privilege = k.privilege := by
  rw [Kernel.privilege, Kernel.privilege, standing_nPriv h, standing_currentTask h]
  congr 2
  exact funext fun t => standing_user h t

theorem finish_privilege (s : Sys) (u : Tid) (r : Ret) (v : Nat) :
    (s.finish u r v).k.privilege = s.k.privilege := congrArg Kernel.privilege (finish_k s u r v)

theorem runOp_privilege (s : Sys) (u : Tid) (op : Op) (r : Ret) :
    (s.runOp u op r).k.privilege = s.k.privilege := by
  rw [runOp_k]
  exact privilege_of_standing (standing_enter op u)

theorem dispatch_privilege (s : Sys) (u : Tid) (item : WorkItem) :
    (s.dispatch u item).k.privilege = s.k.privilege := by
  rw [Sys.dispatch]
  cases decode s.k item with
  | sleep ticks => exact privilege_of_standing (standing_delaySection ticks)
  | _ => rfl

theorem create_privilege {c : Creation} {r : Ret} (hstep : s.create L u c r = some s') :
    s'.k.privilege = s.k.privilege := by
  rw [Sys.create] at hstep
  obtain ⟨⟨k, p⟩, halloc, rfl⟩ := Option.map_eq_some_iff.mp hstep
  have hk : k.privilege = s.k.privilege := by
    rcases alloc_cases halloc with ⟨_, rfl⟩ | ⟨heap, _, _, rfl⟩
    · rfl
    · split
      · rfl
      · cases c <;> rfl
  dsimp only
  split
  · exact (finish_privilege _ _ _ _).trans hk
  · cases c <;> exact hk

theorem checkWait_privilege (s : Sys) (u : Tid) (op : Op) (r : Ret) :
    (s.checkWait u op r).k.privilege = s.k.privilege := by
  have hclear : (s.k.setTcb u fun tcb => { tcb with timedOut := false }).privilege =
      s.k.privilege := privilege_of_standing (standing_setTcb rfl)
  rw [Sys.checkWait]
  cases op.waitList with
  | none => rfl
  | some w =>
    dsimp only
    split
    · split
      · exact finish_privilege _ _ _ _
      · rfl
    · split
      · exact (finish_privilege _ _ _ _).trans hclear
      · exact finish_privilege _ _ _ _

theorem schedulerAddTask_privilege (k : Kernel) (t : Tid) (alloc : Nat) (args : TaskArgs) :
    (schedulerAddTask (initTcb k t alloc args) t).privilege = (k.nPriv, k.currentTask,
      Function.update (fun t => (k.tcb t).user) t false) := by
  have hj := schedulerAddTask_joined k t alloc args
  have huser : ((schedulerAddTask (initTcb k t alloc args) t).tcb t).user = false := by
    simp [schedulerAddTask, initTcb, portTriggerPendsv, Tcb.zero]
  have hnPriv : (schedulerAddTask (initTcb k t alloc args) t).nPriv = k.nPriv :=
    (congrArg Kernel.nPriv hj.rest :)
  have hcur : (schedulerAddTask (initTcb k t alloc args) t).currentTask = k.currentTask :=
    (congrArg Kernel.currentTask hj.rest :)
  rw [Kernel.privilege, hnPriv, hcur]
  congr 2
  funext x
  by_cases hx : x = t
  · subst hx
    rw [Function.update_self]
    exact huser
  · rw [Function.update_of_ne hx, hj.other x hx]

theorem kworkPop_privilege {item : WorkItem} (h : kworkPopLocked k = some (k', item)) :
    k'.privilege = k.privilege := by
  rw [kworkPopLocked] at h
  split at h
  · cases h
  · obtain ⟨rfl, _⟩ := Prod.mk.inj (Option.some.inj h)
    rfl

theorem queueInitBuffer_privilege {p : Nat} {ok : Bool}
    (h : queueInitBuffer L k p = some (k', ok)) : k'.privilege = k.privilege := by
  simp only [queueInitBuffer] at h
  split at h
  · obtain ⟨rfl, _⟩ := Prod.mk.inj (Option.some.inj h)
    rfl
  · obtain ⟨⟨heap, buffer⟩, _, heq⟩ := Option.map_eq_some_iff.mp h
    obtain ⟨rfl, _⟩ := Prod.mk.inj heq
    rfl

theorem kObjAlloc_privilege (k : Kernel) (p : Nat) (type : KobjType) :
    (kObjAlloc k p type).1.privilege = k.privilege := by
  rw [kObjAlloc]
  repeat' split
  all_goals rfl

/-- The kernel's own code never touches privilege, except for a new task's. -/
theorem go_privilege (hstep : s.go L u = some s') :
    s'.k.privilege = (s.k.nPriv, s.k.currentTask, fun t =>
      if (s.pc u).creates = some t then false else (s.k.tcb t).user) := by
  have hsame : ∀ {p}, s.pc u = p → p.creates = none → s'.k.privilege = s.k.privilege →
      s'.k.privilege = (s.k.nPriv, s.k.currentTask, fun t =>
        if (s.pc u).creates = some t then false else (s.k.tcb t).user) := by
    rintro p rfl hnone hk
    rw [hk, hnone]
    rfl
  cases go_cases hstep with
  | svcRet hpc => exact hsame hpc rfl rfl
  | enter op r hpc => exact hsame hpc rfl (runOp_privilege _ _ _ _)
  | retry op r hpc => exact hsame hpc rfl (runOp_privilege _ _ _ _)
  | block op r hpc => exact hsame hpc rfl rfl
  | check op r hpc => exact hsame hpc rfl (checkWait_privilege _ _ _ _)
  | wake t v after hpc => exact hsame hpc rfl (privilege_of_standing (standing_wakeSection _))
  | pend after hpc =>
    cases after with
    | ret r v => exact hsame hpc rfl (finish_privilege _ _ _ _)
    | loop => exact hsame hpc rfl rfl
  | workerStart hpc => exact hsame hpc rfl rfl
  | popNone hpc hpop => exact hsame hpc rfl rfl
  | popSome k item hpc hpop => exact hsame hpc rfl (kworkPop_privilege hpop)
  | workerSleep hpc => exact hsame hpc rfl (privilege_of_standing standing_workerWait)
  | dispatch item hpc => exact hsame hpc rfl (dispatch_privilege _ _ _)
  | create c r s' hpc hrun => exact hsame hpc rfl (create_privilege hrun)
  | queueBuffer p r k ok hpc hrun => exact hsame hpc rfl (queueInitBuffer_privilege hrun)
  | queueFree p r k hpc hrun =>
    obtain ⟨heap, _, rfl⟩ := Option.map_eq_some_iff.mp hrun
    exact hsame hpc rfl (finish_privilege _ _ _ _)
  | publish p type r hpc =>
    exact hsame hpc rfl ((finish_privilege _ _ _ _).trans (kObjAlloc_privilege _ _ _))
  | spawnNone args hpc hfree => exact hsame hpc rfl (finish_privilege _ _ _ _)
  | spawnTcb args k t hpc hfree =>
    obtain ⟨_, hk⟩ := getFreeTcb_some hfree
    exact hsame hpc rfl (congrArg Kernel.privilege hk :)
  | spawnStack t args heap alloc hpc hrun => exact hsame hpc rfl rfl
  | spawnFree t hpc => exact hsame hpc rfl (finish_privilege _ _ _ _)
  | spawnAdd t alloc args hpc =>
    refine (finish_privilege _ _ _ _).trans ((schedulerAddTask_privilege _ _ _ _).trans ?_)
    congr 2
    funext x
    by_cases hx : x = t
    · subst hx
      simp [hpc, Pc.creates]
    · have hne : ¬ (t = x) := fun heq => hx heq.symm
      simp [hpc, Pc.creates, Function.update_of_ne hx, hne]

theorem sysTick_privilege (s : Sys) : s.sysTick.k.privilege = s.k.privilege := by
  rw [sysTick_k]
  exact privilege_of_standing standing_sysTickHandler

/-- A switch sets nPRIV from the flags of the task that it puts on the CPU. Without a
READY task nothing changes. -/
theorem switch_privilege {oldSp : Nat} (h : portSwitchContext L k oldSp = some k') :
    (∀ t, (k'.tcb t).user = (k.tcb t).user) ∧
      ((k'.currentTask = k.currentTask ∧ k'.nPriv = k.nPriv) ∨
        ∃ n, k'.currentTask = some n ∧ k'.nPriv = (k'.tcb n).user) := by
  obtain ⟨k₁, hsave, hrest⟩ := portSwitchContext_cases h
  have hfirst : k₁.standing = k.standing := by
    rcases saveCurrent_cases hsave with ⟨_, rfl⟩ | ⟨cur, _, rfl⟩
    · rfl
    · exact standing_setTcb (k := { k with pendsv := false }) rfl
  have huser := standing_user hfirst
  rcases hrest with ⟨k₂, n, hnext, rfl⟩ | ⟨cur, _, rfl⟩ | rfl
  · obtain ⟨pr, c, rfl⟩ := schedulerGetNext_cursor hnext
    have hrun : ({ k₁ with rrCurrent := Function.update k₁.rrCurrent pr (some c) }.setTcb n
        fun tcb => { tcb with state := .running }).standing =
        { k₁ with rrCurrent := Function.update k₁.rrCurrent pr (some c) }.standing :=
      standing_setTcb rfl
    exact ⟨fun t => (standing_user hrun t).trans (huser t), Or.inr ⟨n, rfl, rfl⟩⟩
  · have hrun : (k₁.setTcb cur fun tcb => { tcb with state := .running }).standing =
        k.standing := (standing_setTcb rfl).trans hfirst
    exact ⟨standing_user hrun, Or.inl ⟨standing_currentTask hrun, standing_nPriv hrun⟩⟩
  · exact ⟨huser, Or.inl ⟨standing_currentTask hfirst, standing_nPriv hfirst⟩⟩

theorem call_privilege {c : Call} (hc : (Label.call c).drops = false) (s : Sys) (u : Tid) :
    (s.call u c).k.privilege = s.k.privilege := by
  have hobject : ∀ handle type f missing,
      (s.callObject u handle type f missing).k.privilege = s.k.privilege := by
    intro handle type f missing
    rw [Sys.callObject]
    cases kObjGet s.k handle type with
    | none => exact finish_privilege _ _ _ _
    | some p => rfl
  cases c with
  | setUnprivileged => cases hc
  | taskCreate args =>
    rw [Sys.call]
    split
    · rfl
    · exact finish_privilege _ _ _ _
  | _ => first | rfl | exact hobject _ _ _ _

theorem thread_privilege (hdrops : l.drops = false) (hcur : s.k.currentTask = some u)
    (hstep : s.thread L u l = some s') : s'.k.privilege = (s.k.nPriv, s.k.currentTask,
      fun t => if s.creates l = some t then false else (s.k.tcb t).user) := by
  cases l with
  | tick => cases hstep
  | pendSV oldSp => cases hstep
  | svc id a0 a1 a2 a3 =>
    rw [Sys.thread] at hstep
    split at hstep
    · obtain rfl := Option.some.inj hstep
      exact privilege_of_standing (standing_svcHandler _)
    · cases hstep
  | call c =>
    rw [Sys.thread] at hstep
    split at hstep
    · obtain rfl := Option.some.inj hstep
      exact call_privilege hdrops s u
    · cases hstep
  | compute r0 ram =>
    rw [Sys.thread] at hstep
    split at hstep
    · obtain rfl := Option.some.inj hstep
      rfl
    · cases hstep
  | go =>
    rw [go_privilege hstep, Sys.creates, hcur]
    rfl

/-- nPRIV and the flags behind any step but the whole of `port_set_unprivileged`. -/
theorem step_privilege (hdrops : l.drops = false) (hstep : s.step L l = some s') :
    (∀ t, (s'.k.tcb t).user = if s.creates l = some t then false else (s.k.tcb t).user) ∧
      ((s'.k.currentTask = s.k.currentTask ∧ s'.k.nPriv = s.k.nPriv) ∨
        ∃ n, s'.k.currentTask = some n ∧ s'.k.nPriv = (s'.k.tcb n).user) := by
  obtain ⟨rfl, htick⟩ | ⟨oldSp, k', rfl, _, hrun, rfl⟩ | ⟨u, _, hcur, hthread⟩ := step_cases hstep
  · have hk := sysTick_privilege s
    rw [← htick] at hk
    exact ⟨fun t => (congrFun (congrArg (fun p => p.2.2) hk) t :),
      Or.inl ⟨(congrArg (fun p => p.2.1) hk :), (congrArg Prod.fst hk :)⟩⟩
  · exact switch_privilege hrun
  · have hk := thread_privilege hdrops hcur hthread
    exact ⟨fun t => (congrFun (congrArg (fun p => p.2.2) hk) t :),
      Or.inl ⟨(congrArg (fun p => p.2.1) hk :), (congrArg Prod.fst hk :)⟩⟩

/-- A step of another task does nothing to a task that is on no list and in no syscall. -/
theorem Change.apart (hc : Change s g u s') (h : Inv L s g) (ht : t ≠ u)
    (hplace : (g.place t).tracked = false) (hw : t ≠ g.worker)
    (hnew : (s.pc u).creates ≠ some t) :
    s'.k.tasks.tcb t = s.k.tasks.tcb t ∧ s'.pc t = s.pc t := by
  have honly : ∀ {x f}, Only s s' u x f → (x = u ∨ (g.place x).tracked = true) →
      s'.k.tasks.tcb t = s.k.tasks.tcb t ∧ s'.pc t = s.pc t := by
    intro x f ho hx
    refine ⟨ho.other ?_, ho.pc t ht⟩
    rintro rfl
    rcases hx with hx | hx
    · exact ht hx
    · rw [hplace] at hx
      cases hx
  have hserved : ∀ x, (s.pc u).serves = some x → (g.place x).tracked = true := by
    intro x hx
    rw [(h.placed.serves_iff u x).mp hx]
    rfl
  cases hc with
  | quiet ho => exact honly ho (Or.inl rfl)
  | sleep hpc hn ho hpc' => exact honly ho (Or.inl rfl)
  | @park op r w hpc htarget hms ho hpc' =>
    have hfits := h.coded.pcs u
    rw [hpc] at hfits
    rcases fits_block u hfits.1 htarget hms with ⟨_, _, hself⟩ | ⟨c, rfl, _, hcaller, _⟩
    · exact honly ho (Or.inl hself)
    · refine honly ho (Or.inr (hserved _ ?_))
      rw [hpc, hcaller]
      rfl
  | unlink hpc hsource hx ho hpc' =>
    refine honly ho (Or.inr ?_)
    rw [hx]
    rfl
  | check hpc ho => exact honly ho (Or.inl rfl)
  | @wake x v after hpc ho hpc' =>
    refine honly ho (Or.inr ?_)
    cases after with
    | ret r v' =>
      rw [(h.placed.wakes_iff u x).mp (by rw [hpc]; rfl)]
      rfl
    | loop => exact hserved x (by rw [hpc]; rfl)
  | rest hpc hu ho hpc' => exact honly ho (Or.inl rfl)
  | @delay item hpc hid ho hpc' => exact honly ho (Or.inr (hserved _ (by rw [hpc]; rfl)))
  | unprivileged hpc ho => exact honly ho (Or.inl rfl)
  | @post item hpc hpc' hcaller hu hp =>
    refine ⟨congrArg Tcb.plain (hp.other t (by rw [hcaller]; exact ht) hw), ?_⟩
    rw [hpc', Function.update_of_ne ht]
  | @born x alloc args hpc hk hj hpc' =>
    have hx : t ≠ x := by
      rintro rfl
      exact hnew (by rw [hpc]; rfl)
    refine ⟨congrArg Tcb.plain (hj.other t hx), ?_⟩
    rw [hpc', Function.update_of_ne ht, Function.update_of_ne hx]

theorem Inv.untracked (h : Inv L s g) (hstate : (s.k.tcb t).state ≠ .waiting) :
    (g.place t).tracked = false := by
  by_cases hfresh : g.place t = .fresh
  · rw [hfresh]
    rfl
  · rw [h.placed.own_of_state hfresh hstate]
    rfl

/-- What the code of another task, a tick and a switch keep of a task that runs its own
code and does not wait. -/
theorem Inv.apart (h : Inv L s g) (hstep : s.step L l = some s') (hpc : s.pc t = .app)
    (hstate : (s.k.tcb t).state ≠ .waiting) (hcur : l.isInterrupt = true ∨ s.k.currentTask ≠ some t)
    (hnew : s.creates l ≠ some t) :
    s'.pc t = .app ∧ (s'.k.tcb t).state ≠ .waiting ∧ (s'.k.tcb t).flags = (s.k.tcb t).flags := by
  have hsame : ∀ s' : Sys, s'.k.tasks.tcb t = s.k.tasks.tcb t →
      (s'.k.tcb t).state ≠ .waiting ∧ (s'.k.tcb t).flags = (s.k.tcb t).flags := by
    intro s' htcb
    have hst : (s'.k.tcb t).state = (s.k.tcb t).state := (congrArg Tcb.state htcb :)
    rw [hst]
    exact ⟨hstate, (congrArg Tcb.flags htcb :)⟩
  obtain ⟨_, htick⟩ | ⟨oldSp, k', rfl, _, hrun, rfl⟩ | ⟨u, hpend, hu, hthread⟩ := step_cases hstep
  · rw [htick]
    exact ⟨(congrFun (sysTick_frame s).1 t).trans hpc, hsame _ (sysTick_awake hstate)⟩
  · obtain ⟨n, hn⟩ := h.switched hrun
    obtain ⟨sp, r0, htcb⟩ := hn.tcb t
    refine ⟨hpc, ?_, ?_⟩
    · rw [htcb, Tcb.switched]
      dsimp only
      split
      · simp
      · split
        · simp
        · exact hstate
    · rw [htcb]
      rfl
  · have ht : t ≠ u := by
      rintro rfl
      rcases hcur with hl | hne
      · cases l <;> first | cases hl; done | cases hthread
      · exact hne hu
    have hnew' : (s.pc u).creates ≠ some t := by
      intro hc
      cases l with
      | go => exact hnew (by rw [Sys.creates, hu]; exact hc)
      | tick => cases hthread
      | pendSV oldSp => cases hthread
      | _ =>
        have happ : s.pc u = .app := by
          by_contra hno
          simp [Sys.thread, hno] at hthread
        rw [happ] at hc
        cases hc
    obtain ⟨htcb, hpc'⟩ := (h.change hu hpend hthread).apart h ht (h.untracked hstate)
      (h.app_not_worker hpc) hnew'
    exact ⟨hpc'.trans hpc, hsame _ htcb⟩

theorem Sys.Started.privilege (h : s.Started L) :
    s.k.nPriv = false ∧ ∀ t, (s.k.tcb t).user = false := by
  obtain ⟨heapMem, ram, tasks, s₁, hboot, hstart, _⟩ := h
  obtain ⟨⟨k, first⟩, hnext, rfl⟩ := Option.map_eq_some_iff.mp hstart
  have hboot' : ∀ t, (s₁.k.tcb t).user = false := by
    refine bootTasks_induction (P := fun s => ∀ t, (s.k.tcb t).user = false)
      (fun s task s' hs hstep => ?_) (fun _ => rfl) hboot
    obtain ⟨⟨k, created⟩, hcreate, rfl⟩ := Option.map_eq_some_iff.mp hstep
    rcases taskCreate_cases hcreate with
      ⟨_, rfl, rfl⟩ | ⟨t, heap, alloc, _, _, _, ⟨_, rfl, rfl⟩ | ⟨_, rfl, rfl⟩⟩
    · exact hs
    · exact hs
    · intro x
      have hk := schedulerAddTask_privilege { s.k with
        heap := heap
        tcbUsed := Function.update s.k.tcbUsed t true } t alloc task.2
      have hx := congrFun (congrArg (fun p => p.2.2) hk) x
      refine (show _ = Function.update (fun t => (s.k.tcb t).user) t false x from hx).trans ?_
      by_cases hxt : x = t
      · rw [hxt]
        exact Function.update_self _ _ _
      · exact (Function.update_of_ne hxt _ _).trans (hs x)
  obtain ⟨pr, c, rfl⟩ := schedulerGetNext_cursor hnext
  have hrun : ({ s₁.k with rrCurrent := Function.update s₁.k.rrCurrent pr (some c) }.setTcb first
      fun tcb => { tcb with state := .running }).standing =
      { s₁.k with rrCurrent := Function.update s₁.k.rrCurrent pr (some c) }.standing :=
    standing_setTcb rfl
  have huser := fun t => (standing_user hrun t).trans (hboot' t)
  exact ⟨huser first, huser⟩

/-- Privilege is being dropped: the flag is set, nPRIV perhaps not yet. -/
def Drop.Dropping (stage : Drop) : Prop := stage = .stored ∨ ∃ b, stage = .read b

/-- What holds between the flags of a task and how far it is. -/
structure Drops.TaskOk (d : Drops) (t : Tid) : Prop where
  code : d.stage t ≠ .out → d.sys.pc t = .app ∧ (d.sys.k.tcb t).state ≠ .waiting
  located : ∀ cur, d.stage t = .located cur → cur = t
  loaded : ∀ cur flags, d.stage t = .loaded cur flags →
    cur = t ∧ flags = (d.sys.k.tcb t).flags
  flagged : (d.stage t).Dropping → (d.sys.k.tcb t).user = true
  never : d.entered t = false →
    (d.sys.k.tcb t).user = false ∧ d.stage t = .out ∧ d.dropped t = false
  done : d.dropped t = true → (d.sys.k.tcb t).user = true ∧ d.stage t = .out

structure Drops.Ok (d : Drops) : Prop where
  task : ∀ t, d.TaskOk t
  control : ∀ c, d.sys.k.currentTask = some c →
    (d.sys.k.nPriv = true → (d.sys.k.tcb c).user = true) ∧
      ((d.sys.k.tcb c).user = true → d.sys.k.nPriv = true ∨ (d.stage c).Dropping)

variable {P : Placement} {d d' : Drops} {o : Option Tid}

theorem forget_sys (d : Drops) : (d.forget o).sys = d.sys := by
  cases o <;> rfl

theorem forget_stage (d : Drops) :
    (d.forget o).stage t = if o = some t then .out else d.stage t := by
  cases o with
  | none => rfl
  | some x =>
    by_cases hx : t = x
    · subst hx
      simp [Drops.forget]
    · simp [Drops.forget, hx, Ne.symm hx]

theorem forget_entered (d : Drops) :
    (d.forget o).entered t = if o = some t then false else d.entered t := by
  cases o with
  | none => rfl
  | some x =>
    by_cases hx : t = x
    · subst hx
      simp [Drops.forget]
    · simp [Drops.forget, hx, Ne.symm hx]

theorem forget_dropped (d : Drops) :
    (d.forget o).dropped t = if o = some t then false else d.dropped t := by
  cases o with
  | none => rfl
  | some x =>
    by_cases hx : t = x
    · subst hx
      simp [Drops.forget]
    · simp [Drops.forget, hx, Ne.symm hx]

/-- The task on the CPU is not the one that it builds. -/
theorem Inv.creates_ne (h : Inv L s g) (hcur : s.k.currentTask = some u) :
    s.creates l ≠ some u := by
  intro hc
  cases l with
  | go =>
    rw [Sys.creates, hcur] at hc
    have hc' : (s.pc u).creates = some u := hc
    have hspawns : (s.pc u).spawns = some u := by
      revert hc'
      cases s.pc u <;> simp [Pc.creates, Pc.spawns]
    exact (h.pendsv_or hcur).1 (h.scheduled.spawns u u hspawns).1
  | _ => cases hc

theorem Drops.Ok.sysStep (hok : d.Ok) (h : Inv L d.sys g) (hdrops : l.drops = false)
    (hout : l.isInterrupt = true ∨ d.outside = true) (hstep : d.sys.step L l = some s') :
    ({ d with sys := s' }.forget (d.sys.creates l)).Ok := by
  obtain ⟨huser, hcontrol⟩ := step_privilege hdrops hstep
  constructor
  · intro t
    by_cases hnew : d.sys.creates l = some t
    · have hu : (s'.k.tcb t).user = false := (huser t).trans (if_pos hnew)
      constructor <;> simp only [forget_sys, forget_stage, forget_entered, forget_dropped,
        if_pos hnew]
      · exact fun hno => absurd rfl hno
      · exact fun _ hno => by cases hno
      · exact fun _ _ hno => by cases hno
      · rintro (hno | ⟨b, hno⟩) <;> cases hno
      · exact fun _ => ⟨hu, trivial, trivial⟩
      · exact fun hno => by cases hno
    · have hu : (s'.k.tcb t).user = (d.sys.k.tcb t).user := (huser t).trans (if_neg hnew)
      have ht := hok.task t
      have hkept : d.stage t ≠ .out → s'.pc t = .app ∧ (s'.k.tcb t).state ≠ .waiting ∧
          (s'.k.tcb t).flags = (d.sys.k.tcb t).flags := by
        intro hin
        obtain ⟨hpc, hstate⟩ := ht.code hin
        refine h.apart hstep hpc hstate (hout.imp_right fun ho hc => hin ?_) hnew
        rw [Drops.outside, hc] at ho
        exact of_decide_eq_true ho
      constructor <;> simp only [forget_sys, forget_stage, forget_entered, forget_dropped,
        if_neg hnew, hu]
      · exact fun hin => ⟨(hkept hin).1, (hkept hin).2.1⟩
      · exact ht.located
      · intro cur flags hin
        obtain ⟨hcur, hflags⟩ := ht.loaded cur flags hin
        refine ⟨hcur, hflags.trans (hkept fun hno => ?_).2.2.symm⟩
        rw [hin] at hno
        cases hno
      · exact ht.flagged
      · exact ht.never
      · exact ht.done
  · intro c hc
    rw [forget_sys] at hc ⊢
    rw [forget_stage]
    rcases hcontrol with ⟨hsame, hnPriv⟩ | ⟨n, hn, hnPriv⟩
    · have hc' : d.sys.k.currentTask = some c := hsame.symm.trans hc
      have hnew := h.creates_ne (l := l) hc'
      have huc := (huser c).trans (if_neg hnew)
      rw [if_neg hnew]
      change (s'.k.nPriv = true → (s'.k.tcb c).user = true) ∧
        ((s'.k.tcb c).user = true → s'.k.nPriv = true ∨ (d.stage c).Dropping)
      rw [hnPriv, huc]
      exact hok.control c hc'
    · obtain rfl : n = c := Option.some.inj (hn.symm.trans hc)
      exact ⟨fun hp => hnPriv.symm.trans hp, fun hu => Or.inl (hnPriv.trans hu)⟩

/-- An instruction of `u` is nobody else's business. -/
theorem Drops.Ok.own (hok : d.Ok)
    (hcur' : d'.sys.k.currentTask = some u) (hpc : d'.sys.pc = d.sys.pc)
    (htcb : ∀ t, t ≠ u → d'.sys.k.tcb t = d.sys.k.tcb t)
    (hghost : ∀ t, t ≠ u →
      d'.stage t = d.stage t ∧ d'.entered t = d.entered t ∧ d'.dropped t = d.dropped t)
    (hself : d'.TaskOk u) (hcontrol : (d'.sys.k.nPriv = true → (d'.sys.k.tcb u).user = true) ∧
      ((d'.sys.k.tcb u).user = true → d'.sys.k.nPriv = true ∨ (d'.stage u).Dropping)) :
    d'.Ok := by
  constructor
  · intro t
    by_cases ht : t = u
    · rw [ht]
      exact hself
    · obtain ⟨hstage, hentered, hdropped⟩ := hghost t ht
      have hold := hok.task t
      constructor <;> simp only [hpc, htcb t ht, hstage, hentered, hdropped]
      · exact hold.code
      · exact hold.located
      · exact hold.loaded
      · exact hold.flagged
      · exact hold.never
      · exact hold.done
  · intro c hc
    obtain rfl : u = c := Option.some.inj (hcur'.symm.trans hc)
    exact hcontrol

/-- Inside the routine a task has entered it and not been through it. -/
theorem Drops.TaskOk.inside (h : d.TaskOk u) (hst : d.stage u ≠ .out) :
    d.entered u ≠ false ∧ d.dropped u ≠ true :=
  ⟨fun hin => hst (h.never hin).2.1, fun hd => hst (h.done hd).2⟩

/-- Nobody touches the flags between the load and the store. -/
theorem Drops.Ok.instr (hok : d.Ok) (h : Inv L d.sys g) (hcur : d.sys.k.currentTask = some u)
    (hpend : d.sys.k.pendsv = false) (hpc : d.sys.pc u = .app) (hstep : d.advance u = some d') :
    d'.Ok ∧ Inv L d'.sys g := by
  have hrun := h.running_of hcur hpend (by rw [hpc]; rfl)
  have hcode : d.sys.pc u = .app ∧ (d.sys.k.tcb u).state ≠ .waiting := ⟨hpc, by rw [hrun]; simp⟩
  have hu := hok.task u
  obtain ⟨hpriv, hflag⟩ := hok.control u hcur
  have hother : ∀ (x : Drop) (t : Tid), t ≠ u →
      Function.update d.stage u x t = d.stage t := fun x t ht => Function.update_of_ne ht _ _
  rw [Drops.advance] at hstep
  cases hst : d.stage u with
  | out =>
    simp only [hst, hcur] at hstep
    split at hstep
    · cases hstep
    · rename_i hno
      obtain rfl := Option.some.inj hstep
      have huser : (d.sys.k.tcb u).user ≠ true := by
        intro htrue
        rcases hflag htrue with hp | ⟨hd | ⟨b, hd⟩⟩
        · exact hno hp
        · rw [hst] at hd
          cases hd
        · rw [hst] at hd
          cases hd
      refine ⟨hok.own hcur rfl (fun _ _ => rfl) (fun t ht => ?_) ⟨?_, ?_, ?_, ?_, ?_, ?_⟩ ?_, h⟩
      · exact ⟨hother _ t ht, Function.update_of_ne ht _ _, rfl⟩
      · exact fun _ => hcode
      · intro cur hin
        simpa using hin.symm
      · intro cur flags hin
        simp at hin
      · rintro (hin | ⟨b, hin⟩) <;> simp at hin
      · intro hin
        simp at hin
      · exact fun hd => absurd (hu.done hd).1 huser
      · exact ⟨hpriv, fun htrue => absurd htrue huser⟩
  | located cur =>
    simp only [hst] at hstep
    obtain rfl := Option.some.inj hstep
    obtain rfl := hu.located cur hst
    refine ⟨hok.own hcur rfl (fun _ _ => rfl) (fun t ht => ?_) ⟨?_, ?_, ?_, ?_, ?_, ?_⟩ ?_, h⟩
    · exact ⟨hother _ t ht, rfl, rfl⟩
    · exact fun _ => hcode
    · intro cur' hin
      simp at hin
    · intro cur' flags hin
      simp only [Function.update_self, Drop.loaded.injEq] at hin
      exact ⟨hin.1.symm, hin.2.symm⟩
    · rintro (hin | ⟨b, hin⟩) <;> simp at hin
    · exact fun hin => absurd hin (hu.inside (by simp [hst])).1
    · exact fun hd => absurd hd (hu.inside (by simp [hst])).2
    · refine ⟨hpriv, fun htrue => (hflag htrue).imp_right ?_⟩
      rintro (hin | ⟨b, hin⟩) <;> rw [hst] at hin <;> cases hin
  | loaded cur flags =>
    simp only [hst] at hstep
    obtain rfl := Option.some.inj hstep
    obtain ⟨rfl, rfl⟩ := hu.loaded cur flags hst
    have hstore : (d.sys.k.setTcb cur fun tcb =>
        tcb.setFlags { (d.sys.k.tcb cur).flags with user := true }) =
        d.sys.k.setTcb cur fun tcb => { tcb with user := true } := setTcb_congr rfl
    have hset := h.setUser d.sys.k.nPriv hcur hpend hpc
    have huser : ((d.sys.k.setTcb cur fun tcb => { tcb with user := true }).tcb cur).user
        = true := by
      simp
    simp only [hstore]
    refine ⟨hok.own hcur rfl (fun t ht => by dsimp only; rw [setTcb_tcb_of_ne _ _ ht])
      (fun t ht => ?_)
      ⟨?_, ?_, ?_, ?_, ?_, ?_⟩ ?_, hset⟩
    · exact ⟨hother _ t ht, rfl, rfl⟩
    · intro _
      refine ⟨hpc, ?_⟩
      simpa using hcode.2
    · intro cur' hin
      simp at hin
    · intro cur' flags hin
      simp at hin
    · exact fun _ => huser
    · exact fun hin => absurd hin (hu.inside (by simp [hst])).1
    · exact fun hd => absurd hd (hu.inside (by simp [hst])).2
    · exact ⟨fun _ => huser, fun _ => Or.inr (Or.inl (Function.update_self _ _ _))⟩
  | stored =>
    simp only [hst] at hstep
    obtain rfl := Option.some.inj hstep
    have huser := hu.flagged (Or.inl hst)
    refine ⟨hok.own hcur rfl (fun _ _ => rfl) (fun t ht => ?_) ⟨?_, ?_, ?_, ?_, ?_, ?_⟩ ?_, h⟩
    · exact ⟨hother _ t ht, rfl, rfl⟩
    · exact fun _ => hcode
    · intro cur' hin
      simp at hin
    · intro cur' flags hin
      simp at hin
    · exact fun _ => huser
    · exact fun hin => absurd hin (hu.inside (by simp [hst])).1
    · exact fun hd => absurd hd (hu.inside (by simp [hst])).2
    · exact ⟨hpriv, fun _ => Or.inr (Or.inr ⟨_, Function.update_self _ _ _⟩)⟩
  | read b =>
    simp only [hst] at hstep
    obtain rfl := Option.some.inj hstep
    have huser := hu.flagged (Or.inr ⟨b, hst⟩)
    have hset : (msrControl d.sys.k (b || true)).nPriv = true := by
      rw [msrControl]
      cases d.sys.k.nPriv <;> simp
    have hadjust : Inv L { d.sys with k := msrControl d.sys.k (b || true) } g :=
      h.adjust hcur hpend hpc ⟨⟨rfl, rfl, fun _ _ => rfl, rfl, rfl⟩, rfl⟩ h.placed.lists
        ⟨rfl, rfl, rfl, rfl⟩ rfl rfl rfl
    refine ⟨hok.own hcur rfl (fun _ _ => rfl) (fun t ht => ?_) ⟨?_, ?_, ?_, ?_, ?_, ?_⟩ ?_, hadjust⟩
    · exact ⟨hother _ t ht, rfl, Function.update_of_ne ht _ _⟩
    · exact fun _ => hcode
    · intro cur' hin
      simp at hin
    · intro cur' flags hin
      simp at hin
    · exact fun _ => huser
    · exact fun hin => absurd hin (hu.inside (by simp [hst])).1
    · exact fun _ => ⟨huser, Function.update_self _ _ _⟩
    · exact ⟨fun _ => huser, fun _ => Or.inl hset⟩

/-- The state of the system under `d` is one that tame steps lead to. -/
structure Drops.Sound (L : Layout) (d : Drops) : Prop where
  ok : d.Ok
  inv : ∃ g, Inv L d.sys g
  mapped : Mapped L d.sys
  tabled : Tabled d.sys

/-- Privilege is not kept in the RAM of the clients. -/
theorem Drops.Ok.withRam (h : d.Ok) (m : ByteMemory.Memory) :
    { d with sys := d.sys.withRam m }.Ok := by
  refine ⟨fun t => ?_, h.control⟩
  have ht := h.task t
  exact ⟨ht.code, ht.located, ht.loaded, ht.flagged, ht.never, ht.done⟩

theorem advance_estate (hstep : d.advance u = some d') :
    d'.sys.k.estate = d.sys.k.estate ∧ d'.sys.pc = d.sys.pc := by
  rw [Drops.advance] at hstep
  cases hst : d.stage u with
  | out =>
    simp only [hst] at hstep
    split at hstep
    · cases hstep
    · obtain ⟨cur, _, rfl⟩ := Option.map_eq_some_iff.mp hstep
      exact ⟨rfl, rfl⟩
  | loaded cur flags =>
    simp only [hst] at hstep
    obtain rfl := Option.some.inj hstep
    exact ⟨estate_setTcb rfl, rfl⟩
  | _ =>
    simp only [hst] at hstep
    obtain rfl := Option.some.inj hstep
    exact ⟨rfl, rfl⟩

theorem Drops.Sound.step {l : DropLabel} (hL : L.heap.Placed) (h : d.Sound L)
    (htame : d.Tame P L l) (hmoves : d.Moves P L l d') : d'.Sound L := by
  obtain ⟨g, hg⟩ := h.inv
  cases hmoves with
  | sys l s' hl hs =>
    obtain ⟨t, m, hstep, rfl⟩ := h.mapped.tame_moves hg h.tabled htame hs
    obtain ⟨g', hg', _⟩ := hg.step hL hstep
    have hsys := forget_sys (o := d.sys.creates l) { d with sys := t.withRam m }
    refine ⟨?_, ?_, ?_, ?_⟩
    · have hok := h.ok.sysStep hg hl.1 hl.2 hstep
      cases hnew : d.sys.creates l with
      | none =>
        rw [hnew] at hok
        exact hok.withRam m
      | some x =>
        rw [hnew] at hok
        exact hok.withRam m
    · rw [hsys]
      exact ⟨g', hg'.withRam m⟩
    · rw [hsys]
      exact (h.mapped.step hL hg hstep).withRam m
    · rw [hsys]
      exact (h.tabled.step hstep : Tabled t)
  | instr d' hd =>
    rw [Drops.step] at hd
    split at hd
    · cases hd
    · rename_i hpend
      split at hd
      · cases hd
      · rename_i u hcur
        split at hd
        · rename_i hpc
          obtain ⟨hok, hinv⟩ := h.ok.instr hg hcur (by simpa using hpend) hpc hd
          obtain ⟨hestate, hpcs⟩ := advance_estate hd
          refine ⟨hok, ⟨g, hinv⟩, ?_, ?_⟩
          · exact h.mapped.quiet hL hestate fun v => Or.inl (congrFun hpcs v)
          · exact h.tabled.quiet (u := u) hestate (fun v _ => Or.inl (congrFun hpcs v))
              fun a type ha => h.tabled u a type (by rw [← hpcs]; exact ha)
        · cases hd

theorem Sys.Started.ok (h : s.Started L) : (Drops.start s).Ok := by
  obtain ⟨hnPriv, huser⟩ := h.privilege
  constructor
  · intro t
    constructor
    · exact fun hno => absurd rfl hno
    · intro _ hno
      cases hno
    · intro _ _ hno
      cases hno
    · rintro (hno | ⟨b, hno⟩) <;> cases hno
    · exact fun _ => ⟨huser t, rfl, rfl⟩
    · intro hno
      cases hno
  · intro c _
    constructor
    · intro hno
      rw [show (Drops.start s).sys.k.nPriv = false from hnPriv] at hno
      cases hno
    · intro hno
      rw [show ((Drops.start s).sys.k.tcb c).user = false from huser c] at hno
      cases hno

/-- Every state that tame steps lead to from a start. -/
theorem Drops.sound (hL : L.heap.Placed) (h : s.Started L)
    (hrun : Relation.ReflTransGen (Drops.TameStep P L) (Drops.start s) d) : d.Sound L := by
  induction hrun with
  | refl => exact ⟨h.ok, h.inv hL, h.mapped hL, h.tabled⟩
  | tail _ hlast ih =>
    obtain ⟨l, htame, hmoves⟩ := hlast
    exact ih.step hL htame hmoves

end Kept

end Crest
