import CrestRtos.Kernel.Standing
import CrestRtos.Properties.Backlog
import CrestRtos.Properties.TaskStates
import CrestRtos.System.Steps

/-!
# The worker comes first

`main` gives priority 0 to the worker alone and creates every other task below it.
Then nobody else runs while the worker has something to do: whenever another task
can take a step, the worker waits on an empty ring. The push that `kworkPush` does
too early for a worker about to sleep cannot happen, and the ring never holds two
items.
-/

namespace Crest
open IntrusiveList MachineWord Alloc Transition

/-- The priority of the task that the code is about to create. -/
def Pc.brings : Pc → Option Nat
  | .spawnTcb args => some args.priority
  | .spawnStack _ args => some args.priority
  | .spawnAdd _ _ args => some args.priority
  | _ => none

/-- A step that asks for no task of priority 0. -/
def Label.below : Label → Bool
  | .call (.taskCreate args) => args.priority != 0
  | _ => true

/-- The worker is about to start, and priority 0 has no other task. -/
def Sys.WorkerAlone (s : Sys) (w : Tid) : Prop :=
  s.pc w = .workerStart ∧ s.k.taskList 0 = some w ∧ (s.k.tcb w).next = none

instance workerAlone_decidable (s : Sys) (w : Tid) : Decidable (s.WorkerAlone w) := by
  unfold Sys.WorkerAlone
  infer_instance

/-- The states of a system whose tasks other than the worker `w` are all below it. -/
def Sys.ReachedBelow (L : Layout) (w : Tid) (s : Sys) : Prop :=
  ∃ s₀ labels, s₀.Started L ∧ s₀.WorkerAlone w ∧ (∀ l ∈ labels, l.below = true) ∧
    run (Sys.step L) s₀ labels = some s

/-- What holds besides of the worker `w` when it comes before all other tasks. -/
structure Foremost (s : Sys) (w : Tid) : Prop where
  top : s.k.taskList 0 = some w ∧ (s.k.tcb w).next = none
  brings : ∀ u, (s.pc u).brings ≠ some 0
  up : (s.k.tcb w).state ≠ .suspended
  first : ∀ c, s.k.currentTask = some c → c ≠ w → s.k.pendsv = false →
    (s.k.tcb w).state = .waiting
  resting : (s.k.tcb w).state = .waiting → s.pc w = .pend .loop ∨ s.pc w = .workerPop
  short : s.k.kwork.length ≤ 1

section Steps
variable {L : Layout} {s s' : Sys} {g : Ghost} {u t w : Tid} {l : Label}

theorem finish_brings (s : Sys) (u : Tid) (r : Ret) (v : Nat) :
    ((s.finish u r v).pc u).brings = none := by
  cases r <;> simp [Sys.finish, Sys.setPc, Sys.note, Pc.brings]

theorem setPc_brings (s : Sys) (u : Tid) (p : Pc) : ((s.setPc u p).pc u).brings = p.brings := by
  simp [Sys.setPc]

theorem runOp_brings (s : Sys) (u : Tid) (op : Op) (r : Ret) :
    ((s.runOp u op r).pc u).brings = none := by
  rw [runOp_pc_self]
  cases (op.enter s.k u).2 with
  | ret v => cases r <;> rfl
  | block =>
    simp only
    split <;> rfl
  | wake t v => rfl
  | pend v => rfl

/-- Code brings no task but the one it was asked for. -/
theorem go_brings (hstep : s.go L u = some s') :
    (s'.pc u).brings = (s.pc u).brings ∨ (s'.pc u).brings = none := by
  cases go_cases hstep with
  | svcRet hpc => exact Or.inr (setPc_brings s u _)
  | enter op r hpc => exact Or.inr (runOp_brings s u op r)
  | retry op r hpc => exact Or.inr (runOp_brings _ u _ r)
  | block op r hpc => exact Or.inr (setPc_brings _ u _)
  | check op r hpc =>
    rw [Sys.checkWait]
    cases op.waitList with
    | none => exact Or.inl rfl
    | some w =>
      right
      simp only
      split
      · split
        · apply finish_brings
        · apply setPc_brings
      · split <;> apply finish_brings
  | wake t v after hpc => exact Or.inr (setPc_brings _ u _)
  | pend after hpc =>
    right
    cases after with
    | ret r v => apply finish_brings
    | loop => apply setPc_brings
  | workerStart hpc => exact Or.inr (setPc_brings _ u _)
  | popNone hpc hpop => exact Or.inr (setPc_brings _ u _)
  | popSome k item hpc hpop => exact Or.inr (setPc_brings _ u _)
  | workerSleep hpc => exact Or.inr (setPc_brings _ u _)
  | dispatch item hpc =>
    right
    rw [Sys.dispatch]
    cases decode s.k item <;> apply setPc_brings
  | create c r s' hpc hrun =>
    right
    rw [Sys.create] at hrun
    obtain ⟨⟨k, p⟩, halloc, rfl⟩ := Option.map_eq_some_iff.mp hrun
    simp only
    split
    · apply finish_brings
    · cases c <;> apply setPc_brings
  | queueBuffer p r k ok hpc hrun =>
    right
    rw [setPc_brings]
    cases ok <;> rfl
  | queueFree p r k hpc hrun => exact Or.inr (finish_brings _ u r _)
  | publish p type r hpc => exact Or.inr (finish_brings _ u r _)
  | spawnNone args hpc hfree => exact Or.inr (finish_brings _ u .app _)
  | spawnTcb args k t hpc hfree =>
    left
    rw [setPc_brings, hpc]
    rfl
  | spawnStack t args heap alloc hpc hrun =>
    rw [setPc_brings, hpc]
    by_cases hnull : alloc = 0
    · rw [if_pos hnull]
      exact Or.inr rfl
    · rw [if_neg hnull]
      exact Or.inl rfl
  | spawnFree t hpc => exact Or.inr (finish_brings _ u .app _)
  | spawnAdd t alloc args hpc => exact Or.inr (finish_brings _ u .app _)

theorem call_brings (s : Sys) (u : Tid) (c : Call) (hl : (Label.call c).below = true)
    (hpc : s.pc u = .app) : ((s.call u c).pc u).brings ≠ some 0 := by
  have hgo : ∀ p : Pc, p.brings ≠ some 0 → ((s.setPc u p).pc u).brings ≠ some 0 := by
    intro p hp
    rw [setPc_brings]
    exact hp
  have hobject : ∀ handle type f missing, ((s.callObject u handle type f missing).pc u).brings
      ≠ some 0 := by
    intro handle type f missing
    rw [Sys.callObject]
    cases kObjGet s.k handle type with
    | none => simp [finish_brings]
    | some p => exact hgo _ (by simp [Pc.brings])
  cases c with
  | semTake handle ms => apply hobject
  | semGive handle => apply hobject
  | mutexLock handle ms => apply hobject
  | mutexUnlock handle => apply hobject
  | queuePush handle item ms => apply hobject
  | queuePop handle item ms => apply hobject
  | taskDelay ticks => exact hgo _ (by simp [Pc.brings])
  | taskYield => exact hgo _ (by simp [Pc.brings])
  | create c => exact hgo _ (by simp [Pc.brings])
  | taskCreate args =>
    have hargs : args.priority ≠ 0 := by simpa [Label.below] using hl
    rw [Sys.call]
    split
    · exact hgo _ (by simpa [Pc.brings] using hargs)
    · simp [finish_brings]
  | setUnprivileged =>
    change (s.pc u).brings ≠ some 0
    simp [hpc, Pc.brings]

theorem thread_brings (hl : l.below = true) (h : ∀ x, (s.pc x).brings ≠ some 0)
    (hstep : s.thread L u l = some s') (x : Tid) : (s'.pc x).brings ≠ some 0 := by
  cases l with
  | tick => cases hstep
  | pendSV oldSp => cases hstep
  | svc id a0 a1 a2 a3 =>
    rw [Sys.thread] at hstep
    split at hstep
    · obtain rfl := Option.some.inj hstep
      change (Function.update s.pc u .svcRet x).brings ≠ some 0
      by_cases hx : x = u
      · subst hx
        simp [Pc.brings]
      · rw [Function.update_of_ne hx]
        exact h x
    · cases hstep
  | call c =>
    rw [Sys.thread] at hstep
    split at hstep
    · rename_i hc
      obtain rfl := Option.some.inj hstep
      by_cases hx : x = u
      · subst hx
        exact call_brings s x c hl hc.1
      · rw [call_pc_other s c hx]
        exact h x
    · cases hstep
  | compute r0 ram =>
    rw [Sys.thread] at hstep
    split at hstep
    · obtain rfl := Option.some.inj hstep
      exact h x
    · cases hstep
  | go =>
    by_cases hx : x = u
    · subst hx
      rcases go_brings hstep with hsame | hnone
      · rw [hsame]
        exact h x
      · simp [hnone]
    · rcases go_pc_other hstep hx with hsame | happ
      · rw [hsame]
        exact h x
      · simp [happ, Pc.brings]

/-- A step of a task relinks nothing and suspends nobody, or links a new task in. -/
theorem Change.kept (hc : Change s g u s') :
    (∃ t alloc args, s.pc u = .spawnAdd t alloc args ∧ Joined s.k s'.k t args.priority) ∨
    (s'.k.frame = s.k.frame ∧ ∀ t, (s'.k.tcb t).row = (s.k.tcb t).row ∧
      ((s.k.tcb t).state ≠ .suspended → (s'.k.tcb t).state ≠ .suspended)) := by
  have honly : ∀ {x f}, Only s s' u x f → (∀ tcb, (f tcb).row = tcb.row) →
      (∀ tcb, tcb.state ≠ .suspended → (f tcb).state ≠ .suspended) →
      s'.k.frame = s.k.frame ∧ ∀ t, (s'.k.tcb t).row = (s.k.tcb t).row ∧
        ((s.k.tcb t).state ≠ .suspended → (s'.k.tcb t).state ≠ .suspended) := by
    intro x f ho hrow hstate
    refine ⟨ho.frame, fun t => ?_⟩
    by_cases htx : t = x
    · subst htx
      have hself : (s'.k.tcb t).state = (f (s.k.tasks.tcb t)).state :=
        (congrArg Tcb.state ho.self :)
      refine ⟨(congrArg Tcb.row ho.self :).trans (hrow _), fun hup => ?_⟩
      rw [hself]
      exact hstate _ hup
    · have hsame : (s'.k.tcb t).state = (s.k.tcb t).state := (congrArg Tcb.state (ho.other htx) :)
      refine ⟨(congrArg Tcb.row (ho.other htx) :), fun hup => ?_⟩
      rwa [hsame]
  cases hc with
  | quiet ho => exact Or.inr (honly ho (fun _ => rfl) fun _ h => h)
  | sleep hpc hn ho hpc' => exact Or.inr (honly ho (fun _ => rfl) fun _ _ => by simp [Tcb.asleep])
  | @park op _ w hpc htarget hms ho hpc' =>
    right
    apply honly ho
    · intro tcb
      rw [Tcb.parked]
      split <;> split <;> rfl
    · intro tcb hup
      rw [Tcb.parked]
      split <;> split <;> first | exact hup | simp
  | unlink hpc hsource hx ho hpc' => exact Or.inr (honly ho (fun _ => rfl) fun _ h => h)
  | check hpc ho => exact Or.inr (honly ho (fun _ => rfl) fun _ h => h)
  | wake hpc ho hpc' => exact Or.inr (honly ho (fun _ => rfl) fun _ _ => by simp [Tcb.woken])
  | rest hpc hu ho hpc' => exact Or.inr (honly ho (fun _ => rfl) fun _ _ => by simp)
  | delay hpc hid ho hpc' =>
    exact Or.inr (honly ho (fun _ => rfl) fun _ _ => by simp [Tcb.delayed, Tcb.asleep])
  | unprivileged hpc ho => exact Or.inr (honly ho (fun _ => rfl) fun _ h => h)
  | @post item hpc hpc' hcaller hu hp =>
    refine Or.inr ⟨hp.frame, fun t => ?_⟩
    by_cases htc : t = item.caller
    · subst htc
      rw [hp.caller]
      exact ⟨rfl, fun _ => by simp⟩
    · by_cases htw : t = g.worker
      · subst htw
        rcases hp.worker with hsame | hready
        · rw [hsame]
          exact ⟨rfl, id⟩
        · rw [hready]
          exact ⟨rfl, fun _ => by simp⟩
      · rw [hp.other t htc htw]
        exact ⟨rfl, id⟩
  | @born t alloc args hpc hk hj hpc' => exact Or.inl ⟨t, alloc, args, hpc, hj⟩

/-- Priority 0 keeps its one task. -/
theorem Inv.top_step (h : Inv L s g) (hbrings : ∀ x, (s.pc x).brings ≠ some 0)
    (hstep : s.step L l = some s')
    (htop : s.k.taskList 0 = some w ∧ (s.k.tcb w).next = none) :
    s'.k.taskList 0 = some w ∧ (s'.k.tcb w).next = none := by
  obtain ⟨hone, hnext⟩ := htop
  obtain ⟨_, htick⟩ | ⟨oldSp, k', _, _, hrun, rfl⟩ | ⟨u, hpend, hcur, hthread⟩ := step_cases hstep
  · have hkept : s'.k.standing = s.k.standing := by
      rw [htick, sysTick_k]
      exact standing_sysTickHandler
    constructor
    · rw [standing_taskList hkept]
      exact hone
    · exact (congrFun (standing_next hkept) w).trans hnext
  · obtain ⟨n, hn⟩ := h.switched hrun
    obtain ⟨sp, r0, htcb⟩ := hn.tcb w
    constructor
    · exact (congrArg (fun k : Kernel => k.taskList 0) hn.rest :).trans hone
    · change (k'.tcb w).next = none
      rw [htcb]
      exact hnext
  · rcases (h.change hcur hpend hthread).kept with
      ⟨t, alloc, args, hpc, hj⟩ | ⟨hframe, hrows⟩
    · have hne : args.priority ≠ 0 := fun hzero =>
        hbrings u (by rw [hpc, ← hzero]; rfl)
      have hwt : w ≠ t := by
        rintro rfl
        have hspawn := (h.scheduled.spawns u w (by rw [hpc]; rfl)).1
        have hmem : w ∈ g.runs 0 := by
          have hlinked := h.scheduled.linked 0
          rw [hone] at hlinked
          obtain ⟨l, hl⟩ := linked_some_iff.mp hlinked
          rw [hl.1]
          exact List.mem_cons_self
        exact (h.scheduled.alive w).mpr ((h.scheduled.rank 0 w hmem).1 ▸ hmem) hspawn
      constructor
      · rw [hj.taskList, Function.update_of_ne hne.symm]
        exact hone
      · rw [hj.other w hwt]
        exact hnext
    · constructor
      · have hlist : s'.k.taskList = s.k.taskList := congrArg Prod.fst hframe
        rw [hlist]
        exact hone
      · exact (congrArg Prod.fst (hrows w).1 :).trans hnext

/-- Nobody wakes a worker that rests: a task on a list is in a syscall or in a call of its own,
and the worker is in neither. -/
theorem Inv.rest_thread (h : Inv L s g) (hcur : s.k.currentTask = some u)
    (hpend : s.k.pendsv = false) (hstep : s.thread L u l = some s')
    (hwait : (s.k.tcb g.worker).state = .waiting)
    (hpc : s.pc g.worker = .pend .loop ∨ s.pc g.worker = .workerPop) :
    (s'.k.tcb g.worker).state = .waiting ∨ s'.k.pendsv = true := by
  have hnone : (s.pc g.worker).waits = none := by
    rcases hpc with hpc | hpc <;> rw [hpc] <;> rfl
  have hsvc : s.pc g.worker ≠ .svcRet := by
    rcases hpc with hpc | hpc <;> rw [hpc] <;> simp
  have hroute : ∀ w, ¬ (s.view g.worker).Route w := by
    rintro w (⟨_, hbad, _⟩ | ⟨_, hbad, _⟩)
    · exact hsvc hbad
    · have hsame : (s.view g.worker).pc.waits = none := hnone
      rw [hsame] at hbad
      cases hbad
  have hview := h.placed.task g.worker
  rcases h.thread_waiting hcur hpend hstep hwait with hstill | ⟨_, hwake⟩
  · exact Or.inl hstill
  · cases hwake with
    | expired hone => cases hstep
    | @woken v n after hcur' hwake =>
      exfalso
      cases after with
      | ret r m =>
        rw [(h.placed.wakes_iff v g.worker).mp (by rw [hwake]; rfl)] at hview
        obtain ⟨w, hw⟩ := hview
        exact hroute w hw.route
      | loop =>
        rw [(h.placed.serves_iff v g.worker).mp (by rw [hwake]; rfl)] at hview
        exact hsvc hview.pc
    | pushed hk =>
      rw [Sys.thread] at hstep
      split at hstep
      · rename_i hc
        obtain rfl := Option.some.inj hstep
        exact Or.inr (h.svc_posted hc.1).pendsv
      · cases hstep

theorem Inv.worker_serves (h : Inv L s g) : (s.pc g.worker).serves ≠ some g.worker := by
  intro hserves
  have hview := h.placed.task g.worker
  rw [(h.placed.serves_iff g.worker g.worker).mp hserves] at hview
  have hfits := h.coded.pcs g.worker
  have hpc : s.pc g.worker = .svcRet := hview.pc
  rw [hpc] at hfits
  exact hfits rfl

/-- The worker stops for its own sleep only. -/
theorem Inv.falls (h : Inv L s g) (hcur : s.k.currentTask = some g.worker)
    (hpend : s.k.pendsv = false) (hstep : s.thread L g.worker l = some s')
    (hawake : (s.k.tcb g.worker).state ≠ .waiting)
    (hwait : (s'.k.tcb g.worker).state = .waiting) : s'.pc g.worker = .pend .loop := by
  have hfits := h.coded.pcs g.worker
  have hserves := h.worker_serves
  have hself : ∀ {x f}, Only s s' g.worker x f → (x = g.worker →
      (f (s.k.tasks.tcb x)).state ≠ .waiting) → s'.pc g.worker = .pend .loop := by
    intro x f ho hf
    by_cases hx : g.worker = x
    · subst hx
      exact absurd ((congrArg Tcb.state ho.self :).symm.trans hwait) (hf rfl)
    · exact absurd ((congrArg Tcb.state (ho.other hx) :).symm.trans hwait) hawake
  cases h.change hcur hpend hstep with
  | quiet ho => exact hself ho fun _ => hawake
  | @sleep n r hpc hn ho hpc' =>
    rw [hpc] at hfits
    cases r with
    | app => exact absurd rfl hfits.2
    | serve caller => exact absurd hfits.1 id
  | @park op r w hpc htarget hms ho hpc' =>
    apply hself ho
    intro hx
    rw [hpc] at hfits hserves
    rcases fits_block g.worker hfits.1 htarget hms with ⟨rfl, _, _⟩ | ⟨c, rfl, _, hcaller, _⟩
    · exact absurd rfl hfits.2
    · rw [hcaller] at hx
      exact absurd (congrArg some hx) hserves
  | unlink hpc hsource hx ho hpc' =>
    apply hself ho
    rintro rfl
    exact hawake
  | check hpc ho => exact hself ho fun _ => hawake
  | wake hpc ho hpc' => exact hself ho fun _ => by simp [Tcb.woken]
  | rest hpc hu ho hpc' => exact hpc'
  | delay hpc hid ho hpc' =>
    apply hself ho
    intro hx
    rw [hpc] at hserves
    exact absurd (congrArg some hx) hserves
  | unprivileged hpc ho => exact hself ho fun _ => hawake
  | post hpc hpc' hcaller hu hp => exact absurd rfl hu
  | @born t alloc args hpc hk hj hpc' =>
    have hne : g.worker ≠ t := by
      rintro rfl
      exact h.coded.worker (h.scheduled.spawns g.worker g.worker (by rw [hpc]; rfl)).1
    rw [hj.other _ hne] at hwait
    exact absurd hwait hawake

theorem Scheduled.top_mem (h : Scheduled s g)
    (htop : s.k.taskList 0 = some w ∧ (s.k.tcb w).next = none) : t ∈ g.runs 0 ↔ t = w := by
  have hlinked := h.linked 0
  rw [htop.1] at hlinked
  obtain ⟨rest, hruns, hrest⟩ := linked_some_iff.mp hlinked
  have hnil : rest = [] := by
    rw [Kernel.next, htop.2] at hrest
    exact linked_none_iff.mp hrest
  rw [hruns, hnil, List.mem_singleton]

/-- A worker that rests at the CPU is on its way to the top of its loop. -/
theorem Foremost.at_rest (h : Inv L s g) (hf : Foremost s g.worker)
    (hcur : s.k.currentTask = some g.worker) (hpend : s.k.pendsv = false)
    (hwait : (s.k.tcb g.worker).state = .waiting) : s.pc g.worker = .pend .loop := by
  rcases hf.resting hwait with hpc | hpc
  · exact hpc
  · have hrun := h.running_of hcur hpend (by rw [hpc]; rfl)
    rw [hwait] at hrun
    cases hrun

theorem Foremost.orderly (h : Inv L s g) (hf : Foremost s g.worker)
    (hstep : s.step L l = some s') : Orderly g.worker s (.system l) := by
  intro hsvc hpc
  obtain ⟨rfl, _⟩ | ⟨_, _, rfl, _⟩ | ⟨u, hpend, hcur, hthread⟩ := step_cases hstep
  · cases hsvc
  · cases hsvc
  · cases l with
    | svc id a0 a1 a2 a3 =>
      rw [Sys.thread] at hthread
      split at hthread
      · rename_i hc
        have hne : u ≠ g.worker := h.app_not_worker hc.1
        rcases hf.resting (hf.first u hcur hne hpend) with hrest | hrest
        · rw [hpc] at hrest
          cases hrest
        · rw [hpc] at hrest
          cases hrest
      · cases hthread
    | _ => cases hsvc

theorem Foremost.tick (h : Inv L s g) (hf : Foremost s g.worker)
    (hstep : s.step L .tick = some s') (htick : s' = s.sysTick)
    (htop : s'.k.taskList 0 = some g.worker ∧ (s'.k.tcb g.worker).next = none) :
    Foremost s' g.worker := by
  have hspares := spares_sysTick s g.worker
  have hpend := sysTick_pendsv s
  obtain ⟨hpc, hframe⟩ := sysTick_frame s
  have hstate := h.scheduled.sysTick_tcb h.coded.worker
  rw [← htick] at hspares hpc hframe hpend hstate
  have hcur : s'.k.currentTask = s.k.currentTask := congrArg (fun f => f.2.2) hframe
  have hwork : s'.k.kwork = s.k.kwork := kwork_of_ring hspares.ring
  constructor
  · exact htop
  · rw [hpc]
    exact hf.brings
  · have hself : (s'.k.tcb g.worker).state = (s.k.tasks.tcb g.worker).ticked.state :=
      (congrArg Tcb.state hstate :)
    rw [hself]
    by_cases hwait : (s.k.tasks.tcb g.worker).state = .waiting
    · rcases Tcb.ticked_waiting hwait with hnow | ⟨hnow, _⟩ <;> simp [hnow]
    · rw [Tcb.ticked_of_awake hwait]
      exact hf.up
  · intro c hc hne hpend'
    have hbefore : s.k.pendsv = false := by
      by_contra hp
      rw [hpend (Or.inl (Bool.not_eq_false _ ▸ hp))] at hpend'
      cases hpend'
    rcases h.waiting_step hstep (hf.first c (hcur ▸ hc) hne hbefore) with hstill | ⟨_, hwake⟩
    · exact hstill
    · cases hwake with
      | expired hone =>
        rw [h.coded.rested] at hone
        cases hone
  · intro hwait
    rw [hpc]
    exact hf.resting (hspares.asleep hwait)
  · rw [hwork]
    exact hf.short

theorem Foremost.pendSV {k' : Kernel} {oldSp : Nat} {g' : Ghost} (h : Inv L s g)
    (hf : Foremost s g.worker) (hrun : portSwitchContext L s.k oldSp = some k')
    (h' : Inv L { s with k := k' } g')
    (htop : k'.taskList 0 = some g.worker ∧ (k'.tcb g.worker).next = none) :
    Foremost { s with k := k' } g.worker := by
  have hspares : s.k.Spares k' g.worker := spares_switch hrun
  have hwork : k'.kwork = s.k.kwork := kwork_of_ring hspares.ring
  obtain ⟨n, hn⟩ := h.switched hrun
  obtain ⟨sp, r0, htcb⟩ := hn.tcb g.worker
  have hup : (k'.tcb g.worker).state ≠ .suspended := by
    rw [htcb]
    have hold := hf.up
    simp only [Tcb.switched]
    split
    · simp
    · split
      · simp
      · exact hold
  constructor
  · exact htop
  · exact hf.brings
  · exact hup
  · intro c hc hne _
    obtain ⟨hfresh, _⟩ := h'.pendsv_or hc
    cases hst : (k'.tcb g.worker).state with
    | waiting => rfl
    | suspended => exact absurd hst hup
    | running =>
      have honly : k'.currentTask = some g.worker := h'.running.only g.worker hst
      exact absurd (Option.some.inj (hc.symm.trans honly)) hne
    | ready =>
      have hmem := (h.scheduled.top_mem hf.top).mpr (rfl : g.worker = g.worker)
      have hle := h.switch_highest hrun hc hmem hst
      have hzero : (k'.tcb c).priority = 0 := Nat.le_zero.mp hle
      have hin := (h'.scheduled.alive c).mp hfresh
      rw [show (({ s with k := k' } : Sys).k.tcb c).priority = 0 from hzero] at hin
      exact absurd ((h'.scheduled.top_mem htop).mp hin) hne
  · exact fun hwait => hf.resting (hspares.asleep hwait)
  · rw [hwork]
    exact hf.short

theorem call_kwork (s : Sys) (u : Tid) (c : Call) : (s.call u c).k.kwork = s.k.kwork := by
  have hobject : ∀ handle type f missing,
      (s.callObject u handle type f missing).k.kwork = s.k.kwork := by
    intro handle type f missing
    rw [Sys.callObject]
    cases kObjGet s.k handle type with
    | none => rfl
    | some p => rfl
  cases c with
  | semTake handle ms => apply hobject
  | semGive handle => apply hobject
  | mutexLock handle ms => apply hobject
  | mutexUnlock handle => apply hobject
  | queuePush handle item ms => apply hobject
  | queuePop handle item ms => apply hobject
  | taskCreate args =>
    rw [Sys.call]
    split <;> rfl
  | _ => rfl

/-- The ring gets a second item from nobody. -/
theorem Foremost.short_thread (h : Inv L s g) (hf : Foremost s g.worker) (hw : AtWork s g.worker)
    (hcur : s.k.currentTask = some u) (hpend : s.k.pendsv = false)
    (hstep : s.thread L u l = some s') : s'.k.kwork.length ≤ 1 := by
  have hshort := hf.short
  cases l with
  | tick => cases hstep
  | pendSV oldSp => cases hstep
  | svc id a0 a1 a2 a3 =>
    rw [Sys.thread] at hstep
    split at hstep
    · rename_i hc
      obtain rfl := Option.some.inj hstep
      have hempty := hw.asleep (hf.first u hcur (h.app_not_worker hc.1) hpend)
      have hpost := (@Inv.svc_posted _ _ _ ⟨id, a0, a1, a2, a3, u⟩ h hc.1).kwork
      rw [hempty] at hpost
      exact (congrArg List.length hpost).le
    · cases hstep
  | call c =>
    rw [Sys.thread] at hstep
    split at hstep
    · obtain rfl := Option.some.inj hstep
      rw [call_kwork]
      exact hshort
    · cases hstep
  | compute r0 ram =>
    rw [Sys.thread] at hstep
    split at hstep
    · obtain rfl := Option.some.inj hstep
      exact hshort
    · cases hstep
  | go =>
    rcases h.go_kwork hstep with hsame | ⟨item, _, _, hpop⟩
    · rw [hsame]
      exact hshort
    · rw [hpop, List.length_cons] at hshort
      omega

theorem Foremost.resting_thread (h : Inv L s g) (hf : Foremost s g.worker)
    (hcur : s.k.currentTask = some u) (hpend : s.k.pendsv = false)
    (hstep : s.thread L u l = some s') (hwait : (s'.k.tcb g.worker).state = .waiting) :
    s'.pc g.worker = .pend .loop ∨ s'.pc g.worker = .workerPop := by
  by_cases hu : u = g.worker
  · subst hu
    by_cases hbefore : (s.k.tcb g.worker).state = .waiting
    · have hpc := hf.at_rest h hcur hpend hbefore
      cases l with
      | go =>
        simp only [Sys.thread, Sys.go, hpc, Option.some.injEq] at hstep
        subst hstep
        exact Or.inr (Function.update_self _ _ _)
      | tick => cases hstep
      | pendSV oldSp => cases hstep
      | _ => simp [Sys.thread, hpc] at hstep
    · exact Or.inl (h.falls hcur hpend hstep hbefore hwait)
  · have hpc := (h.change hcur hpend hstep).pc h (Ne.symm hu) h.coded.worker
    rw [hpc]
    exact hf.resting (hf.first u hcur hu hpend)

theorem Foremost.thread (h : Inv L s g) (hf : Foremost s g.worker) (hw : AtWork s g.worker)
    (hl : l.below = true) (hcur : s.k.currentTask = some u) (hpend : s.k.pendsv = false)
    (hstep : s.thread L u l = some s')
    (htop : s'.k.taskList 0 = some g.worker ∧ (s'.k.tcb g.worker).next = none) :
    Foremost s' g.worker := by
  have hkept := (h.change hcur hpend hstep).kept
  constructor
  · exact htop
  · exact thread_brings hl hf.brings hstep
  · rcases hkept with ⟨t, alloc, args, hpc, hj⟩ | ⟨_, hrows⟩
    · have hne : g.worker ≠ t := by
        rintro rfl
        exact h.coded.worker (h.scheduled.spawns u g.worker (by rw [hpc]; rfl)).1
      rw [hj.other _ hne]
      exact hf.up
    · exact (hrows g.worker).2 hf.up
  · intro c hc hne hpend'
    have hcu : u = c := by
      have hsame : s'.k.currentTask = s.k.currentTask := by
        rcases hkept with ⟨t, alloc, args, hpc, hj⟩ | ⟨hframe, _⟩
        · exact (congrArg Kernel.currentTask hj.rest :)
        · exact congrArg (fun f => f.2.2) hframe
      exact Option.some.inj (hcur.symm.trans (hsame.symm.trans hc))
    subst hcu
    have hwait := hf.first u hcur hne hpend
    rcases h.rest_thread hcur hpend hstep hwait (hf.resting hwait) with hstill | hnow
    · exact hstill
    · rw [hpend'] at hnow
      cases hnow
  · exact hf.resting_thread h hcur hpend hstep
  · exact hf.short_thread h hw hcur hpend hstep

/-- What holds in every state of a system whose worker comes first. -/
def Sys.Served (L : Layout) (w : Tid) (s : Sys) : Prop :=
  ∃ g, Inv L s g ∧ g.worker = w ∧ AtWork s w ∧ Foremost s w

theorem Sys.Served.step (hL : L.heap.Placed) (h : s.Served L w) (hl : l.below = true)
    (hstep : s.step L l = some s') : s'.Served L w := by
  obtain ⟨g, hg, rfl, hw, hf⟩ := h
  obtain ⟨g', hg', hworker⟩ := hg.step hL hstep
  have htop := hg.top_step hf.brings hstep hf.top
  have hw' : AtWork s' g.worker := hw.accept (L := L) (i := .system l) (hf.orderly hg hstep) hstep
  refine ⟨g', hg', hworker, hw', ?_⟩
  obtain ⟨rfl, htick⟩ | ⟨oldSp, k', _, _, hrun, rfl⟩ | ⟨u, hpend, hcur, hthread⟩ :=
    step_cases hstep
  · exact hf.tick hg hstep htick htop
  · exact hf.pendSV hg hrun hg' htop
  · exact hf.thread hg hw hl hcur hpend hthread htop

/-- The worker is the first task to run. -/
theorem Sys.Started.served (hL : L.heap.Placed) (h : s.Started L) (halone : s.WorkerAlone w) :
    s.Served L w := by
  obtain ⟨hpc, htop⟩ := halone
  have hw := h.atWork hL hpc
  obtain ⟨g, hg⟩ := h.inv hL
  have hworker : g.worker = w := by
    have hfits := hg.coded.pcs w
    rw [hpc] at hfits
    exact hfits.symm
  have hempty : s.k.kwork = [] := by
    obtain ⟨_, _, hhead, htail⟩ := h.bare
    rw [Kernel.kwork, hhead, htail]
    rfl
  refine ⟨g, hg, hworker, hw, ?_⟩
  obtain ⟨heapMem, ram, tasks, s₁, hboot, hstart, ⟨x, _⟩, _⟩ := h
  obtain ⟨⟨k, n⟩, hnext, rfl⟩ := Option.map_eq_some_iff.mp hstart
  obtain ⟨b, hb, _⟩ := booting_tasks hL (booting_reset L heapMem ram x) hboot
  have hfirst : n = w := by
    have htop' : s₁.k.taskList 0 = some w ∧ (s₁.k.tcb w).next = none := by
      obtain ⟨pr, c, rfl⟩ := schedulerGetNext_cursor hnext
      obtain ⟨hone, hlast⟩ := htop
      refine ⟨hone, ?_⟩
      by_cases hwn : w = n
      · subst hwn
        simpa [resume] using hlast
      · simpa [resume, setTcb_tcb_of_ne _ _ hwn] using hlast
    have hmem := (hb.scheduled.top_mem htop').mpr (rfl : w = w)
    obtain ⟨q, hq, hn⟩ := schedulerGetNext_highest hb.scheduled.linked hb.scheduled.cursor hnext
      hmem (hb.tcbs w).state
    obtain rfl : q = 0 := Nat.le_zero.mp hq
    exact (hb.scheduled.top_mem htop').mp hn
  subst hfirst
  constructor
  · exact htop
  · intro u
    rcases hb.code u with hu | hu | hu <;> simp [hu, Pc.brings]
  · simp [resume]
  · intro c hc hne _
    exact absurd (Option.some.inj hc).symm hne
  · intro hwait
    simp [resume] at hwait
  · rw [hempty]
    exact Nat.zero_le 1

theorem Sys.ReachedBelow.served (hL : L.heap.Placed) (h : s.ReachedBelow L w) :
    s.Served L w := by
  obtain ⟨s₀, labels, hs₀, halone, hbelow, hrun⟩ := h
  have hstart := hs₀.served hL halone
  clear hs₀ halone
  induction labels generalizing s₀ with
  | nil =>
    obtain rfl := Option.some.inj hrun
    exact hstart
  | cons l labels ih =>
    obtain ⟨t, ht, hrest⟩ := run_cons.mp hrun
    apply ih t (fun l' hl' => hbelow l' (List.mem_cons_of_mem l hl')) hrest
    exact hstart.step hL (hbelow l List.mem_cons_self) ht

/-- Nobody but the worker serves a caller. -/
theorem fits_serves {worker : Prop} {p : Pc} (hfits : p.fits worker)
    (hserves : p.serves = some t) : worker := by
  have hret : ∀ {r : Ret}, r.fits worker → r.caller = some t → worker := by
    intro r hr hcaller
    cases r with
    | app => cases hcaller
    | serve c => exact hr
  have happ : ∀ {r : Ret}, r = .app → r.caller = some t → worker := by
    rintro r rfl hcaller
    cases hcaller
  cases p with
  | enter op r => exact hret hfits.2 hserves
  | retry op r => exact happ hfits.2.1 hserves
  | block op r => exact happ hfits.2.1 hserves
  | check op r => exact happ hfits.2.1 hserves
  | wake x v after =>
    cases after with
    | ret r n => exact hret hfits.2 hserves
    | loop => exact hfits
  | pend after =>
    cases after with
    | ret r n => exact hret hfits hserves
    | loop => cases hserves
  | dispatch item => exact hfits
  | create c r => exact hret hfits hserves
  | queueBuffer p r => exact hret hfits hserves
  | queueFree p r => exact hret hfits hserves
  | publish p type r => exact hret hfits hserves
  | _ => cases hserves

/-- A caller that still waits for its answer, while the worker has nothing to do, is on a wait
list or about to be woken by the task that has taken it off. -/
theorem Foremost.blocked (h : Inv L s g) (hf : Foremost s g.worker) (hw : AtWork s g.worker)
    (hwait : (s.k.tcb g.worker).state = .waiting) (hblocked : (s.k.tcb t).svcBlocked = true) :
    (∃ list, t ∈ g.lists list) ∨ ∃ v, v ≠ g.worker ∧ (s.pc v).wakes = some t := by
  have hview := h.placed.task t
  have hsvc : (s.view t).tcb.svcBlocked = true := hblocked
  cases hplace : g.place t with
  | fresh =>
    rw [hplace] at hview
    rw [hview.svc] at hsvc
    cases hsvc
  | own =>
    rw [hplace] at hview
    rw [hview.svc] at hsvc
    cases hsvc
  | ring =>
    have hmem := (h.placed.home t .ring rfl).mpr hplace
    rw [Sys.occupants, hw.asleep hwait] at hmem
    cases hmem
  | served u =>
    exfalso
    have hserves := (h.placed.serves_iff u t).mpr hplace
    obtain rfl : u = g.worker := fits_serves (h.coded.pcs u) hserves
    rcases hf.resting hwait with hpc | hpc <;> rw [hpc] at hserves <;> cases hserves
  | listed list => exact Or.inl ⟨list, (h.placed.mem_list t list).mpr hplace⟩
  | waking v =>
    have hwakes := (h.placed.wakes_iff v t).mpr hplace
    refine Or.inr ⟨v, ?_, hwakes⟩
    rintro rfl
    rcases hf.resting hwait with hpc | hpc <;> rw [hpc] at hwakes <;> cases hwakes

end Steps

/-- With no other task at priority 0, a task takes a step only while the worker waits on an
empty ring, and every syscall before has been answered or has brought its caller to a wait
list. So the ring never holds two items, and the worker never sleeps on one. -/
theorem worker_first {L : Layout} {s : Sys} {w : Tid} (hL : L.heap.Placed)
    (h : s.ReachedBelow L w) :
    s.k.kwork.length ≤ 1 ∧ ((s.k.tcb w).state = .waiting → s.k.kwork = []) ∧
    ∀ u, s.k.currentTask = some u → u ≠ w → s.k.pendsv = false →
      (s.k.tcb w).state = .waiting ∧ (s.pc w = .pend .loop ∨ s.pc w = .workerPop) ∧
      s.k.kwork = [] ∧ ∃ W, Lists s.k W ∧ ∀ t, (s.k.tcb t).svcBlocked = true →
        (∃ list, t ∈ W list) ∨ ∃ v, v ≠ w ∧ (s.pc v).wakes = some t := by
  obtain ⟨g, hg, rfl, hw, hf⟩ := h.served hL
  refine ⟨hf.short, hw.asleep, fun u hcur hne hpend => ?_⟩
  have hwait := hf.first u hcur hne hpend
  exact ⟨hwait, hf.resting hwait, hw.asleep hwait, g.lists, hg.placed.lists,
    fun t ht => hf.blocked hg hw hwait ht⟩

theorem boardRun_below {labels : List Label} {s : Sys} (h : boardRun labels = some s)
    (hbelow : labels.all Label.below = true) : s.ReachedBelow boardLayout 0 := by
  obtain ⟨s₀, hnil, hs₀, hrun⟩ := boardRun_started h
  obtain ⟨s₁, hnil', halone, _⟩ := boardRun_comes [] (P := fun s => s.WorkerAlone 0)
    (by decide +kernel) fun _ hs => hs
  obtain rfl := Option.some.inj (hnil.symm.trans hnil')
  exact ⟨s₀, labels, hs₀, halone, List.all_eq_true.mp hbelow, hrun⟩

/-- Task 1 makes a semaphore and waits for it by a syscall. The worker puts it on the list, and
task 2 comes to run. -/
def waitsFirst : List Label :=
  boardReady ++ [.call (.create (.sem 0)), .go, .go, .call .setUnprivileged,
    .svc syscallSemWait 0x10000 5 0 0, .pendSV 0x2001F000, .go, .go, .go, .go, .go, .go,
    .pendSV 0x2001F000]

theorem worker_first_board : ∃ s : Sys, s.ReachedBelow boardLayout 0 ∧
    (s.k.currentTask = some 2 ∧ s.k.pendsv = false ∧ (s.k.tcb 1).svcBlocked = true) ∧
    (s.k.tcb 0).state = .waiting ∧ s.k.kwork = [] := by
  obtain ⟨s, hrun, ⟨hcur, hpend, hblocked⟩, _⟩ := boardRun_comes waitsFirst
    (P := fun s => s.k.currentTask = some 2 ∧ s.k.pendsv = false ∧
      (s.k.tcb 1).svcBlocked = true) (by decide +kernel) fun _ hs => hs
  have hs := boardRun_below hrun (by decide)
  obtain ⟨_, _, hrest⟩ := worker_first boardLayout_placed hs
  obtain ⟨hwait, _, hempty, _⟩ := hrest 2 hcur (by decide) hpend
  exact ⟨s, hs, ⟨hcur, hpend, hblocked⟩, hwait, hempty⟩

end Crest
