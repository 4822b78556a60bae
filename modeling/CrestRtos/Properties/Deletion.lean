import CrestRtos.Kernel.Standing
import CrestRtos.System.Changes
import CrestRtos.System.References

/-!
# What refers to a deleted task

`task_delete` takes a task off its run list and clears its cursor. A wait list, an owner
field, an item or the CPU that still has the task keeps a pointer into a free slot, and
whatever uses that pointer later changes the task that `task_create` builds there.
-/

namespace Crest
open IntrusiveList MachineWord Alloc Transition

def Ret.names : Ret → List Tid
  | .app => []
  | .serve caller => [caller]

def After.names : After → List Tid
  | .ret r _ => r.names
  | .loop => []

/-- The tasks that the locals of a piece of kernel code point to. -/
def Pc.names : Pc → List Tid
  | .enter op r => op.names ++ r.names
  | .retry op r => op.names ++ r.names
  | .block op r => op.names ++ r.names
  | .check op r => op.names ++ r.names
  | .wake x _ after => x :: after.names
  | .pend after => after.names
  | .dispatch item => [item.caller]
  | .create _ r => r.names
  | .queueBuffer _ r => r.names
  | .queueFree _ r => r.names
  | .publish _ _ r => r.names
  | .spawnStack x _ => [x]
  | .spawnFree x => [x]
  | .spawnAdd x _ _ => [x]
  | _ => []

/-- Neither the kernel nor the code of another task points to the control block of `t`. -/
structure Sys.Omits (s : Sys) (t : Tid) : Prop where
  kernel : s.k.Omits t
  code : ∀ x, x ≠ t → t ∉ (s.pc x).names

/-- Besides, the control block has the contents `b`; a `task_create` may have taken it. -/
structure Sys.Rid (s : Sys) (t : Tid) (b : Tcb) : Prop where
  kernel : s.k.Rid t b
  code : ∀ x, x ≠ t → (s.pc x).spawns ≠ some t → t ∉ (s.pc x).names

/-- The code on the CPU is about to make a task of the control block `t`. -/
def Sys.Adds (s : Sys) (t : Tid) : Prop :=
  ∃ u alloc args, s.k.currentTask = some u ∧ s.pc u = .spawnAdd t alloc args

section Code
variable {L : Layout} {s s' : Sys} {t u x : Tid} {b : Tcb} {k : Kernel} {p : Pc} {op : Op} {r : Ret}

/-- The code of `u` goes on at `p`. -/
theorem Sys.Rid.build (h : s.Rid t b) {log : List Event} (hk : k.Rid t b)
    (hp : p.spawns ≠ some t → t ∉ p.names) :
    (⟨k, Function.update s.pc u p, log⟩ : Sys).Rid t b := by
  refine ⟨hk, fun x hx => ?_⟩
  by_cases hxu : x = u
  · subst hxu
    change (Function.update s.pc x p x).spawns ≠ _ → t ∉ (Function.update s.pc x p x).names
    rw [Function.update_self]
    exact hp
  · change (Function.update s.pc u p x).spawns ≠ _ → t ∉ (Function.update s.pc u p x).names
    rw [Function.update_of_ne hxu]
    exact h.code x hx

theorem Sys.Rid.goto (h : s.Rid t b) {log : List Event} (hk : k.Rid t b) (hp : t ∉ p.names) :
    (⟨k, Function.update s.pc u p, log⟩ : Sys).Rid t b := h.build hk fun _ => hp

/-- Another kernel state under the same code. -/
theorem Sys.Rid.store (h : s.Rid t b) {log : List Event} (hk : k.Rid t b) :
    (⟨k, s.pc, log⟩ : Sys).Rid t b := ⟨hk, h.code⟩

theorem Sys.Rid.finish (h : s.Rid t b) (v : Nat) (hr : t ∉ r.names) : (s.finish u r v).Rid t b := by
  cases r with
  | app => exact h.goto h.kernel (by simp [Pc.names])
  | serve caller =>
    refine h.goto h.kernel ?_
    simpa [Pc.names, After.names, Ret.names] using hr

theorem Sys.Rid.settle (h : s.Rid t b) {out : Outcome} (hop : t ∉ op.names) (hr : t ∉ r.names)
    (hwakes : ∀ x v, out = .wake x v → x ≠ t) : (s.settle u op r out).Rid t b := by
  cases out with
  | ret v => exact h.finish v hr
  | block =>
    refine h.goto h.kernel ?_
    split
    · simpa [Pc.names] using ⟨hop, hr⟩
    · simp [Pc.names]
  | wake x v =>
    have hx := hwakes x v rfl
    refine h.goto h.kernel ?_
    simpa [Pc.names, After.names] using ⟨hx.symm, hr⟩
  | pend v => exact h.goto h.kernel (by simpa [Pc.names, After.names] using hr)

theorem Sys.Rid.runOp (h : s.Rid t b) (hu : u ≠ t) (hop : t ∉ op.names) (hr : t ∉ r.names) :
    (s.runOp u op r).Rid t b := by
  have henter := h.kernel.enter hu hop
  rw [runOp_eq]
  exact Sys.Rid.settle (h.store henter.kernel) hop hr henter.wakes

theorem again_names (op : Op) : op.again.names = op.names := by
  cases op <;> rfl

theorem Sys.Rid.checkWait (h : s.Rid t b) (hu : u ≠ t) (hop : t ∉ op.names) (hr : t ∉ r.names) :
    (s.checkWait u op r).Rid t b := by
  have hclear := h.kernel.touch (f := fun tcb => { tcb with timedOut := false }) hu
    fun _ => ⟨rfl, rfl⟩
  rw [Sys.checkWait]
  split
  · exact h
  · split
    · split
      · exact h.finish minusOne hr
      · exact h.goto h.kernel (by simpa [Pc.names] using ⟨hop, hr⟩)
    · split
      · exact Sys.Rid.finish (h.store hclear) minusOne hr
      · exact h.finish 0 hr

theorem fits_names {caller : Tid} (h : op.fits (.serve caller)) : op.names ⊆ [caller] := by
  cases op with
  | semTryTake s c ms =>
    obtain rfl : c = caller := h
    exact List.Subset.refl _
  | mutexTryLock m c ms =>
    obtain rfl : c = caller := h
    exact List.Subset.refl _
  | mutexUnlockFor m owner =>
    obtain rfl : owner = caller := h
    exact List.Subset.refl _
  | _ => exact List.nil_subset _

theorem Sys.Rid.dispatch {item : WorkItem} (h : s.Rid t b) (hcaller : item.caller ≠ t) :
    (s.dispatch u item).Rid t b := by
  have hr : t ∉ (Ret.serve item.caller).names := by simpa [Ret.names] using hcaller.symm
  have hwake : ∀ v, t ∉ (Pc.wake item.caller v .loop).names := by
    intro v
    simpa [Pc.names, After.names] using hcaller.symm
  rw [Sys.dispatch]
  split
  · exact h.goto (h.kernel.delay hcaller _) (by simp [Pc.names])
  · exact h.goto h.kernel (hwake _)
  · exact h.goto h.kernel (hwake _)
  · rename_i op hdec
    have hnames := fits_names (decode_call hdec).1
    refine h.goto h.kernel ?_
    rw [Pc.names, List.mem_append, not_or]
    refine ⟨fun hmem => ?_, hr⟩
    exact hcaller (List.mem_singleton.mp (hnames hmem)).symm
  · exact h.goto h.kernel hr

theorem Sys.Rid.create (h : s.Rid t b) {c : Creation} (hr : t ∉ r.names)
    (hstep : s.create L u c r = some s') : s'.Rid t b := by
  rw [Sys.create] at hstep
  obtain ⟨⟨k, p⟩, hrun, rfl⟩ := Option.map_eq_some_iff.mp hstep
  have hk := h.kernel.alloc hrun
  dsimp only
  split
  · exact Sys.Rid.finish (h.store hk) kobjInvalid hr
  · cases c with
    | queue itemSize size => exact h.goto hk hr
    | sem initial => exact h.goto hk hr
    | mutex => exact h.goto hk hr

/-- The code of another task gets at `t` by making a new task of its control block only. -/
theorem Sys.Rid.go (h : s.Rid t b) (hu : u ≠ t) (hstep : s.go L u = some s')
    (hadd : ∀ alloc args, s.pc u ≠ .spawnAdd t alloc args) : s'.Rid t b := by
  have hcode : ∀ p, s.pc u = p → p.spawns = none → t ∉ p.names := by
    rintro p rfl hnone
    refine h.code u hu ?_
    rw [hnone]
    exact (Option.some_ne_none t).symm
  cases go_cases hstep with
  | svcRet hpc => exact h.goto h.kernel (by simp [Pc.names])
  | enter op r hpc =>
    have hcode := hcode _ hpc rfl
    rw [Pc.names, List.mem_append, not_or] at hcode
    exact h.runOp hu hcode.1 hcode.2
  | retry op r hpc =>
    have hcode := hcode _ hpc rfl
    rw [Pc.names, List.mem_append, not_or] at hcode
    exact Sys.Rid.runOp (h.store h.kernel) hu (again_names op ▸ hcode.1) hcode.2
  | block op r hpc => exact h.goto (h.kernel.aside rfl) (hcode (.block op r) hpc rfl)
  | check op r hpc =>
    have hcode := hcode _ hpc rfl
    rw [Pc.names, List.mem_append, not_or] at hcode
    exact h.checkWait hu hcode.1 hcode.2
  | wake x v after hpc =>
    have hcode := hcode _ hpc rfl
    rw [Pc.names, List.mem_cons, not_or] at hcode
    exact h.goto (h.kernel.wake (Ne.symm hcode.1) v) hcode.2
  | pend after hpc =>
    have hcode := hcode _ hpc rfl
    rw [Pc.names] at hcode
    have hpend : (portTriggerPendsv s.k).Rid t b := h.kernel.aside rfl
    cases after with
    | ret r v => exact Sys.Rid.finish (h.store hpend) v hcode
    | loop => exact h.goto hpend (by simp [Pc.names])
  | workerStart hpc =>
    have hk := h.kernel
    refine h.goto ⟨⟨hk.omits.taskList, hk.omits.next, hk.omits.cursor, hk.omits.current,
      fun w => ?_, hk.omits.waitNext, hk.omits.owner, hk.omits.ring, ?_⟩, hk.block, hk.bounds⟩
      (by simp [Pc.names])
    · have hhead := hk.omits.head w
      cases w <;> exact hhead
    · exact fun heq => hu (Option.some.inj heq)
  | popNone hpc hpop => exact h.goto h.kernel (by simp [Pc.names])
  | popSome k item hpc hpop =>
    obtain ⟨hk, hcaller⟩ := h.kernel.kworkPop hpop
    exact h.goto hk (by simpa [Pc.names] using hcaller.symm)
  | workerSleep hpc => exact h.goto h.kernel.rest (by simp [Pc.names, After.names])
  | dispatch item hpc =>
    have hcode := hcode _ hpc rfl
    rw [Pc.names, List.mem_singleton] at hcode
    exact h.dispatch (Ne.symm hcode)
  | create c r s' hpc hrun =>
    have hcode := hcode _ hpc rfl
    rw [Pc.names] at hcode
    exact h.create hcode hrun
  | queueBuffer p r k ok hpc hrun =>
    have hcode := hcode _ hpc rfl
    rw [Pc.names] at hcode
    refine h.goto (h.kernel.queueBuffer hrun) ?_
    split <;> exact hcode
  | queueFree p r k hpc hrun =>
    have hcode := hcode _ hpc rfl
    rw [Pc.names] at hcode
    exact Sys.Rid.finish (h.store (h.kernel.queueFree hrun)) kobjInvalid hcode
  | publish p type r hpc =>
    have hcode := hcode _ hpc rfl
    rw [Pc.names] at hcode
    exact Sys.Rid.finish (h.store (h.kernel.publish p type)) _ hcode
  | spawnNone args hpc hfree => exact h.finish 0 (by simp [Ret.names])
  | spawnTcb args k t hpc hfree =>
    obtain ⟨_, rfl⟩ := getFreeTcb_some hfree
    refine h.build (h.kernel.aside rfl) fun hne => ?_
    rw [Pc.names, List.mem_singleton]
    rintro rfl
    exact hne rfl
  | spawnStack x args heap alloc hpc hrun =>
    have hold := h.code u hu
    rw [hpc] at hold
    refine h.build (h.kernel.aside rfl) ?_
    split <;> exact hold
  | spawnFree x hpc =>
    have hk : (freeTcb s.k x).Rid t b := h.kernel.aside rfl
    exact Sys.Rid.finish (h.store hk) 0 (by simp [Ret.names])
  | spawnAdd x alloc args hpc =>
    have hx : x ≠ t := by
      rintro rfl
      exact hadd alloc args hpc
    have hk := h.kernel.addTask hx alloc args
    exact Sys.Rid.finish (Sys.Rid.goto h hk (by simp [Pc.names])) 0 (by simp [Ret.names])

theorem Sys.Rid.callObject (h : s.Rid t b) (handle : Nat) (type : KobjType) (f : Nat → Op)
    (missing : Nat) (hf : ∀ p, (f p).names = []) :
    (s.callObject u handle type f missing).Rid t b := by
  rw [Sys.callObject]
  split
  · exact h.finish missing (by simp [Ret.names])
  · exact h.goto h.kernel (by simp [Pc.names, Ret.names, hf])

theorem Sys.Rid.call (h : s.Rid t b) (hu : u ≠ t) (c : Call) : (s.call u c).Rid t b := by
  cases c with
  | semTake hd ms => exact h.callObject _ _ _ _ fun _ => rfl
  | semGive hd => exact h.callObject _ _ _ _ fun _ => rfl
  | mutexLock hd ms => exact h.callObject _ _ _ _ fun _ => rfl
  | mutexUnlock hd => exact h.callObject _ _ _ _ fun _ => rfl
  | queuePush hd item ms => exact h.callObject _ _ _ _ fun _ => rfl
  | queuePop hd item ms => exact h.callObject _ _ _ _ fun _ => rfl
  | taskDelay ticks => exact h.goto h.kernel (by simp [Pc.names, Op.names, Ret.names])
  | taskYield => exact h.goto h.kernel (by simp [Pc.names, After.names, Ret.names])
  | create c => exact h.goto h.kernel (by simp [Pc.names, Ret.names])
  | taskCreate args =>
    rw [Sys.call]
    split
    · exact h.goto h.kernel (by simp [Pc.names])
    · exact h.finish 0 (by simp [Ret.names])
  | setUnprivileged =>
    have hset := h.kernel.touch (f := fun tcb => { tcb with user := true }) hu fun _ => ⟨rfl, rfl⟩
    exact h.store (hset.aside rfl)

theorem Sys.Rid.step {l : Label} (h : s.Rid t b) (hstep : s.step L l = some s')
    (hadd : ¬ (l = .go ∧ s.Adds t)) : s'.Rid t b := by
  obtain ⟨_, hend⟩ | ⟨oldSp, k, _, _, hrun, rfl⟩ | ⟨u, _, hcur, hthread⟩ := step_cases hstep
  · have htick := h.kernel.tick
    rw [← sysTick_k, ← hend] at htick
    refine ⟨htick, fun x hx => ?_⟩
    rw [hend, (sysTick_frame s).1]
    exact h.code x hx
  · exact h.store (h.kernel.switch hrun)
  · have hu : u ≠ t := by
      rintro rfl
      exact h.kernel.omits.current hcur
    cases l with
    | tick => cases hthread
    | pendSV oldSp => cases hthread
    | svc id a0 a1 a2 a3 =>
      rw [Sys.thread] at hthread
      split at hthread
      · obtain rfl := Option.some.inj hthread
        exact h.goto (h.kernel.svc hu) (by simp [Pc.names])
      · cases hthread
    | call c =>
      rw [Sys.thread] at hthread
      split at hthread
      · obtain rfl := Option.some.inj hthread
        exact h.call hu c
      · cases hthread
    | compute r0 ram =>
      rw [Sys.thread] at hthread
      split at hthread
      · obtain rfl := Option.some.inj hthread
        exact h.store (h.kernel.aside rfl)
      · cases hthread
    | go =>
      exact h.go hu hthread fun alloc args hpc => hadd ⟨rfl, u, alloc, args, hcur, hpc⟩

end Code

/-- A control block on no run list has no link. -/
def Kernel.Unchained (k : Kernel) : Prop :=
  ∀ x, (∀ pr l, Linked k.next (k.taskList pr) l → x ∉ l) → k.next x = none

section Links
variable {L : Layout} {s s' : Sys} {g : Ghost} {k k' : Kernel} {t u x : Tid}
  {runs : Nat → List Tid}

theorem Kernel.Unchained.of_same (h : k.Unchained) (hnext : k'.next = k.next)
    (hlist : k'.taskList = k.taskList) : k'.Unchained := by
  rw [Kernel.Unchained, hnext, hlist]
  exact h

theorem Kernel.Unchained.join {pr : Nat} (h : k.Unchained) (hj : Joined k k' t pr)
    (hl : ∀ q, Linked k.next (k.taskList q) (runs q)) (hnot : ∀ q, t ∉ runs q) :
    k'.Unchained := by
  have hnext : k'.next = Function.update k.next t (k.taskList pr) := by
    funext x
    by_cases hx : x = t
    · subst hx
      rw [Function.update_self]
      exact hj.next
    · rw [Function.update_of_ne hx, Kernel.next, hj.other x hx]
      rfl
  have hold : ∀ q, Linked k'.next (k.taskList q) (runs q) := by
    intro q
    rw [hnext]
    exact (linked_update_of_notMem (hnot q)).mpr (hl q)
  have hnew : Linked k'.next (k'.taskList pr) (t :: runs pr) := by
    rw [hj.taskList, Function.update_self, linked_cons]
    refine ⟨rfl, ?_⟩
    have ht : k'.next t = k.taskList pr := by rw [hnext, Function.update_self]
    rw [ht]
    exact hold pr
  intro x hx
  by_cases hxt : x = t
  · subst hxt
    exact absurd List.mem_cons_self (hx pr _ hnew)
  · rw [hnext, Function.update_of_ne hxt]
    refine h x fun q l hq => ?_
    obtain rfl := linked_unique hq (hl q)
    by_cases hqp : q = pr
    · subst hqp
      exact fun hmem => hx q _ hnew (List.mem_cons_of_mem t hmem)
    · refine hx q _ ?_
      rw [hj.taskList, Function.update_of_ne hqp]
      exact hold q

theorem resume_next (L : Layout) (k : Kernel) (x : Tid) : (resume L k x).next = k.next := by
  funext y
  change ((k.setTcb x fun tcb => { tcb with state := .running }).tcb y).next = (k.tcb y).next
  by_cases hy : y = x
  · subst hy
    rw [setTcb_tcb_same]
  · rw [setTcb_tcb_of_ne k _ hy]

theorem Sys.Started.unchained (hL : L.heap.Placed) (h : s.Started L) : s.k.Unchained := by
  obtain ⟨heapMem, ram, tasks, s₁, hboot, hstart, ⟨w, _⟩, _⟩ := h
  have hbooted : (∃ g, Booting L s₁ g) ∧ s₁.k.Unchained := by
    refine bootTasks_induction (P := fun s => (∃ g, Booting L s g) ∧ s.k.Unchained) ?_
      ⟨⟨_, booting_reset L heapMem ram w⟩, fun _ _ => rfl⟩ hboot
    rintro s task s' ⟨⟨g, hg⟩, hloose⟩ hstep
    obtain ⟨g', hg', _⟩ := hg.task hL hstep
    refine ⟨⟨g', hg'⟩, ?_⟩
    obtain ⟨⟨k, created⟩, hcreate, rfl⟩ := Option.map_eq_some_iff.mp hstep
    have hk : k.Unchained := by
      rcases taskCreate_cases hcreate with ⟨_, _, rfl⟩ | ⟨t, heap, alloc, _, hunused, _, hrest⟩
      · exact hloose
      · rcases hrest with ⟨_, _, rfl⟩ | ⟨_, _, rfl⟩
        · exact hloose.of_same rfl rfl
        · have hnot : ∀ q, t ∉ g.runs q := fun q hmem => by
            have hin : t ∈ g.runs (s.k.tcb t).priority := (hg.scheduled.rank q t hmem).1 ▸ hmem
            exact (hg.scheduled.alive t).mpr hin (hg.scheduled.used t hunused)
          have hsame : ({ s.k with
              heap := heap
              tcbUsed := Function.update s.k.tcbUsed t true } : Kernel).Unchained :=
            hloose.of_same rfl rfl
          exact hsame.join (schedulerAddTask_joined _ t alloc task.2) hg.scheduled.linked hnot
    cases created <;> exact hk
  obtain ⟨⟨k, first⟩, hnext, rfl⟩ := Option.map_eq_some_iff.mp hstart
  obtain ⟨pr, c, rfl⟩ := schedulerGetNext_cursor hnext
  exact hbooted.2.of_same (resume_next L _ first) rfl

theorem Only.next {t : Tid} {f : Tcb → Tcb} (ho : Only s s' u t f)
    (hf : ∀ tcb, (f tcb).next = tcb.next) :
    s'.k.next = s.k.next := by
  funext x
  change (s'.k.tasks.tcb x).next = (s.k.tasks.tcb x).next
  by_cases hx : x = t
  · subst hx
    rw [ho.self, hf]
  · rw [ho.other hx]

theorem Posted.next {item : WorkItem} {w : Tid} (hp : Posted k k' item w) : k'.next = k.next := by
  funext x
  rw [Kernel.next, Kernel.next]
  by_cases hw : x = w
  · subst hw
    rcases hp.worker with heq | heq <;> rw [heq]
  · by_cases hx : x = item.caller
    · subst hx
      rw [hp.caller]
    · rw [hp.other x hx hw]

/-- Only `scheduler_add_task` stores a link. -/
theorem Change.unchained (hc : Change s g u s') (h : Inv L s g) (hloose : s.k.Unchained) :
    s'.k.Unchained := by
  have honly : ∀ x f, Only s s' u x f → (∀ tcb, (f tcb).next = tcb.next) → s'.k.Unchained :=
    fun x f ho hf => hloose.of_same (ho.next hf) (congrArg Prod.fst ho.frame)
  cases hc with
  | quiet ho => exact honly u id ho fun _ => rfl
  | sleep hpc hn ho hpc' => exact honly u _ ho fun _ => rfl
  | park hpc htarget hms ho hpc' => exact honly _ _ ho fun _ => (parked_same _ _ _ _).1
  | unlink hpc hsource hx ho hpc' => exact honly _ _ ho fun _ => rfl
  | check hpc ho => exact honly u _ ho fun _ => rfl
  | wake hpc ho hpc' => exact honly _ _ ho fun _ => rfl
  | rest hpc hu ho hpc' => exact honly u _ ho fun _ => rfl
  | delay hpc hid ho hpc' => exact honly _ _ ho fun _ => rfl
  | unprivileged hpc ho => exact honly u _ ho fun _ => rfl
  | post hpc hpc' hcaller hu hp => exact hloose.of_same hp.next (congrArg Prod.fst hp.frame)
  | @born x alloc args hpc hk hj hpc' =>
    have hfresh := (h.scheduled.spawns u x (by rw [hpc]; rfl)).1
    refine hloose.join hj h.scheduled.linked fun q hmem => ?_
    exact (h.scheduled.alive x).mpr ((h.scheduled.rank q x hmem).1 ▸ hmem) hfresh

theorem Sys.Reached.unchained (hL : L.heap.Placed) (h : s.Reached L) : s.k.Unchained := by
  refine h.induction hL (fun _ hs => hs.unchained hL) fun s g l s' hg hloose hstep => ?_
  obtain ⟨_, hend⟩ | ⟨oldSp, k, _, _, hrun, rfl⟩ | ⟨u, hpend, hcur, hthread⟩ := step_cases hstep
  · have hsame := standing_sysTickHandler (k := s.k)
    rw [← sysTick_k, ← hend] at hsame
    exact hloose.of_same (standing_next hsame) (standing_taskList hsame)
  · obtain ⟨n, hsw⟩ := hg.switched hrun
    refine hloose.of_same ?_ (congrArg Kernel.taskList hsw.rest :)
    funext x
    obtain ⟨sp, r0, htcb⟩ := hsw.tcb x
    rw [Kernel.next, htcb]
    rfl
  · exact (hg.change hcur hpend hthread).unchained hg hloose

end Links

section Removal
variable {L : Layout} {k k' : Kernel} {t : Tid} {runs : Nat → List Tid}

/-- Removal stores no link but null and the one behind the task. -/
theorem unlinkTask_next (k : Kernel) (pr : Nat) (t x : Tid) :
    (unlinkTask k pr t).next x = k.next x ∨ (unlinkTask k pr t).next x = none ∨
      (unlinkTask k pr t).next x = k.next t := by
  rw [unlinkTask]
  generalize searchFrom k.next t maxTasks (k.taskList pr) none = found
  obtain ⟨cur, prev⟩ := found
  by_cases hcur : cur = some t
  · simp only [if_pos hcur]
    rw [next_setTcb]
    by_cases hx : x = t
    · subst hx
      rw [Function.update_self]
      exact Or.inr (Or.inl rfl)
    · rw [Function.update_of_ne hx]
      cases prev with
      | none => exact Or.inl rfl
      | some p =>
        dsimp only
        rw [next_setTcb]
        by_cases hp : x = p
        · subst hp
          rw [Function.update_self]
          exact Or.inr (Or.inr rfl)
        · rw [Function.update_of_ne hp]
          exact Or.inl rfl
  · left
    simp only [if_neg hcur]

theorem schedulerRemoveTask_next (k : Kernel) (t x : Tid) :
    (schedulerRemoveTask k t).next x = k.next x ∨ (schedulerRemoveTask k t).next x = none ∨
      (schedulerRemoveTask k t).next x = k.next t := by
  have hdrop : (dropCursor k t).next = k.next := by
    rw [dropCursor]
    split <;> rfl
  have hbit : (schedulerRemoveTask k t).next =
      (unlinkTask (dropCursor k t) (k.tcb t).priority t).next := by
    rw [schedulerRemoveTask, dropBit]
    split <;> rfl
  rw [hbit, ← hdrop]
  exact unlinkTask_next _ _ t x

/-- The scheduler forgets a task that it removes. -/
theorem schedulerRemoveTask_forgets (hl : ∀ p, Linked k.next (k.taskList p) (runs p))
    (hrank : ∀ p x, x ∈ runs p → (k.tcb x).priority = p)
    (hcursor : ∀ p x, k.rrCurrent p = some x → x ∈ runs p) (hloose : k.Unchained) :
    (∀ p, (schedulerRemoveTask k t).taskList p ≠ some t) ∧
      (∀ x, (schedulerRemoveTask k t).next x ≠ some t) ∧
      ∀ p, (schedulerRemoveTask k t).rrCurrent p ≠ some t := by
  have hr := schedulerRemoveTask_removed (t := t) hl fun p q x hp hq =>
    (hrank p x hp).symm.trans (hrank q x hq)
  have hnext := schedulerRemoveTask_next k t
  generalize schedulerRemoveTask k t = k₁ at hr hnext
  have hgone : ∀ p, t ∉ Function.update runs (k.tcb t).priority
      ((runs (k.tcb t).priority).erase t) p := by
    intro p
    by_cases hp : p = (k.tcb t).priority
    · subst hp
      rw [Function.update_self]
      exact List.Nodup.not_mem_erase (linked_nodup (hl _))
    · rw [Function.update_of_ne hp]
      exact fun hmem => hp (hrank p t hmem).symm
  have hchained : ∀ x y, k.next x = some y → ∃ p, x ∈ runs p := by
    intro x y hy
    by_contra hnone
    refine Option.some_ne_none y (hy.symm.trans (hloose x fun p l hl' hmem => hnone ⟨p, ?_⟩))
    exact linked_unique (hl p) hl' ▸ hmem
  have hself : k.next t ≠ some t := by
    intro heq
    obtain ⟨p, hmem⟩ := hchained t t heq
    obtain ⟨front, back, hsplit⟩ := List.append_of_mem hmem
    have hlist := hl p
    rw [hsplit] at hlist
    obtain ⟨m, _, hback⟩ := seg_append.mp hlist
    obtain rfl : m = some t := hback.1
    exact not_linked_of_self heq hback
  refine ⟨fun p hhead => ?_, fun x hx => ?_, fun p hc => ?_⟩
  · have hlist := hr.linked p
    rw [hhead] at hlist
    obtain ⟨rest, heq, _⟩ := linked_some_iff.mp hlist
    exact hgone p (heq ▸ List.mem_cons_self)
  · rcases hnext x with hsame | hnone | hskip
    · have hold := hsame.symm.trans hx
      by_cases hxt : x = t
      · subst hxt
        exact hself hold
      · obtain ⟨p, hmem⟩ := hchained x t hold
        refine hgone p (linked_next_mem (hr.linked p) ?_ hx)
        by_cases hp : p = (k.tcb t).priority
        · subst hp
          rw [Function.update_self]
          exact (List.mem_erase_of_ne hxt).mpr hmem
        · rw [Function.update_of_ne hp]
          exact hmem
    · exact Option.some_ne_none t (hx.symm.trans hnone)
    · exact hself (hskip.symm.trans hx)
  · have hcase := (hr.cursor p).symm.trans hc
    by_cases hcond : p = (k.tcb t).priority ∧ k.rrCurrent p = some t
    · rw [if_pos hcond] at hcase
      cases hcase
    · rw [if_neg hcond] at hcase
      exact hcond ⟨(hrank p t (hcursor p t hcase)).symm, hcase⟩

theorem taskDelete_cases (h : taskDelete L k t = some k') : ∃ heap alloc base,
    k' = freeTcb ({ schedulerRemoveTask k t with heap := heap }.setTcb t fun tcb =>
      { tcb with stackAlloc := alloc, stackBase := base }) t := by
  rw [taskDelete] at h
  generalize schedulerRemoveTask k t = k₁ at h ⊢
  dsimp only at h
  split at h
  · obtain ⟨heap, _, rfl⟩ := Option.map_eq_some_iff.mp h
    exact ⟨heap, 0, 0, rfl⟩
  · obtain rfl := Option.some.inj h
    refine ⟨k₁.heap, (k₁.tcb t).stackAlloc, (k₁.tcb t).stackBase, ?_⟩
    have hsame : Function.update k₁.tcb t (k₁.tcb t) = k₁.tcb := Function.update_eq_self _ _
    exact congrArg (fun tcb => freeTcb { k₁ with tcb := tcb } t) hsame.symm

/-- What `task_delete` leaves as it is. -/
structure Deleted (k k' : Kernel) (t : Tid) : Prop where
  lists : k'.taskList = (schedulerRemoveTask k t).taskList ∧
    k'.next = (schedulerRemoveTask k t).next ∧ k'.rrCurrent = (schedulerRemoveTask k t).rrCurrent
  waits : k'.waitNext = k.waitNext ∧ k'.head = k.head
  mutex : k'.mutex = k.mutex
  current : k'.currentTask = k.currentTask
  ring : k'.ring = k.ring
  kernel : k'.kernelTcb = k.kernelTcb

theorem taskDelete_deleted (hr : Removed k (schedulerRemoveTask k t) t (k.tcb t).priority runs)
    (h : taskDelete L k t = some k') : Deleted k k' t := by
  obtain ⟨heap, alloc, base, rfl⟩ := taskDelete_cases h
  have hfields := hr.tcb
  have hrest := hr.rest
  have hset : ∀ x, (freeTcb ({ schedulerRemoveTask k t with heap := heap }.setTcb t fun tcb =>
      { tcb with stackAlloc := alloc, stackBase := base }) t).tcb x =
      if x = t then { (schedulerRemoveTask k t).tcb x with stackAlloc := alloc, stackBase := base }
      else (schedulerRemoveTask k t).tcb x := by
    intro x
    by_cases hx : x = t
    · subst hx
      rw [if_pos rfl]
      exact Function.update_self _ _ _
    · rw [if_neg hx]
      exact Function.update_of_ne hx _ _
  have hsem : (schedulerRemoveTask k t).sem = k.sem := (congrArg Kernel.sem hrest :)
  have hmutex : (schedulerRemoveTask k t).mutex = k.mutex := (congrArg Kernel.mutex hrest :)
  have hqueue : (schedulerRemoveTask k t).queue = k.queue := (congrArg Kernel.queue hrest :)
  refine ⟨⟨rfl, ?_, rfl⟩, ⟨?_, ?_⟩, hmutex, (congrArg Kernel.currentTask hrest :),
    (congrArg Kernel.ring hrest :), (congrArg Kernel.kernelTcb hrest :)⟩
  · funext x
    rw [Kernel.next, Kernel.next, hset]
    split <;> rfl
  · funext x
    have hold := (congrArg Tcb.waitNext (hfields x) :)
    rw [Kernel.waitNext, Kernel.waitNext, hset]
    split <;> exact hold
  · funext w
    cases w with
    | sem a => exact congrArg (fun f : Nat → Semaphore => (f a).waitList) hsem
    | mutex a => exact congrArg (fun f : Nat → Mutex => (f a).waitList) hmutex
    | send a => exact congrArg (fun f : Nat → Queue => (f a).sendWait) hqueue
    | recv a => exact congrArg (fun f : Nat → Queue => (f a).recvWait) hqueue

end Removal

section Holders
variable {L : Layout} {s s' : Sys} {g : Ghost} {t : Tid} {p : Pc} {op : Op} {r : Ret} {W : Prop}

/-- On some run list. -/
def Sys.Live (s : Sys) (t : Tid) : Prop :=
  ∃ pr l, Linked s.k.next (s.k.taskList pr) l ∧ t ∈ l

/-- `t` is off the CPU and not the worker, owns no mutex and is in no syscall and no wait,
and nobody is about to wake it. It may be ready, or asleep in `task_delay`. -/
structure Sys.AtRest (s : Sys) (t : Tid) : Prop where
  current : s.k.currentTask ≠ some t
  worker : s.k.kernelTcb ≠ some t
  owner : ∀ m, (s.k.mutex m).owner ≠ some t
  gate : (s.k.tcb t).svcBlocked = false
  head : ∀ w, s.k.head w ≠ some t
  waitNext : ∀ x, s.k.waitNext x ≠ some t
  wakes : ∀ u, (s.pc u).wakes ≠ some t

/-- Nothing but its run list and its cursor refers to `t`. -/
structure Sys.Unheld (s : Sys) (t : Tid) : Prop where
  current : s.k.currentTask ≠ some t
  head : ∀ w, s.k.head w ≠ some t
  waitNext : ∀ x, s.k.waitNext x ≠ some t
  owner : ∀ m, (s.k.mutex m).owner ≠ some t
  ring : ∀ item ∈ s.k.kwork, item.caller ≠ t
  kernel : s.k.kernelTcb ≠ some t
  code : ∀ x, x ≠ t → t ∉ (s.pc x).names

theorem Inv.live (hg : Inv L s g) (h : s.Live t) : g.place t ≠ .fresh := by
  obtain ⟨pr, l, hl, hmem⟩ := h
  obtain rfl := linked_unique hl (hg.scheduled.linked pr)
  exact (hg.scheduled.alive t).mpr ((hg.scheduled.rank pr t hmem).1 ▸ hmem)

theorem caller_of_names (h : t ∈ r.names) : r.caller = some t := by
  cases r with
  | app => cases h
  | serve caller => exact congrArg some (List.mem_singleton.mp h).symm

theorem app_names (h : op.fits .app) : op.names = [] := by
  cases op <;> first | rfl | cases h

theorem fits_caller (hfits : op.fits r) (h : t ∈ op.names ++ r.names) : r.caller = some t := by
  cases r with
  | app =>
    rw [app_names hfits] at h
    cases h
  | serve caller =>
    rcases List.mem_append.mp h with hop | hr
    · exact congrArg some (List.mem_singleton.mp (fits_names hfits hop)).symm
    · exact caller_of_names hr

/-- Whoever's code points to `t` serves it, wakes it or builds it. -/
theorem Pc.names_cases (hfits : p.fits W) (h : t ∈ p.names) :
    p.serves = some t ∨ p.wakes = some t ∨ p.spawns = some t := by
  have happ : ∀ (op : Op) (r : Ret), op.fits .app ∧ r = .app → t ∉ op.names ++ r.names := by
    rintro op r ⟨hop, rfl⟩ hmem
    rw [app_names hop] at hmem
    cases hmem
  cases p with
  | enter op r => exact Or.inl (fits_caller hfits.1 h)
  | retry op r => exact absurd h (happ op r ⟨hfits.1, hfits.2.1⟩)
  | block op r => exact absurd h (happ op r ⟨hfits.1, hfits.2.1⟩)
  | check op r => exact absurd h (happ op r ⟨hfits.1, hfits.2.1⟩)
  | wake x v after =>
    cases after with
    | loop => exact Or.inl (congrArg some (List.mem_singleton.mp h).symm)
    | ret r v' =>
      rcases List.mem_cons.mp h with rfl | hr
      · exact Or.inr (Or.inl rfl)
      · exact Or.inl (caller_of_names hr)
  | pend after =>
    cases after with
    | loop => cases h
    | ret r v' => exact Or.inl (caller_of_names h)
  | dispatch item => exact Or.inl (congrArg some (List.mem_singleton.mp h).symm)
  | create c r => exact Or.inl (caller_of_names h)
  | queueBuffer p r => exact Or.inl (caller_of_names h)
  | queueFree p r => exact Or.inl (caller_of_names h)
  | publish p type r => exact Or.inl (caller_of_names h)
  | spawnStack x args => exact Or.inr (Or.inr (congrArg some (List.mem_singleton.mp h).symm))
  | spawnFree x => exact Or.inr (Or.inr (congrArg some (List.mem_singleton.mp h).symm))
  | spawnAdd x alloc args =>
    exact Or.inr (Or.inr (congrArg some (List.mem_singleton.mp h).symm))
  | app => cases h
  | idle => cases h
  | svcRet => cases h
  | workerStart => cases h
  | workerPop => cases h
  | workerSleep => cases h
  | spawnTcb args => cases h

theorem names_of_caller (h : r.caller = some t) : t ∈ r.names := by
  cases r with
  | app => cases h
  | serve caller =>
    obtain rfl : caller = t := Option.some.inj h
    exact List.mem_singleton_self caller

theorem Pc.mem_names_of_serves (h : p.serves = some t) : t ∈ p.names := by
  cases p with
  | enter op r => exact List.mem_append_right _ (names_of_caller h)
  | retry op r => exact List.mem_append_right _ (names_of_caller h)
  | block op r => exact List.mem_append_right _ (names_of_caller h)
  | check op r => exact List.mem_append_right _ (names_of_caller h)
  | wake x v after =>
    cases after with
    | loop => exact List.mem_singleton.mpr (Option.some.inj h).symm
    | ret r v' => exact List.mem_cons_of_mem x (names_of_caller h)
  | pend after =>
    cases after with
    | loop => cases h
    | ret r v' => exact names_of_caller h
  | dispatch item => exact List.mem_singleton.mpr (Option.some.inj h).symm
  | create c r => exact names_of_caller h
  | queueBuffer p r => exact names_of_caller h
  | queueFree p r => exact names_of_caller h
  | publish p type r => exact names_of_caller h
  | _ => cases h

theorem Pc.mem_names_of_wakes (h : p.wakes = some t) : t ∈ p.names := by
  cases p with
  | wake x v after =>
    cases after with
    | loop => cases h
    | ret r v' =>
      obtain rfl : x = t := Option.some.inj h
      exact List.mem_cons_self
  | _ => cases h

/-- A task at rest has its own place, so nothing but its run list and its cursor has it. -/
theorem Sys.AtRest.own (h : s.AtRest t) (hg : Inv L s g) (hlive : s.Live t) :
    g.place t = .own := by
  have hview := hg.placed.task t
  have hgate : (s.view t).tcb.svcBlocked = false := h.gate
  cases hp : g.place t with
  | fresh => exact absurd hp (hg.live hlive)
  | own => rfl
  | ring =>
    rw [hp] at hview
    exact absurd (hview.svc.symm.trans hgate) (by simp)
  | served u =>
    rw [hp] at hview
    exact absurd (hview.svc.symm.trans hgate) (by simp)
  | listed w =>
    have hmem := (hg.placed.mem_list t w).mpr hp
    exact absurd hmem (linked_notMem (hg.placed.lists w) (h.head w) h.waitNext)
  | waking u => exact absurd ((hg.placed.wakes_iff u t).mpr hp) (h.wakes u)

theorem Sys.Unheld.atRest (h : s.Unheld t) (hg : Inv L s g) (hlive : s.Live t) :
    s.AtRest t := by
  have hview := hg.placed.task t
  have hserves : ∀ u, (s.pc u).serves = some t → u = t := fun u hu => by
    by_contra hne
    exact h.code u hne (Pc.mem_names_of_serves hu)
  have hwakes : ∀ u, (s.pc u).wakes = some t → u = t := fun u hu => by
    by_contra hne
    exact h.code u hne (Pc.mem_names_of_wakes hu)
  have hplace : g.place t = .own := by
    cases hp : g.place t with
    | fresh => exact absurd hp (hg.live hlive)
    | own => rfl
    | ring =>
      obtain ⟨item, hitem, hcaller⟩ := List.mem_map.mp ((hg.placed.mem_ring t).mpr hp)
      exact absurd hcaller (h.ring item hitem)
    | served u =>
      have hu := (hg.placed.serves_iff u t).mpr hp
      obtain rfl := hserves u hu
      rw [hp] at hview
      have hpc : s.pc u = .svcRet := hview.pc
      rw [hpc] at hu
      cases hu
    | listed w =>
      have hmem := (hg.placed.mem_list t w).mpr hp
      exact absurd hmem (linked_notMem (hg.placed.lists w) (h.head w) h.waitNext)
    | waking u =>
      have hu := (hg.placed.wakes_iff u t).mpr hp
      obtain rfl := hwakes u hu
      rw [hp] at hview
      obtain ⟨w, hw⟩ := hview
      rcases hw.route with ⟨_, hpc, _⟩ | ⟨_, hpc, _⟩
      · have hpc : s.pc u = .svcRet := hpc
        rw [hpc] at hu
        cases hu
      · have hpc : (s.pc u).waits = some w := hpc
        cases hcode : s.pc u <;> rw [hcode] at hu hpc <;> first | cases hu | cases hpc
  rw [hplace] at hview
  refine ⟨h.current, h.kernel, h.owner, hview.svc, h.head, h.waitNext, fun u hu => ?_⟩
  have hbad := hplace.symm.trans ((hg.placed.wakes_iff u t).mp hu)
  cases hbad

theorem Sys.AtRest.unheld (h : s.AtRest t) (hg : Inv L s g) (hlive : s.Live t) :
    s.Unheld t := by
  have hown := h.own hg hlive
  refine ⟨h.current, h.head, h.waitNext, h.owner, fun item hitem hcaller => ?_, h.worker,
    fun x _ hmem => ?_⟩
  · have hring := (hg.placed.mem_ring t).mp (List.mem_map.mpr ⟨item, hitem, hcaller⟩)
    have hbad := hown.symm.trans hring
    cases hbad
  · rcases Pc.names_cases (hg.coded.pcs x) hmem with hs | hw | hb
    · have hbad := hown.symm.trans ((hg.placed.serves_iff x t).mp hs)
      cases hbad
    · exact h.wakes x hw
    · exact hg.live hlive (hg.scheduled.spawns x t hb).1

theorem Inv.atRest_iff (hg : Inv L s g) (hlive : s.Live t) : s.AtRest t ↔ s.Unheld t :=
  ⟨fun h => h.unheld hg hlive, fun h => h.atRest hg hlive⟩

theorem Inv.removed (hg : Inv L s g) (t : Tid) :
    Removed s.k (schedulerRemoveTask s.k t) t (s.k.tcb t).priority g.runs :=
  schedulerRemoveTask_removed hg.scheduled.linked fun p q x hp hq =>
    (hg.scheduled.rank p x hp).1.symm.trans (hg.scheduled.rank q x hq).1

/-- `task_delete` clears what the scheduler has, and what else refers to a task stays. -/
theorem deleted_omits_iff {k : Kernel} (hg : Inv L s g) (hloose : s.k.Unchained)
    (hdel : taskDelete L s.k t = some k) :
    (⟨k, s.pc, s.log⟩ : Sys).Omits t ↔ s.Unheld t := by
  have hd := taskDelete_deleted (hg.removed t) hdel
  obtain ⟨hlists, hlinks, hcursors⟩ := hd.lists
  obtain ⟨hlist, hnext, hcursor⟩ := schedulerRemoveTask_forgets (t := t) hg.scheduled.linked
    (fun p x hx => (hg.scheduled.rank p x hx).1) hg.scheduled.cursor hloose
  rw [← hlists] at hlist
  rw [← hlinks] at hnext
  rw [← hcursors] at hcursor
  have hring := hd.ring
  simp only [Kernel.ring, Prod.mk.injEq] at hring
  obtain ⟨hbuf, hhead, htail⟩ := hring
  have hkwork : k.kwork = s.k.kwork := by rw [Kernel.kwork, Kernel.kwork, hbuf, hhead, htail]
  constructor
  · rintro ⟨hk, hcode⟩
    obtain ⟨_, _, _, hcurrent, hheads, hwait, howner, hring, hkernel⟩ := hk
    rw [hd.current] at hcurrent
    rw [hd.waits.1] at hwait
    rw [hd.waits.2] at hheads
    rw [hd.mutex] at howner
    rw [hkwork] at hring
    rw [hd.kernel] at hkernel
    exact ⟨hcurrent, hheads, hwait, howner, hring, hkernel, hcode⟩
  · intro h
    refine ⟨⟨hlist, hnext, hcursor, ?_, ?_, ?_, ?_, ?_, ?_⟩, h.code⟩
    · rw [hd.current]
      exact h.current
    · rw [hd.waits.2]
      exact h.head
    · rw [hd.waits.1]
      exact h.waitNext
    · rw [hd.mutex]
      exact h.owner
    · rw [hkwork]
      exact h.ring
    · rw [hd.kernel]
      exact h.kernel

end Holders

/-- The task just made of the control block `t`: its run list refers to it, and nothing else. -/
structure Sys.Newborn (s s' : Sys) (t : Tid) : Prop where
  joined : ∃ pr, Joined s.k s'.k t pr ∧
    ({ s'.k with taskList := Function.update s'.k.taskList pr (s'.k.next t) } : Kernel).Omits t
  code : ∀ x, x ≠ t → (s'.pc x).spawns ≠ some t → t ∉ (s'.pc x).names

/-- `task_delete` of `t` turned `s.k` into `k` and left nothing behind. -/
structure CleanlyDeleted (L : Layout) (s : Sys) (t : Tid) (k : Kernel) : Prop where
  omits : (⟨k, s.pc, s.log⟩ : Sys).Omits t
  /-- Everybody is on the wait list it was on. -/
  waits : k.waitNext = s.k.waitNext ∧ k.head = s.k.head
  /-- Until a new task is made of the control block no step changes it or refers to it. -/
  untouched : ∀ labels r,
    Permitted (fun s l => ¬ (l = .go ∧ s.Adds t)) (Sys.step L) ⟨k, s.pc, s.log⟩ labels →
    run (Sys.step L) ⟨k, s.pc, s.log⟩ labels = some r → r.Rid t (k.tcb t)
  newborn : ∀ labels r r',
    Permitted (fun s l => ¬ (l = .go ∧ s.Adds t)) (Sys.step L) ⟨k, s.pc, s.log⟩ labels →
    run (Sys.step L) ⟨k, s.pc, s.log⟩ labels = some r → r.Adds t → r.step L .go = some r' →
    r.Newborn r' t

section Clean
variable {L : Layout} {s s' : Sys} {k k' : Kernel} {t : Tid} {b : Tcb}

theorem Joined.omits {pr : Nat} (hj : Joined k k' t pr) (h : k.Omits t) :
    ({ k' with taskList := Function.update k'.taskList pr (k'.next t) } : Kernel).Omits t := by
  have hlist : Function.update k'.taskList pr (k'.next t) = k.taskList := by
    rw [hj.taskList, Kernel.next, hj.next, Function.update_idem, Function.update_eq_self]
  have hrest := hj.rest
  have hheads : ∀ w, k'.head w = k.head w := by
    intro w
    rw [← hrest]
    cases w <;> rfl
  have hkwork : k'.kwork = k.kwork := by
    rw [← hrest]
    rfl
  refine ⟨fun p => ?_, fun x => ?_, ?_, ?_, fun w => ?_, fun x => ?_, ?_, ?_, ?_⟩
  · change Function.update k'.taskList pr (k'.next t) p ≠ some t
    rw [hlist]
    exact h.taskList p
  · change (k'.tcb x).next ≠ some t
    by_cases hx : x = t
    · subst hx
      rw [hj.next]
      exact h.taskList pr
    · rw [hj.other x hx]
      exact h.next x
  · rw [← hrest] at h
    exact h.cursor
  · rw [← hrest] at h
    exact h.current
  · have hhead : ({ k' with
        taskList := Function.update k'.taskList pr (k'.next t) } : Kernel).head w = k.head w := by
      rw [← hheads w]
      cases w <;> rfl
    rw [hhead]
    exact h.head w
  · change (k'.tcb x).waitNext ≠ some t
    by_cases hx : x = t
    · subst hx
      rw [hj.waitNext]
      exact (Option.some_ne_none x).symm
    · rw [hj.other x hx]
      exact h.waitNext x
  · rw [← hrest] at h
    exact h.owner
  · change ∀ item ∈ k'.kwork, item.caller ≠ t
    rw [hkwork]
    exact h.ring
  · rw [← hrest] at h
    exact h.kernel

/-- The step that makes a task of the control block. -/
theorem Sys.Rid.newborn (h : s.Rid t b) (hadds : s.Adds t) (hstep : s.step L .go = some s') :
    s.Newborn s' t := by
  obtain ⟨u, alloc, args, hcur, hpc⟩ := hadds
  obtain ⟨hbad, _⟩ | ⟨oldSp, k, hbad, _⟩ | ⟨v, _, hv, hthread⟩ := step_cases hstep
  · cases hbad
  · cases hbad
  · obtain rfl : u = v := Option.some.inj (hcur.symm.trans hv)
    have hgo : s.go L u = some s' := hthread
    simp only [Sys.go, hpc, Option.some.injEq] at hgo
    subst hgo
    have hj := schedulerAddTask_joined s.k t alloc args
    refine ⟨⟨args.priority, hj, hj.omits h.kernel.omits⟩, fun x hx => ?_⟩
    change (Function.update (Function.update s.pc t .app) u .app x).spawns ≠ some t →
      t ∉ (Function.update (Function.update s.pc t .app) u .app x).names
    by_cases hxu : x = u
    · subst hxu
      rw [Function.update_self]
      simp [Pc.names]
    · rw [Function.update_of_ne hxu, Function.update_of_ne hx]
      exact h.code x hx

theorem Sys.Omits.rid (h : s.Omits t)
    (hbounds : s.k.kworkHead < kworkQueueSize ∧ s.k.kworkTail < kworkQueueSize) :
    s.Rid t (s.k.tcb t) :=
  ⟨⟨h.kernel, rfl, hbounds⟩, fun x hx _ => h.code x hx⟩

/-- Deleting a live task leaves no dangling reference exactly if the task is at rest. -/
theorem task_delete_clean_iff (hL : L.heap.Placed) (hs : s.Reached L) (hlive : s.Live t)
    (hdel : taskDelete L s.k t = some k) : CleanlyDeleted L s t k ↔ s.AtRest t := by
  obtain ⟨g, hg⟩ := hs.inv hL
  have hiff := deleted_omits_iff hg (hs.unchained hL) hdel
  have hd := taskDelete_deleted (hg.removed t) hdel
  constructor
  · intro h
    exact (hg.atRest_iff hlive).mpr (hiff.mp h.omits)
  · intro hrest
    have homits := hiff.mpr ((hg.atRest_iff hlive).mp hrest)
    have hring := hd.ring
    simp only [Kernel.ring, Prod.mk.injEq] at hring
    have hbounds : k.kworkHead < kworkQueueSize ∧ k.kworkTail < kworkQueueSize := by
      rw [hring.2.1, hring.2.2]
      exact ⟨hg.coded.head, hg.coded.tail⟩
    have huntouched : ∀ labels r,
        Permitted (fun s l => ¬ (l = .go ∧ s.Adds t)) (Sys.step L) ⟨k, s.pc, s.log⟩ labels →
        run (Sys.step L) ⟨k, s.pc, s.log⟩ labels = some r → r.Rid t (k.tcb t) := by
      intro labels r hp hrun
      exact permitted_invariant (I := fun r => r.Rid t (k.tcb t))
        (fun r l r' hr hl hstep => hr.step hstep hl) (homits.rid hbounds) hp hrun
    exact ⟨homits, hd.waits, huntouched, fun labels r r' hp hrun hadds hstep =>
      (huntouched labels r hp hrun).newborn hadds hstep⟩

end Clean

/-- Task 2 has not run yet and is at rest. -/
theorem task_delete_clean_iff_ready : ∃ s k, s.Reached boardLayout ∧
    taskDelete boardLayout s.k 2 = some k ∧ CleanlyDeleted boardLayout s 2 k := by
  obtain ⟨s, hrun, ⟨hlist, hnext, hgate, hcurrent, hworker, hwait, hwakes, hdel⟩, hs⟩ :=
    boardRun_comes [] (P := fun s => s.k.taskList 2 = some 2 ∧ s.k.next 2 = none ∧
      (s.k.tcb 2).svcBlocked = false ∧ s.k.currentTask ≠ some 2 ∧ s.k.kernelTcb ≠ some 2 ∧
      (∀ x, s.k.waitNext x ≠ some 2) ∧ (∀ u, (s.pc u).wakes ≠ some 2) ∧
      (taskDelete boardLayout s.k 2).isSome = true) (by decide +kernel) fun _ hs => hs
  obtain ⟨s₀, hstart, hs₀, _⟩ := boardRun_started hrun
  obtain rfl := Option.some.inj (hrun.symm.trans hstart)
  obtain ⟨_, hobjects, _⟩ := hs₀.bare
  simp only [Kernel.objects, Prod.mk.injEq] at hobjects
  obtain ⟨hsem, hmutex, hqueue⟩ := hobjects
  have hhead : ∀ w, s.k.head w ≠ some 2 := by
    intro w
    cases w <;> simp [Kernel.head, ← hsem, ← hmutex, ← hqueue, Kernel.reset]
  have howner : ∀ m, (s.k.mutex m).owner ≠ some 2 := by
    intro m
    simp [← hmutex, Kernel.reset]
  obtain ⟨k, hk⟩ := Option.isSome_iff_exists.mp hdel
  have hlive : s.Live 2 := ⟨2, [2], ⟨hlist, hnext⟩, List.mem_singleton_self 2⟩
  exact ⟨s, k, hs, hk, (task_delete_clean_iff boardLayout_placed hs hlive hk).mpr
    ⟨hcurrent, hworker, howner, hgate, hhead, hwait, hwakes⟩⟩

/-- Task 1 creates a semaphore and waits for it, and task 2 comes to run. -/
def waitingLabels : List Label :=
  boardReady ++ [.call (.create (.sem 0)), .go, .go, .call (.semTake 0x10000 waitForever), .go,
    .go, .pendSV 0x2001F000]

/-- Task 2 creates a task and gives the semaphore. -/
def reuseLabels : List Label :=
  [.call (.taskCreate ⟨0x08009000, 3, 256, 0⟩), .go, .go, .go, .pendSV 0x2001F000,
    .call (.semGive 0x10000), .go]

/-- Task 2 deletes the waiting task 1. The wait list still leads to its control block, and
the next give wakes the task that has got the block since. -/
theorem task_delete_dangling : ∃ s k, s.Reached boardLayout ∧ s.Live 1 ∧
    taskDelete boardLayout s.k 1 = some k ∧ k.head (.sem 0x20006428) = some 1 ∧
    ¬ CleanlyDeleted boardLayout s 1 k ∧
    ∃ r, run (Sys.step boardLayout) ⟨k, s.pc, s.log⟩ reuseLabels = some r ∧
      (r.k.tcb 1).taskFunction = 0x08009000 ∧ (r.pc 2).wakes = some 1 ∧
      (r.k.sem 0x20006428).count = 0 := by
  obtain ⟨s, _, ⟨hlist, hnext, hdel⟩, hs⟩ :=
    boardRun_comes waitingLabels (P := fun s => s.k.taskList 1 = some 1 ∧ s.k.next 1 = none ∧
      ((taskDelete boardLayout s.k 1).any fun k => decide (k.head (.sem 0x20006428) = some 1) &&
        (run (Sys.step boardLayout) ⟨k, s.pc, s.log⟩ reuseLabels).any fun r =>
          decide ((r.k.tcb 1).taskFunction = 0x08009000 ∧ (r.pc 2).wakes = some 1 ∧
            (r.k.sem 0x20006428).count = 0)) = true) (by decide +kernel) fun _ hs => hs
  obtain ⟨k, hk, hboth⟩ := (Option.any_eq_true _ _).mp hdel
  obtain ⟨hhead, hreuse⟩ := Bool.and_eq_true_iff.mp hboth
  obtain ⟨r, hr, hafter⟩ := (Option.any_eq_true _ _).mp hreuse
  have hstill := of_decide_eq_true hhead
  exact ⟨s, k, hs, ⟨1, [1], ⟨hlist, hnext⟩, List.mem_singleton_self 1⟩, hk, hstill,
    fun h => h.omits.kernel.head _ hstill, r, hr, of_decide_eq_true hafter⟩

end Crest
