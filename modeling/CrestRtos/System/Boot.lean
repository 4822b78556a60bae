import CrestRtos.System.TickSteps

/-!
# Starting the system

`main` creates the tasks with interrupts masked, and `port_start_first_task`
puts the first of them on the CPU. A system that has started has one worker and
an idle task; what the other tasks run is up to the application.
-/

namespace Crest
open IntrusiveList MachineWord Alloc ByteMemory

/-- The function that `main` passes to `task_create`. -/
inductive Entry
  | worker
  | idle
  | app
  deriving DecidableEq, Repr

def Entry.pc : Entry → Pc
  | .worker => .workerStart
  | .idle => .idle
  | .app => .app

def Sys.reset (heapMem ram : Memory) : Sys := ⟨Kernel.reset heapMem ram, fun _ => .app, []⟩

/-- `task_create` from `main`, with nothing else running. -/
def Sys.bootTask (L : Layout) (s : Sys) (task : Entry × TaskArgs) : Option Sys :=
  (taskCreate L s.k task.2).map fun (k, created) =>
    match created with
    | none => { s with k := k }
    | some t => { s with k := k }.setPc t task.1.pc

def Sys.bootTasks (L : Layout) : Sys → List (Entry × TaskArgs) → Option Sys
  | s, [] => some s
  | s, task :: tasks => (s.bootTask L task).bind fun s' => s'.bootTasks L tasks

/-- `port_start_first_task`; without a READY task it loops for ever. -/
def Sys.start (L : Layout) (s : Sys) : Option Sys :=
  (schedulerGetNext s.k).map fun (k, first) => { s with k := resume L k first }

/-- The scheduler has just been started, with one worker and an idle task. -/
def Sys.Started (L : Layout) (s : Sys) : Prop :=
  ∃ heapMem ram tasks s₁, (Sys.reset heapMem ram).bootTasks L tasks = some s₁ ∧
    s₁.start L = some s ∧ (∃ w, ∀ t, s₁.pc t = .workerStart ↔ t = w) ∧ ∃ i, s₁.pc i = .idle

/-- A control block that has not run yet. -/
structure Tcb.Unused (tcb : Tcb) : Prop where
  state : tcb.state = .ready
  delay : tcb.delayTicks = 0
  list : tcb.blockingWaitList = none
  svc : tcb.svcBlocked = false

/-- Between the first `task_create` and the start of the scheduler. -/
structure Booting (L : Layout) (s : Sys) (g : Ghost) : Prop where
  scheduled : Scheduled s g
  place : ∀ t, g.place t = .fresh ∨ g.place t = .own
  used : ∀ t, s.k.tcbUsed t = true → g.place t = .own
  fresh : ∀ t, g.place t = .fresh → s.pc t = .app
  code : ∀ t, s.pc t = .app ∨ s.pc t = .idle ∨ s.pc t = .workerStart
  tcbs : ∀ t, (s.k.tcb t).Unused
  heads : ∀ w, s.k.head w = none
  table : ∀ i, (s.k.table i).inUse = false
  ring : s.k.kworkHead = 0 ∧ s.k.kworkTail = 0
  kernel : s.k.kernelTcb = none
  idle : s.k.currentTask = none
  heap : HeapOwns L s.k.heap g.live
  log : s.log = []

section Boot
variable {L : Layout} {s s' : Sys} {g : Ghost}

def Ghost.reset (worker : Tid) : Ghost where
  lists := fun _ => []
  place := fun _ => .fresh
  runs := fun _ => []
  live := []
  objs := fun _ => none
  worker := worker

theorem booting_reset (L : Layout) (heapMem ram : Memory) (w : Tid) :
    Booting L (Sys.reset heapMem ram) (Ghost.reset w) := by
  constructor
  · constructor
    · exact fun _ => rfl
    · intro t
      simp [Ghost.reset]
    · intro pr t ht
      cases ht
    · intro pr t ht
      cases ht
    · exact fun _ _ => rfl
    · intro u t ht
      cases ht
    · intro u u' t ht
      cases ht
  · exact fun _ => Or.inl rfl
  · intro t ht
    cases ht
  · exact fun _ _ => rfl
  · exact fun _ => Or.inl rfl
  · exact fun _ => ⟨rfl, rfl, rfl, rfl⟩
  · intro w
    cases w <;> rfl
  · exact fun _ => rfl
  · exact ⟨rfl, rfl⟩
  · rfl
  · rfl
  · exact Or.inl ⟨rfl, rfl⟩
  · rfl

theorem entry_pc (e : Entry) : e.pc = .app ∨ e.pc = .idle ∨ e.pc = .workerStart := by
  cases e with
  | worker => exact Or.inr (Or.inr rfl)
  | idle => exact Or.inr (Or.inl rfl)
  | app => exact Or.inl rfl

/-- Code with which `main` creates a task. -/
structure Pc.Boots (p : Pc) : Prop where
  serves : p.serves = none
  wakes : p.wakes = none
  settled : ∀ b, p.settled b = .idle
  gate : p ≠ .svcRet
  spawns : p.spawns = none
  builds : p.builds = none
  object : p.object = none

theorem Booting.boots (h : Booting L s g) (t : Tid) : (s.pc t).Boots := by
  rcases h.code t with hpc | hpc | hpc <;> rw [hpc] <;>
    exact ⟨rfl, rfl, fun _ => rfl, (fun heq => by cases heq), rfl, rfl, rfl⟩

/-- Code that creates no task says nothing about the run lists. -/
theorem Scheduled.boot (h : Scheduled s g) (hk : s'.k.frame = s.k.frame)
    (hrank : ∀ t, s'.k.rank t = s.k.rank t) (hpc : ∀ t, (s'.pc t).spawns = none)
    (hused : ∀ t, s'.k.tcbUsed t = false → g.place t = .fresh) : Scheduled s' g := by
  have hnone : ∀ u t, (s'.pc u).spawns ≠ some t := by
    intro u t
    rw [hpc]
    simp
  have hold : Scheduled { s with pc := s'.pc } g :=
    ⟨h.linked, h.alive, h.rank, h.cursor, h.used, fun u t hu => absurd hu (hnone u t),
      fun u _ t hu => absurd hu (hnone u t)⟩
  refine hold.reserve (u := 0) (p := s'.pc 0) hk hrank ?_ hused ?_ ?_
  · exact (Function.update_eq_self 0 s'.pc).symm
  · exact fun v x _ hx => absurd hx (hnone v x)
  · exact fun x hx => absurd hx (hnone 0 x)

/-- A new task of `main` is linked in. -/
theorem Booting.link {entry : Entry} {args : TaskArgs} {t : Tid} {k : Kernel} {heap : Heap}
    {live : List Nat} (h : Booting L s g)
    (hj : Joined { s.k with heap := heap, tcbUsed := Function.update s.k.tcbUsed t true } k t
      args.priority)
    (hacc : ¬ args.accepted = false) (hplace : g.place t = .fresh)
    (hheap : HeapOwns L heap live) :
    Booting L ({ s with k := k }.setPc t entry.pc)
      { g with
        place := Function.update g.place t .own
        runs := Function.update g.runs args.priority (t :: g.runs args.priority)
        live := live } := by
  have hpr : args.priority < maxTaskPriorities := by
    have hok : args.accepted = true := by simpa using hacc
    simp only [TaskArgs.accepted, Bool.and_eq_true, decide_eq_true_eq] at hok
    exact hok.1.1
  have hcode : ∀ x, Function.update s.pc t entry.pc x = .app ∨
      Function.update s.pc t entry.pc x = .idle ∨
      Function.update s.pc t entry.pc x = .workerStart := by
    intro x
    by_cases hx : x = t
    · rw [hx, Function.update_self]
      exact entry_pc entry
    · rw [Function.update_of_ne hx]
      exact h.code x
  have hnone : ∀ x, (Function.update s.pc t entry.pc x).spawns = none := by
    intro x
    rcases hcode x with hpc | hpc | hpc <;> rw [hpc] <;> rfl
  have hfresh : ∀ x, Function.update g.place t .own x = .fresh → x ≠ t ∧ g.place x = .fresh := by
    intro x hx
    have hne : x ≠ t := by
      rintro rfl
      rw [Function.update_self] at hx
      cases hx
    rw [Function.update_of_ne hne] at hx
    exact ⟨hne, hx⟩
  have hused : k.tcbUsed = Function.update s.k.tcbUsed t true := (congrArg Kernel.tcbUsed hj.rest :)
  have hfirst : Scheduled
      { s with k := { s.k with
        heap := heap
        tcbUsed := Function.update s.k.tcbUsed t true } } g := by
    have hold := fun t => (h.boots t).spawns
    refine h.scheduled.boot rfl (fun _ => rfl) hold ?_
    intro x hx
    by_cases hxt : x = t
    · rw [hxt]
      exact hplace
    · exact h.scheduled.used x ((Function.update_of_ne hxt _ _).symm.trans hx)
  have hjoin := hfirst.join hj hpr hplace (Function.update_self _ _ _) fun v => by
    rw [show (s.pc v).spawns = none from (h.boots v).spawns]
    simp
  have hsched : Scheduled ({ s with k := k }.setPc t entry.pc)
      { g with
        place := Function.update g.place t .own
        runs := Function.update g.runs args.priority (t :: g.runs args.priority) } :=
    hjoin.boot rfl (fun _ => rfl) hnone hjoin.used
  constructor
  · exact ⟨hsched.linked, hsched.alive, hsched.rank, hsched.cursor, hsched.used, hsched.spawns,
      hsched.spawner⟩
  · intro x
    change Function.update g.place t .own x = _ ∨ Function.update g.place t .own x = _
    by_cases hx : x = t
    · rw [hx, Function.update_self]
      exact Or.inr rfl
    · rw [Function.update_of_ne hx]
      exact h.place x
  · intro x hx
    change k.tcbUsed x = true at hx
    change Function.update g.place t .own x = .own
    by_cases hxt : x = t
    · rw [hxt, Function.update_self]
    · rw [hused, Function.update_of_ne hxt] at hx
      rw [Function.update_of_ne hxt]
      exact h.used x hx
  · intro x hx
    obtain ⟨hne, hold⟩ := hfresh x hx
    exact (Function.update_of_ne hne _ _).trans (h.fresh x hold)
  · exact hcode
  · intro x
    change (k.tcb x).Unused
    by_cases hx : x = t
    · subst hx
      exact ⟨hj.state, hj.delay, hj.list, hj.svc⟩
    · rw [hj.other x hx]
      exact h.tcbs x
  · intro w
    have hsem : k.sem = s.k.sem := (congrArg Kernel.sem hj.rest :)
    have hmutex : k.mutex = s.k.mutex := (congrArg Kernel.mutex hj.rest :)
    have hqueue : k.queue = s.k.queue := (congrArg Kernel.queue hj.rest :)
    rw [← h.heads w]
    change k.head w = _
    cases w <;> simp only [Kernel.head, hsem, hmutex, hqueue]
  · have htable : k.table = s.k.table := (congrArg Kernel.table hj.rest :)
    intro i
    change (k.table i).inUse = false
    rw [htable]
    exact h.table i
  · have hhead : k.kworkHead = s.k.kworkHead := (congrArg Kernel.kworkHead hj.rest :)
    have htail : k.kworkTail = s.k.kworkTail := (congrArg Kernel.kworkTail hj.rest :)
    exact ⟨hhead.trans h.ring.1, htail.trans h.ring.2⟩
  · have hkernel : k.kernelTcb = s.k.kernelTcb := (congrArg Kernel.kernelTcb hj.rest :)
    exact hkernel.trans h.kernel
  · have hcurrent : k.currentTask = s.k.currentTask := (congrArg Kernel.currentTask hj.rest :)
    exact hcurrent.trans h.idle
  · have hkheap : k.heap = heap := (congrArg Kernel.heap hj.rest :)
    exact hkheap ▸ hheap
  · exact h.log

/-- `task_create` from `main` links the new task in, or leaves the lists alone. -/
theorem Booting.task {task : Entry × TaskArgs} (hL : L.heap.Placed) (h : Booting L s g)
    (hstep : s.bootTask L task = some s') :
    ∃ g', Booting L s' g' ∧ g'.worker = g.worker ∧ g'.lists = g.lists ∧ g'.objs = g.objs := by
  obtain ⟨entry, args⟩ := task
  obtain ⟨⟨k, created⟩, hcreate, rfl⟩ := Option.map_eq_some_iff.mp hstep
  have hheapOnly : ∀ (heap : Heap) (live : List Nat), HeapOwns L heap live →
      ∃ g', Booting L { s with k := { s.k with heap := heap } } g' ∧
        g'.worker = g.worker ∧ g'.lists = g.lists ∧ g'.objs = g.objs := by
    intro heap live hheap
    refine ⟨{ g with live := live }, ?_, rfl, rfl, rfl⟩
    have hs := h.scheduled
    exact ⟨⟨hs.linked, hs.alive, hs.rank, hs.cursor, hs.used, hs.spawns, hs.spawner⟩, h.place,
      h.used, h.fresh, h.code, h.tcbs, h.heads, h.table, h.ring, h.kernel, h.idle, hheap, h.log⟩
  have hnothing : ∃ g', Booting L { s with k := s.k } g' ∧ g'.worker = g.worker ∧
      g'.lists = g.lists ∧ g'.objs = g.objs := ⟨g, h, rfl, rfl, rfl⟩
  rcases taskCreate_cases hcreate with
    ⟨_, rfl, rfl⟩ | ⟨t, heap, alloc, hacc, hunused, hmalloc, hrest⟩
  · exact hnothing
  · have hheap := h.heap.malloc hL hmalloc
    rcases hrest with ⟨hnull, rfl, rfl⟩ | ⟨hnull, rfl, rfl⟩
    · rw [if_pos hnull] at hheap
      exact hheapOnly heap g.live hheap
    · rw [if_neg hnull] at hheap
      have hplace : g.place t = .fresh := h.scheduled.used t hunused
      have hj := schedulerAddTask_joined
        { s.k with heap := heap, tcbUsed := Function.update s.k.tcbUsed t true } t alloc args
      generalize schedulerAddTask (initTcb
        { s.k with heap := heap, tcbUsed := Function.update s.k.tcbUsed t true } t alloc args) t
        = k at hj ⊢
      have hacc' : ¬ args.accepted = false := by simp [hacc]
      exact ⟨_, h.link hj hacc' hplace hheap, rfl, rfl, rfl⟩

/-- The first switch has put `n` on the CPU, and a cursor behind it. -/
structure Launched (s : Sys) (g : Ghost) (n : Tid) (s' : Sys) : Prop where
  own : g.place n = .own
  tcb : ∀ t, s'.k.tcb t =
    { s.k.tcb t with state := if t = n then .running else (s.k.tcb t).state }
  current : s'.k.currentTask = some n
  cursor : ∀ pr t, s'.k.rrCurrent pr = some t → t ∈ g.runs pr
  lists : s'.k.taskList = s.k.taskList
  used : s'.k.tcbUsed = s.k.tcbUsed
  head : s'.k.head = s.k.head
  ring : s'.k.ring = s.k.ring
  kernel : s'.k.kernelTcb = s.k.kernelTcb
  heap : s'.k.heap = s.k.heap
  table : s'.k.table = s.k.table
  pc : s'.pc = s.pc
  log : s'.log = s.log

theorem Booting.launched {i : Tid} (h : Booting L s g) (hi : s.pc i = .idle)
    (hstart : s.start L = some s') : ∃ n, Launched s g n s' := by
  have hiown : g.place i ≠ .fresh := by
    intro hfresh
    rw [h.fresh i hfresh] at hi
    cases hi
  have hiruns := (h.scheduled.alive i).mp hiown
  obtain ⟨pr, n, x, hn, hready, hx, hfound⟩ := schedulerGetNext_spec g.runs (k := s.k)
    h.scheduled.linked h.scheduled.cursor
    ⟨_, (h.scheduled.rank _ i hiruns).2, hiruns⟩ (h.tcbs i).state
  rw [Sys.start, hfound] at hstart
  obtain rfl := Option.some.inj hstart
  have hnfresh : g.place n ≠ .fresh :=
    (h.scheduled.alive n).mpr ((h.scheduled.rank pr n hn).1 ▸ hn)
  refine ⟨n, (h.place n).resolve_left hnfresh, fun t => ?_, rfl, fun pr' t ht => ?_, rfl, rfl, ?_,
    rfl, rfl, rfl, rfl, rfl, rfl⟩
  · by_cases ht : t = n
    · subst ht
      simp [resume]
    · simp [resume, ht, setTcb_tcb_of_ne]
  · change Function.update s.k.rrCurrent pr (some x) pr' = some t at ht
    by_cases hp : pr' = pr
    · subst hp
      rw [Function.update_self] at ht
      exact Option.some.inj ht ▸ hx
    · rw [Function.update_of_ne hp] at ht
      exact h.scheduled.cursor pr' t ht
  · funext w
    cases w <;> rfl

section Launch
variable {n w i : Tid}

theorem Launched.state (hl : Launched s g n s') (h : Booting L s g) (t : Tid) :
    (s'.k.tcb t).state = if t = n then .running else .ready := by
  rw [hl.tcb, (h.tcbs t).state]

theorem Launched.kwork (hl : Launched s g n s') (h : Booting L s g) : s'.k.kwork = [] := by
  have hring : (s'.k.kworkHead, s'.k.kworkTail) = (s.k.kworkHead, s.k.kworkTail) :=
    (congrArg Prod.snd hl.ring :)
  rw [h.ring.1, h.ring.2] at hring
  obtain ⟨hhead, htail⟩ := Prod.mk.inj hring
  rw [Kernel.kwork, hhead, htail]
  rfl

/-- Nobody waits and nothing is posted. -/
theorem Launched.placed (hl : Launched s g n s') (h : Booting L s g)
    (hlists : g.lists = fun _ => []) : Placed s' g.lists g.place := by
  constructor
  · intro w'
    rw [hlists]
    change s'.k.head w' = none
    rw [hl.head]
    exact h.heads w'
  · intro t p hp
    have hnot : t ∉ s'.occupants g.lists p := by
      cases p with
      | fresh => cases hp
      | own => cases hp
      | ring =>
        change t ∉ s'.k.kwork.map WorkItem.caller
        rw [hl.kwork h]
        simp
      | served u =>
        change t ∉ (s'.pc u).serves.toList
        rw [hl.pc, (h.boots u).serves]
        simp
      | listed w' =>
        change t ∉ g.lists w'
        rw [hlists]
        simp
      | waking u =>
        change t ∉ (s'.pc u).wakes.toList
        rw [hl.pc, (h.boots u).wakes]
        simp
    refine iff_of_false hnot ?_
    rintro rfl
    rcases h.place t with hpt | hpt <;> rw [hpt] at hp <;> cases hp
  · rw [hl.kwork h]
    exact List.nodup_nil
  · intro t
    have hphase : waitPhase s'.log t = .idle ∧ sysPhase s'.log t = .idle := by
      rw [hl.log, h.log]
      exact ⟨rfl, rfl⟩
    have hlist : (s'.k.tcb t).blockingWaitList = none := by
      rw [hl.tcb]
      exact (h.tcbs t).list
    have hsvc : (s'.k.tcb t).svcBlocked = false := by
      rw [hl.tcb]
      exact (h.tcbs t).svc
    have hdelay : (s'.k.tcb t).delayTicks = 0 := by
      rw [hl.tcb]
      exact (h.tcbs t).delay
    have hpc : s'.pc t = s.pc t := congrFun hl.pc t
    rcases h.place t with hp | hp
    · have hne : t ≠ n := by
        rintro rfl
        rw [hl.own] at hp
        cases hp
      have hready : (s'.k.tcb t).state = .ready := by rw [hl.state h, if_neg hne]
      rw [hp]
      exact ⟨hready, hdelay, hlist, hsvc, hpc.trans (h.fresh t hp), hphase.1, hphase.2⟩
    · have hstate := hl.state h t
      rw [hp]
      refine ⟨hlist, hsvc, fun _ => hdelay, fun _ => ?_, ?_, ?_⟩
      · split at hstate
        · exact Or.inr hstate
        · exact Or.inl hstate
      · refine hphase.1.trans ?_
        change _ = (s'.pc t).settled _
        rw [hpc]
        exact ((h.boots t).settled _).symm
      · refine hphase.2.trans ?_
        refine (if_neg ?_).symm
        change s'.pc t ≠ .svcRet
        rw [hpc]
        exact (h.boots t).gate

/-- The worker is about to run its first instruction. -/
theorem Launched.coded (hl : Launched s g n s') (h : Booting L s g)
    (hw : ∀ t, s.pc t = .workerStart ↔ t = w) (hworker : g.worker = w) : Coded s' g := by
  have hpcw : s.pc w = .workerStart := (hw w).mpr rfl
  have hring : (s'.k.kworkHead, s'.k.kworkTail) = (s.k.kworkHead, s.k.kworkTail) :=
    (congrArg Prod.snd hl.ring :)
  obtain ⟨hhead, htail⟩ := Prod.mk.inj hring
  constructor
  · intro t
    rw [hworker, hl.pc]
    rcases h.code t with hpc | hpc | hpc
    · rw [hpc]
      rintro rfl
      rw [hpcw] at hpc
      cases hpc
    · rw [hpc]
      rintro rfl
      rw [hpcw] at hpc
      cases hpc
    · rw [hpc]
      exact (hw t).mp hpc
  · intro hfresh
    rw [hworker] at hfresh
    rw [h.fresh w hfresh] at hpcw
    cases hpcw
  · rw [hworker, hl.pc, hl.kernel, h.kernel, hpcw]
    rfl
  · rw [hl.tcb]
    exact (h.tcbs _).delay
  · rw [hhead, h.ring.1]
    decide
  · rw [htail, h.ring.2]
    decide

/-- One task runs. -/
theorem Launched.running (hl : Launched s g n s') (h : Booting L s g) (hi : s.pc i = .idle) :
    Running s' g := by
  constructor
  · refine ⟨n, hl.current, ?_, Or.inl ?_⟩
    · rw [hl.own]
      simp
    · rw [hl.state h, if_pos rfl]
  · intro t ht
    rw [hl.state h] at ht
    by_cases hne : t = n
    · rw [hne]
      exact hl.current
    · rw [if_neg hne] at ht
      cases ht
  · intro c _ hb
    rw [hl.tcb] at hb
    exact absurd (hb.symm.trans (h.tcbs c).svc) (by simp)
  · refine ⟨i, (congrFun hl.pc i).trans hi, fun hfresh => ?_⟩
    rw [h.fresh i hfresh] at hi
    cases hi

/-- The run lists are those that `main` has built. -/
theorem Launched.scheduled (hl : Launched s g n s') (h : Booting L s g) : Scheduled s' g := by
  have hnext : s'.k.next = s.k.next := by
    funext t
    rw [Kernel.next, hl.tcb]
    rfl
  have hprio : ∀ t, (s'.k.tcb t).priority = (s.k.tcb t).priority := by
    intro t
    rw [hl.tcb]
  constructor
  · intro pr
    rw [hnext, hl.lists]
    exact h.scheduled.linked pr
  · intro t
    rw [hprio]
    exact h.scheduled.alive t
  · intro pr t
    rw [hprio]
    exact h.scheduled.rank pr t
  · exact hl.cursor
  · rw [hl.used]
    exact h.scheduled.used
  · rw [hl.pc, hl.used]
    exact h.scheduled.spawns
  · rw [hl.pc]
    exact h.scheduled.spawner

/-- There are no objects yet. -/
theorem Launched.objects (hl : Launched s g n s') (h : Booting L s g)
    (hlists : g.lists = fun _ => []) (hobjs : g.objs = fun _ => none) : Objects L s' g := by
  have hbuilds : ∀ u p, (s'.pc u).builds ≠ some p := by
    intro u p hp
    rw [hl.pc, (h.boots u).builds] at hp
    cases hp
  constructor
  · rw [hl.heap]
    exact h.heap
  · rw [hobjs]
    exact fun _ _ ha => by cases ha
  · intro j _ huse
    rw [hl.table, h.table j] at huse
    cases huse
  · rw [hlists]
    exact fun _ hne => absurd rfl hne
  · intro u a type ha
    rw [hl.pc, (h.boots u).object] at ha
    cases ha
  · exact fun u p hp => absurd hp (hbuilds u p)
  · exact fun u _ p hp => absurd hp (hbuilds u p)
  · rw [hobjs]
    exact fun _ ha => by cases ha
  · intro u p r hp
    refine absurd ?_ (hbuilds u p)
    rw [hp]
    rfl
  · intro u p r hp
    refine absurd ?_ (hbuilds u p)
    rw [hp]
    rfl

/-- The first switch: every task but the one on the CPU waits to be run. -/
theorem Booting.start (h : Booting L s g) (hw : ∀ t, s.pc t = .workerStart ↔ t = w)
    (hi : s.pc i = .idle) (hlists : g.lists = fun _ => []) (hobjs : g.objs = fun _ => none)
    (hworker : g.worker = w) (hstart : s.start L = some s') : Inv L s' g := by
  obtain ⟨n, hl⟩ := h.launched hi hstart
  constructor
  · exact hl.placed h hlists
  · exact hl.coded h hw hworker
  · exact hl.running h hi
  · exact hl.scheduled h
  · exact hl.objects h hlists hobjs

end Launch

theorem booting_tasks {tasks : List (Entry × TaskArgs)} (hL : L.heap.Placed) (h : Booting L s g)
    (hrun : s.bootTasks L tasks = some s') :
    ∃ g', Booting L s' g' ∧ g'.worker = g.worker ∧ g'.lists = g.lists ∧ g'.objs = g.objs := by
  induction tasks generalizing s g with
  | nil =>
    obtain rfl := Option.some.inj hrun
    exact ⟨g, h, rfl, rfl, rfl⟩
  | cons task tasks ih =>
    obtain ⟨s₁, hstep, hrest⟩ := Option.bind_eq_some_iff.mp hrun
    obtain ⟨g₁, h₁, hw₁, hl₁, ho₁⟩ := h.task hL hstep
    obtain ⟨g', h', hw', hl', ho'⟩ := ih h₁ hrest
    exact ⟨g', h', hw'.trans hw₁, hl'.trans hl₁, ho'.trans ho₁⟩

/-- A system that has just started satisfies the invariant. -/
theorem Sys.Started.inv (hL : L.heap.Placed) (h : s.Started L) : ∃ g, Inv L s g := by
  obtain ⟨heapMem, ram, tasks, s₁, hboot, hstart, ⟨w, hw⟩, i, hi⟩ := h
  obtain ⟨g, hg, hworker, hlists, hobjs⟩ :=
    booting_tasks hL (booting_reset L heapMem ram w) hboot
  exact ⟨g, hg.start hw hi hlists hobjs hworker hstart⟩

/-- The objects, which no task is needed for. -/
def Kernel.objects (k : Kernel) := (k.sem, k.mutex, k.queue)

/-- What creating and choosing tasks leaves alone. -/
structure Kernel.Bare (k k' : Kernel) : Prop where
  objects : k'.objects = k.objects
  ring : k'.ring = k.ring

theorem Kernel.Bare.trans {k k' k'' : Kernel} (h : k.Bare k') (h' : k'.Bare k'') : k.Bare k'' :=
  ⟨h'.objects.trans h.objects, h'.ring.trans h.ring⟩

theorem taskCreate_bare {k k' : Kernel} {args : TaskArgs} {created : Option Tid}
    (h : taskCreate L k args = some (k', created)) : k.Bare k' := by
  rcases taskCreate_cases h with
    ⟨_, _, rfl⟩ | ⟨t, heap, alloc, _, _, _, ⟨_, _, rfl⟩ | ⟨_, _, rfl⟩⟩ <;>
    exact ⟨rfl, rfl⟩

/-- What each `task_create` keeps, `main` keeps. -/
theorem bootTasks_induction {P : Sys → Prop}
    (hstep : ∀ s task s', P s → s.bootTask L task = some s' → P s')
    {tasks : List (Entry × TaskArgs)} (h : P s) (hrun : s.bootTasks L tasks = some s') : P s' := by
  induction tasks generalizing s with
  | nil =>
    obtain rfl := Option.some.inj hrun
    exact h
  | cons task tasks ih =>
    obtain ⟨s₁, hfirst, hrest⟩ := Option.bind_eq_some_iff.mp hrun
    exact ih (hstep s task s₁ h hfirst) hrest

theorem bootTasks_bare {tasks : List (Entry × TaskArgs)} (h : s.bootTasks L tasks = some s') :
    s'.log = s.log ∧ s.k.Bare s'.k := by
  refine bootTasks_induction (P := fun s' => s'.log = s.log ∧ s.k.Bare s'.k)
    (fun s₁ task s₂ hs₁ hstep => ?_) ⟨rfl, rfl, rfl⟩ h
  obtain ⟨⟨k, created⟩, hcreate, rfl⟩ := Option.map_eq_some_iff.mp hstep
  have hk := hs₁.2.trans (taskCreate_bare hcreate)
  cases created <;> exact ⟨hs₁.1, hk⟩

theorem getNext_bare {k k' : Kernel} {t : Tid} (h : schedulerGetNext k = some (k', t)) :
    k.Bare k' := by
  obtain ⟨pr, c, rfl⟩ := schedulerGetNext_cursor h
  exact ⟨rfl, rfl⟩

/-- Nothing has happened yet, no object exists and the ring is empty. -/
theorem Sys.Started.bare (h : s.Started L) :
    s.log = [] ∧ (Kernel.reset (fun _ => 0) fun _ => 0).objects = s.k.objects ∧
      s.k.kworkHead = 0 ∧ s.k.kworkTail = 0 := by
  obtain ⟨heapMem, ram, tasks, s₁, hboot, hstart, _⟩ := h
  obtain ⟨⟨k, first⟩, hnext, rfl⟩ := Option.map_eq_some_iff.mp hstart
  obtain ⟨hlog, hbare⟩ := bootTasks_bare hboot
  have hall := hbare.trans (getNext_bare hnext)
  exact ⟨hlog, hall.objects.symm, (congrArg (fun r => r.2.1) hall.ring :),
    (congrArg (fun r => r.2.2) hall.ring :)⟩

end Boot

end Crest
