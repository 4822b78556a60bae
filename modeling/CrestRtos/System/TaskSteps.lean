import CrestRtos.System.ObjectSteps

/-!
# Creating a task

`task_create` takes a control block, then a stack, and then links the new task
into the list of its priority. Until that last step the control block is fresh:
nothing refers to it but the code that creates the task.
-/

namespace Crest
open IntrusiveList MachineWord Alloc

section Spawn
variable {L : Layout} {s s' : Sys} {g : Ghost} {u t : Tid} {args : TaskArgs}

/-- The control blocks in use change; the run lists stay. -/
theorem Scheduled.reserve {p : Pc} (h : Scheduled s g) (hframe : s'.k.frame = s.k.frame)
    (hrank : ∀ t, s'.k.rank t = s.k.rank t) (hpc : s'.pc = Function.update s.pc u p)
    (hused : ∀ t, s'.k.tcbUsed t = false → g.place t = .fresh)
    (hother : ∀ v x, v ≠ u → (s.pc v).spawns = some x → s'.k.tcbUsed x = true)
    (hself : ∀ x, p.spawns = some x →
      g.place x = .fresh ∧ s'.k.tcbUsed x = true ∧ ∀ v, v ≠ u → (s.pc v).spawns ≠ some x) :
    Scheduled s' g := by
  have hu : s'.pc u = p := by
    rw [hpc, Function.update_self]
  have hv : ∀ v, v ≠ u → s'.pc v = s.pc v := fun v hne => by
    rw [hpc, Function.update_of_ne hne]
  have hnext : s'.k.next = s.k.next := funext fun x => congrArg Prod.fst (hrank x)
  have hprio : ∀ x, (s'.k.tcb x).priority = (s.k.tcb x).priority :=
    fun x => congrArg Prod.snd (hrank x)
  have hlist : s'.k.taskList = s.k.taskList := congrArg Prod.fst hframe
  have hcursor : s'.k.rrCurrent = s.k.rrCurrent := congrArg (fun f => f.2.1) hframe
  constructor
  · intro pr
    rw [hnext, hlist]
    exact h.linked pr
  · intro x
    rw [hprio]
    exact h.alive x
  · intro pr x
    rw [hprio]
    exact h.rank pr x
  · intro pr x
    rw [hcursor]
    exact h.cursor pr x
  · exact hused
  · intro v x hx
    by_cases hvu : v = u
    · rw [hvu, hu] at hx
      exact ⟨(hself x hx).1, (hself x hx).2.1⟩
    · rw [hv v hvu] at hx
      exact ⟨(h.spawns v x hx).1, hother v x hvu hx⟩
  · intro v v' x hx hx'
    by_cases hvu : v = u
    · by_cases hvu' : v' = u
      · rw [hvu, hvu']
      · rw [hvu, hu] at hx
        rw [hv v' hvu'] at hx'
        exact absurd hx' ((hself x hx).2.2 v' hvu')
    · rw [hv v hvu] at hx
      by_cases hvu' : v' = u
      · rw [hvu', hu] at hx'
        exact absurd hx ((hself x hx').2.2 v hvu)
      · rw [hv v' hvu'] at hx'
        exact h.spawner v v' x hx hx'

theorem inside_spawn (h : Inv L s g) (hpc : (∃ args, s.pc u = .spawnTcb args) ∨
    (s.pc u).spawns.isSome = true) : Inside (u = g.worker) (s.pc u) .app := by
  have hfits := h.coded.pcs u
  have hcases : (∃ args, s.pc u = .spawnTcb args) ∨ (∃ t args, s.pc u = .spawnStack t args) ∨
      (∃ t, s.pc u = .spawnFree t) ∨ ∃ t alloc args, s.pc u = .spawnAdd t alloc args := by
    rcases hpc with hpc | hpc
    · exact Or.inl hpc
    · cases hcode : s.pc u with
      | spawnStack t args => exact Or.inr (Or.inl ⟨t, args, rfl⟩)
      | spawnFree t => exact Or.inr (Or.inr (Or.inl ⟨t, rfl⟩))
      | spawnAdd t alloc args => exact Or.inr (Or.inr (Or.inr ⟨t, alloc, args, rfl⟩))
      | _ =>
        rw [hcode] at hpc
        cases hpc
  obtain ⟨_, hcode⟩ | ⟨_, _, hcode⟩ | ⟨_, hcode⟩ | ⟨_, _, _, hcode⟩ := hcases <;>
    rw [hcode] at hfits ⊢ <;>
    constructor <;> first | rfl | simp | exact hfits.1 | exact hfits

/-- A free control block is taken, or the call ends without one. -/
theorem Inv.spawnTcb (h : Inv L s g) (hcur : s.k.currentTask = some u)
    (hpend : s.k.pendsv = false) (hpc : s.pc u = .spawnTcb args) :
    Inv L (match getFreeTcb s.k with
      | none => s.finish u .app 0
      | some (k, t) => { s with k := k }.setPc u (.spawnStack t args)) g := by
  have hyields : (s.pc u).yields = false := by
    rw [hpc]
    rfl
  have hin := inside_spawn h (Or.inl ⟨args, hpc⟩)
  have hfits := h.coded.pcs u
  rw [hpc] at hfits
  cases hfree : getFreeTcb s.k with
  | none =>
    refine h.finish_open 0 hcur hpend hyields hin ?_ ?_
    · rw [hpc]
      rfl
    · rw [hpc]
      exact fun _ => rfl
  | some found =>
    obtain ⟨k, t⟩ := found
    obtain ⟨hunused, rfl⟩ := getFreeTcb_some hfree
    have hown := h.own hcur hpend (Or.inr hyields)
    obtain ⟨hbwl, hsvc, hdelay, hphase⟩ := h.own_tcb hown
    rw [hpc] at hphase
    refine h.goto_of (n := []) (p := .spawnStack t args) (l := g.live) (o := g.objs) hcur hown
      ⟨rfl, rfl, fun _ _ => rfl, rfl, rfl⟩ ?_ hin.svc (by simp) (by simp) (fun _ => rfl)
      (fun _ => rfl) hphase h.placed.lists hbwl hsvc hdelay
      (Or.inl (h.running_of hcur hpend hyields)) ?_ ?_
    · rw [hpc]
      constructor <;> first | rfl | simp | exact hfits
    · refine h.scheduled.reserve (p := .spawnStack t args) rfl (fun _ => rfl) rfl ?_ ?_ ?_
      · intro x hx
        by_cases hxt : x = t
        · subst hxt
          exact absurd (hx.symm.trans (Function.update_self _ _ _)) (by simp)
        · exact h.scheduled.used x ((Function.update_of_ne hxt _ _).symm.trans hx)
      · intro v x _ hx
        have hxt : x ≠ t := by
          rintro rfl
          rw [(h.scheduled.spawns v x hx).2] at hunused
          cases hunused
        exact (Function.update_of_ne hxt _ _).trans (h.scheduled.spawns v x hx).2
      · intro x hx
        obtain rfl := Option.some.inj hx
        refine ⟨h.scheduled.used t hunused, Function.update_self _ _ _, fun v _ hv => ?_⟩
        rw [(h.scheduled.spawns v t hv).2] at hunused
        cases hunused
    · exact h.objects.local (p := .spawnStack t args) rfl rfl rfl rfl
        (fun _ _ heq => by cases heq) rfl

/-- The stack is allocated, or the call is to give its control block back. -/
theorem Inv.spawnStack {heap : Heap} {size alloc : Nat} (hL : L.heap.Placed) (h : Inv L s g)
    (hcur : s.k.currentTask = some u) (hpend : s.k.pendsv = false)
    (hpc : s.pc u = .spawnStack t args) (hrun : malloc L s.k.heap size = some (heap, alloc)) :
    ∃ g', Inv L ({ s with k := { s.k with heap := heap } }.setPc u
      (if alloc = 0 then .spawnFree t else .spawnAdd t alloc args)) g' ∧
      g'.worker = g.worker := by
  have hheap := h.objects.heap.malloc hL hrun
  have hin := inside_spawn h (u := u) (Or.inr (by rw [hpc]; rfl))
  have hfits := h.coded.pcs u
  rw [hpc] at hfits
  have hgo : ∀ (p' : Pc) (l : List Nat), (p' = .spawnFree t ∨ p' = .spawnAdd t alloc args) →
      HeapOwns L heap l → (∀ a ∈ g.live, a ∈ l) →
      ∃ g', Inv L ({ s with k := { s.k with heap := heap } }.setPc u p') g' ∧
        g'.worker = g.worker := by
    intro p' l hp' hown hl
    refine ⟨{ g with live := l, objs := g.objs }, h.goto_tasks (n := []) (r := .app) hcur hpend ?_
      hin ?_ ?_ ?_ ?_ ?_ rfl h.placed.lists (fun _ => rfl) (fun _ => rfl) ?_, rfl⟩
    · rw [hpc]
      rfl
    · rcases hp' with rfl | rfl <;> constructor <;> first | rfl | simp | exact hfits.1
    · rcases hp' with rfl | rfl
      · exact hfits.1
      · exact hfits
    · rw [hpc]
      rcases hp' with rfl | rfl <;> rfl
    · rw [hpc]
      exact fun _ => rfl
    · rcases hp' with rfl | rfl <;> exact fun _ => rfl
    · refine h.objects.keep (p := p') hown hl rfl rfl rfl ?_ ?_ <;>
        rcases hp' with rfl | rfl <;> rfl
  by_cases halloc : alloc = 0
  · rw [if_pos halloc] at hheap ⊢
    exact hgo _ _ (Or.inl rfl) hheap fun _ ha => ha
  · rw [if_neg halloc] at hheap ⊢
    exact hgo _ _ (Or.inr rfl) hheap fun _ ha => List.mem_cons_of_mem _ ha

/-- `task_create` returns; the control block it had taken is free or a task's. -/
theorem Inv.spawnEnd {used : Tid → Bool} (h : Inv L s g)
    (hcur : s.k.currentTask = some u) (hpend : s.k.pendsv = false)
    (hpc : (s.pc u).spawns = some t) (hyields : (s.pc u).yields = false)
    (hsettled : ∀ b, (s.pc u).settled b = .idle)
    (hused : ∀ x, x ≠ t → used x = s.k.tcbUsed x) :
    Inv L (({ s with k := { s.k with tcbUsed := used } } : Sys).finish u .app 0) g := by
  have hin := inside_spawn h (u := u) (Or.inr (by rw [hpc]; rfl))
  have hown := h.own hcur hpend (Or.inr hyields)
  obtain ⟨hbwl, hsvc, hdelay, hphase⟩ := h.own_tcb hown
  rw [hsettled] at hphase
  obtain ⟨hfresh, _⟩ := h.scheduled.spawns u t hpc
  refine h.finish_of (n := []) (l := g.live) (o := g.objs) hcur hown
    ⟨rfl, rfl, fun _ _ => rfl, rfl, rfl⟩ hin (fun _ => rfl) (fun _ => rfl) ?_ h.placed.lists hbwl
    hsvc hdelay (Or.inl (h.running_of hcur hpend hyields)) ?_ ?_
  · rw [hphase]
    rfl
  · refine h.scheduled.reserve (p := .app) rfl (fun _ => rfl) rfl ?_ ?_ ?_
    · intro x hx
      by_cases hxt : x = t
      · rw [hxt]
        exact hfresh
      · exact h.scheduled.used x ((hused x hxt).symm.trans hx)
    · intro v x hv hx
      have hxt : x ≠ t := by
        rintro rfl
        exact hv (h.scheduled.spawner v u x hx hpc)
      exact (hused x hxt).trans (h.scheduled.spawns v x hx).2
    · intro x hx
      cases hx
  · exact h.objects.local (p := .app) rfl rfl rfl rfl (fun _ _ heq => by cases heq) rfl

end Spawn

section Join
variable {L : Layout} {s s' : Sys} {g : Ghost} {t : Tid}

/-- The kernel once the task `t` has been linked in at priority `pr`. -/
structure Joined (k k' : Kernel) (t : Tid) (pr : Nat) : Prop where
  other : ∀ x, x ≠ t → k'.tcb x = k.tcb x
  state : (k'.tcb t).state = .ready
  delay : (k'.tcb t).delayTicks = 0
  list : (k'.tcb t).blockingWaitList = none
  svc : (k'.tcb t).svcBlocked = false
  waitNext : (k'.tcb t).waitNext = none
  priority : (k'.tcb t).priority = pr
  next : (k'.tcb t).next = k.taskList pr
  taskList : k'.taskList = Function.update k.taskList pr (some t)
  rest : { k' with
    tcb := k.tcb
    taskList := k.taskList
    priorityMask := k.priorityMask
    ram := k.ram
    pendsv := k.pendsv } = k
  pendsv : k'.pendsv = true

/-- The control block that a new task gets was on no list. -/
theorem lists_joined {k k' : Kernel} {W : WaitMap} {t : Tid} {pr : Nat} (hj : Joined k k' t pr)
    (h : Lists k W) (ht : ∀ w, t ∉ W w) : Lists k' W := by
  intro w
  have hnext : k'.waitNext = Function.update k.waitNext t none := by
    funext x
    by_cases hx : x = t
    · subst hx
      rw [Function.update_self]
      exact hj.waitNext
    · rw [Function.update_of_ne hx, Kernel.waitNext, hj.other x hx]
      rfl
  have hhead : k'.head w = k.head w := by
    have hrest := congrArg (fun k : Kernel => k.head w) hj.rest
    rw [← hrest]
    cases w <;> rfl
  rw [hnext, hhead]
  exact (linked_update_of_notMem (ht w)).mpr (h w)

theorem schedulerAddTask_joined (k : Kernel) (t : Tid) (alloc : Nat) (args : TaskArgs) :
    Joined k (schedulerAddTask (initTcb k t alloc args) t) t args.priority := by
  constructor
  · intro x hx
    simp [schedulerAddTask, initTcb, portTriggerPendsv, setTcb_tcb_of_ne _ _ hx]
  all_goals simp [schedulerAddTask, initTcb, portTriggerPendsv, Tcb.zero, Kernel.setTcb]

/-- Objects and memory do not depend on where tasks are. -/
theorem Objects.same {W : WaitMap} {place : Tid → Place} {runs : Nat → List Tid}
    (h : Objects L s g) (hheap : s'.k.heap = s.k.heap) (htable : s'.k.table = s.k.table)
    (hqueue : s'.k.plain.queue = s.k.plain.queue) (hpc : s'.pc = s.pc)
    (hlists : ∀ w, W w ≠ [] → g.objs w.addr = some w.kind) :
    Objects L s' { g with lists := W, place := place, runs := runs } := by
  have hq : ∀ a, s'.k.plain.queue a = s.k.plain.queue a := congrFun hqueue
  constructor
  · rw [hheap]
    exact h.heap
  · exact h.known
  · rw [htable]
    exact h.table
  · exact hlists
  · rw [hpc]
    exact h.refs
  · rw [hpc]
    exact h.builds
  · rw [hpc]
    exact h.builder
  · exact fun a ha => shaped_of_plain (hq a) (h.shaped a ha)
  · rw [hpc]
    exact fun v a r ha => draft_of_plain (hq a) (h.drafts v a r ha)
  · rw [hpc]
    exact fun v a r ha => shaped_of_plain (hq a) (h.built v a r ha)

variable {k' : Kernel} {pr : Nat}

theorem Scheduled.join (h : Scheduled s g) (hj : Joined s.k k' t pr) (hpr : pr < maxTaskPriorities)
    (hfresh : g.place t = .fresh) (hused : s.k.tcbUsed t = true)
    (hnone : ∀ v, (s.pc v).spawns ≠ some t) :
    Scheduled { s with k := k' }
      { g with
        place := Function.update g.place t .own
        runs := Function.update g.runs pr (t :: g.runs pr) } := by
  have hnot : ∀ pr', t ∉ g.runs pr' := by
    intro pr' hmem
    have hin : t ∈ g.runs (s.k.tcb t).priority := (h.rank pr' t hmem).1 ▸ hmem
    exact (h.alive t).mpr hin hfresh
  have hnext : k'.next = Function.update s.k.next t (s.k.taskList pr) := by
    funext x
    by_cases hx : x = t
    · subst hx
      rw [Function.update_self]
      exact hj.next
    · rw [Function.update_of_ne hx, Kernel.next, hj.other x hx]
      rfl
  have hcursor : k'.rrCurrent = s.k.rrCurrent := (congrArg Kernel.rrCurrent hj.rest :)
  have husedk : k'.tcbUsed = s.k.tcbUsed := (congrArg Kernel.tcbUsed hj.rest :)
  constructor
  · intro pr'
    change Linked k'.next (k'.taskList pr') (Function.update g.runs pr (t :: g.runs pr) pr')
    rw [hnext, hj.taskList]
    by_cases hp : pr' = pr
    · subst hp
      rw [Function.update_self, Function.update_self]
      exact linked_push_front (hnot pr') (h.linked pr')
    · rw [Function.update_of_ne hp, Function.update_of_ne hp]
      exact (linked_update_of_notMem (hnot pr')).mpr (h.linked pr')
  · intro x
    change Function.update g.place t .own x ≠ .fresh ↔
      x ∈ Function.update g.runs pr (t :: g.runs pr) (k'.tcb x).priority
    by_cases hx : x = t
    · subst hx
      rw [Function.update_self, hj.priority, Function.update_self]
      simp
    · rw [Function.update_of_ne hx, hj.other x hx, h.alive x]
      by_cases hp : (s.k.tcb x).priority = pr
      · rw [hp, Function.update_self]
        simp [hx]
      · rw [Function.update_of_ne hp]
  · intro pr' x hmem
    change x ∈ Function.update g.runs pr (t :: g.runs pr) pr' at hmem
    change (k'.tcb x).priority = pr' ∧ _
    by_cases hp : pr' = pr
    · subst hp
      rw [Function.update_self] at hmem
      rcases List.mem_cons.mp hmem with rfl | hold
      · exact ⟨hj.priority, hpr⟩
      · have hx : x ≠ t := fun heq => hnot pr' (heq ▸ hold)
        rw [hj.other x hx]
        exact h.rank pr' x hold
    · rw [Function.update_of_ne hp] at hmem
      have hx : x ≠ t := fun heq => hnot pr' (heq ▸ hmem)
      rw [hj.other x hx]
      exact h.rank pr' x hmem
  · intro pr' x hc
    change x ∈ Function.update g.runs pr (t :: g.runs pr) pr'
    have hmem : x ∈ g.runs pr' := h.cursor pr' x (by rw [← hcursor]; exact hc)
    by_cases hp : pr' = pr
    · subst hp
      rw [Function.update_self]
      exact List.mem_cons_of_mem _ hmem
    · rw [Function.update_of_ne hp]
      exact hmem
  · intro x hx
    have hold : s.k.tcbUsed x = false := by
      rw [← husedk]
      exact hx
    have hxt : x ≠ t := by
      rintro rfl
      rw [hused] at hold
      cases hold
    change Function.update g.place t .own x = .fresh
    rw [Function.update_of_ne hxt]
    exact h.used x hold
  · intro v x hv
    have hxt : x ≠ t := by
      rintro rfl
      exact hnone v hv
    change Function.update g.place t .own x = .fresh ∧ k'.tcbUsed x = true
    rw [Function.update_of_ne hxt, husedk]
    exact h.spawns v x hv
  · exact h.spawner

/-- A fresh control block that nobody else holds becomes a task. -/
theorem Inv.join (h : Inv L s g) (hj : Joined s.k k' t pr) (hpr : pr < maxTaskPriorities)
    (hfresh : g.place t = .fresh) (hused : s.k.tcbUsed t = true)
    (hnone : ∀ v, (s.pc v).spawns ≠ some t) :
    ∃ g', Inv L { s with k := k' } g' ∧ g'.worker = g.worker := by
  have hview := h.placed.task t
  rw [hfresh] at hview
  have hne : ∀ x, g.place x ≠ .fresh → x ≠ t := by
    rintro x hx rfl
    exact hx hfresh
  have hcurrent : k'.currentTask = s.k.currentTask := (congrArg Kernel.currentTask hj.rest :)
  have hr0 : k'.r0 = s.k.r0 := (congrArg Kernel.r0 hj.rest :)
  have hring : k'.ring = s.k.ring := (congrArg Kernel.ring hj.rest :)
  have hkernel : k'.kernelTcb = s.k.kernelTcb := (congrArg Kernel.kernelTcb hj.rest :)
  have hsem : k'.sem = s.k.sem := (congrArg Kernel.sem hj.rest :)
  have hmutex : k'.mutex = s.k.mutex := (congrArg Kernel.mutex hj.rest :)
  have hqueue : k'.queue = s.k.queue := (congrArg Kernel.queue hj.rest :)
  refine ⟨{ g with
    lists := g.lists
    place := Function.update g.place t .own
    runs := Function.update g.runs pr (t :: g.runs pr) }, ?_, rfl⟩
  constructor
  · refine h.placed.move (u := t) ?_ ?_ ?_ (fun heq => by cases heq) ?_ ?_ ?_
      (fun hx => by cases hx rfl)
    · exact lists_joined hj h.placed.lists (h.placed.notMem fun w => by rw [hfresh]; simp)
    · have hwork : k'.kwork = s.k.kwork := kwork_of_ring hring
      exact hwork ▸ h.placed.once
    · rw [hfresh]
      exact fun heq => by cases heq
    · intro p _ _ _
      exact occupants_same (u := t) (kwork_of_ring hring) (fun _ _ => rfl) (fun _ => rfl)
        (fun _ => rfl) fun _ _ => rfl
    · intro x hx _
      have htcb : k'.tasks.tcb x = s.k.tasks.tcb x := by
        change (k'.tcb x).plain = (s.k.tcb x).plain
        rw [hj.other x hx]
      simp only [Sys.view, htcb, Kernel.reply, hcurrent, hr0, hj.other x hx]
    · have hpcv : (({ s with k := k' } : Sys).view t).pc = .app := hview.pc
      constructor
      · exact hj.list
      · exact hj.svc
      · exact fun _ => hj.delay
      · rw [hpcv]
        exact fun heq => by cases heq
      · rw [hpcv]
        exact hview.phase
      · rw [hpcv, if_neg (by simp)]
        exact hview.sys
  · refine h.coded.frame (u := t) rfl ?_ (fun _ _ => rfl) (h.coded.pcs t) ?_ ?_
      (h.ring_bounds hring).1 (h.ring_bounds hring).2
    · change Function.update g.place t .own g.worker ≠ .fresh
      rw [Function.update_of_ne (hne _ h.coded.worker)]
      exact h.coded.worker
    · change k'.kernelTcb = _
      rw [hkernel]
      exact h.coded.kernel
    · change (k'.tcb g.worker).delayTicks = 0
      rw [hj.other _ (hne _ h.coded.worker)]
      exact h.coded.rested
  · obtain ⟨c, hc, hcf, _⟩ := h.running.current
    obtain ⟨i, hi, hif⟩ := h.running.idle
    have hct := hne c hcf
    constructor
    · refine ⟨c, hcurrent.trans hc, ?_, Or.inr (Or.inl hj.pendsv)⟩
      change Function.update g.place t .own c ≠ .fresh
      rw [Function.update_of_ne hct]
      exact hcf
    · intro x hx
      change (k'.tcb x).state = .running at hx
      have hxt : x ≠ t := by
        rintro rfl
        rw [hj.state] at hx
        cases hx
      rw [hj.other x hxt] at hx
      exact hcurrent.trans (h.running.only x hx)
    · intro x hx hb
      change k'.currentTask = some x at hx
      change (k'.tcb x).svcBlocked = true at hb
      rw [hcurrent] at hx
      obtain rfl : c = x := Option.some.inj (hc.symm.trans hx)
      rw [hj.other c hct] at hb
      change Function.update g.place t .own c = .ring
      rw [Function.update_of_ne hct]
      exact h.running.gate c hx hb
    · refine ⟨i, hi, ?_⟩
      change Function.update g.place t .own i ≠ .fresh
      rw [Function.update_of_ne (hne i hif)]
      exact hif
  · exact h.scheduled.join hj hpr hfresh hused hnone
  · have hheap : k'.heap = s.k.heap := (congrArg Kernel.heap hj.rest :)
    have htable : k'.table = s.k.table := (congrArg Kernel.table hj.rest :)
    have hplain : k'.plain.queue = s.k.plain.queue := by
      funext a
      simp only [Kernel.plain, hqueue]
    exact h.objects.same hheap htable hplain rfl h.objects.lists

/-- The new task is linked in, and `task_create` returns. -/
theorem Inv.spawnAdd {u : Tid} {alloc : Nat} {args : TaskArgs} (h : Inv L s g)
    (hcur : s.k.currentTask = some u) (hpend : s.k.pendsv = false)
    (hpc : s.pc u = .spawnAdd t alloc args) :
    ∃ g', Inv L (({ s with
      k := schedulerAddTask (initTcb s.k t alloc args) t }.setPc t .app).finish u .app 0) g' ∧
      g'.worker = g.worker := by
  have hspawns : (s.pc u).spawns = some t := by
    rw [hpc]
    rfl
  have hfits := h.coded.pcs u
  rw [hpc] at hfits
  have hpr : args.priority < maxTaskPriorities := by
    have hacc := hfits.2
    simp only [TaskArgs.accepted, Bool.and_eq_true, decide_eq_true_eq] at hacc
    exact hacc.1.1
  obtain ⟨hfresh, hused⟩ := h.scheduled.spawns u t hspawns
  have hview := h.placed.task t
  rw [hfresh] at hview
  have happ : s.pc t = .app := hview.pc
  have hend : Inv L (s.finish u .app 0) g := h.spawnEnd hcur hpend hspawns (by rw [hpc]; rfl)
    (by rw [hpc]; exact fun _ => rfl) fun _ _ => rfl
  have hnone : ∀ v, ((s.finish u .app 0).pc v).spawns ≠ some t := by
    intro v hv
    change (Function.update s.pc u .app v).spawns = some t at hv
    by_cases hvu : v = u
    · rw [hvu, Function.update_self] at hv
      cases hv
    · rw [Function.update_of_ne hvu] at hv
      exact hvu (h.scheduled.spawner v u t hv hspawns)
  have hjoin := hend.join (schedulerAddTask_joined s.k t alloc args) hpr hfresh hused hnone
  have hsame : Function.update s.pc t .app = s.pc := by
    rw [← happ, Function.update_eq_self]
  simpa only [Sys.finish, Sys.setPc, Sys.note, hsame] using hjoin

end Join

end Crest
