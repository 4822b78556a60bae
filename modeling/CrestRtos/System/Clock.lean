import CrestRtos.System.TickSteps

/-!
# One tick, for every task

The two loops of `scheduler_tick` come to each task of the run lists once, and a
visit depends on no other task. So a tick is one function of a control block,
`Tcb.ticked`, applied to every task.
-/

namespace Crest
open IntrusiveList MachineWord Alloc

section Walk
variable {σ β : Type} {next : σ → Tid → Option Tid} {heads : σ → Nat → Option Tid}
  {f : σ → Tid → σ}

theorem walk_eq_foldl (hnext : ∀ s t, next (f s t) = next s) {n : Nat} {s : σ} {h : Option Tid}
    {l : List Tid} (hl : Linked (next s) h l) (enough : l.length ≤ n) :
    walk next f n h s = l.foldl f s := by
  induction n generalizing s h l with
  | zero =>
    obtain rfl := List.eq_nil_of_length_eq_zero (Nat.le_zero.mp enough)
    rfl
  | succ n ih =>
    cases l with
    | nil =>
      obtain rfl := linked_nil.mp hl
      rfl
    | cons t l =>
      obtain ⟨rfl, hrest⟩ := linked_cons.mp hl
      rw [← hnext s t] at hrest
      exact ih hrest (Nat.le_of_succ_le_succ enough)

theorem foldl_keeps {α γ : Type} {f : α → γ → α} {π : α → β} (hf : ∀ a x, π (f a x) = π a)
    (l : List γ) (a : α) : π (l.foldl f a) = π a := by
  induction l generalizing a with
  | nil => rfl
  | cons x l ih => exact (ih (f a x)).trans (hf a x)

/-- Of a list without repetitions only the visit of `t` matters. -/
theorem foldl_once {α γ : Type} [DecidableEq γ] {f : α → γ → α} {π : α → β} {g : β → β} {t : γ}
    {l : List γ} (hself : ∀ a, π (f a t) = g (π a))
    (hother : ∀ a, ∀ x ∈ l, x ≠ t → π (f a x) = π a) (hnodup : l.Nodup) (a : α) :
    π (l.foldl f a) = if t ∈ l then g (π a) else π a := by
  induction l generalizing a with
  | nil => rfl
  | cons x l ih =>
    obtain ⟨hx, hnodup⟩ := List.nodup_cons.mp hnodup
    have hrest := ih (fun a y hy => hother a y (List.mem_cons_of_mem x hy)) hnodup (f a x)
    rw [List.foldl_cons, hrest]
    by_cases hxt : x = t
    · subst hxt
      rw [if_neg hx, if_pos List.mem_cons_self, hself]
    · have hiff : t ∈ x :: l ↔ t ∈ l := by simp [Ne.symm hxt]
      rw [hother a x List.mem_cons_self hxt, if_congr hiff rfl rfl]

theorem walkAll_eq_foldl (hnext : ∀ s t, next (f s t) = next s)
    (hheads : ∀ s t, heads (f s t) = heads s) {runs : Nat → List Tid} {s : σ}
    (hl : ∀ pr, Linked (next s) (heads s pr) (runs pr)) :
    walkAll heads next f s =
      (List.range maxTaskPriorities).foldl (fun s pr => (runs pr).foldl f s) s := by
  rw [walkAll]
  generalize List.range maxTaskPriorities = prs
  induction prs generalizing s with
  | nil => rfl
  | cons pr prs ih =>
    have hlen : (runs pr).length ≤ maxTasks := by
      have hcard := (linked_nodup (hl pr)).length_le_card
      rwa [Fintype.card_fin] at hcard
    rw [List.foldl_cons, List.foldl_cons, walk_eq_foldl hnext (hl pr) hlen]
    refine ih fun q => ?_
    rw [foldl_keeps hnext, foldl_keeps hheads]
    exact hl q

section Map
variable {τ : Type} {next' : τ → Tid → Option Tid} {heads' : τ → Nat → Option Tid}
  {f' : τ → Tid → τ} {π : σ → τ}

theorem walk_map (hnext : ∀ s, next s = next' (π s)) (hf : ∀ s t, π (f s t) = f' (π s) t) (n : Nat)
    (h : Option Tid) (s : σ) : π (walk next f n h s) = walk next' f' n h (π s) := by
  induction n generalizing h s with
  | zero => rfl
  | succ n ih =>
    cases h with
    | none => rfl
    | some t =>
      rw [walk, walk, ih, hnext, hf]

/-- The part of a state that the loop works on can be looked at alone. -/
theorem walkAll_map (hheads : ∀ s, heads s = heads' (π s)) (hnext : ∀ s, next s = next' (π s))
    (hf : ∀ s t, π (f s t) = f' (π s) t) (s : σ) :
    π (walkAll heads next f s) = walkAll heads' next' f' (π s) := by
  rw [walkAll, walkAll]
  generalize List.range maxTaskPriorities = prs
  induction prs generalizing s with
  | nil => rfl
  | cons pr prs ih =>
    rw [List.foldl_cons, List.foldl_cons, ih, walk_map hnext hf, hheads]

end Map

/-- A walk over all priorities comes to each listed task once. -/
theorem walkAll_once (π : σ → β) (g : β → β) {t : Tid} {runs : Nat → List Tid} {pr : Nat} {s : σ}
    (hnext : ∀ s t, next (f s t) = next s) (hheads : ∀ s t, heads (f s t) = heads s)
    (hl : ∀ pr, Linked (next s) (heads s pr) (runs pr)) (hself : ∀ s, π (f s t) = g (π s))
    (hother : ∀ s x, x ≠ t → π (f s x) = π s) (ht : t ∈ runs pr) (hpr : pr < maxTaskPriorities)
    (honly : ∀ q, t ∈ runs q → q = pr) : π (walkAll heads next f s) = g (π s) := by
  have hrow : ∀ s q, π ((runs q).foldl f s) = if t ∈ runs q then g (π s) else π s := fun s q =>
    foldl_once hself (fun a x _ hx => hother a x hx) (linked_nodup (hl q)) s
  rw [walkAll_eq_foldl hnext hheads hl,
    foldl_once (g := g) (t := pr) (fun s => (hrow s pr).trans (if_pos ht))
      (fun s q _ hq => (hrow s q).trans (if_neg fun hmem => hq (honly q hmem)))
      List.nodup_range s]
  exact if_pos (List.mem_range.mpr hpr)

end Walk

/-- What `scheduler_tick` does to a task, and then `sync_tick_all`. -/
def Tcb.delayTicked (tcb : Tcb) : Tcb :=
  if tcb.state = .waiting ∧ 0 < tcb.delayTicks ∧ tcb.blockingWaitList = none then tcb.slept
  else tcb

def Tcb.syncTicked (tcb : Tcb) : Tcb :=
  if tcb.state = .waiting ∧ 0 < tcb.delayTicks ∧ tcb.blockingWaitList ≠ none then
    if tcb.delayTicks = 1 then tcb.expired else tcb.waited
  else tcb

def Tcb.ticked (tcb : Tcb) : Tcb := tcb.delayTicked.syncTicked

theorem setTcb_congr {k : Kernel} {t : Tid} {f g : Tcb → Tcb} (h : f (k.tcb t) = g (k.tcb t)) :
    k.setTcb t f = k.setTcb t g := by
  rw [Kernel.setTcb, h]
  rfl

theorem setTcb_of_fixed {k : Kernel} {t : Tid} {f : Tcb → Tcb} (h : f (k.tcb t) = k.tcb t) :
    k.setTcb t f = k := by
  rw [Kernel.setTcb, h, Function.update_eq_self]

theorem tasks_tickDelay (k : Kernel) (t : Tid) :
    (tickDelay k t).tasks = k.tasks.setTcb t Tcb.delayTicked := by
  rw [tickDelay]
  by_cases hcond : (k.tcb t).state = .waiting ∧ 0 < (k.tcb t).delayTicks ∧
      (k.tcb t).blockingWaitList = none
  · have htasks : (k.setTcb t Tcb.slept).tasks = k.tasks.setTcb t Tcb.slept := tasks_setTcb rfl
    have hself : (k.tasks.tcb t).delayTicked = (k.tasks.tcb t).slept := if_pos hcond
    rw [if_pos hcond, setTcb_congr hself]
    exact htasks
  · have hself : (k.tasks.tcb t).delayTicked = k.tasks.tcb t := if_neg hcond
    rw [if_neg hcond, setTcb_of_fixed hself]

/-- The visit of `sync_tick_all` requests a PendSV when the task's time is up. -/
theorem syncTickTask_cases (k : Kernel) (t : Tid) :
    ((syncTickTask k t).tasks = k.tasks.setTcb t Tcb.syncTicked ∧
      ¬ ((k.tcb t).state = .waiting ∧ (k.tcb t).delayTicks = 1 ∧
        (k.tcb t).blockingWaitList ≠ none)) ∨
    (syncTickTask k t).tasks = portTriggerPendsv (k.tasks.setTcb t Tcb.syncTicked) := by
  have hvisit := syncTickTask_visit k t
  generalize syncTickTask k t = k' at hvisit ⊢
  cases hvisit with
  | passes hnot =>
    left
    have hself : (k.tasks.tcb t).syncTicked = k.tasks.tcb t := if_neg hnot
    exact ⟨by rw [setTcb_of_fixed hself], fun h => hnot ⟨h.1, by omega, h.2.2⟩⟩
  | counts hst hmore hlist =>
    left
    have hlast : ¬ (k.tcb t).delayTicks = 1 := by omega
    have hcond : (k.tcb t).state = .waiting ∧ 0 < (k.tcb t).delayTicks ∧
        (k.tcb t).blockingWaitList ≠ none := ⟨hst, by omega, by rw [hlist]; simp⟩
    have hself : (k.tasks.tcb t).syncTicked = (k.tasks.tcb t).waited :=
      (if_pos hcond).trans (if_neg hlast)
    refine ⟨?_, fun h => hlast h.2.1⟩
    rw [setTcb_congr hself]
    exact tasks_setTcb rfl
  | expires hst hone hlist =>
    right
    have hcond : (k.tcb t).state = .waiting ∧ 0 < (k.tcb t).delayTicks ∧
        (k.tcb t).blockingWaitList ≠ none := ⟨hst, by omega, by rw [hlist]; simp⟩
    have hself : (k.tasks.tcb t).syncTicked = (k.tasks.tcb t).expired :=
      (if_pos hcond).trans (if_pos hone)
    rw [tasks_expireWaiter, setTcb_congr hself]

theorem syncTickTask_frame (k : Kernel) (t : Tid) :
    (syncTickTask k t).tasks.tcb =
        Function.update k.tasks.tcb t (k.tasks.tcb t).syncTicked ∧
      (syncTickTask k t).frame = k.frame ∧ (syncTickTask k t).next = k.next ∧
      (syncTickTask k t).tickCount = k.tickCount ∧
      (k.pendsv = true → (syncTickTask k t).pendsv = true) := by
  have hfields : ∀ tcb : Tcb, tcb.syncTicked.next = tcb.next := by
    intro tcb
    rw [Tcb.syncTicked]
    split
    · split <;> rfl
    · rfl
  have hnext : ((k.tasks.setTcb t Tcb.syncTicked).next) = k.tasks.next := by
    funext x
    by_cases hx : x = t
    · subst hx
      rw [Kernel.next, setTcb_tcb_same]
      exact hfields _
    · rw [Kernel.next, setTcb_tcb_of_ne _ _ hx]
      rfl
  rcases syncTickTask_cases k t with ⟨h, _⟩ | h
  · exact ⟨congrArg Kernel.tcb h, (congrArg Kernel.frame h :), (congrArg Kernel.next h).trans hnext,
      (congrArg Kernel.tickCount h :), fun hp => (congrArg Kernel.pendsv h).trans hp⟩
  · exact ⟨congrArg Kernel.tcb h, (congrArg Kernel.frame h :), (congrArg Kernel.next h).trans hnext,
      (congrArg Kernel.tickCount h :), fun _ => (congrArg Kernel.pendsv h :)⟩

theorem tickDelay_frame (k : Kernel) (t : Tid) :
    (tickDelay k t).tasks.tcb = Function.update k.tasks.tcb t (k.tasks.tcb t).delayTicked ∧
      (tickDelay k t).frame = k.frame ∧ (tickDelay k t).next = k.next ∧
      (tickDelay k t).tickCount = k.tickCount ∧ (tickDelay k t).pendsv = k.pendsv := by
  have h := tasks_tickDelay k t
  refine ⟨congrArg Kernel.tcb h, (congrArg Kernel.frame h :), ?_, (congrArg Kernel.tickCount h :),
    (congrArg Kernel.pendsv h :)⟩
  refine (congrArg Kernel.next h).trans ?_
  funext x
  by_cases hx : x = t
  · subst hx
    rw [Kernel.next, setTcb_tcb_same, Tcb.delayTicked]
    split <;> rfl
  · rw [Kernel.next, setTcb_tcb_of_ne _ _ hx]
    rfl

def Label.isTick : Label → Bool
  | .tick => true
  | _ => false

theorem Label.eq_tick {l : Label} (h : l.isTick = true) : l = .tick := by
  cases l with
  | tick => rfl
  | _ => cases h

def ticks (labels : List Label) : Nat := labels.countP Label.isTick

theorem ticks_cons (l : Label) (ls : List Label) :
    ticks (l :: ls) = ticks ls + if l.isTick then 1 else 0 := List.countP_cons

section Tick
variable {L : Layout} {s : Sys} {g : Ghost} {t : Tid}

/-- What a tick leaves alone, and what it requests. -/
structure Ticked (s s' : Sys) : Prop where
  pc : s'.pc = s.pc
  frame : s'.k.frame = s.k.frame
  count : s'.k.tickCount = s.k.tickCount
  pendsv : s.k.pendsv = true → s'.k.pendsv = true

theorem Ticked.trans {s' s'' : Sys} (h : Ticked s s') (h' : Ticked s' s'') : Ticked s s'' :=
  ⟨h'.pc.trans h.pc, h'.frame.trans h.frame, h'.count.trans h.count,
    fun hp => h'.pendsv (h.pendsv hp)⟩

theorem Ticked.taskList {s' : Sys} (h : Ticked s s') : s'.k.taskList = s.k.taskList :=
  (congrArg Prod.fst h.frame :)

/-- The state before the visits of `sync_tick_all`. -/
def Sys.counted (s : Sys) : Sys :=
  { s with
    k := walkAll Kernel.taskList Kernel.next tickDelay
      { s.k with tickCount := wrap (s.k.tickCount + 1) } }

/-- And behind them. -/
def Sys.synced (s : Sys) : Sys :=
  walkAll (fun s : Sys => s.k.taskList) (fun s => s.k.next) Sys.syncTickTask s.counted

theorem sysTick_eq (s : Sys) : s.sysTick =
    if s.synced.k.tickCount % preemptTickInterval = 0 then
      { s.synced with k := portTriggerPendsv s.synced.k }
    else s.synced := by
  rw [Sys.sysTick, Sys.synced, Sys.counted]

/-- The log apart, a tick is what the handler does. -/
theorem sysTick_k (s : Sys) : s.sysTick.k = sysTickHandler s.k := by
  have hwalk : ∀ s : Sys, (walkAll (fun s : Sys => s.k.taskList) (fun s => s.k.next)
      Sys.syncTickTask s).k = walkAll Kernel.taskList Kernel.next syncTickTask s.k :=
    walkAll_map (fun _ => rfl) (fun _ => rfl) fun _ _ => rfl
  have hsynced : s.synced.k = schedulerTick s.k := by
    rw [Sys.synced, hwalk, Sys.counted, schedulerTick, syncTickAll]
  rw [sysTick_eq, sysTickHandler, ← hsynced]
  split <;> rfl

/-- The handler's end: tasks are as `sync_tick_all` left them. -/
theorem sysTick_ends (s : Sys) : s.sysTick.pc = s.synced.pc ∧
    s.sysTick.k.tasks.tcb = s.synced.k.tasks.tcb ∧ s.sysTick.k.frame = s.synced.k.frame ∧
    (s.synced.k.pendsv = true ∨ s.synced.k.tickCount % preemptTickInterval = 0 →
      s.sysTick.k.pendsv = true) := by
  rw [sysTick_eq]
  generalize s.synced = s'
  by_cases hdue : s'.k.tickCount % preemptTickInterval = 0
  · rw [if_pos hdue]
    exact ⟨rfl, rfl, rfl, fun _ => rfl⟩
  · rw [if_neg hdue]
    exact ⟨rfl, rfl, rfl, fun h => h.resolve_right hdue⟩

theorem counted_k (s : Sys) : s.counted.k = walkAll Kernel.taskList Kernel.next tickDelay
    { s.k with tickCount := wrap (s.k.tickCount + 1) } := by
  rw [Sys.counted]

theorem counted_ticked (s : Sys) :
    Ticked { s with k := { s.k with tickCount := wrap (s.k.tickCount + 1) } } s.counted := by
  have hwalk := walkAll_induction (f := tickDelay)
    (P := fun k => Ticked { s with k := { s.k with tickCount := wrap (s.k.tickCount + 1) } }
      { s with k := k }) (fun k t hk => by
        obtain ⟨_, hframe, _, hcount, hpend⟩ := tickDelay_frame k t
        exact hk.trans ⟨rfl, hframe, hcount, fun hp => hpend.trans hp⟩)
    { s.k with tickCount := wrap (s.k.tickCount + 1) } ⟨rfl, rfl, rfl, id⟩
  exact hwalk Kernel.next Kernel.taskList

theorem synced_ticked (s : Sys) : Ticked s.counted s.synced := by
  rw [Sys.synced]
  generalize s.counted = s₀
  refine walkAll_induction (P := Ticked s₀) (fun s' t hs' => ?_) s₀ ⟨rfl, rfl, rfl, id⟩ _ _
  obtain ⟨_, hframe, _, hcount, hpend⟩ := syncTickTask_frame s'.k t
  exact hs'.trans ⟨rfl, hframe, hcount, hpend⟩

theorem Scheduled.counted (h : Scheduled s g) (hlive : g.place t ≠ .fresh) :
    s.counted.k.tasks.tcb t = (s.k.tasks.tcb t).delayTicked ∧ s.counted.k.next = s.k.next := by
  have hmem := (h.alive t).mp hlive
  have hvisit : (walkAll Kernel.taskList Kernel.next tickDelay
      { s.k with tickCount := wrap (s.k.tickCount + 1) }).tasks.tcb t =
        (s.k.tasks.tcb t).delayTicked :=
    walkAll_once (fun k : Kernel => k.tasks.tcb t) Tcb.delayTicked
      (fun k x => (tickDelay_frame k x).2.2.1)
      (fun k x => (congrArg Prod.fst (tickDelay_frame k x).2.1 :)) h.linked
      (fun k => by rw [(tickDelay_frame k t).1, Function.update_self])
      (fun k x hx => by rw [(tickDelay_frame k x).1, Function.update_of_ne hx.symm])
      hmem (h.rank _ t hmem).2 fun q hq => (h.rank q t hq).1.symm
  have hnext := walkAll_induction (f := tickDelay) (P := fun k => k.next = s.k.next)
    (fun k x hk => (tickDelay_frame k x).2.2.1.trans hk)
    { s.k with tickCount := wrap (s.k.tickCount + 1) } rfl Kernel.next Kernel.taskList
  rw [counted_k]
  exact ⟨hvisit, hnext⟩

theorem syncTickAll_tcb {runs : Nat → List Tid} {pr : Nat}
    (hl : ∀ pr, Linked s.k.next (s.k.taskList pr) (runs pr)) (ht : t ∈ runs pr)
    (hpr : pr < maxTaskPriorities) (honly : ∀ q, t ∈ runs q → q = pr) :
    (walkAll (fun s : Sys => s.k.taskList) (fun s => s.k.next) Sys.syncTickTask s).k.tasks.tcb t =
      (s.k.tasks.tcb t).syncTicked := by
  have hnext : ∀ (s : Sys) (x : Tid), (s.syncTickTask x).k.next = s.k.next := fun s x =>
    (syncTickTask_frame s.k x).2.2.1
  have hheads : ∀ (s : Sys) (x : Tid), (s.syncTickTask x).k.taskList = s.k.taskList := fun s x =>
    congrArg Prod.fst (syncTickTask_frame s.k x).2.1
  have hself : ∀ s : Sys, (s.syncTickTask t).k.tasks.tcb t = (s.k.tasks.tcb t).syncTicked :=
    fun s =>
    (congrFun (syncTickTask_frame s.k t).1 t).trans (Function.update_self _ _ _)
  have hother : ∀ (s : Sys) (x : Tid), x ≠ t →
      (s.syncTickTask x).k.tasks.tcb t = s.k.tasks.tcb t := fun s x hx =>
    (congrFun (syncTickTask_frame s.k x).1 t).trans (Function.update_of_ne hx.symm _ _)
  exact walkAll_once (fun s : Sys => s.k.tasks.tcb t) Tcb.syncTicked hnext hheads hl hself hother ht
    hpr honly

/-- A tick comes to every task once. -/
theorem Scheduled.sysTick_tcb (h : Scheduled s g) (hlive : g.place t ≠ .fresh) :
    s.sysTick.k.tasks.tcb t = (s.k.tasks.tcb t).ticked := by
  have hmem := (h.alive t).mp hlive
  obtain ⟨hfirst, hnext⟩ := h.counted hlive
  have hlist := (counted_ticked s).taskList
  have hlinked : ∀ pr, Linked s.counted.k.next (s.counted.k.taskList pr) (g.runs pr) := by
    intro pr
    rw [hlist, hnext]
    exact h.linked pr
  have hsync := syncTickAll_tcb hlinked hmem (h.rank _ t hmem).2
    fun q hq => (h.rank q t hq).1.symm
  rw [(sysTick_ends s).2.1, Sys.synced, hsync, hfirst, Tcb.ticked]

theorem sysTick_frame (s : Sys) : s.sysTick.pc = s.pc ∧ s.sysTick.k.frame = s.k.frame := by
  have h := (counted_ticked s).trans (synced_ticked s)
  obtain ⟨hpc, _, hframe, _⟩ := sysTick_ends s
  exact ⟨hpc.trans h.pc, hframe.trans h.frame⟩

/-- A tick leaves a task alone that does not wait. -/
theorem sysTick_awake (hstate : (s.k.tcb t).state ≠ .waiting) :
    s.sysTick.k.tasks.tcb t = s.k.tasks.tcb t := by
  have hdelay : (s.k.tasks.tcb t).delayTicked = s.k.tasks.tcb t := if_neg fun h => hstate h.1
  have hsync : (s.k.tasks.tcb t).syncTicked = s.k.tasks.tcb t := if_neg fun h => hstate h.1
  refine sysTick_induction (P := fun s' => s'.k.tasks.tcb t = s.k.tasks.tcb t) s rfl
    (fun s' x hs' => ?_) (fun s' x hs' => ?_) fun _ hs' => hs'
  · have hx := congrFun (tickDelay_frame s'.k x).1 t
    refine hx.trans ?_
    by_cases htx : t = x
    · subst htx
      rw [Function.update_self, hs', hdelay]
    · rw [Function.update_of_ne htx, hs']
  · have hx := congrFun (syncTickTask_frame s'.k x).1 t
    refine (show (s'.syncTickTask x).k.tasks.tcb t = (syncTickTask s'.k x).tasks.tcb t from
      rfl).trans
      (hx.trans ?_)
    by_cases htx : t = x
    · subst htx
      rw [Function.update_self, hs', hsync]
    · rw [Function.update_of_ne htx, hs']

/-- A tick requests a PendSV at each 50th count. -/
theorem sysTick_pendsv (s : Sys)
    (h : s.k.pendsv = true ∨ wrap (s.k.tickCount + 1) % preemptTickInterval = 0) :
    s.sysTick.k.pendsv = true := by
  have hboth := (counted_ticked s).trans (synced_ticked s)
  refine (sysTick_ends s).2.2.2 ?_
  rcases h with hp | hcount
  · exact Or.inl (hboth.pendsv hp)
  · rw [hboth.count]
    exact Or.inr hcount

/-- And when it ends a wait on a list. -/
theorem Scheduled.sysTick_expired (h : Scheduled s g) (hlive : g.place t ≠ .fresh)
    (hstate : (s.k.tcb t).state = .waiting) (hone : (s.k.tcb t).delayTicks = 1)
    (hlist : (s.k.tcb t).blockingWaitList ≠ none) : s.sysTick.k.pendsv = true := by
  have hfirst : (s.k.tasks.tcb t).delayTicked = s.k.tasks.tcb t :=
    if_neg fun hcond => hlist hcond.2.2
  have hdue : (s.k.tasks.tcb t).syncTicked.state = .ready := by
    have hzero : 0 < (s.k.tasks.tcb t).delayTicks := by
      rw [show (s.k.tasks.tcb t).delayTicks = 1 from hone]
      decide
    rw [Tcb.syncTicked, if_pos ⟨hstate, hzero, hlist⟩]
    exact congrArg Tcb.state (if_pos hone)
  have hready : (s.synced.k.tasks.tcb t).state = .ready := by
    rw [← (sysTick_ends s).2.1, h.sysTick_tcb hlive, Tcb.ticked, hfirst]
    exact hdue
  have hbefore : s.counted.k.tasks.tcb t = s.k.tasks.tcb t := (h.counted hlive).1.trans hfirst
  have hwalk : ∀ s₀ : Sys, ((s₀.k.tasks.tcb t).state = .waiting ∧
      (s₀.k.tasks.tcb t).delayTicks = 1 ∧ (s₀.k.tasks.tcb t).blockingWaitList ≠ none) →
      ((walkAll (fun s : Sys => s.k.taskList) (fun s => s.k.next) Sys.syncTickTask s₀).k.tasks.tcb
        t).state = .waiting ∨ (walkAll (fun s : Sys => s.k.taskList) (fun s => s.k.next)
        Sys.syncTickTask s₀).k.pendsv = true := by
    intro s₀ hs₀
    have hind := walkAll_induction (f := Sys.syncTickTask)
      (P := fun s' => ((s'.k.tasks.tcb t).state = .waiting ∧ (s'.k.tasks.tcb t).delayTicks = 1 ∧
        (s'.k.tasks.tcb t).blockingWaitList ≠ none) ∨ s'.k.pendsv = true)
      (fun s' x hs' => by
        obtain ⟨htcb, _, _, _, hpend⟩ := syncTickTask_frame s'.k x
        rcases hs' with hwait | hp
        · by_cases hx : x = t
          · subst hx
            rcases syncTickTask_cases s'.k x with ⟨_, hnot⟩ | htasks
            · exact absurd hwait hnot
            · exact Or.inr (congrArg Kernel.pendsv htasks :)
          · left
            have hsame : (s'.syncTickTask x).k.tasks.tcb t = s'.k.tasks.tcb t :=
              (congrFun htcb t).trans (Function.update_of_ne (Ne.symm hx) _ _)
            rw [hsame]
            exact hwait
        · exact Or.inr (hpend hp)) s₀ (Or.inl hs₀)
      (fun s => s.k.next) fun s => s.k.taskList
    exact hind.imp_left fun hwait => hwait.1
  refine (sysTick_ends s).2.2.2 (Or.inl ?_)
  have hend := hwalk s.counted (by rw [hbefore]; exact ⟨hstate, hone, hlist⟩)
  rw [Sys.synced] at hready ⊢
  rcases hend with hwait | hp
  · rw [hwait] at hready
    cases hready
  · exact hp

end Tick

end Crest
