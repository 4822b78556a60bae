import CrestRtos.System.Placement
import CrestRtos.Heap.Runs

/-!
# The system invariant

What holds in every state of a system whose scheduler has started, in parts: the
code each task may be in (`Coded`), the CPU and the idle task (`Running`), the
run lists (`Scheduled`), kernel objects and their memory (`Objects`), and where
tasks wait (`Placed`). `Ghost` carries what the state only implies.
-/

namespace Crest
open IntrusiveList MachineWord Alloc

/-- Calls whose result goes to `r`. Tasks block themselves; the worker blocks
nobody but the caller it serves. -/
def Op.fits : Op → Ret → Prop
  | .semTake _ _, .app => True
  | .mutexLock _ _, .app => True
  | .mutexUnlock _, .app => True
  | .delay _, .app => True
  | .queuePush _ _ _, .app => True
  | .queuePop _ _ _, .app => True
  | .semGive _, _ => True
  | .queuePush _ _ ms, .serve _ => ms = 0
  | .queuePop _ _ ms, .serve _ => ms = 0
  | .semTryTake _ caller _, .serve c => caller = c
  | .mutexTryLock _ caller _, .serve c => caller = c
  | .mutexUnlockFor _ owner, .serve c => owner = c
  | _, _ => False

/-- The worker answers callers, every other task answers itself. -/
def Ret.fits (worker : Prop) : Ret → Prop
  | .app => ¬ worker
  | .serve _ => worker

/-- The code that the worker, or any other task, can be in. -/
def Pc.fits (worker : Prop) : Pc → Prop
  | .app => ¬ worker
  | .idle => ¬ worker
  | .svcRet => ¬ worker
  | .enter op r => op.fits r ∧ r.fits worker
  | .retry op r => op.fits .app ∧ r = .app ∧ ¬ worker ∧ ∃ w, op.waitList = some w ∧ w.isQueue = true
  | .block op r => op.fits .app ∧ r = .app ∧ ¬ worker ∧ op.waitList.isSome = true
  | .check op r => op.fits .app ∧ r = .app ∧ ¬ worker ∧ op.waitList.isSome = true
  | .wake _ v (.ret r _) => v = 0 ∧ r.fits worker
  | .wake _ _ .loop => worker
  | .pend (.ret r _) => r.fits worker
  | .pend .loop => worker
  | .workerStart => worker
  | .workerPop => worker
  | .workerSleep => worker
  | .dispatch _ => worker
  | .create _ r => r.fits worker
  | .queueBuffer _ r => r.fits worker
  | .queueFree _ r => r.fits worker
  | .publish _ _ r => r.fits worker
  | .spawnTcb args => ¬ worker ∧ args.accepted = true
  | .spawnStack _ args => ¬ worker ∧ args.accepted = true
  | .spawnFree _ => ¬ worker
  | .spawnAdd _ _ args => ¬ worker ∧ args.accepted = true

/-- The control block that a `task_create` in progress has taken. -/
def Pc.spawns : Pc → Option Tid
  | .spawnStack t _ => some t
  | .spawnFree t => some t
  | .spawnAdd t _ _ => some t
  | _ => none

/-- Code between a change of its task's state and the PendSV request. -/
def Pc.yields : Pc → Bool
  | .block _ _ => true
  | .pend _ => true
  | _ => false

def Op.object : Op → Option (Nat × KobjType)
  | .semTake s _ => some (s, .sem)
  | .semTryTake s _ _ => some (s, .sem)
  | .semGive s => some (s, .sem)
  | .mutexLock m _ => some (m, .mutex)
  | .mutexTryLock m _ _ => some (m, .mutex)
  | .mutexUnlock m => some (m, .mutex)
  | .mutexUnlockFor m _ => some (m, .mutex)
  | .queuePush q _ _ => some (q, .queue)
  | .queuePop q _ _ => some (q, .queue)
  | .delay _ => none

/-- The object that the code goes on to use. -/
def Pc.object : Pc → Option (Nat × KobjType)
  | .enter op _ => op.object
  | .retry op _ => op.object
  | .block op _ => op.object
  | .check op _ => op.object
  | _ => none

/-- The object that the code has allocated and not given to anyone. -/
def Pc.builds : Pc → Option Nat
  | .queueBuffer p _ => some p
  | .queueFree p _ => some p
  | .publish p _ _ => some p
  | _ => none

/-- A queue with a buffer for `size + 1` items and indices inside it. -/
structure Queue.Shaped (q : Queue) : Prop where
  item : 1 ≤ q.itemSize
  size : 1 ≤ q.size
  slots : q.slots = wrap (q.size + 1)
  pos : 0 < q.slots
  fits : q.itemSize * q.slots < 2 ^ 32
  head : q.head < q.slots
  tail : q.tail < q.slots

/-- A queue whose buffer is still to be allocated. -/
structure Queue.Draft (q : Queue) : Prop where
  item : 1 ≤ q.itemSize
  size : 1 ≤ q.size
  slots : q.slots = wrap (q.size + 1)
  head : q.head = 0
  tail : q.tail = 0

/-- The kernel heap, with the payload pointers it has handed out. -/
def HeapOwns (L : Layout) (h : Heap) (live : List Nat) : Prop :=
  (h.heapInited = false ∧ live = []) ∨ ∃ bs, Holds L.heap ⟨h, live⟩ bs

structure Ghost where
  lists : WaitMap
  place : Tid → Place
  runs : Nat → List Tid
  live : List Nat
  objs : Nat → Option KobjType
  worker : Tid

structure Coded (s : Sys) (g : Ghost) : Prop where
  pcs : ∀ t, (s.pc t).fits (t = g.worker)
  worker : g.place g.worker ≠ .fresh
  kernel : s.k.kernelTcb = if s.pc g.worker = .workerStart then none else some g.worker
  rested : (s.k.tcb g.worker).delayTicks = 0
  head : s.k.kworkHead < kworkQueueSize
  tail : s.k.kworkTail < kworkQueueSize

structure Running (s : Sys) (g : Ghost) : Prop where
  current : ∃ c, s.k.currentTask = some c ∧ g.place c ≠ .fresh ∧
    ((s.k.tcb c).state = .running ∨ s.k.pendsv = true ∨ (s.pc c).yields = true)
  only : ∀ t, (s.k.tcb t).state = .running → s.k.currentTask = some t
  gate : ∀ c, s.k.currentTask = some c → (s.k.tcb c).svcBlocked = true → g.place c = .ring
  idle : ∃ i, s.pc i = .idle ∧ g.place i ≠ .fresh

structure Scheduled (s : Sys) (g : Ghost) : Prop where
  linked : ∀ pr, Linked s.k.next (s.k.taskList pr) (g.runs pr)
  alive : ∀ t, g.place t ≠ .fresh ↔ t ∈ g.runs (s.k.tcb t).priority
  rank : ∀ pr t, t ∈ g.runs pr → (s.k.tcb t).priority = pr ∧ pr < maxTaskPriorities
  cursor : ∀ pr t, s.k.rrCurrent pr = some t → t ∈ g.runs pr
  used : ∀ t, s.k.tcbUsed t = false → g.place t = .fresh
  spawns : ∀ u t, (s.pc u).spawns = some t → g.place t = .fresh ∧ s.k.tcbUsed t = true
  spawner : ∀ u u' t, (s.pc u).spawns = some t → (s.pc u').spawns = some t → u = u'

structure Objects (L : Layout) (s : Sys) (g : Ghost) : Prop where
  heap : HeapOwns L s.k.heap g.live
  known : ∀ a type, g.objs a = some type → a ∈ g.live
  table : ∀ i, i < kobjMax → (s.k.table i).inUse = true →
    g.objs (s.k.table i).ptr = some (s.k.table i).type
  lists : ∀ w, g.lists w ≠ [] → g.objs w.addr = some w.kind
  refs : ∀ u a type, (s.pc u).object = some (a, type) → g.objs a = some type
  builds : ∀ u p, (s.pc u).builds = some p → p ∈ g.live ∧ g.objs p = none
  builder : ∀ u u' p, (s.pc u).builds = some p → (s.pc u').builds = some p → u = u'
  shaped : ∀ a, g.objs a = some .queue → (s.k.queue a).Shaped
  drafts : ∀ u p r, s.pc u = .queueBuffer p r → (s.k.queue p).Draft
  built : ∀ u p r, s.pc u = .publish p .queue r → (s.k.queue p).Shaped

structure Inv (L : Layout) (s : Sys) (g : Ghost) : Prop where
  placed : Placed s g.lists g.place
  coded : Coded s g
  running : Running s g
  scheduled : Scheduled s g
  objects : Objects L s g

/-- The run lists and the CPU, control blocks apart. -/
def Kernel.frame (k : Kernel) := (k.taskList, k.rrCurrent, k.currentTask)

def Kernel.ring (k : Kernel) := (k.kworkBuf, k.kworkHead, k.kworkTail)

/-- The fields of a control block that the run lists depend on. -/
def Kernel.rank (k : Kernel) (t : Tid) := ((k.tcb t).next, (k.tcb t).priority)

section Frames
variable {L : Layout} {s s' : Sys} {g g' : Ghost} {u : Tid}

theorem Inv.pendsv_or (h : Inv L s g) (hcur : s.k.currentTask = some u) :
    g.place u ≠ .fresh ∧
      ((s.k.tcb u).state = .running ∨ s.k.pendsv = true ∨ (s.pc u).yields = true) := by
  obtain ⟨c, hc, hrest⟩ := h.running.current
  obtain rfl : c = u := Option.some.inj (hc.symm.trans hcur)
  exact hrest

/-- The task that takes a step is at its own place. -/
theorem Inv.own (h : Inv L s g) (hcur : s.k.currentTask = some u) (hpend : s.k.pendsv = false)
    (hwaits : (s.pc u).waits = none ∨ (s.pc u).yields = false) : g.place u = .own := by
  obtain ⟨hfresh, hstate⟩ := h.pendsv_or hcur
  rw [hpend] at hstate
  by_cases hrun : (s.k.tcb u).state = .running
  · refine h.placed.own_of_state hfresh ?_
    rw [hrun]
    intro heq
    cases heq
  · have hyields : (s.pc u).yields = true := by
      rcases hstate with hs | hp | hy
      · exact absurd hs hrun
      · cases hp
      · exact hy
    have hnone : (s.pc u).waits = none := by
      rcases hwaits with hw | hy
      · exact hw
      · rw [hyields] at hy
        cases hy
    refine h.placed.own_of_pc hfresh ?_ hnone
    intro hpc
    rw [hpc] at hyields
    cases hyields

theorem Inv.running_of (h : Inv L s g) (hcur : s.k.currentTask = some u)
    (hpend : s.k.pendsv = false) (hyields : (s.pc u).yields = false) :
    (s.k.tcb u).state = .running := by
  obtain ⟨_, hstate⟩ := h.pendsv_or hcur
  rw [hpend, hyields] at hstate
  simpa using hstate

theorem Coded.frame (h : Coded s g) (hworker : g'.worker = g.worker)
    (hfresh : g'.place g.worker ≠ .fresh) (hpc : ∀ t, t ≠ u → s'.pc t = s.pc t)
    (hu : (s'.pc u).fits (u = g.worker))
    (hkernel : s'.k.kernelTcb = if s'.pc g.worker = .workerStart then none else some g.worker)
    (hrested : (s'.k.tcb g.worker).delayTicks = 0) (hhead : s'.k.kworkHead < kworkQueueSize)
    (htail : s'.k.kworkTail < kworkQueueSize) : Coded s' g' := by
  constructor
  · intro t
    rw [hworker]
    by_cases ht : t = u
    · subst ht
      exact hu
    · rw [hpc t ht]
      exact h.pcs t
  · rw [hworker]
    exact hfresh
  · rw [hworker]
    exact hkernel
  · rw [hworker]
    exact hrested
  · exact hhead
  · exact htail

theorem Running.frame (h : Running s g) (hcur : s.k.currentTask = some u)
    (hcur' : s'.k.currentTask = some u) (hfresh : ∀ t, g'.place t = .fresh → g.place t = .fresh)
    (hpc : ∀ t, t ≠ u → s'.pc t = s.pc t) (hidle : s.pc u ≠ .idle)
    (hstate : ∀ t, t ≠ u → (s'.k.tcb t).state = .running → (s.k.tcb t).state = .running)
    (hnow : (s'.k.tcb u).state = .running ∨ s'.k.pendsv = true ∨ (s'.pc u).yields = true)
    (hgate : (s'.k.tcb u).svcBlocked = true → g'.place u = .ring) : Running s' g' := by
  constructor
  · obtain ⟨c, hc, hcf, _⟩ := h.current
    obtain rfl : c = u := Option.some.inj (hc.symm.trans hcur)
    exact ⟨c, hcur', fun hf => hcf (hfresh c hf), hnow⟩
  · intro t ht
    by_cases htu : t = u
    · rw [htu]
      exact hcur'
    · have hold := h.only t (hstate t htu ht)
      exact absurd (Option.some.inj (hold.symm.trans hcur)) htu
  · intro c hc
    obtain rfl : c = u := Option.some.inj (hc.symm.trans hcur')
    exact hgate
  · obtain ⟨i, hi, hif⟩ := h.idle
    have hne : i ≠ u := by
      rintro rfl
      exact hidle hi
    exact ⟨i, (hpc i hne).trans hi, fun hf => hif (hfresh i hf)⟩

theorem Scheduled.frame (h : Scheduled s g) (hruns : g'.runs = g.runs)
    (hfresh : ∀ t, g'.place t = .fresh ↔ g.place t = .fresh) (hframe : s'.k.frame = s.k.frame)
    (hrank : ∀ t, s'.k.rank t = s.k.rank t) (hused : s'.k.tcbUsed = s.k.tcbUsed)
    (hspawns : ∀ t, (s'.pc t).spawns = (s.pc t).spawns) : Scheduled s' g' := by
  have hnext : s'.k.next = s.k.next := funext fun t => congrArg Prod.fst (hrank t)
  have hprio : ∀ t, (s'.k.tcb t).priority = (s.k.tcb t).priority :=
    fun t => congrArg Prod.snd (hrank t)
  have hlist : s'.k.taskList = s.k.taskList := congrArg Prod.fst hframe
  have hcursor : s'.k.rrCurrent = s.k.rrCurrent := congrArg (fun f => f.2.1) hframe
  constructor
  · intro pr
    rw [hnext, hlist, hruns]
    exact h.linked pr
  · intro t
    rw [hprio, hruns, Ne, hfresh]
    exact h.alive t
  · intro pr t
    rw [hruns, hprio]
    exact h.rank pr t
  · intro pr t
    rw [hcursor, hruns]
    exact h.cursor pr t
  · intro t
    rw [hused, hfresh]
    exact h.used t
  · intro v t
    rw [hspawns, hfresh, hused]
    exact h.spawns v t
  · intro v v' t
    rw [hspawns, hspawns]
    exact h.spawner v v' t

/-- Memory and objects stay; the code of `u` comes to use a known object. -/
theorem Objects.frame (h : Objects L s g) (hlive : g'.live = g.live) (hobjs : g'.objs = g.objs)
    (hheap : s'.k.heap = s.k.heap) (htable : s'.k.table = s.k.table)
    (hlists : ∀ w, g'.lists w ≠ [] → g.objs w.addr = some w.kind)
    (hpc : ∀ t, t ≠ u → s'.pc t = s.pc t)
    (hrefs : ∀ a type, (s'.pc u).object = some (a, type) → g.objs a = some type)
    (hbuilds : (s'.pc u).builds = none)
    (hshaped : ∀ a, (s.k.queue a).Shaped → (s'.k.queue a).Shaped)
    (hdrafts : ∀ a, g.objs a = none → (s.k.queue a).Draft → (s'.k.queue a).Draft) :
    Objects L s' g' := by
  have hother : ∀ t p, (s'.pc t).builds = some p → t ≠ u ∧ (s.pc t).builds = some p := by
    intro t p hp
    have hne : t ≠ u := by
      rintro rfl
      rw [hbuilds] at hp
      cases hp
    rw [hpc t hne] at hp
    exact ⟨hne, hp⟩
  constructor
  · rw [hheap, hlive]
    exact h.heap
  · rw [hobjs, hlive]
    exact h.known
  · rw [htable, hobjs]
    exact h.table
  · rw [hobjs]
    exact hlists
  · intro t a type
    rw [hobjs]
    by_cases ht : t = u
    · subst ht
      exact hrefs a type
    · rw [hpc t ht]
      exact h.refs t a type
  · intro t p hp
    rw [hlive, hobjs]
    exact h.builds t p (hother t p hp).2
  · intro t t' p hp hp'
    exact h.builder t t' p (hother t p hp).2 (hother t' p hp').2
  · intro a
    rw [hobjs]
    exact fun ha => hshaped a (h.shaped a ha)
  · intro t p r hp
    obtain ⟨hne, hb⟩ := hother t p (by rw [hp]; rfl)
    rw [hpc t hne] at hp
    exact hdrafts p (h.builds t p hb).2 (h.drafts t p r hp)
  · intro t p r hp
    obtain ⟨hne, _⟩ := hother t p (by rw [hp]; rfl)
    rw [hpc t hne] at hp
    exact hshaped p (h.built t p r hp)

theorem Objects.move {place' : Tid → Place} (h : Objects L s g) :
    Objects L s { g with place := place' } :=
  ⟨h.heap, h.known, h.table, h.lists, h.refs, h.builds, h.builder, h.shaped, h.drafts, h.built⟩

end Frames

end Crest
