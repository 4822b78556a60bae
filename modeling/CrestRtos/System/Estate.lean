import CrestRtos.Kernel.Standing
import CrestRtos.System.Changes
import CrestRtos.System.ObjectEffects

/-!
# What the kernel keeps in its heap

Stacks, kernel objects and queue buffers are blocks of the kernel heap, and so is what a
call in progress has allocated and not handed over. `Sys.holds` names the payload of each,
with the size that was asked for. Code that allocates nothing leaves all of it alone.
-/

namespace Crest
open ByteMemory MachineWord Alloc

/-- What stays as it is once a task or a queue is made. -/
def Tcb.lasting (tcb : Tcb) := (tcb.stackAlloc, tcb.stackBase, tcb.stackSize, tcb.next)
def Queue.shape (q : Queue) := (q.buffer, q.itemSize, q.slots)

def Kernel.estate (k : Kernel) :=
  (k.heap, k.table, k.taskList, fun t => (k.tcb t).lasting, fun a => (k.queue a).shape)

inductive Owner
  | stack (t : Tid)
  | object (i : Nat)
  | buffer (i : Nat)
  /-- The stack, the object and the buffer that a call of `u` is about to hand over. -/
  | newStack (u : Tid)
  | newObject (u : Tid)
  | newBuffer (u : Tid)
  deriving DecidableEq, Repr

def KobjType.bytes : KobjType → Nat
  | .queue => 32
  | .sem => 8
  | .mutex => 8

def Pc.newStack : Pc → Option (Nat × Nat)
  | .spawnAdd _ alloc args => some (alloc, stackAllocSize (nextPowerOfTwo args.stackSize))
  | _ => none

def Pc.newObject : Pc → Option (Nat × Nat)
  | .queueBuffer p _ => some (p, KobjType.queue.bytes)
  | .queueFree p _ => some (p, KobjType.queue.bytes)
  | .publish p type _ => some (p, type.bytes)
  | _ => none

/-- A queue with its buffer, on the way to the handle table. -/
def Pc.newQueue : Pc → Option Nat
  | .publish p .queue _ => some p
  | _ => none

/-- Code that asks for memory, has some to hand over, or hands it over. -/
def Pc.allocates : Pc → Bool
  | .create _ _ => true
  | .queueBuffer _ _ => true
  | .queueFree _ _ => true
  | .publish _ _ _ => true
  | .spawnStack _ _ => true
  | .spawnAdd _ _ _ => true
  | _ => false

structure Pc.Bare (p : Pc) : Prop where
  stack : p.newStack = none
  object : p.newObject = none
  queue : p.newQueue = none

def Kernel.bufferOf (k : Kernel) (a : Nat) : Nat × Nat :=
  ((k.queue a).buffer, (k.queue a).itemSize * (k.queue a).slots)

/-- The payload in the kernel heap that belongs to `o`, and the size asked for. -/
def Sys.holds (s : Sys) : Owner → Option (Nat × Nat)
  | .stack t =>
    if (s.k.tcb t).stackAlloc = 0 then none
    else some ((s.k.tcb t).stackAlloc, stackAllocSize (s.k.tcb t).stackSize)
  | .object i =>
    if (s.k.table i).inUse then some ((s.k.table i).ptr, (s.k.table i).type.bytes) else none
  | .buffer i =>
    if (s.k.table i).inUse = true ∧ (s.k.table i).type = .queue then
      some (s.k.bufferOf (s.k.table i).ptr)
    else none
  | .newStack u => (s.pc u).newStack
  | .newObject u => (s.pc u).newObject
  | .newBuffer u => (s.pc u).newQueue.map s.k.bufferOf

section Frames
variable {k k' : Kernel} {u t : Tid} {op : Op}

theorem estate_of (hst : k'.standing = k.standing)
    (hq : ∀ a, (k'.queue a).shape = (k.queue a).shape) : k'.estate = k.estate := by
  have hheap : k'.heap = k.heap := standing_heap hst
  have htable : k'.table = k.table := (congrArg Kernel.table hst :)
  have hlists : k'.taskList = k.taskList := standing_taskList hst
  have htcb : (fun t => (k'.tcb t).lasting) = fun t => (k.tcb t).lasting := by
    funext t
    exact (congrArg Tcb.lasting (standing_tcb hst t) :)
  simp only [Kernel.estate, hheap, htable, hlists, htcb, funext hq]

theorem estate_setTcb {f : Tcb → Tcb} (hf : (f (k.tcb t)).lasting = (k.tcb t).lasting) :
    (k.setTcb t f).estate = k.estate := by
  have htcb : (fun x => ((k.setTcb t f).tcb x).lasting) = fun x => (k.tcb x).lasting := by
    funext x
    by_cases hx : x = t
    · subst hx
      rw [setTcb_tcb_same]
      exact hf
    · rw [setTcb_tcb_of_ne _ _ hx]
  exact congrArg (fun g => (k.heap, k.table, k.taskList, g, fun a => (k.queue a).shape)) htcb

/-- Waiting and waking leave every queue where its buffer is. -/
theorem shape_of_store (h : k'.store.queue = k.store.queue) (a : Nat) :
    (k'.queue a).shape = (k.queue a).shape := by
  have hshape : ∀ k : Kernel, (k.queue a).shape = (k.store.queue a).shape := fun _ => rfl
  rw [hshape, h]
  rfl

theorem shape_of_update {q : Nat} {v : Queue} (h : k'.store.queue =
    Function.update k.store.queue q v) (hv : v.shape = (k.queue q).shape) (a : Nat) :
    (k'.queue a).shape = (k.queue a).shape := by
  have hshape : ∀ k : Kernel, (k.queue a).shape = (k.store.queue a).shape := fun _ => rfl
  rw [hshape, h]
  by_cases ha : a = q
  · subst ha
    rw [Function.update_self]
    exact hv
  · rw [Function.update_of_ne ha]
    rfl

theorem shape_enter (k : Kernel) (u : Tid) (op : Op) (a : Nat) :
    ((op.enter k u).1.queue a).shape = (k.queue a).shape := by
  have htake : ∀ direct s t ms,
      ((takeSection direct k s t ms).1.queue a).shape = (k.queue a).shape := by
    intro direct s t ms
    apply shape_of_store
    rw [take_store]
    split <;> rfl
  have hlock : ∀ direct m t ms,
      ((lockSection direct k m t ms).1.queue a).shape = (k.queue a).shape := by
    intro direct m t ms
    apply shape_of_store
    rw [lock_store]
    split <;> rfl
  have hunlock : ∀ m t, ((unlockSection k m t).1.queue a).shape = (k.queue a).shape := by
    intro m t
    apply shape_of_store
    rw [unlock_store]
    split <;> rfl
  cases op with
  | semTake s ms => exact htake true s u ms
  | semTryTake s caller ms => exact htake false s caller ms
  | semGive s =>
    apply shape_of_store
    change (zImplSemGive k s).1.store.queue = _
    rw [give_store]
    split <;> rfl
  | mutexLock m ms => exact hlock true m u ms
  | mutexTryLock m caller ms => exact hlock false m caller ms
  | mutexUnlock m => exact hunlock m u
  | mutexUnlockFor m owner => exact hunlock m owner
  | queuePush q item ms =>
    have h := push_store k u ms q item
    split at h
    · exact shape_of_update (v := k.pushedQueue q item) (congrArg Store.queue h) rfl a
    · exact shape_of_store (congrArg Store.queue h) a
  | queuePop q item ms =>
    have h := pop_store k u ms q item
    split at h
    · exact shape_of_update (v := k.poppedQueue q) (congrArg Store.queue h) rfl a
    · exact shape_of_store (congrArg Store.queue h) a
  | delay ticks =>
    rw [Op.enter, zImplTaskDelay]
    split <;> rfl

theorem estate_enter (k : Kernel) (u : Tid) (op : Op) : (op.enter k u).1.estate = k.estate :=
  estate_of (standing_enter op u) (shape_enter k u op)

theorem store_syncTickTask (k : Kernel) (t : Tid) : (syncTickTask k t).store = k.store := by
  rw [syncTickTask]
  split
  · rfl
  · split
    · simp only
      split
      · exact (store_unlinkWaiter _ _ t).trans rfl
      · rfl
    · rfl

theorem estate_sysTickHandler (k : Kernel) : (sysTickHandler k).estate = k.estate := by
  refine estate_of standing_sysTickHandler (shape_of_store ?_)
  have hdelay : ∀ k t, (tickDelay k t).store = k.store := by
    intro k t
    rw [tickDelay]
    split <;> rfl
  have htick : (schedulerTick k).store = k.store := by
    rw [schedulerTick, syncTickAll]
    refine walkAll_induction (P := fun k' => k'.store = k.store)
      (fun k' t hk' => (store_syncTickTask k' t).trans hk') _ ?_ Kernel.next Kernel.taskList
    exact walkAll_induction (P := fun k' => k'.store = k.store)
      (fun k' t hk' => (hdelay k' t).trans hk')
      { k with tickCount := wrap (k.tickCount + 1) } rfl Kernel.next Kernel.taskList
  refine congrArg Store.queue (Eq.trans ?_ htick)
  rw [sysTickHandler]
  generalize schedulerTick k = k'
  split <;> rfl

theorem estate_svcHandler (k : Kernel) (item : WorkItem) :
    (svcHandler k item).estate = k.estate := by
  refine estate_of (standing_svcHandler item) fun a => ?_
  have hpush : ∀ k : Kernel, (kworkPush k item).1.queue = k.queue := by
    intro k
    rw [kworkPush]
    simp only
    split
    · rfl
    · split
      · rfl
      · split <;> rfl
  rw [svcHandler]
  simp only
  split
  · exact congrArg (fun f => (f a).shape) (hpush _)
  · exact congrArg (fun f => (f a).shape) (hpush _)

theorem estate_switch {L : Layout} {oldSp : Nat} (h : portSwitchContext L k oldSp = some k') :
    k'.estate = k.estate := by
  obtain ⟨k₁, hsave, hrest⟩ := portSwitchContext_cases h
  have hfirst : k₁.estate = k.estate := by
    rcases saveCurrent_cases hsave with ⟨_, rfl⟩ | ⟨cur, _, rfl⟩
    · rfl
    · exact (estate_setTcb rfl).trans rfl
  rcases hrest with ⟨k₂, x, hfound, rfl⟩ | ⟨cur, _, rfl⟩ | rfl
  · obtain ⟨pr, c, rfl⟩ := schedulerGetNext_cursor hfound
    refine Eq.trans ?_ hfirst
    have hset : (({ k₁ with rrCurrent := Function.update k₁.rrCurrent pr (some c) } :
        Kernel).setTcb x fun tcb => { tcb with state := .running }).estate = k₁.estate :=
      estate_setTcb rfl
    exact Eq.trans rfl hset
  · exact (estate_setTcb rfl).trans hfirst
  · exact hfirst

end Frames

section Steps
variable {L : Layout} {s s' : Sys} {u : Tid} {r : Ret} {v : Nat}

theorem Ret.next_bare (r : Ret) (v : Nat) : (r.next v).Bare := by
  cases r <;> exact ⟨rfl, rfl, rfl⟩

theorem finish_bare (s : Sys) (u : Tid) (r : Ret) (v : Nat) : ((s.finish u r v).pc u).Bare := by
  rw [finish_eq]
  change (Function.update s.pc u (r.next v) u).Bare
  rw [Function.update_self]
  exact r.next_bare v

theorem setPc_bare {p : Pc} (hp : p.Bare) : ((s.setPc u p).pc u).Bare := by
  change (Function.update s.pc u p u).Bare
  rw [Function.update_self]
  exact hp

theorem runOp_bare (s : Sys) (u : Tid) (op : Op) (r : Ret) : ((s.runOp u op r).pc u).Bare := by
  rw [runOp_pc_self]
  cases (op.enter s.k u).2 with
  | ret v => exact r.next_bare v
  | block =>
    simp only
    split <;> exact ⟨rfl, rfl, rfl⟩
  | wake t v => exact ⟨rfl, rfl, rfl⟩
  | pend v => exact ⟨rfl, rfl, rfl⟩

theorem checkWait_estate (hpc : (s.pc u).Bare) (op : Op) (r : Ret) :
    (s.checkWait u op r).k.estate = s.k.estate ∧ ((s.checkWait u op r).pc u).Bare := by
  rw [Sys.checkWait]
  cases op.waitList with
  | none => exact ⟨rfl, hpc⟩
  | some w =>
    simp only
    split
    · split
      · refine ⟨?_, finish_bare s u r _⟩
        rw [finish_k]
      · exact ⟨rfl, setPc_bare ⟨rfl, rfl, rfl⟩⟩
    · split
      · refine ⟨?_, finish_bare _ u r _⟩
        rw [finish_k]
        exact estate_setTcb rfl
      · refine ⟨?_, finish_bare s u r _⟩
        rw [finish_k]

theorem dispatch_estate (s : Sys) (u : Tid) (item : WorkItem) :
    (s.dispatch u item).k.estate = s.k.estate ∧ ((s.dispatch u item).pc u).Bare := by
  rw [Sys.dispatch]
  cases decode s.k item with
  | sleep ticks =>
    refine ⟨?_, setPc_bare ⟨rfl, rfl, rfl⟩⟩
    exact estate_of (standing_delaySection ticks) fun _ => rfl
  | complete v => exact ⟨rfl, setPc_bare ⟨rfl, rfl, rfl⟩⟩
  | uart cs => exact ⟨rfl, setPc_bare ⟨rfl, rfl, rfl⟩⟩
  | call op => exact ⟨rfl, setPc_bare ⟨rfl, rfl, rfl⟩⟩
  | create c => exact ⟨rfl, setPc_bare ⟨rfl, rfl, rfl⟩⟩

/-- Kernel code that allocates nothing leaves everything in the heap alone. -/
theorem go_estate (hstep : s.go L u = some s') :
    (s.pc u).allocates = true ∨ (s'.k.estate = s.k.estate ∧ (s'.pc u).Bare) := by
  cases go_cases hstep with
  | svcRet hpc => exact Or.inr ⟨rfl, setPc_bare ⟨rfl, rfl, rfl⟩⟩
  | enter op r hpc =>
    refine Or.inr ⟨?_, runOp_bare s u op r⟩
    rw [runOp_k]
    apply estate_enter
  | retry op r hpc =>
    refine Or.inr ⟨?_, runOp_bare _ u op.again r⟩
    rw [runOp_k]
    apply estate_enter
  | block op r hpc => exact Or.inr ⟨rfl, setPc_bare ⟨rfl, rfl, rfl⟩⟩
  | check op r hpc =>
    right
    apply checkWait_estate
    rw [hpc]
    exact ⟨rfl, rfl, rfl⟩
  | wake t v after hpc =>
    refine Or.inr ⟨?_, setPc_bare ⟨rfl, rfl, rfl⟩⟩
    exact estate_of (standing_wakeSection v) fun _ => rfl
  | pend after hpc =>
    right
    cases after with
    | ret r v =>
      refine ⟨?_, finish_bare _ u r v⟩
      change (Sys.finish _ u r v).k.estate = _
      rw [finish_k]
      rfl
    | loop => exact ⟨rfl, setPc_bare ⟨rfl, rfl, rfl⟩⟩
  | workerStart hpc => exact Or.inr ⟨rfl, setPc_bare ⟨rfl, rfl, rfl⟩⟩
  | popNone hpc hpop => exact Or.inr ⟨rfl, setPc_bare ⟨rfl, rfl, rfl⟩⟩
  | popSome k item hpc hpop =>
    refine Or.inr ⟨?_, setPc_bare ⟨rfl, rfl, rfl⟩⟩
    rw [kworkPopLocked] at hpop
    split at hpop
    · cases hpop
    · obtain ⟨rfl, _⟩ := Prod.mk.inj (Option.some.inj hpop)
      rfl
  | workerSleep hpc =>
    refine Or.inr ⟨?_, setPc_bare ⟨rfl, rfl, rfl⟩⟩
    refine estate_of standing_workerWait fun a => ?_
    rw [workerWait]
    split <;> rfl
  | dispatch item hpc => exact Or.inr (dispatch_estate s u item)
  | create c r s' hpc hrun =>
    left
    rw [hpc]
    rfl
  | queueBuffer p r k ok hpc hrun =>
    left
    rw [hpc]
    rfl
  | queueFree p r k hpc hrun =>
    left
    rw [hpc]
    rfl
  | publish p type r hpc =>
    left
    rw [hpc]
    rfl
  | spawnNone args hpc hfree => exact Or.inr ⟨rfl, finish_bare s u .app 0⟩
  | spawnTcb args k t hpc hfree =>
    obtain ⟨_, rfl⟩ := getFreeTcb_some hfree
    exact Or.inr ⟨rfl, setPc_bare ⟨rfl, rfl, rfl⟩⟩
  | spawnStack t args heap alloc hpc hrun =>
    left
    rw [hpc]
    rfl
  | spawnFree t hpc => exact Or.inr ⟨rfl, finish_bare _ u .app 0⟩
  | spawnAdd t alloc args hpc =>
    left
    rw [hpc]
    rfl

/-- A call that ends has nothing in hand. -/
theorem finish_moved {k : Kernel} {log : List Event} {r : Ret} {w : Nat} (v : Tid) :
    ((⟨k, s.pc, log⟩ : Sys).finish u r w).pc v = s.pc v ∨
      (((⟨k, s.pc, log⟩ : Sys).finish u r w).pc v).Bare := by
  by_cases hv : v = u
  · subst hv
    exact Or.inr (finish_bare _ _ r w)
  · exact Or.inl (finish_pc _ r w hv)

theorem Creation.init_frame (k : Kernel) (p : Nat) (c : Creation) :
    (c.init k p).heap = k.heap ∧ (c.init k p).table = k.table ∧
      (c.init k p).taskList = k.taskList ∧ (c.init k p).tcb = k.tcb ∧
      ∀ a, a ≠ p → (c.init k p).queue a = k.queue a := by
  cases c with
  | sem initial => exact ⟨rfl, rfl, rfl, rfl, fun _ _ => rfl⟩
  | mutex => exact ⟨rfl, rfl, rfl, rfl, fun _ _ => rfl⟩
  | queue itemSize size =>
    exact ⟨rfl, rfl, rfl, rfl, fun a ha => Function.update_of_ne ha _ _⟩

theorem queueInitBuffer_split {k k' : Kernel} {p : Nat} {ok : Bool}
    (hrun : queueInitBuffer L k p = some (k', ok)) : (ok = false ∧ k' = k) ∨
      ∃ heap buffer,
        malloc L k.heap (wrap ((k.queue p).itemSize * (k.queue p).slots)) = some (heap, buffer) ∧
        k' = { k with heap := heap }.setQueue p { k.queue p with buffer := buffer } ∧
        ok = (buffer != 0) := by
  rw [queueInitBuffer] at hrun
  simp only at hrun
  split at hrun
  · obtain ⟨rfl, rfl⟩ := Prod.mk.inj (Option.some.inj hrun)
    exact Or.inl ⟨rfl, rfl⟩
  · obtain ⟨⟨heap, buffer⟩, hmalloc, heq⟩ := Option.map_eq_some_iff.mp hrun
    obtain ⟨rfl, rfl⟩ := Prod.mk.inj heq
    exact Or.inr ⟨heap, buffer, hmalloc, rfl, rfl⟩

/-- The handle table with the object at `p` in slot `i`. -/
def Kernel.enlist (k : Kernel) (i p : Nat) (type : KobjType) : Kernel :=
  { k with table := Function.update k.table i ⟨p, type, true, nextGen (k.table i).gen⟩ }

/-- A new entry takes a slot that is free. -/
theorem kObjAlloc_cases (k : Kernel) (p : Nat) (type : KobjType) : (kObjAlloc k p type).1 = k ∨
    ∃ i, (k.table i).inUse = false ∧ (kObjAlloc k p type).1 = k.enlist i p type := by
  rw [kObjAlloc]
  split
  · exact Or.inl rfl
  · split
    · exact Or.inl rfl
    · rename_i i hfind
      exact Or.inr ⟨i, by simpa using List.find?_some hfind, rfl⟩

/-- Calls look a handle up, or go on in the kernel's code. -/
theorem call_estate (s : Sys) (u : Tid) (c : Call) : (s.call u c).k.estate = s.k.estate ∧
    ∀ v, (s.call u c).pc v = s.pc v ∨ ((s.call u c).pc v).Bare := by
  have hgo : ∀ {p : Pc}, p.Bare → (s.setPc u p).k.estate = s.k.estate ∧
      ∀ v, (s.setPc u p).pc v = s.pc v ∨ ((s.setPc u p).pc v).Bare := by
    intro p hp
    refine ⟨rfl, fun v => ?_⟩
    by_cases hv : v = u
    · subst hv
      exact Or.inr (setPc_bare hp)
    · exact Or.inl (Function.update_of_ne hv _ _)
  have hend : ∀ w, (s.finish u .app w).k.estate = s.k.estate ∧
      ∀ v, (s.finish u .app w).pc v = s.pc v ∨ ((s.finish u .app w).pc v).Bare :=
    fun w => ⟨rfl, fun v => finish_moved v⟩
  have hobject : ∀ handle type f w, (s.callObject u handle type f w).k.estate = s.k.estate ∧
      ∀ v, (s.callObject u handle type f w).pc v = s.pc v ∨
        ((s.callObject u handle type f w).pc v).Bare := by
    intro handle type f w
    rw [Sys.callObject]
    split
    · exact hend w
    · exact hgo ⟨rfl, rfl, rfl⟩
  cases c with
  | semTake handle ms => apply hobject
  | semGive handle => apply hobject
  | mutexLock handle ms => apply hobject
  | mutexUnlock handle => apply hobject
  | queuePush handle item ms => apply hobject
  | queuePop handle item ms => apply hobject
  | taskDelay ticks => exact hgo ⟨rfl, rfl, rfl⟩
  | taskYield => exact hgo ⟨rfl, rfl, rfl⟩
  | create c => exact hgo ⟨rfl, rfl, rfl⟩
  | taskCreate args =>
    rw [Sys.call]
    split
    · exact hgo ⟨rfl, rfl, rfl⟩
    · exact hend 0
  | setUnprivileged =>
    have hset : (s.k.setTcb u fun tcb => { tcb with user := true }).estate = s.k.estate :=
      estate_setTcb rfl
    exact ⟨hset, fun _ => Or.inl rfl⟩

end Steps

end Crest
