import CrestRtos.System.Effects

/-!
# What a critical section does to objects and memory

`store` keeps the counts, owners and buffers of the objects, the heap and the
handle table. Nothing that only blocks or unlinks a task touches it, so each
section has one lemma that says what it stores.
-/

namespace Crest
open ByteMemory MachineWord Alloc

structure Store where
  count : Nat → Int
  owner : Nat → Option Tid
  queue : Nat → Queue
  heap : Heap
  table : Nat → KobjEntry

def Kernel.store (k : Kernel) : Store where
  count := fun a => (k.sem a).count
  owner := fun a => (k.mutex a).owner
  queue := k.plain.queue
  heap := k.heap
  table := k.table

section Blocking
variable (k : Kernel) (w : WaitList) (t : Tid) (ms : Nat)

@[simp] theorem store_setTcb (f : Tcb → Tcb) : (k.setTcb t f).store = k.store := rfl

@[simp] theorem store_setHead (v : Option Tid) : (k.setHead w v).store = k.store := by
  have hqueue : (k.setHead w v).plain.queue = k.plain.queue := by
    rw [plain_setHead]
  have hcount : (fun a => ((k.setHead w v).sem a).count) = fun a => (k.sem a).count := by
    funext a
    cases w with
    | sem b =>
      by_cases hab : a = b
      · subst hab
        simp [Kernel.setHead, Kernel.setSem]
      · simp [Kernel.setHead, Kernel.setSem, hab]
    | mutex b => rfl
    | send b => rfl
    | recv b => rfl
  have howner : (fun a => ((k.setHead w v).mutex a).owner) = fun a => (k.mutex a).owner := by
    funext a
    cases w with
    | mutex b =>
      by_cases hab : a = b
      · subst hab
        simp [Kernel.setHead, Kernel.setMutex]
      · simp [Kernel.setHead, Kernel.setMutex, hab]
    | sem b => rfl
    | send b => rfl
    | recv b => rfl
  have hheap : (k.setHead w v).heap = k.heap := by cases w <;> rfl
  have htable : (k.setHead w v).table = k.table := by cases w <;> rfl
  simp only [Kernel.store, hqueue, hcount, howner, hheap, htable]

@[simp] theorem store_markWaiting : (markWaiting k t).store = k.store := rfl

@[simp] theorem store_armTimeout : (armTimeout k w t ms).store = k.store := rfl

@[simp] theorem store_pushWaiter : (pushWaiter k w t).store = k.store := by
  rw [pushWaiter, store_setHead, store_setTcb]

@[simp] theorem store_appendWaiter : (appendWaiter k w t).store = k.store := by
  rw [appendWaiter]
  split
  · rw [store_setHead, store_setTcb]
  · rw [store_setTcb, store_setTcb]

@[simp] theorem store_popWaiter : (popWaiter k w t).store = k.store := by
  rw [popWaiter, store_setTcb, store_setHead]

@[simp] theorem store_unlinkWaiter : (unlinkWaiter k w t).store = k.store := by
  rw [unlinkWaiter]
  by_cases hfound : (IntrusiveList.searchFrom k.waitNext t maxTasks (k.head w) none).1 = some t
  · simp only [hfound, if_true, store_setTcb]
    cases (IntrusiveList.searchFrom k.waitNext t maxTasks (k.head w) none).2 with
    | none => exact store_setHead k w _
    | some p => exact store_setTcb k p _
  · simp only [if_neg hfound]

@[simp] theorem store_wakeFirst : (wakeFirst k w).1.store = k.store := by
  rw [wakeFirst]
  split
  · rw [store_popWaiter]
  · rfl

@[simp] theorem store_queueBlock : (queueBlock k w t ms).1.store = k.store := by
  rw [queueBlock, store_armTimeout, store_appendWaiter, store_markWaiting]

end Blocking

section Objects
variable (k : Kernel) (t : Tid) (ms : Nat)

theorem store_setSem (a : Nat) (n : Int) :
    (k.setSem a { k.sem a with count := n }).store =
      { k.store with count := Function.update k.store.count a n } := by
  have hcount : (fun b => ((k.setSem a { k.sem a with count := n }).sem b).count) =
      Function.update k.store.count a n := by
    funext b
    by_cases hb : b = a
    · subst hb
      simp [Kernel.setSem]
    · simp [Kernel.setSem, Kernel.store, hb]
  exact congrArg (fun c => { k.store with count := c }) hcount

theorem store_setMutex (a : Nat) (o : Option Tid) :
    (k.setMutex a { k.mutex a with owner := o }).store =
      { k.store with owner := Function.update k.store.owner a o } := by
  have howner : (fun b => ((k.setMutex a { k.mutex a with owner := o }).mutex b).owner) =
      Function.update k.store.owner a o := by
    funext b
    by_cases hb : b = a
    · subst hb
      simp [Kernel.setMutex]
    · simp [Kernel.setMutex, Kernel.store, hb]
  exact congrArg (fun c => { k.store with owner := c }) howner

theorem store_setQueue (a : Nat) (q : Queue) :
    (k.setQueue a q).store = { k.store with
      queue := Function.update k.store.queue a { q with sendWait := none, recvWait := none } } := by
  have hqueue : (k.setQueue a q).plain.queue =
      Function.update k.plain.queue a { q with sendWait := none, recvWait := none } := by
    funext b
    by_cases hb : b = a
    · subst hb
      simp [Kernel.setQueue, Kernel.plain]
    · simp [Kernel.setQueue, Kernel.plain, hb]
  exact congrArg (fun c => { k.store with queue := c }) hqueue

/-- A take that finds a token takes it; any other leaves the objects alone. -/
theorem take_store (direct : Bool) (s : Nat) :
    (takeSection direct k s t ms).1.store =
      if 0 < (k.sem s).count then
        { k.store with count := Function.update k.store.count s ((k.sem s).count - 1) }
      else k.store := by
  rw [takeSection]
  by_cases hcount : 0 < (k.sem s).count
  · rw [if_pos hcount, if_pos hcount, store_setSem]
  · rw [if_neg hcount, if_neg hcount]
    by_cases hms : ms = 0
    · rw [if_pos hms]
    · rw [if_neg hms, store_armTimeout, store_pushWaiter]
      cases direct <;> rfl

theorem give_store (s : Nat) :
    (zImplSemGive k s).1.store =
      if (k.sem s).waitList = none then
        { k.store with count := Function.update k.store.count s (toInt32 ((k.sem s).count + 1)) }
      else k.store := by
  rw [zImplSemGive]
  cases hhead : (k.sem s).waitList with
  | none =>
    rw [if_pos rfl]
    exact store_setSem k s (toInt32 ((k.sem s).count + 1))
  | some x =>
    rw [if_neg (by simp)]
    exact store_popWaiter k _ x

theorem lock_store (direct : Bool) (m : Nat) :
    (lockSection direct k m t ms).1.store =
      if (k.mutex m).owner = none then
        { k.store with owner := Function.update k.store.owner m (some t) }
      else k.store := by
  rw [lockSection]
  by_cases hown : (k.mutex m).owner = some t
  · rw [if_pos hown, if_neg (by simp [hown])]
  · rw [if_neg hown]
    by_cases hfree : (k.mutex m).owner = none
    · rw [if_pos hfree, if_pos hfree, store_setMutex]
    · rw [if_neg hfree, if_neg hfree]
      by_cases hms : ms = 0
      · rw [if_pos hms]
      · rw [if_neg hms, store_armTimeout, store_pushWaiter]
        cases direct <;> rfl

theorem unlock_store (m : Nat) :
    (unlockSection k m t).1.store =
      if (k.mutex m).owner = some t then
        { k.store with owner := Function.update k.store.owner m (k.mutex m).waitList }
      else k.store := by
  rw [unlockSection]
  by_cases hown : (k.mutex m).owner = some t
  · rw [if_neg (by simp [hown]), if_pos hown]
    cases hhead : (k.mutex m).waitList with
    | none =>
      exact store_setMutex k m none
    | some x =>
      refine (store_setMutex (popWaiter k (.mutex m) x) m (some x)).trans ?_
      rw [store_popWaiter]
  · rw [if_pos hown, if_neg hown]

/-- A push with room writes the cell at the tail and advances the tail. -/
def Kernel.pushedQueue (k : Kernel) (q item : Nat) : Queue :=
  { k.store.queue q with
    bytes := copyBytes (k.queue q).bytes ((k.queue q).offset (k.queue q).tail) k.ram item
      (k.queue q).itemSize
    tail := (k.queue q).nextIndex (k.queue q).tail }

def Kernel.poppedQueue (k : Kernel) (q : Nat) : Queue :=
  { k.store.queue q with head := (k.queue q).nextIndex (k.queue q).head }

theorem pass_store {ready : Kernel → Prop} [DecidablePred ready] {copy : Kernel → Kernel}
    {w w' : WaitList} : (queuePass ready copy w w' k t ms).1.store =
      if ready k then (copy k).store else k.store := by
  rw [queuePass]
  by_cases hready : ready k
  · rw [if_pos hready, if_pos hready, store_wakeFirst]
  · rw [if_neg hready, if_neg hready]
    by_cases hms : ms = 0
    · rw [if_pos hms]
    · rw [if_neg hms, store_queueBlock]

theorem push_store (q item : Nat) :
    (zImplQueuePush k q t item ms).1.store =
      if (k.queue q).nextIndex (k.queue q).tail ≠ (k.queue q).head then
        { k.store with queue := Function.update k.store.queue q (k.pushedQueue q item) }
      else k.store := by
  rw [zImplQueuePush_pass, pass_store, copyIn, store_setQueue]
  rfl

theorem pop_store (q item : Nat) :
    (zImplQueuePop k q t item ms).1.store =
      if (k.queue q).head ≠ (k.queue q).tail then
        { k.store with queue := Function.update k.store.queue q (k.poppedQueue q) }
      else k.store := by
  rw [zImplQueuePop_pass, pass_store, copyOut, store_setQueue]
  rfl

end Objects

theorem wakeFirst_ram (k : Kernel) (w : WaitList) : (wakeFirst k w).1.ram = k.ram := by
  rw [wakeFirst]
  cases k.head w with
  | none => rfl
  | some x => exact (congrArg Kernel.ram (plain_popWaiter k w x) :)

/-- What a pop that finds an item leaves in the RAM. -/
theorem pop_delivers {k : Kernel} {u : Tid} {q item ms : Nat}
    (hitem : (k.queue q).head ≠ (k.queue q).tail) :
    ((zImplQueuePop k q u item ms).1.queue q).itemSize = (k.queue q).itemSize ∧
      (zImplQueuePop k q u item ms).1.ram = copyBytes k.ram item (k.queue q).bytes
        ((k.queue q).offset (k.queue q).head) (k.queue q).itemSize := by
  have hstore := congrFun (congrArg Store.queue (pop_store k u ms q item)) q
  rw [if_pos hitem] at hstore
  have hnow := hstore.trans (Function.update_self q _ k.store.queue)
  refine ⟨(congrArg Queue.itemSize hnow :), ?_⟩
  rw [zImplQueuePop]
  simp only [if_pos hitem]
  exact wakeFirst_ram _ _

/-- Only the object that `object` names can be different in `k'`. -/
structure Kernel.Touches (k k' : Kernel) (object : Option (Nat × KobjType)) : Prop where
  heap : k'.heap = k.heap
  table : k'.table = k.table
  count : ∀ a, object ≠ some (a, .sem) → (k'.sem a).count = (k.sem a).count
  owner : ∀ a, object ≠ some (a, .mutex) → (k'.mutex a).owner = (k.mutex a).owner
  queue : ∀ a, object ≠ some (a, .queue) → k'.plain.queue a = k.plain.queue a

section Touches
variable {k k' : Kernel} {object : Option (Nat × KobjType)}

theorem touches_same (h : k'.store = k.store) : k.Touches k' object :=
  ⟨congrArg Store.heap h, congrArg Store.table h, fun a _ => congrFun (congrArg Store.count h) a,
    fun a _ => congrFun (congrArg Store.owner h) a, fun a _ => congrFun (congrArg Store.queue h) a⟩

theorem touches_count {s : Nat} {n : Int}
    (h : k'.store = { k.store with count := Function.update k.store.count s n }) :
    k.Touches k' (some (s, .sem)) := by
  refine ⟨congrArg Store.heap h, congrArg Store.table h, fun a ha => ?_,
    fun a _ => congrFun (congrArg Store.owner h) a, fun a _ => congrFun (congrArg Store.queue h) a⟩
  have hne : a ≠ s := by
    rintro rfl
    exact ha rfl
  have hcount := congrFun (congrArg Store.count h) a
  exact hcount.trans (Function.update_of_ne hne n k.store.count)

theorem touches_owner {m : Nat} {o : Option Tid}
    (h : k'.store = { k.store with owner := Function.update k.store.owner m o }) :
    k.Touches k' (some (m, .mutex)) := by
  refine ⟨congrArg Store.heap h, congrArg Store.table h,
    fun a _ => congrFun (congrArg Store.count h) a, fun a ha => ?_,
    fun a _ => congrFun (congrArg Store.queue h) a⟩
  have hne : a ≠ m := by
    rintro rfl
    exact ha rfl
  have howner := congrFun (congrArg Store.owner h) a
  exact howner.trans (Function.update_of_ne hne o k.store.owner)

theorem touches_queue {q : Nat} {v : Queue}
    (h : k'.store = { k.store with queue := Function.update k.store.queue q v }) :
    k.Touches k' (some (q, .queue)) := by
  refine ⟨congrArg Store.heap h, congrArg Store.table h,
    fun a _ => congrFun (congrArg Store.count h) a,
    fun a _ => congrFun (congrArg Store.owner h) a, fun a ha => ?_⟩
  have hne : a ≠ q := by
    rintro rfl
    exact ha rfl
  have hqueue := congrFun (congrArg Store.queue h) a
  exact hqueue.trans (Function.update_of_ne hne v k.store.queue)

theorem take_touches (direct : Bool) (s : Nat) (t : Tid) (ms : Nat) :
    k.Touches (takeSection direct k s t ms).1 (some (s, .sem)) := by
  have h := take_store k t ms direct s
  by_cases hcount : 0 < (k.sem s).count
  · rw [if_pos hcount] at h
    exact touches_count h
  · rw [if_neg hcount] at h
    exact touches_same h

theorem give_touches (s : Nat) : k.Touches (zImplSemGive k s).1 (some (s, .sem)) := by
  have h := give_store k s
  by_cases hhead : (k.sem s).waitList = none
  · rw [if_pos hhead] at h
    exact touches_count h
  · rw [if_neg hhead] at h
    exact touches_same h

theorem lock_touches (direct : Bool) (m : Nat) (t : Tid) (ms : Nat) :
    k.Touches (lockSection direct k m t ms).1 (some (m, .mutex)) := by
  have h := lock_store k t ms direct m
  by_cases hfree : (k.mutex m).owner = none
  · rw [if_pos hfree] at h
    exact touches_owner h
  · rw [if_neg hfree] at h
    exact touches_same h

theorem unlock_touches (m : Nat) (t : Tid) :
    k.Touches (unlockSection k m t).1 (some (m, .mutex)) := by
  have h := unlock_store k t m
  by_cases hown : (k.mutex m).owner = some t
  · rw [if_pos hown] at h
    exact touches_owner h
  · rw [if_neg hown] at h
    exact touches_same h

theorem push_touches (q item : Nat) (t : Tid) (ms : Nat) :
    k.Touches (zImplQueuePush k q t item ms).1 (some (q, .queue)) := by
  have h := push_store k t ms q item
  by_cases hroom : (k.queue q).nextIndex (k.queue q).tail ≠ (k.queue q).head
  · rw [if_pos hroom] at h
    exact touches_queue h
  · rw [if_neg hroom] at h
    exact touches_same h

theorem pop_touches (q item : Nat) (t : Tid) (ms : Nat) :
    k.Touches (zImplQueuePop k q t item ms).1 (some (q, .queue)) := by
  have h := pop_store k t ms q item
  by_cases hitem : (k.queue q).head ≠ (k.queue q).tail
  · rw [if_pos hitem] at h
    exact touches_queue h
  · rw [if_neg hitem] at h
    exact touches_same h

end Touches

end Crest
