import CrestRtos.Properties.Queues
import CrestRtos.System.Arrivals

/-!
# What one dispatch writes

The worker serves an item for a caller. It writes to the caller, to the one object
that the handle names, and to the first task that waits there. A creation takes new
memory and a free slot of the handle table, and a receive fills the destination.
-/

namespace Crest
open ByteMemory MachineWord Alloc

/-- Where kernel code may write. `cells` are the bytes of a queue's buffer, `bytes`
those of client memory. -/
structure Scope where
  tasks : Tid → Prop
  objects : Nat × KobjType → Prop
  cells : Nat → Nat → Prop
  bytes : Nat → Prop
  heap : Prop
  slots : Nat → Prop

/-- The kernel without the parts that a scope speaks about, and without the pending
bit of PendSV. -/
def Kernel.rest (k : Kernel) : Kernel :=
  { k with
    tcb := fun _ => Tcb.zero
    heap := ⟨fun _ => 0, 0, false⟩
    table := fun _ => ⟨0, .queue, false, 0⟩
    sem := fun _ => ⟨0, none⟩
    mutex := fun _ => ⟨none, none⟩
    queue := fun _ => ⟨0, 0, 0, 0, 0, 0, fun _ => 0, none, none⟩
    ram := fun _ => 0
    pendsv := false }

/-- From `k` to `k'` nothing outside `c` has changed. -/
structure Kernel.Within (k : Kernel) (c : Scope) (k' : Kernel) : Prop where
  tcb : ∀ t, ¬ c.tasks t → k'.tcb t = k.tcb t
  sem : ∀ a, ¬ c.objects (a, .sem) → k'.sem a = k.sem a
  mutex : ∀ a, ¬ c.objects (a, .mutex) → k'.mutex a = k.mutex a
  queue : ∀ a, ¬ c.objects (a, .queue) → k'.queue a = k.queue a
  cells : ∀ a i, ¬ c.cells a i → (k'.queue a).bytes i = (k.queue a).bytes i
  ram : ∀ x, ¬ c.bytes x → k'.ram x = k.ram x
  heap : ¬ c.heap → k'.heap = k.heap
  table : ∀ i, ¬ c.slots i → k'.table i = k.table i
  rest : k'.rest = k.rest

section Within
variable {c : Scope} {k k' k'' : Kernel} {t : Tid} {w : WaitList}

theorem Kernel.Within.refl (c : Scope) (k : Kernel) : k.Within c k :=
  ⟨fun _ _ => rfl, fun _ _ => rfl, fun _ _ => rfl, fun _ _ => rfl, fun _ _ _ => rfl,
    fun _ _ => rfl, fun _ => rfl, fun _ _ => rfl, rfl⟩

theorem Kernel.Within.trans (h : k.Within c k') (h' : k'.Within c k'') : k.Within c k'' where
  tcb t ht := (h'.tcb t ht).trans (h.tcb t ht)
  sem a ha := (h'.sem a ha).trans (h.sem a ha)
  mutex a ha := (h'.mutex a ha).trans (h.mutex a ha)
  queue a ha := (h'.queue a ha).trans (h.queue a ha)
  cells a i hi := (h'.cells a i hi).trans (h.cells a i hi)
  ram x hx := (h'.ram x hx).trans (h.ram x hx)
  heap hc := (h'.heap hc).trans (h.heap hc)
  table i hi := (h'.table i hi).trans (h.table i hi)
  rest := h'.rest.trans h.rest

theorem within_setTcb (f : Tcb → Tcb) (ht : c.tasks t) : k.Within c (k.setTcb t f) := by
  refine { Kernel.Within.refl c k with tcb := fun x hx => ?_, rest := rfl }
  refine setTcb_tcb_of_ne k f ?_
  rintro rfl
  exact hx ht

theorem within_setSem {a : Nat} (s : Semaphore) (ha : c.objects (a, .sem)) :
    k.Within c (k.setSem a s) := by
  refine { Kernel.Within.refl c k with sem := fun b hb => ?_, rest := rfl }
  refine Function.update_of_ne ?_ s k.sem
  rintro rfl
  exact hb ha

theorem within_setMutex {a : Nat} (m : Mutex) (ha : c.objects (a, .mutex)) :
    k.Within c (k.setMutex a m) := by
  refine { Kernel.Within.refl c k with mutex := fun b hb => ?_, rest := rfl }
  refine Function.update_of_ne ?_ m k.mutex
  rintro rfl
  exact hb ha

theorem within_setQueue {a : Nat} {q : Queue} (ha : c.objects (a, .queue))
    (hbytes : ∀ i, ¬ c.cells a i → q.bytes i = (k.queue a).bytes i) :
    k.Within c (k.setQueue a q) := by
  refine { Kernel.Within.refl c k with
    queue := fun b hb => ?_, cells := fun b i hi => ?_, rest := rfl }
  · refine Function.update_of_ne ?_ q k.queue
    rintro rfl
    exact hb ha
  · by_cases hb : b = a
    · subst hb
      have hself : (k.setQueue b q).queue b = q := by simp [Kernel.setQueue]
      rw [hself]
      exact hbytes i hi
    · have hother : (k.setQueue a q).queue b = k.queue b := by
        simp [Kernel.setQueue, hb]
      rw [hother]

theorem within_setHead (v : Option Tid) (hw : c.objects (w.addr, w.kind)) :
    k.Within c (k.setHead w v) := by
  cases w with
  | sem a => exact within_setSem _ hw
  | mutex a => exact within_setMutex _ hw
  | send a => exact within_setQueue hw fun _ _ => rfl
  | recv a => exact within_setQueue hw fun _ _ => rfl

theorem within_pendsv : k.Within c (portTriggerPendsv k) :=
  { Kernel.Within.refl c k with rest := rfl }

theorem within_heap (h : Heap) (hc : c.heap) : k.Within c { k with heap := h } :=
  { Kernel.Within.refl c k with heap := fun hnot => absurd hc hnot, rest := rfl }

theorem within_ram {m : Memory} (hm : ∀ x, ¬ c.bytes x → m x = k.ram x) :
    k.Within c { k with ram := m } :=
  { Kernel.Within.refl c k with ram := hm, rest := rfl }

theorem within_wakeSection (v : Nat) (ht : c.tasks t) : k.Within c (wakeSection k t v) :=
  within_setTcb _ ht

theorem within_wakeTask (v : Nat) (ht : c.tasks t) : k.Within c (schedulerWakeTask k t v) :=
  (within_wakeSection v ht).trans within_pendsv

theorem within_popWaiter (hw : c.objects (w.addr, w.kind)) (ht : c.tasks t) :
    k.Within c (popWaiter k w t) := by
  rw [popWaiter]
  exact (within_setHead _ hw).trans (within_setTcb _ ht)

/-- A caller is put on a list by the worker. -/
theorem within_park (ms : Nat) (hw : c.objects (w.addr, w.kind)) (ht : c.tasks t) :
    k.Within c (armTimeout (pushWaiter k w t) w t ms) := by
  rw [armTimeout, pushWaiter]
  exact ((within_setTcb _ ht).trans (within_setHead _ hw)).trans (within_setTcb _ ht)

theorem within_wakeFirst (hw : c.objects (w.addr, w.kind))
    (ht : ∀ x, k.head w = some x → c.tasks x) : k.Within c (wakeFirst k w).1 := by
  rw [wakeFirst]
  cases hhead : k.head w with
  | none => exact .refl c k
  | some x => exact within_popWaiter hw (ht x hhead)

theorem within_take {s ms : Nat} (hs : c.objects (s, .sem)) (ht : c.tasks t) :
    k.Within c (takeSection false k s t ms).1 := by
  rw [takeSection]
  split
  · exact within_setSem _ hs
  · split
    · exact .refl c k
    · exact within_park (w := .sem s) ms hs ht

theorem within_give {s : Nat} (hs : c.objects (s, .sem))
    (hx : ∀ x, k.head (.sem s) = some x → c.tasks x) : k.Within c (zImplSemGive k s).1 := by
  rw [zImplSemGive]
  split
  · exact within_popWaiter (w := .sem s) hs (hx _ ‹_›)
  · exact within_setSem _ hs

theorem within_lock {m ms : Nat} (hm : c.objects (m, .mutex)) (ht : c.tasks t) :
    k.Within c (lockSection false k m t ms).1 := by
  rw [lockSection]
  split
  · exact .refl c k
  · split
    · exact within_setMutex _ hm
    · split
      · exact .refl c k
      · exact within_park (w := .mutex m) ms hm ht

theorem within_unlock {m : Nat} (hm : c.objects (m, .mutex))
    (hx : (k.mutex m).owner = some t → ∀ x, k.head (.mutex m) = some x → c.tasks x) :
    k.Within c (unlockSection k m t).1 := by
  rw [unlockSection]
  split
  · exact .refl c k
  · rename_i hown
    split
    · exact (within_popWaiter (w := .mutex m) hm (hx (not_not.mp hown) _ ‹_›)).trans
        (within_setMutex _ hm)
    · exact within_setMutex _ hm

/-- A push writes one cell of the ring. -/
theorem within_push {q item : Nat} (hq : c.objects (q, .queue))
    (hcells : ∀ i, (k.queue q).offset (k.queue q).tail ≤ i →
      i < (k.queue q).offset (k.queue q).tail + (k.queue q).itemSize → c.cells q i)
    (hx : (k.queue q).nextIndex (k.queue q).tail ≠ (k.queue q).head →
      ∀ x, k.head (.recv q) = some x → c.tasks x) :
    k.Within c (zImplQueuePush k q t item 0).1 := by
  rw [zImplQueuePush]
  by_cases hroom : (k.queue q).nextIndex (k.queue q).tail ≠ (k.queue q).head
  · simp only [if_pos hroom]
    refine (within_setQueue hq fun i hi => ?_).trans (within_wakeFirst (w := .recv q) hq ?_)
    · have hout : ¬ ((k.queue q).offset (k.queue q).tail ≤ i ∧
          i < (k.queue q).offset (k.queue q).tail + (k.queue q).itemSize) := fun hin =>
        hi (hcells i hin.1 hin.2)
      simp only [copyBytes, if_neg hout]
    · intro x hhead
      refine hx hroom x ?_
      rw [← hhead]
      simp [Kernel.head, Kernel.setQueue]
  · simp only [if_neg hroom]
    exact .refl c k

/-- A pop writes the destination. -/
theorem within_pop {q item : Nat} (hq : c.objects (q, .queue))
    (hbytes : ∀ x, item ≤ x → x < item + (k.queue q).itemSize → c.bytes x)
    (hx : (k.queue q).head ≠ (k.queue q).tail →
      ∀ x, k.head (.send q) = some x → c.tasks x) :
    k.Within c (zImplQueuePop k q t item 0).1 := by
  rw [zImplQueuePop]
  by_cases hitem : (k.queue q).head ≠ (k.queue q).tail
  · simp only [if_pos hitem]
    refine .trans ?_ (within_wakeFirst (w := .send q) hq ?_)
    · refine .trans (within_ram fun x hout => ?_) (within_setQueue hq fun _ _ => rfl)
      have hnot : ¬ (item ≤ x ∧ x < item + (k.queue q).itemSize) := fun hin =>
        hout (hbytes x hin.1 hin.2)
      simp only [copyBytes, if_neg hnot]
    · intro x hhead
      refine hx hitem x ?_
      rw [← hhead]
      simp [Kernel.head, Kernel.setQueue]
  · simp only [if_neg hitem]
    exact .refl c k

/-- The worker's call on an object, and the first task on its list. -/
theorem within_enter {op : Op} {u : Tid} {o : Nat × KobjType} (hfits : op.fits (.serve t))
    (hobject : op.object = some o) (ho : c.objects o) (ht : c.tasks t)
    (hx : ∀ w x, op.handsOff k u = some (w, x) → c.tasks x)
    (hcells : ∀ q item ms i, op = .queuePush q item ms →
      (k.queue q).offset (k.queue q).tail ≤ i →
      i < (k.queue q).offset (k.queue q).tail + (k.queue q).itemSize → c.cells q i)
    (hbytes : ∀ q dst ms x, op = .queuePop q dst ms → dst ≤ x →
      x < dst + (k.queue q).itemSize → c.bytes x) : k.Within c (op.enter k u).1 := by
  have hfirst : ∀ w x, k.head w = some x → op.handsOff k u = (k.head w).map (Prod.mk w) →
      c.tasks x := by
    intro w x hhead hoff
    rw [hhead] at hoff
    exact hx w x hoff
  cases op with
  | semTake s ms => cases hfits
  | mutexLock m ms => cases hfits
  | mutexUnlock m => cases hfits
  | delay ticks => cases hfits
  | semGive s =>
    cases hobject
    exact within_give ho fun x hhead => hfirst _ x hhead rfl
  | semTryTake s caller ms =>
    obtain rfl : caller = t := hfits
    cases hobject
    exact within_take ho ht
  | mutexTryLock m caller ms =>
    obtain rfl : caller = t := hfits
    cases hobject
    exact within_lock ho ht
  | mutexUnlockFor m owner =>
    cases hobject
    exact within_unlock ho fun hown x hhead => hfirst _ x hhead (if_pos hown)
  | queuePush q item ms =>
    obtain rfl : ms = 0 := hfits
    cases hobject
    exact within_push ho (fun i => hcells q item 0 i rfl) fun hroom x hhead =>
      hfirst _ x hhead (if_pos hroom)
  | queuePop q dst ms =>
    obtain rfl : ms = 0 := hfits
    cases hobject
    exact within_pop ho (fun x => hbytes q dst 0 x rfl) fun hitem x hhead =>
      hfirst _ x hhead (if_pos hitem)

theorem within_init {cr : Creation} {p : Nat} (hp : c.objects (p, cr.type)) :
    k.Within c (cr.init k p) := by
  cases cr with
  | sem initial => exact within_setSem _ hp
  | mutex => exact within_setMutex _ hp
  | queue itemSize size => exact within_setQueue hp fun _ _ => rfl

theorem within_kObjAlloc {p : Nat} {type : KobjType}
    (hslot : ∀ i, (List.range kobjMax).find? (fun i => !(k.table i).inUse) = some i → c.slots i) :
    k.Within c (kObjAlloc k p type).1 := by
  rw [kObjAlloc]
  split
  · exact .refl c k
  · split
    · exact .refl c k
    · rename_i i hfind
      refine { Kernel.Within.refl c k with table := fun j hj => ?_, rest := rfl }
      refine Function.update_of_ne ?_ _ k.table
      rintro rfl
      exact hj (hslot j hfind)

end Within

section Items

/-- The type of object that an item is about. -/
def WorkItem.handleType (item : WorkItem) : Option KobjType :=
  if item.id = syscallQueueSend ∨ item.id = syscallQueueRecv then some .queue
  else if item.id = syscallSemPost ∨ item.id = syscallSemWait then some .sem
  else if item.id = syscallMutexLock ∨ item.id = syscallMutexUnlock then some .mutex
  else none

/-- The object that the handle of an item stands for. -/
def WorkItem.object (k : Kernel) (item : WorkItem) : Option (Nat × KobjType) :=
  item.handleType.bind fun type => (kObjGet k item.arg0 type).map fun a => (a, type)

/-- The type of object that an item asks for. -/
def WorkItem.creates (item : WorkItem) : Option KobjType :=
  if item.id = syscallQueueCreate then some .queue
  else if item.id = syscallSemCreate then some .sem
  else if item.id = syscallMutexCreate then some .mutex
  else none

/-- An unknown id, or a handle that is invalid, stale or of another type. -/
def WorkItem.Refused (k : Kernel) (item : WorkItem) : Prop :=
  syscallMutexCreate < item.id ∨
    ∃ type, item.handleType = some type ∧ kObjGet k item.arg0 type = none

/-- The first waiter of the object. -/
def WorkItem.FirstWaiter (k : Kernel) (item : WorkItem) (x : Tid) : Prop :=
  ∃ w, item.object k = some (w.addr, w.kind) ∧ k.head w = some x

/-- What the item may change, with another task `other` and an object `fresh` that is
not there yet. -/
def WorkItem.scope (k : Kernel) (item : WorkItem) (other : Option Tid) (fresh : Option Nat) :
    Scope where
  tasks t := t = item.caller ∨ other = some t
  objects o := item.object k = some o ∨ (fresh = some o.1 ∧ item.creates = some o.2)
  cells q i := item.object k = some (q, .queue) ∧ i < (k.queue q).itemSize * (k.queue q).slots
  bytes x := item.id = syscallQueueRecv ∧ ∃ q, item.object k = some (q, .queue) ∧
    item.arg1 ≤ x ∧ x < item.arg1 + (k.queue q).itemSize
  heap := item.creates.isSome = true
  slots i := item.creates.isSome = true ∧
    (List.range kobjMax).find? (fun i => !(k.table i).inUse) = some i

/-- What the worker does for an item that it does not refuse. -/
inductive Decoded (k : Kernel) (item : WorkItem) : Work → Prop
  | refused (h : item.Refused k) : Decoded k item (.complete minusOne)
  | sleep (h : ¬ item.Refused k) (ticks : Nat) : Decoded k item (.sleep ticks)
  | uart (h : ¬ item.Refused k) (text : Nat) : Decoded k item (.uart text)
  | call {op : Op} {o : Nat × KobjType} (h : ¬ item.Refused k) (hitem : item.object k = some o)
      (hop : op.object = some o) (hfits : op.fits (.serve item.caller))
      (hpop : ∀ q dst ms, op = .queuePop q dst ms → item.id = syscallQueueRecv ∧ dst = item.arg1) :
      Decoded k item (.call op)
  | create {cr : Creation} (h : ¬ item.Refused k) (htype : item.creates = some cr.type) :
      Decoded k item (.create cr)

variable {k : Kernel} {item : WorkItem}

theorem not_refused (hid : item.id ≤ syscallMutexCreate) (htype : item.handleType = none) :
    ¬ item.Refused k := by
  rintro (hgt | ⟨type, htype', _⟩)
  · exact absurd hid (Nat.not_le_of_gt hgt)
  · rw [htype] at htype'
    cases htype'

theorem decoded_object {type : KobjType} {f : Nat → Op} (hid : item.id ≤ syscallMutexCreate)
    (htype : item.handleType = some type) (hop : ∀ a, (f a).object = some (a, type))
    (hfits : ∀ a, (f a).fits (.serve item.caller))
    (hpop : ∀ a q dst ms, f a = .queuePop q dst ms →
      item.id = syscallQueueRecv ∧ dst = item.arg1) :
    Decoded k item (withObject k item.arg0 type fun a => .call (f a)) := by
  rw [withObject]
  cases hget : kObjGet k item.arg0 type with
  | none => exact .refused (Or.inr ⟨type, htype, hget⟩)
  | some a =>
    refine .call (o := (a, type)) ?_ ?_ (hop a) (hfits a) (hpop a)
    · rintro (hgt | ⟨type', htype', hnone⟩)
      · exact absurd hid (Nat.not_le_of_gt hgt)
      · obtain rfl := Option.some.inj (htype.symm.trans htype')
        rw [hget] at hnone
        cases hnone
    · rw [WorkItem.object, htype, Option.bind_some, hget]
      rfl

/-- One case for each `case` of the `switch`. -/
theorem decoded (k : Kernel) (item : WorkItem) : Decoded k item (decode k item) := by
  by_cases hdelay : item.id = syscallDelay
  · rw [decode, if_pos hdelay]
    exact .sleep (not_refused (by rw [hdelay]; decide) (by rw [WorkItem.handleType, hdelay]; rfl)) _
  by_cases hsend : item.id = syscallQueueSend
  · rw [decode, if_neg hdelay, if_pos hsend]
    exact decoded_object (by rw [hsend]; decide) (by rw [WorkItem.handleType, hsend]; rfl)
      (fun _ => rfl) (fun _ => rfl) (by simp)
  by_cases hrecv : item.id = syscallQueueRecv
  · rw [decode, if_neg hdelay, if_neg hsend, if_pos hrecv]
    refine decoded_object (by rw [hrecv]; decide) (by rw [WorkItem.handleType, hrecv]; rfl)
      (fun _ => rfl) (fun _ => rfl) fun a q dst ms heq => ⟨hrecv, ?_⟩
    injection heq with _ hdst
    exact hdst.symm
  by_cases hpost : item.id = syscallSemPost
  · rw [decode, if_neg hdelay, if_neg hsend, if_neg hrecv, if_pos hpost]
    exact decoded_object (by rw [hpost]; decide) (by rw [WorkItem.handleType, hpost]; rfl)
      (fun _ => rfl) (fun _ => trivial) (by simp)
  by_cases hwait : item.id = syscallSemWait
  · rw [decode, if_neg hdelay, if_neg hsend, if_neg hrecv, if_neg hpost, if_pos hwait]
    exact decoded_object (by rw [hwait]; decide) (by rw [WorkItem.handleType, hwait]; rfl)
      (fun _ => rfl) (fun _ => rfl) (by simp)
  by_cases hlock : item.id = syscallMutexLock
  · rw [decode, if_neg hdelay, if_neg hsend, if_neg hrecv, if_neg hpost, if_neg hwait, if_pos hlock]
    exact decoded_object (by rw [hlock]; decide) (by rw [WorkItem.handleType, hlock]; rfl)
      (fun _ => rfl) (fun _ => rfl) (by simp)
  by_cases hunlock : item.id = syscallMutexUnlock
  · rw [decode, if_neg hdelay, if_neg hsend, if_neg hrecv, if_neg hpost, if_neg hwait,
      if_neg hlock, if_pos hunlock]
    exact decoded_object (by rw [hunlock]; decide) (by rw [WorkItem.handleType, hunlock]; rfl)
      (fun _ => rfl) (fun _ => rfl) (by simp)
  rw [decode, if_neg hdelay, if_neg hsend, if_neg hrecv, if_neg hpost, if_neg hwait, if_neg hlock,
    if_neg hunlock]
  have htype : item.handleType = none := by
    simp [WorkItem.handleType, hsend, hrecv, hpost, hwait, hlock, hunlock]
  by_cases huart : item.id = syscallUartWrite
  · rw [if_pos huart]
    exact .uart (not_refused (by rw [huart]; decide) htype) _
  by_cases hqueue : item.id = syscallQueueCreate
  · rw [if_neg huart, if_pos hqueue]
    exact .create (not_refused (by rw [hqueue]; decide) htype)
      (by rw [WorkItem.creates, hqueue]; rfl)
  by_cases hsem : item.id = syscallSemCreate
  · rw [if_neg huart, if_neg hqueue, if_pos hsem]
    exact .create (not_refused (by rw [hsem]; decide) htype) (by rw [WorkItem.creates, hsem]; rfl)
  by_cases hmutex : item.id = syscallMutexCreate
  · rw [if_neg huart, if_neg hqueue, if_neg hsem, if_pos hmutex]
    exact .create (not_refused (le_of_eq hmutex) htype)
      (by rw [WorkItem.creates, hmutex]; rfl)
  rw [if_neg huart, if_neg hqueue, if_neg hsem, if_neg hmutex]
  refine .refused (Or.inl ?_)
  simp only [syscallDelay, syscallQueueSend, syscallQueueRecv, syscallSemPost, syscallSemWait,
    syscallMutexLock, syscallMutexUnlock, syscallUartWrite, syscallQueueCreate, syscallSemCreate,
    syscallMutexCreate] at *
  omega

end Items

/-- The code of `u` up to its next look into the ring. -/
inductive Dispatched (L : Layout) (u : Tid) : Sys → Sys → Prop
  | back {s : Sys} (h : s.pc u = .workerPop) : Dispatched L u s s
  | step {s s' s'' : Sys} (hpc : s.pc u ≠ .workerPop) (h : s.go L u = some s')
      (hrest : Dispatched L u s' s'') : Dispatched L u s s''

/-- The code of `u` comes back, has written where `c` allows and left wait lists alone. -/
def Sys.Serves (L : Layout) (s : Sys) (u : Tid) (c : Scope) (W : WaitMap) : Prop :=
  ∃ s', Dispatched L u s s' ∧ s.k.Within c s'.k ∧ (Lists s.k W → Lists s'.k W)

section Steps
variable {L : Layout} {s s' s'' : Sys} {u t : Tid} {c : Scope} {k : Kernel} {v : Nat} {W : WaitMap}

theorem Dispatched.unique (h : Dispatched L u s s') (h' : Dispatched L u s s'') : s' = s'' := by
  induction h with
  | back hpc =>
    cases h' with
    | back _ => rfl
    | step hne _ _ => exact absurd hpc hne
  | step hne hgo _ ih =>
    cases h' with
    | back hpc => exact absurd hpc hne
    | step _ hgo' hrest =>
      obtain rfl := Option.some.inj (hgo.symm.trans hgo')
      exact ih hrest

theorem Sys.Serves.step (h : s'.Serves L u c W) (hpc : s.pc u ≠ .workerPop)
    (hgo : s.go L u = some s') (hk : s.k.Within c s'.k)
    (hlists : Lists s.k W → Lists s'.k W) : s.Serves L u c W := by
  obtain ⟨s'', hrun, hk', hlists'⟩ := h
  exact ⟨s'', .step hpc hgo hrun, hk.trans hk', fun hW => hlists' (hlists hW)⟩

/-- The end of every dispatch that answers its caller. -/
theorem dispatched_wake (hpc : s.pc u = .wake t v .loop) :
    ∃ s', Dispatched L u s s' ∧ s'.k = schedulerWakeTask s.k t v := by
  have hwake : s.go L u = some (({ s with k := wakeSection s.k t v }.note
      (answerNote s.k t v)).setPc u (.pend .loop)) := by
    simp only [Sys.go, hpc]
  have hpend : (({ s with k := wakeSection s.k t v }.note (answerNote s.k t v)).setPc u
      (.pend .loop)).go L u = some
        ({ ({ s with k := wakeSection s.k t v }.note (answerNote s.k t v)).setPc u (.pend .loop)
          with
          k := schedulerWakeTask s.k t v }.setPc u .workerPop) := by
    simp only [Sys.go, pc_setPc]
    rfl
  exact ⟨_, .step (by simp [hpc]) hwake (.step (by simp [pc_setPc]) hpend
    (.back (pc_setPc _ _ _))), rfl⟩

theorem lists_wakeTask (t : Tid) (v : Nat) (h : Lists k W) :
    Lists (schedulerWakeTask k t v) W :=
  lists_of_fields (k := wakeSection k t v) rfl rfl rfl rfl (lists_wakeSection t v h)

theorem serves_answer (hpc : s.pc u = .wake t v .loop) (ht : c.tasks t) : s.Serves L u c W := by
  obtain ⟨s', hrun, hk⟩ := dispatched_wake (L := L) hpc
  refine ⟨s', hrun, ?_, fun hW => ?_⟩
  · rw [hk]
    exact within_wakeTask v ht
  · rw [hk]
    exact lists_wakeTask t v hW

theorem serves_finish {n : List Event} {pc : Tid → Pc} (ht : c.tasks t) :
    ((⟨k, pc, n⟩ : Sys).finish u (.serve t) v).Serves L u c W :=
  serves_answer (pc_setPc _ _ _) ht

theorem serves_pend (hpc : s.pc u = .pend (.ret (.serve t) v)) (ht : c.tasks t) :
    s.Serves L u c W := by
  have hgo : s.go L u = some ({ s with k := portTriggerPendsv s.k }.finish u (.serve t) v) := by
    simp only [Sys.go, hpc]
    rfl
  exact (serves_finish ht).step (by simp [hpc]) hgo within_pendsv fun hW =>
    lists_of_fields (k := s.k) rfl rfl rfl rfl hW

/-- A waiter is woken before the caller. -/
theorem serves_wake {x : Tid} {n : Nat} (hpc : s.pc u = .wake x n (.ret (.serve t) v))
    (ht : c.tasks t) (hx : c.tasks x) : s.Serves L u c W := by
  have hgo : s.go L u = some (({ s with k := wakeSection s.k x n }.note
      (answerNote s.k x n)).setPc u (.pend (.ret (.serve t) v))) := by
    simp only [Sys.go, hpc]
  exact (serves_pend (pc_setPc _ _ _) ht).step (by simp [hpc]) hgo (within_wakeSection n hx)
    fun hW => lists_wakeSection x n hW

/-- What is left of the dispatch behind a section of the worker. -/
theorem serves_settle {op : Op} {out : Outcome} (ht : c.tasks t)
    (hx : ∀ x v, out = .wake x v → c.tasks x) (hblock : out = .block → op.waitList = none) :
    (s.settle u op (.serve t) out).Serves L u c W := by
  cases out with
  | ret v => exact serves_finish ht
  | block =>
    refine ⟨_, .back ?_, .refl c _, fun hW => hW⟩
    rw [Sys.settle, hblock rfl]
    exact pc_setPc _ _ _
  | wake x v => exact serves_wake (pc_setPc _ _ _) ht (hx x v rfl)
  | pend v => exact serves_pend (pc_setPc _ _ _) ht

theorem serves_publish {p : Nat} {type : KobjType} (hpc : s.pc u = .publish p type (.serve t))
    (ht : c.tasks t) (hslot : ∀ i,
      (List.range kobjMax).find? (fun i => !(s.k.table i).inUse) = some i → c.slots i) :
    s.Serves L u c W := by
  have hgo : s.go L u = some ({ s with k := (kObjAlloc s.k p type).1 }.finish u (.serve t)
      (kObjAlloc s.k p type).2) := by
    simp only [Sys.go, hpc]
  exact (serves_finish ht).step (by simp [hpc]) hgo (within_kObjAlloc hslot) fun hW =>
    lists_kObjAlloc p type hW

theorem serves_queueFree {p : Nat} (live : List Nat) (hL : L.heap.Placed)
    (hpc : s.pc u = .queueFree p (.serve t)) (ht : c.tasks t) (hc : c.heap)
    (hheap : HeapOwns L s.k.heap live) (hp : p ∈ live) : s.Serves L u c W := by
  obtain ⟨heap, hfree⟩ := hheap.free_some hL hp
  have hgo : s.go L u =
      some ({ s with k := { s.k with heap := heap } }.finish u (.serve t) kobjInvalid) := by
    simp only [Sys.go, hpc, queueFree, hfree, Option.map_some]
  exact (serves_finish ht).step (by simp [hpc]) hgo (within_heap heap hc) fun hW =>
    lists_of_fields (k := s.k) rfl rfl rfl rfl hW

theorem serves_queueBuffer {p : Nat} (live : List Nat) (hL : L.heap.Placed)
    (hpc : s.pc u = .queueBuffer p (.serve t)) (ht : c.tasks t) (hc : c.heap)
    (hq : c.objects (p, .queue)) (hslot : ∀ i,
      (List.range kobjMax).find? (fun i => !(s.k.table i).inUse) = some i → c.slots i)
    (hheap : HeapOwns L s.k.heap live) (hp : p ∈ live) : s.Serves L u c W := by
  have hgo : s.go L u = (queueInitBuffer L s.k p).map fun r =>
      { s with k := r.1 }.setPc u (if r.2 then .publish p .queue (.serve t)
        else .queueFree p (.serve t)) := by
    simp only [Sys.go, hpc]
  rw [queueInitBuffer] at hgo
  split at hgo
  · exact (serves_queueFree live hL (pc_setPc _ _ _) ht hc hheap hp).step (by simp [hpc]) hgo
      (.refl c _) id
  · obtain ⟨heap, buffer, hmalloc⟩ := hheap.malloc_some hL
      (wrap ((s.k.queue p).itemSize * (s.k.queue p).slots))
    simp only [hmalloc, Option.map_some] at hgo
    have hwithin : s.k.Within c ({ s.k with heap := heap }.setQueue p
        { s.k.queue p with buffer := buffer }) :=
      (within_heap heap hc).trans (within_setQueue hq fun _ _ => rfl)
    have hlists : Lists s.k W → Lists ({ s.k with heap := heap }.setQueue p
        { s.k.queue p with buffer := buffer }) W := fun hW =>
      lists_setQueue rfl rfl (lists_of_fields (k := s.k) rfl rfl rfl rfl hW)
    by_cases hnull : buffer = 0
    · subst hnull
      have hown := hheap.malloc hL hmalloc
      rw [if_pos rfl] at hown
      refine .step ?_ (by simp [hpc]) hgo hwithin hlists
      exact serves_queueFree live hL (pc_setPc _ _ _) ht hc hown hp
    · have hok : (buffer != 0) = true := by simp [hnull]
      rw [hok, if_pos rfl] at hgo
      refine .step ?_ (by simp [hpc]) hgo hwithin hlists
      exact serves_publish (pc_setPc _ _ _) ht hslot

/-- A creation takes memory that nobody has, and waits on no list. -/
theorem serves_create {cr : Creation} {p : Nat} (live : List Nat) (hL : L.heap.Placed)
    (hpc : s.pc u = .create cr (.serve t)) (halloc : cr.alloc L s.k = some (k, p))
    (ht : c.tasks t) (hc : c.heap) (hobject : p ≠ 0 → c.objects (p, cr.type)) (hslot : ∀ i,
      (List.range kobjMax).find? (fun i => !(s.k.table i).inUse) = some i → c.slots i)
    (hheap : HeapOwns L s.k.heap live) (hempty : p ≠ 0 → ∀ w, w.addr = p → W w = []) :
    s.Serves L u c W := by
  have hgo : s.go L u = s.create L u cr (.serve t) := by
    simp only [Sys.go, hpc]
  rw [Sys.create, halloc, Option.map_some] at hgo
  have hkeep : ∀ heap, Lists s.k W → Lists { s.k with heap := heap } W := fun heap hW =>
    lists_of_fields (k := s.k) rfl rfl rfl rfl hW
  by_cases hnull : p = 0
  · subst hnull
    refine .step ?_ (by simp [hpc]) hgo ?_ ?_
    · exact serves_finish ht
    · rcases alloc_cases halloc with ⟨_, rfl⟩ | ⟨heap, _, _, rfl⟩
      · exact .refl c _
      · exact within_heap heap hc
    · rcases alloc_cases halloc with ⟨_, rfl⟩ | ⟨heap, _, _, rfl⟩
      · exact id
      · exact hkeep heap
  · rcases alloc_cases halloc with ⟨hzero, _⟩ | ⟨heap, hmalloc, _, hk⟩
    · exact absurd hzero hnull
    rw [if_neg hnull] at hk
    simp only [if_neg hnull] at hgo
    have hwithin : s.k.Within c k := by
      rw [hk]
      exact (within_heap heap hc).trans (within_init (hobject hnull))
    have hlists : Lists s.k W → Lists k W := fun hW => by
      rw [hk]
      exact lists_init cr (hkeep heap hW) (hempty hnull)
    have htable : k.table = s.k.table := by
      rw [hk]
      cases cr <;> rfl
    rw [← htable] at hslot
    cases cr with
    | sem initial =>
      refine .step ?_ (by simp [hpc]) hgo hwithin hlists
      exact serves_publish (pc_setPc _ _ _) ht hslot
    | mutex =>
      refine .step ?_ (by simp [hpc]) hgo hwithin hlists
      exact serves_publish (pc_setPc _ _ _) ht hslot
    | queue itemSize size =>
      refine .step ?_ (by simp [hpc]) hgo hwithin hlists
      have hown := hheap.malloc hL hmalloc
      rw [if_neg hnull] at hown
      refine serves_queueBuffer (p :: live) hL (pc_setPc _ _ _) ht hc (hobject hnull)
        hslot ?_ List.mem_cons_self
      have hsame : k.heap = heap := by rw [hk]; rfl
      rw [← hsame] at hown
      exact hown

end Steps

section Calls
variable {k : Kernel} {op : Op} {u t : Tid} {W : WaitMap}

theorem handsOff_head {w : WaitList} {x : Tid} (h : op.handsOff k u = some (w, x)) :
    k.head w = some x ∧ op.object = some (w.addr, w.kind) := by
  have hmap : ∀ w', (k.head w').map (Prod.mk w') = some (w, x) → w' = w ∧ k.head w = some x := by
    intro w' hw'
    obtain ⟨y, hy, heq⟩ := Option.map_eq_some_iff.mp hw'
    obtain ⟨rfl, rfl⟩ := Prod.mk.inj heq
    exact ⟨rfl, hy⟩
  have hite : ∀ (c : Prop) [Decidable c] w', (if c then (k.head w').map (Prod.mk w') else none) =
      some (w, x) → w' = w ∧ k.head w = some x := by
    intro c _ w' hw'
    split at hw'
    · exact hmap w' hw'
    · cases hw'
  cases op with
  | semGive s =>
    obtain ⟨rfl, hx⟩ := hmap _ h
    exact ⟨hx, rfl⟩
  | mutexUnlock m =>
    obtain ⟨rfl, hx⟩ := hite _ _ h
    exact ⟨hx, rfl⟩
  | mutexUnlockFor m owner =>
    obtain ⟨rfl, hx⟩ := hite _ _ h
    exact ⟨hx, rfl⟩
  | queuePush q item ms =>
    obtain ⟨rfl, hx⟩ := hite _ _ h
    exact ⟨hx, rfl⟩
  | queuePop q item ms =>
    obtain ⟨rfl, hx⟩ := hite _ _ h
    exact ⟨hx, rfl⟩
  | _ => cases h

theorem wakeFirst_wakes {k' : Kernel} {w : WaitList} {x : Tid} {v : Nat}
    (h : (wakeFirst k' w).2 = .wake x v) : k'.head w = some x := by
  rw [wakeFirst] at h
  split at h
  · rename_i y hy
    rw [hy, (Outcome.wake.inj h).1]
  · cases h

theorem wakeFirst_ne_block (k : Kernel) (w : WaitList) : (wakeFirst k w).2 ≠ .block := by
  rw [wakeFirst]
  split <;> simp

/-- A section of the worker wakes the task that it takes off a list. -/
theorem enter_wakes {x : Tid} {v : Nat} (hfits : op.fits (.serve t))
    (hout : (op.enter k u).2 = .wake x v) : ∃ w, op.handsOff k u = some (w, x) := by
  cases op with
  | semTake s ms => cases hfits
  | mutexLock m ms => cases hfits
  | mutexUnlock m => cases hfits
  | delay ticks => cases hfits
  | semGive s =>
    simp only [Op.enter, zImplSemGive] at hout
    split at hout
    · rename_i y hy
      obtain rfl := (Outcome.wake.inj hout).1
      refine ⟨.sem s, ?_⟩
      rw [Op.handsOff, show k.head (.sem s) = some y from hy]
      rfl
    · cases hout
  | semTryTake s caller ms =>
    simp only [Op.enter, zImplSemTryTakeTimeout, takeSection] at hout
    split at hout
    · cases hout
    · split at hout <;> cases hout
  | mutexTryLock m caller ms =>
    simp only [Op.enter, zImplMutexTryLockTimeout, lockSection] at hout
    split at hout
    · cases hout
    · split at hout
      · cases hout
      · split at hout <;> cases hout
  | mutexUnlockFor m owner =>
    simp only [Op.enter, zImplMutexUnlockFor, unlockSection] at hout
    split at hout
    · cases hout
    · rename_i hown
      split at hout
      · rename_i y hy
        obtain rfl := (Outcome.wake.inj hout).1
        refine ⟨.mutex m, ?_⟩
        rw [Op.handsOff, if_pos (not_not.mp hown), show k.head (.mutex m) = some y from hy]
        rfl
      · cases hout
  | queuePush q item ms =>
    obtain rfl : ms = 0 := hfits
    simp only [Op.enter, zImplQueuePush] at hout
    split at hout
    · rename_i hroom
      have hhead := wakeFirst_wakes hout
      simp only [Kernel.head, Kernel.setQueue, Function.update_self] at hhead
      refine ⟨.recv q, ?_⟩
      rw [Op.handsOff, if_pos hroom, Kernel.head, hhead]
      rfl
    · cases hout
  | queuePop q item ms =>
    obtain rfl : ms = 0 := hfits
    simp only [Op.enter, zImplQueuePop] at hout
    split at hout
    · rename_i hitem
      have hhead := wakeFirst_wakes hout
      simp only [Kernel.head, Kernel.setQueue, Function.update_self] at hhead
      refine ⟨.send q, ?_⟩
      rw [Op.handsOff, if_pos hitem, Kernel.head, hhead]
      rfl
    · cases hout

/-- When it blocks the caller the dispatch is over. -/
theorem enter_blocks (hfits : op.fits (.serve t)) (hout : (op.enter k u).2 = .block) :
    op.waitList = none := by
  cases op with
  | semTake s ms => cases hfits
  | mutexLock m ms => cases hfits
  | queuePush q item ms =>
    obtain rfl : ms = 0 := hfits
    simp only [Op.enter, zImplQueuePush] at hout
    split at hout
    · exact absurd hout (wakeFirst_ne_block _ _)
    · cases hout
  | queuePop q item ms =>
    obtain rfl : ms = 0 := hfits
    simp only [Op.enter, zImplQueuePop] at hout
    split at hout
    · exact absurd hout (wakeFirst_ne_block _ _)
    · cases hout
  | _ => rfl

/-- The worker blocks its caller at most. -/
theorem enter_unlisted (hfits : op.fits (.serve t)) (htu : u ≠ t) (h : Lists k W) (hd : Apart W)
    (ht : ∀ w, t ∉ W w) (hu : ∀ w, u ∉ W w) :
    ∃ W', Lists (op.enter k u).1 W' ∧ ∀ w, u ∉ W' w := by
  have hblocker : op.blocker u = t ∨ op.blocker u = u := by
    cases op with
    | semTryTake s caller ms => exact Or.inl hfits
    | mutexTryLock m caller ms => exact Or.inl hfits
    | _ => exact Or.inr rfl
  have hoff : ∀ w, op.blocker u ∉ W w := by
    rcases hblocker with hb | hb <;> rw [hb] <;> assumption
  obtain ⟨W', heff⟩ := enter_effect op h hd hoff
  generalize op.note k (op.enter k u).1 u (op.enter k u).2 = notes at heff
  generalize (op.enter k u).1 = k' at heff ⊢
  generalize (op.enter k u).2 = out at heff
  have hupdate : ∀ w (l : List Tid), u ∉ l → ∀ w', u ∉ Function.update W w l w' := by
    intro w l hl w'
    by_cases hw : w' = w
    · subst hw
      rw [Function.update_self]
      exact hl
    · rw [Function.update_of_ne hw]
      exact hu w'
  cases heff with
  | ret _ hlists _ => exact ⟨W, hlists, hu⟩
  | pend _ hlists _ => exact ⟨W, hlists, hu⟩
  | sleep _ _ hlists _ => exact ⟨W, hlists, hu⟩
  | block hop hms _ hlists hmem _ =>
    refine ⟨_, hlists, hupdate _ _ fun hin => ?_⟩
    rcases (hmem u).mp hin with hself | hin
    · rcases hblocker with hb | hb
      · exact htu (hself.trans hb)
      · cases op with
        | semTryTake s caller ms => exact htu (hself.trans hfits)
        | mutexTryLock m caller ms => exact htu (hself.trans hfits)
        | queuePush q item ms => exact hms hfits
        | queuePop q item ms => exact hms hfits
        | semGive s => cases hop
        | mutexUnlockFor m owner => cases hop
        | _ => cases hfits
    · exact hu _ hin
  | @wake k' notes w x r v hop hw htasks hlists hnotes =>
    refine ⟨_, hlists, hupdate w r fun hin => hu w ?_⟩
    rw [hw]
    exact List.mem_cons_of_mem x hin

end Calls

/-- One dispatch of `item` by `u` takes `k` to `k'` and stays in its bounds. -/
structure Confined (k : Kernel) (u : Tid) (item : WorkItem) (k' : Kernel) : Prop where
  scope : ∃ other fresh, k.Within (item.scope k other fresh) k' ∧
    (∀ x, other = some x → item.FirstWaiter k x) ∧
    ∀ p, fresh = some p → ∀ i, i < kobjMax → (k.table i).inUse = true → (k.table i).ptr ≠ p
  worker : k'.tcb u = k.tcb u
  unlisted : ∃ W, Lists k' W ∧ ∀ w, u ∉ W w
  refused : item.Refused k → k' = schedulerWakeTask k item.caller minusOne

section Dispatch
variable {L : Layout} {s : Sys} {g : Ghost} {u : Tid} {item : WorkItem}

theorem dispatch_setPc (p : Pc) : (s.setPc u p).dispatch u item = s.dispatch u item := by
  rw [Sys.dispatch, Sys.dispatch]
  cases hdec : decode s.k item <;>
    simp [Sys.setPc, Sys.note, hdec, Function.update_idem]

theorem dispatched_step {s' : Sys} (h : Dispatched L u (s.dispatch u item) s') :
    Dispatched L u (s.setPc u (.dispatch item)) s' := by
  refine .step (by simp [pc_setPc]) ?_ h
  simp only [Sys.go, pc_setPc, dispatch_setPc]

/-- The worker and its caller are on no list. -/
structure Idle (s : Sys) (g : Ghost) (u t : Tid) : Prop where
  ne : u ≠ t
  worker : ∀ w, u ∉ g.lists w
  caller : ∀ w, t ∉ g.lists w

theorem Inv.idle {item₀ : WorkItem} (h : Inv L s g) (hpc : s.pc u = .dispatch item₀) :
    Idle s g u item₀.caller := by
  have hserved := (h.placed.serves_iff u item₀.caller).mp (by rw [hpc]; rfl)
  have hworker : u = g.worker := by
    have hfits := h.coded.pcs u
    rw [hpc] at hfits
    exact hfits
  have hown := h.worker_own
  rw [← hworker] at hown
  refine ⟨?_, h.placed.notMem fun w => ?_, h.placed.notMem fun w => ?_⟩
  · intro heq
    rw [← heq, hown] at hserved
    cases hserved
  · rw [hown]
    simp
  · rw [hserved]
    simp

/-- An item that is not refused, with the worker untouched because it is neither the
caller nor a waiter. -/
theorem confined_of {k' : Kernel} (other : Option Tid) (fresh : Option Nat) (h : Inv L s g)
    (hidle : Idle s g u item.caller) (hok : ¬ item.Refused s.k)
    (hk : s.k.Within (item.scope s.k other fresh) k')
    (hother : ∀ x, other = some x → item.FirstWaiter s.k x)
    (hfresh : ∀ p, fresh = some p → p ∉ g.live)
    (hlists : ∃ W, Lists k' W ∧ ∀ w, u ∉ W w) : Confined s.k u item k' := by
  refine ⟨⟨other, fresh, hk, hother, fun p hp i hi huse hptr => ?_⟩, hk.tcb u ?_, hlists,
    fun hrefused => absurd hrefused hok⟩
  · exact hfresh p hp (hptr ▸ h.objects.known _ _ (h.objects.table i hi huse))
  · rintro (rfl | hx)
    · exact hidle.ne rfl
    · obtain ⟨w, _, hhead⟩ := hother u hx
      obtain ⟨r, hr⟩ := head_eq_some h.placed.lists hhead
      exact hidle.worker w (hr ▸ List.mem_cons_self)

theorem confined_complete (h : Inv L s g) (hidle : Idle s g u item.caller) (v : Nat)
    (hv : item.Refused s.k → v = minusOne) :
    Confined s.k u item (schedulerWakeTask s.k item.caller v) := by
  refine ⟨⟨none, none, within_wakeTask v (Or.inl rfl), by simp, by simp⟩, ?_,
    ⟨g.lists, lists_wakeTask _ _ h.placed.lists, hidle.worker⟩, fun hrefused => ?_⟩
  · exact (within_wakeTask (c := item.scope s.k none none) v (Or.inl rfl)).tcb u (by
      simpa [WorkItem.scope] using hidle.ne)
  · rw [hv hrefused]

theorem confined_sleep (h : Inv L s g) (hidle : Idle s g u item.caller)
    (hok : ¬ item.Refused s.k) (ticks : Nat) :
    Confined s.k u item (delaySection s.k item.caller ticks) := by
  refine confined_of none none h hidle hok ?_ (by simp) (by simp)
    ⟨g.lists, ?_, hidle.worker⟩
  · rw [delaySection, schedulerSleep]
    exact (within_setTcb _ (Or.inl rfl)).trans (within_setTcb _ (Or.inl rfl))
  · have hanswer : Lists (s.k.setTcb item.caller fun tcb =>
        { tcb with savedR0 := 0, svcBlocked := false }) g.lists := lists_setTcb rfl h.placed.lists
    exact lists_schedulerSleep item.caller ticks hanswer

/-- A call on the object of the item. -/
theorem confined_call {op : Op} {o : Nat × KobjType} (h : Inv L s g)
    (hidle : Idle s g u item.caller) (hok : ¬ item.Refused s.k)
    (hdec : decode s.k item = .call op) (hitem : item.object s.k = some o)
    (hop : op.object = some o) (hfits : op.fits (.serve item.caller))
    (hpop : ∀ q dst ms, op = .queuePop q dst ms → item.id = syscallQueueRecv ∧ dst = item.arg1) :
    ∃ s', Dispatched L u (s.dispatch u item) s' ∧ Confined s.k u item s'.k := by
  have hdispatch : s.dispatch u item = s.setPc u (.enter op (.serve item.caller)) := by
    rw [Sys.dispatch, hdec]
  have hgo : (s.dispatch u item).go L u = some (s.runOp u op (.serve item.caller)) := by
    rw [hdispatch]
    simp only [Sys.go, pc_setPc, runOp_setPc]
  obtain ⟨W', hlists, hoff⟩ :=
    enter_unlisted hfits hidle.ne h.placed.lists h.placed.apart hidle.caller hidle.worker
  have hqueue : ∀ q, o = (q, .queue) → (s.k.queue q).Shaped := by
    rintro q rfl
    obtain ⟨_, handle, a, type, hget, hobject⟩ := decode_call hdec
    obtain ⟨rfl, rfl⟩ := Prod.mk.inj (Option.some.inj (hop.symm.trans hobject))
    exact h.objects.shaped _ (h.objects.get hget)
  have hwithin : s.k.Within (item.scope s.k ((op.handsOff s.k u).map Prod.snd) none)
      (op.enter s.k u).1 := by
    refine within_enter hfits hop (Or.inl hitem) (Or.inl rfl) (fun w x hx => Or.inr ?_) ?_ ?_
    · rw [hx]
      rfl
    · rintro q buf ms i rfl _ hi
      obtain rfl := Option.some.inj hop
      have hq := hqueue q rfl
      refine ⟨hitem, ?_⟩
      rw [hq.offset_eq hq.tail] at hi
      exact hi.trans_le (slot_end hq.tail)
    · rintro q dst ms x rfl hlo hhi
      obtain rfl := Option.some.inj hop
      obtain ⟨hid, rfl⟩ := hpop q dst ms rfl
      exact ⟨hid, q, hitem, hlo, hhi⟩
  rw [runOp_eq] at hgo
  obtain ⟨s', hrun, hk, hl⟩ : Sys.Serves L ((({ s with k := (op.enter s.k u).1 } : Sys).note
      (op.note s.k (op.enter s.k u).1 u (op.enter s.k u).2)).settle u op (.serve item.caller)
      (op.enter s.k u).2) u (item.scope s.k ((op.handsOff s.k u).map Prod.snd) none) W' := by
    refine serves_settle (Or.inl rfl) (fun x v hout => Or.inr ?_) (enter_blocks hfits)
    obtain ⟨w, hw⟩ := enter_wakes hfits hout
    rw [hw]
    rfl
  have hsettled : ((({ s with k := (op.enter s.k u).1 } : Sys).note
      (op.note s.k (op.enter s.k u).1 u (op.enter s.k u).2)).settle u op (.serve item.caller)
      (op.enter s.k u).2).k = (op.enter s.k u).1 := settle_k _ _ _ _ _
  rw [hsettled] at hk hl
  refine ⟨s', .step (by simp [hdispatch, pc_setPc]) hgo hrun,
    confined_of _ _ h hidle hok (hwithin.trans hk) (fun x hx => ?_) (by simp) ⟨W', hl hlists, hoff⟩⟩
  obtain ⟨⟨w, y⟩, hw, rfl⟩ := Option.map_eq_some_iff.mp hx
  obtain ⟨hhead, hobject⟩ := handsOff_head hw
  exact ⟨w, hitem.trans (hop.symm.trans hobject), hhead⟩

/-- A creation. -/
theorem confined_create {cr : Creation} (hL : L.heap.Placed) (h : Inv L s g)
    (hidle : Idle s g u item.caller) (hok : ¬ item.Refused s.k)
    (hdec : decode s.k item = .create cr) (htype : item.creates = some cr.type) :
    ∃ s', Dispatched L u (s.dispatch u item) s' ∧ Confined s.k u item s'.k := by
  have hdispatch : s.dispatch u item = s.setPc u (.create cr (.serve item.caller)) := by
    rw [Sys.dispatch, hdec]
  obtain ⟨k, p, halloc⟩ : ∃ k p, cr.alloc L s.k = some (k, p) := by
    rw [Creation.alloc]
    split
    · exact ⟨_, _, rfl⟩
    · obtain ⟨heap, p, hmalloc⟩ := h.objects.heap.malloc_some hL cr.bytes
      rw [hmalloc]
      exact ⟨_, _, rfl⟩
  have hnew : p ≠ 0 → p ∉ g.live := by
    intro hp
    rcases alloc_cases halloc with ⟨hzero, _⟩ | ⟨heap, hmalloc, _⟩
    · exact absurd hzero hp
    · exact h.objects.heap.fresh hL hmalloc hp
  have hcreates : item.creates.isSome = true := by rw [htype]; rfl
  rw [hdispatch]
  obtain ⟨s', hrun, hk, hl⟩ : Sys.Serves L (s.setPc u (.create cr (.serve item.caller))) u
      (item.scope s.k none (if p = 0 then none else some p)) g.lists := by
    refine serves_create g.live hL (pc_setPc _ _ _) halloc (Or.inl rfl) hcreates
      (fun hp => Or.inr ?_)
      (fun i hi => ⟨hcreates, hi⟩) h.objects.heap fun hp w hw => ?_
    · exact ⟨if_neg hp, htype⟩
    · by_contra hne
      exact hnew hp (hw ▸ h.objects.known _ _ (h.objects.lists w hne))
  refine ⟨s', hrun, confined_of _ _ h hidle hok hk (by simp) (fun q hq => ?_)
    ⟨g.lists, hl h.placed.lists, hidle.worker⟩⟩
  split at hq
  · cases hq
  · obtain rfl := Option.some.inj hq
    exact hnew ‹_›

end Dispatch

/-- One dispatch of an arbitrary item of the caller comes to its end and changes the
caller, the object of the handle and its first waiter; a creation changes the heap and one
slot. A refused item only answers the caller. -/
theorem dispatch_confined {L : Layout} {s : Sys} {u : Tid} {item₀ : WorkItem}
    (hL : L.heap.Placed) (h : s.Reached L) (hpc : s.pc u = .dispatch item₀) (item : WorkItem)
    (hcaller : item.caller = item₀.caller) :
    ∃ s', Dispatched L u (s.setPc u (.dispatch item)) s' ∧ Confined s.k u item s'.k := by
  obtain ⟨g, hg⟩ := h.inv hL
  have hidle := hg.idle hpc
  rw [← hcaller] at hidle
  have hdispatch : ∃ s', Dispatched L u (s.dispatch u item) s' ∧ Confined s.k u item s'.k := by
    have hdecoded := decoded s.k item
    generalize hdec : decode s.k item = work at hdecoded
    cases hdecoded with
    | refused hrefused =>
      have hstart : s.dispatch u item = s.setPc u (.wake item.caller minusOne .loop) := by
        rw [Sys.dispatch, hdec]
      obtain ⟨s', hrun, hk⟩ :=
        dispatched_wake (L := L) (pc_setPc s u (.wake item.caller minusOne .loop))
      refine ⟨s', hstart ▸ hrun, ?_⟩
      rw [hk]
      exact confined_complete hg hidle minusOne fun _ => rfl
    | uart hok text =>
      have hstart : s.dispatch u item = s.setPc u (.wake item.caller 0 .loop) := by
        rw [Sys.dispatch, hdec]
      obtain ⟨s', hrun, hk⟩ := dispatched_wake (L := L) (pc_setPc s u (.wake item.caller 0 .loop))
      refine ⟨s', hstart ▸ hrun, ?_⟩
      rw [hk]
      exact confined_complete hg hidle 0 fun hrefused => absurd hrefused hok
    | sleep hok ticks =>
      refine ⟨s.dispatch u item, .back ?_, ?_⟩
      · rw [Sys.dispatch, hdec]
        exact pc_setPc _ _ _
      · rw [Sys.dispatch, hdec]
        exact confined_sleep hg hidle hok ticks
    | call hok hitem hop hfits hpop => exact confined_call hg hidle hok hdec hitem hop hfits hpop
    | create hok htype => exact confined_create hL hg hidle hok hdec htype
  obtain ⟨s', hrun, hconfined⟩ := hdispatch
  exact ⟨s', dispatched_step hrun, hconfined⟩

/-- Task 1 gives to the semaphore it has created. -/
theorem dispatch_confined_board : ∃ s s' : Sys, s.Reached boardLayout ∧
    WorkItem.object s.k ⟨syscallSemPost, 0x10000, 0, 0, 0, 1⟩ = some (0x20006428, .sem) ∧
    Dispatched boardLayout 0
      (s.setPc 0 (.dispatch ⟨syscallSemPost, 0x10000, 0, 0, 0, 1⟩)) s' ∧
    Confined s.k 0 ⟨syscallSemPost, 0x10000, 0, 0, 0, 1⟩ s'.k := by
  obtain ⟨s, hs, hpc, hobject⟩ := boardRun_at
    (boardReady ++ [.call (.create (.sem 0)), .go, .go, .call .setUnprivileged,
      .svc syscallSemPost 0x10000 0 0 0, .pendSV 0x2001F000, .go])
    (P := fun s => s.pc 0 = .dispatch ⟨syscallSemPost, 0x10000, 0, 0, 0, 1⟩ ∧
      WorkItem.object s.k ⟨syscallSemPost, 0x10000, 0, 0, 0, 1⟩ = some (0x20006428, .sem))
    (by decide +kernel)
  obtain ⟨s', hrun, hconfined⟩ := dispatch_confined boardLayout_placed hs hpc _ rfl
  exact ⟨s, s', hs, hobject, hrun, hconfined⟩

end Crest
