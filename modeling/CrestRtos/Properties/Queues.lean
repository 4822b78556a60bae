import CrestRtos.System.Deeds
import CrestRtos.Library.RingBuffer

/-!
# Queues are bounded FIFOs

`fifo` is the list of items that have been pushed and not popped, read off the
log. The bytes between `head` and `tail` are always this list, a pop delivers its
first item, and a call finds the queue full or empty exactly when the list is.
-/

namespace Crest
open ByteMemory MachineWord RingBuffer

def Fifo.next (q : Nat) (e : Event) (l : List (List UInt8)) : List (List UInt8) :=
  match e with
  | .queueCreated a => if a = q then [] else l
  | .pushed a item => if a = q then l ++ [item] else l
  | .popped a _ => if a = q then l.tail else l
  | _ => l

/-- The items of the queue at `q`, oldest first, as the log has them. -/
def fifo (log : List Event) (q : Nat) : List (List UInt8) := log.foldr (Fifo.next q) []

/-- Every pop delivers the oldest item. -/
def InOrder (q : Nat) : List Event → Prop
  | [] => True
  | .popped a item :: log => (a = q → ∃ rest, fifo log q = item :: rest) ∧ InOrder q log
  | _ :: log => InOrder q log

def Queue.cell (q : Queue) (i : Nat) : List UInt8 := bytesAt q.bytes (q.offset i) q.itemSize

/-- The bytes between `head` and `tail`, item by item. -/
def Queue.items (q : Queue) : List (List UInt8) := contents q.cell q.slots q.head q.tail

section Shape
variable {q : Queue} {i : Nat}

theorem Queue.Shaped.slots_lt (h : q.Shaped) : q.slots < 2 ^ 32 := by
  have hfits := h.fits
  have hitem := h.item
  have hle : 1 * q.slots ≤ q.itemSize * q.slots := Nat.mul_le_mul_right _ hitem
  omega

/-- The end of a slot is inside the buffer, and inside 32 bits. -/
theorem slot_end (hi : i < q.slots) :
    i * q.itemSize + q.itemSize ≤ q.itemSize * q.slots := by
  have hle : (i + 1) * q.itemSize ≤ q.slots * q.itemSize := Nat.mul_le_mul_right _ hi
  rw [Nat.succ_mul, Nat.mul_comm q.slots] at hle
  exact hle

theorem Queue.Shaped.offset_eq (h : q.Shaped) (hi : i < q.slots) :
    q.offset i = i * q.itemSize := by
  have hend := slot_end hi
  have hfits := h.fits
  have hitem := h.item
  exact wrap_of_lt (by omega)

theorem Queue.Shaped.nextIndex_eq (h : q.Shaped) (hi : i < q.slots) :
    q.nextIndex i = (i + 1) % q.slots := by
  have hlt := h.slots_lt
  rw [Queue.nextIndex, wrap_of_lt (by omega)]

/-- Two slots do not overlap. -/
theorem Queue.Shaped.apart {j : Nat} (h : q.Shaped) (hi : i < q.slots) (hj : j < q.slots)
    (hij : i ≠ j) :
    q.offset i + q.itemSize ≤ q.offset j ∨ q.offset j + q.itemSize ≤ q.offset i := by
  rw [h.offset_eq hi, h.offset_eq hj]
  rcases Nat.lt_or_gt_of_ne hij with hlt | hlt
  · have hle : (i + 1) * q.itemSize ≤ j * q.itemSize := Nat.mul_le_mul_right _ hlt
    rw [Nat.succ_mul] at hle
    exact Or.inl hle
  · have hle : (j + 1) * q.itemSize ≤ i * q.itemSize := Nat.mul_le_mul_right _ hlt
    rw [Nat.succ_mul] at hle
    exact Or.inr hle

theorem items_of_core {q' : Queue} (h : q'.core = q.core) : q'.items = q.items := by
  have hbytes : q'.bytes = q.bytes := (congrArg Queue.bytes h :)
  have hitem : q'.itemSize = q.itemSize := (congrArg Queue.itemSize h :)
  have hslots : q'.slots = q.slots := (congrArg Queue.slots h :)
  have hhead : q'.head = q.head := (congrArg Queue.head h :)
  have htail : q'.tail = q.tail := (congrArg Queue.tail h :)
  have hcell : q'.cell = q.cell := by
    funext i
    rw [Queue.cell, Queue.offset, hbytes, hitem]
    rfl
  rw [Queue.items, hcell, hslots, hhead, htail]
  rfl

/-- A copy into the slot at the tail, and the tail moved on, append one item. -/
theorem items_push (h : q.Shaped) (hroom : q.nextIndex q.tail ≠ q.head) (ram : Memory)
    (item : Nat) :
    Queue.items { q with
      bytes := copyBytes q.bytes (q.offset q.tail) ram item q.itemSize
      tail := q.nextIndex q.tail } = q.items ++ [bytesAt ram item q.itemSize] := by
  have hnext := h.nextIndex_eq h.tail
  rw [hnext] at hroom
  have hcell : ∀ i, i < q.slots → i ≠ q.tail →
      bytesAt (copyBytes q.bytes (q.offset q.tail) ram item q.itemSize) (q.offset i) q.itemSize =
        q.cell i := by
    intro i hi hne
    refine bytesAt_copyBytes_of_disjoint _ _ ?_
    exact h.apart hi h.tail hne
  have hpush := contents_push (fun i =>
    bytesAt (copyBytes q.bytes (q.offset q.tail) ram item q.itemSize) (q.offset i) q.itemSize)
    h.head h.tail hroom hcell
  rw [bytesAt_copyBytes_same] at hpush
  rw [Queue.items, hnext]
  exact hpush

theorem items_pop (h : q.Shaped) (hitem : q.head ≠ q.tail) :
    q.items = q.cell q.head :: Queue.items { q with head := q.nextIndex q.head } := by
  rw [Queue.items, contents_pop h.head h.tail hitem, Queue.items, h.nextIndex_eq h.head]
  rfl

theorem items_nil_iff (h : q.Shaped) : q.items = [] ↔ q.head = q.tail :=
  contents_eq_nil_iff h.head h.tail

theorem items_full_iff (h : q.Shaped) :
    q.nextIndex q.tail = q.head ↔ q.items.length = q.slots - 1 := by
  rw [h.nextIndex_eq h.tail, full_iff h.head h.tail, Queue.items, length_contents]

end Shape

/-- The log of the queue at `q` and its record agree. -/
structure Buffered (k : Kernel) (log : List Event) (q : Nat) : Prop where
  items : (k.queue q).items = fifo log q
  history : InOrder q log

section Buffered
variable {k k' : Kernel} {W : WaitMap} {u : Tid} {op : Op} {q : Nat} {log n : List Event}

@[simp] theorem fifo_cons (e : Event) (log : List Event) (q : Nat) :
    fifo (e :: log) q = Fifo.next q e (fifo log q) := rfl

theorem fifo_skip (hn : ∀ e ∈ n, e.object ≠ some (q, .queue)) : fifo (n ++ log) q = fifo log q := by
  refine foldr_skip ?_ hn
  intro e y he
  cases e with
  | queueCreated a => exact if_neg fun heq => he (by rw [heq]; rfl)
  | pushed a item => exact if_neg fun heq => he (by rw [heq]; rfl)
  | popped a item => exact if_neg fun heq => he (by rw [heq]; rfl)
  | _ => rfl

theorem inOrder_skip (hn : ∀ e ∈ n, e.object ≠ some (q, .queue)) (h : InOrder q log) :
    InOrder q (n ++ log) := by
  induction n with
  | nil => exact h
  | cons e n ih =>
    have hrest := ih fun x hx => hn x (List.mem_cons_of_mem e hx)
    have he := hn e List.mem_cons_self
    cases e with
    | popped a item => exact ⟨fun heq => absurd (by rw [heq]; rfl) he, hrest⟩
    | _ => exact hrest

theorem Buffered.other (h : Buffered k log q) (hcore : (k'.queue q).core = (k.queue q).core)
    (hn : ∀ e ∈ n, e.object ≠ some (q, .queue)) : Buffered k' (n ++ log) q :=
  ⟨by rw [items_of_core hcore, fifo_skip hn]; exact h.items, inOrder_skip hn h.history⟩

theorem wakeFirst_outcome (k : Kernel) (w : WaitList) :
    (wakeFirst k w).2 = .ret 0 ∨ ∃ x, (wakeFirst k w).2 = .wake x 0 := by
  rw [wakeFirst]
  cases k.head w with
  | none => exact Or.inl rfl
  | some x => exact Or.inr ⟨x, rfl⟩

/-- The contents of a queue that a section leaves as `v`. -/
theorem items_of_store {v : Queue} (h : k'.store.queue q = v) : (k'.queue q).items = v.items := by
  have hcore : (k'.queue q).core = v.core := by
    rw [← h]
    rfl
  exact items_of_core hcore

/-- A push appends the item that its note names, or finds the queue full. -/
theorem Buffered.push {item ms : Nat} (h : Buffered k log q) (hq : (k.queue q).Shaped) :
    Buffered (zImplQueuePush k q u item ms).1
      (pushNote k q u item ms (zImplQueuePush k q u item ms).2 ++ log) q := by
  have hstore := congrFun (congrArg Store.queue (push_store k u ms q item)) q
  by_cases hroom : (k.queue q).nextIndex (k.queue q).tail ≠ (k.queue q).head
  · rw [if_pos hroom] at hstore
    have hitems : ((zImplQueuePush k q u item ms).1.queue q).items =
        fifo log q ++ [bytesAt k.ram item (k.queue q).itemSize] := by
      rw [items_of_store (hstore.trans (Function.update_self q _ k.store.queue)), ← h.items]
      exact items_push hq hroom k.ram item
    have hout : (zImplQueuePush k q u item ms).2 = .ret 0 ∨
        ∃ x, (zImplQueuePush k q u item ms).2 = .wake x 0 := by
      rw [zImplQueuePush]
      simp only [if_pos hroom]
      exact wakeFirst_outcome _ _
    rcases hout with hret | ⟨x, hwake⟩
    · rw [hret]
      refine ⟨hitems.trans ?_, h.history⟩
      simp [pushNote, passNote, Fifo.next]
    · rw [hwake]
      refine ⟨hitems.trans ?_, h.history⟩
      simp [pushNote, passNote, Fifo.next]
  · rw [if_neg hroom] at hstore
    have hitems := (items_of_store hstore).trans h.items
    rw [zImplQueuePush] at hitems ⊢
    simp only [if_neg hroom] at hitems ⊢
    by_cases hms : ms = 0
    · rw [if_pos hms] at hitems ⊢
      exact ⟨hitems, h.history⟩
    · rw [if_neg hms] at hitems ⊢
      exact ⟨hitems, h.history⟩

/-- A pop delivers the oldest item, or finds the queue empty. -/
theorem Buffered.pop {item ms : Nat} (h : Buffered k log q) (hq : (k.queue q).Shaped) :
    Buffered (zImplQueuePop k q u item ms).1
      (popNote (zImplQueuePop k q u item ms).1 q u item ms (zImplQueuePop k q u item ms).2 ++ log)
      q := by
  have hstore := congrFun (congrArg Store.queue (pop_store k u ms q item)) q
  by_cases hitem : (k.queue q).head ≠ (k.queue q).tail
  · rw [if_pos hitem] at hstore
    have hnow := hstore.trans (Function.update_self q _ k.store.queue)
    have hfifo : fifo log q = (k.queue q).cell (k.queue q).head ::
        ((zImplQueuePop k q u item ms).1.queue q).items := by
      rw [← h.items, items_of_store hnow]
      exact items_pop hq hitem
    obtain ⟨hsize, hram⟩ := @pop_delivers k u q item ms hitem
    have hbytes : bytesAt (zImplQueuePop k q u item ms).1.ram item
        ((zImplQueuePop k q u item ms).1.queue q).itemSize = (k.queue q).cell (k.queue q).head := by
      rw [hsize, hram, bytesAt_copyBytes_same]
      rfl
    have hdelivered : fifo log q = bytesAt (zImplQueuePop k q u item ms).1.ram item
        ((zImplQueuePop k q u item ms).1.queue q).itemSize ::
        ((zImplQueuePop k q u item ms).1.queue q).items := by
      rw [hbytes]
      exact hfifo
    have hout : (zImplQueuePop k q u item ms).2 = .ret 0 ∨
        ∃ x, (zImplQueuePop k q u item ms).2 = .wake x 0 := by
      rw [zImplQueuePop]
      simp only [if_pos hitem]
      exact wakeFirst_outcome _ _
    rcases hout with hret | ⟨x, hwake⟩
    · rw [hret]
      refine ⟨?_, fun _ => ⟨_, hdelivered⟩, h.history⟩
      simp [popNote, passNote, Fifo.next, hfifo]
    · rw [hwake]
      refine ⟨?_, fun _ => ⟨_, hdelivered⟩, h.history⟩
      simp [popNote, passNote, Fifo.next, hfifo]
  · rw [if_neg hitem] at hstore
    have hitems := (items_of_store hstore).trans h.items
    rw [zImplQueuePop] at hitems ⊢
    simp only [if_neg hitem] at hitems ⊢
    by_cases hms : ms = 0
    · rw [if_pos hms] at hitems ⊢
      exact ⟨hitems, h.history⟩
    · rw [if_neg hms] at hitems ⊢
      exact ⟨hitems, h.history⟩

theorem Buffered.enter (h : Buffered k log q) (hready : Ready k log W u op) :
    Buffered (op.enter k u).1 (op.note k (op.enter k u).1 u (op.enter k u).2 ++ log) q := by
  by_cases hobject : op.object = some (q, .queue)
  · have hq := hready.shaped q hobject
    cases op with
    | queuePush a item ms =>
      obtain rfl : a = q := congrArg Prod.fst (Option.some.inj hobject)
      exact h.push hq
    | queuePop a item ms =>
      obtain rfl : a = q := congrArg Prod.fst (Option.some.inj hobject)
      exact h.pop hq
    | _ => cases hobject
  · have hplain := (enter_touches k u op).queue q hobject
    exact h.other (congrArg Queue.core hplain :) (note_other hobject)

theorem Buffered.create {c : Creation} {p : Nat} (h : Buffered k log q) :
    Buffered (c.init k p) (c.note (c.init k p) p ++ log) q := by
  cases c with
  | queue itemSize size =>
    by_cases hp : p = q
    · subst hp
      have hqueue : ((Creation.queue itemSize size).init k p).queue p =
          { k.queue p with itemSize := itemSize, size := size, slots := wrap (size + 1), head := 0
                           tail := 0, sendWait := none, recvWait := none } :=
        Function.update_self p _ k.queue
      refine ⟨?_, h.history⟩
      rw [hqueue]
      simp [Queue.items, contents, count, Creation.note, Fifo.next]
    · have hqueue : ((Creation.queue itemSize size).init k p).queue q = k.queue q :=
        Function.update_of_ne (Ne.symm hp) _ k.queue
      refine h.other (congrArg Queue.core hqueue) ?_
      intro e he heq
      rw [List.mem_singleton.mp he] at heq
      exact hp (congrArg Prod.fst (Option.some.inj heq))
  | sem initial =>
    refine h.other rfl ?_
    intro e he heq
    rw [List.mem_singleton.mp he] at heq
    cases heq
  | mutex =>
    refine h.other rfl ?_
    intro e he heq
    rw [List.mem_singleton.mp he] at heq
    cases heq

theorem inOrder_split {post pre : List Event} {e : Event} (h : InOrder q (post ++ e :: pre)) :
    InOrder q (e :: pre) := by
  induction post with
  | nil => exact h
  | cons x post ih =>
    refine ih ?_
    cases x with
    | popped a item => exact h.2
    | _ => exact h

end Buffered

theorem Sys.Reached.buffered {L : Alloc.Layout} {s : Sys} (hL : L.heap.Placed) (h : s.Reached L)
    (q : Nat) : Buffered s.k s.log q := by
  have hnone : ∀ {e : Event}, e.object = none → e.object ≠ some (q, .queue) := by
    intro e he
    rw [he]
    simp
  refine h.objects (P := fun k log => Buffered k log q) hL ?_ ?_ ?_ ?_
  · intro k hk
    have hqueue : k.queue q = _ := congrFun (congrArg (fun o => o.2.2) hk.symm) q
    refine ⟨?_, trivial⟩
    rw [hqueue]
    rfl
  · exact fun k k' n log hp hquiet hn _ =>
      hp.other (hquiet.queue q) fun e he => hnone (object_none (hn e he))
  · exact fun k W u op pre log hp hpass hready =>
      (hp.other rfl fun e he => hnone (hpass.object e he)).enter hready
  · exact fun k c p log hp _ _ => hp.create

/-- The queue at `q` is a FIFO of `size` items in a buffer that has room for one more. -/
structure Sys.IsFifo (s : Sys) (q : Nat) : Prop where
  items : (s.k.queue q).items = fifo s.log q
  popped : ∀ post pre item, s.log = post ++ .popped q item :: pre →
    ∃ rest, fifo pre q = item :: rest
  full : (s.k.queue q).nextIndex (s.k.queue q).tail = (s.k.queue q).head ↔
    (fifo s.log q).length = (s.k.queue q).size
  empty : (s.k.queue q).head = (s.k.queue q).tail ↔ fifo s.log q = []
  failedPush : ∀ u item ms, (fifo s.log q).length = (s.k.queue q).size →
    (zImplQueuePush s.k q u item ms).1.store = s.k.store
  failedPop : ∀ u item ms, fifo s.log q = [] →
    (zImplQueuePop s.k q u item ms).1.store = s.k.store
  indices : (s.k.queue q).head < (s.k.queue q).slots ∧ (s.k.queue q).tail < (s.k.queue q).slots ∧
    (s.k.queue q).slots = (s.k.queue q).size + 1
  /-- No index wraps, and a slot lies inside the buffer. -/
  slots : ∀ i, i < (s.k.queue q).slots → i + 1 < 2 ^ 32 ∧
    (s.k.queue q).offset i = i * (s.k.queue q).itemSize ∧
    (s.k.queue q).offset i + (s.k.queue q).itemSize ≤
      (s.k.queue q).itemSize * ((s.k.queue q).size + 1)

/-- Every queue that a handle names refines a bounded FIFO. -/
theorem queue_refines_fifo {L : Alloc.Layout} {s : Sys} {handle q : Nat} (hL : L.heap.Placed)
    (h : s.Reached L) (hget : kObjGet s.k handle .queue = some q)
    (hsize : (s.k.queue q).size + 1 < 2 ^ 32) : s.IsFifo q := by
  obtain ⟨g, hg⟩ := h.inv hL
  have hq := hg.objects.shaped q (hg.objects.get hget)
  have hb := h.buffered hL q
  have hslots : (s.k.queue q).slots = (s.k.queue q).size + 1 := by
    rw [hq.slots, wrap_of_lt hsize]
  have hfull : (s.k.queue q).nextIndex (s.k.queue q).tail = (s.k.queue q).head ↔
      (fifo s.log q).length = (s.k.queue q).size := by
    rw [items_full_iff hq, hb.items, hslots]
    rfl
  have hempty : (s.k.queue q).head = (s.k.queue q).tail ↔ fifo s.log q = [] := by
    rw [← items_nil_iff hq, hb.items]
  refine ⟨hb.items, ?_, hfull, hempty, ?_, ?_, ⟨hq.head, hq.tail, hslots⟩, ?_⟩
  · intro post pre item hlog
    have hhistory := hb.history
    rw [hlog] at hhistory
    exact (inOrder_split hhistory).1 rfl
  · intro u item ms hlen
    rw [push_store, if_neg (not_not.mpr (hfull.mpr hlen))]
  · intro u item ms hnil
    rw [pop_store, if_neg (not_not.mpr (hempty.mpr hnil))]
  · intro i hi
    have hlt := hq.slots_lt
    refine ⟨by omega, hq.offset_eq hi, ?_⟩
    rw [hq.offset_eq hi, ← hslots]
    exact slot_end hi

/-- A queue of one 4-byte item is full after one push. -/
theorem queue_refines_fifo_board :
    ∃ s : Sys, s.Reached boardLayout ∧
      s.log.head? = some (.result 1 minusOne) ∧ fifo s.log 0x20006428 = [[0, 0, 0, 0]] ∧
      s.IsFifo 0x20006428 := by
  obtain ⟨s, hs, ⟨hlog, hfifo⟩, hget, hsize⟩ := boardRun_at
    (boardReady ++ [.call (.create (.queue 4 1)), .go, .go, .go,
      .call (.queuePush 0x10000 0x20000100 0), .go, .call (.queuePush 0x10000 0x20000100 0), .go])
    (P := fun s => (s.log.head? = some (.result 1 minusOne) ∧
        fifo s.log 0x20006428 = [[0, 0, 0, 0]]) ∧
      kObjGet s.k 0x10000 .queue = some 0x20006428 ∧ (s.k.queue 0x20006428).size + 1 < 2 ^ 32)
    (by decide +kernel)
  exact ⟨s, hs, hlog, hfifo, queue_refines_fifo boardLayout_placed hs hget hsize⟩

end Crest
