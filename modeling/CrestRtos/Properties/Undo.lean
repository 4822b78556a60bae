import CrestRtos.Heap.History
import CrestRtos.Properties.Selection

/-!
# Creating and deleting a task

`task_create` takes a control block, memory and a place in a list, in this order, and
can fail after each of them. What it took is given back, and `task_delete` gives back
everything, so that pool, lists, mask, cursors and free list are as before. The one
trace is left by a call that is the first of all to ask for memory: its request builds
the free list. A call that is refused before that leaves the heap untouched.
-/

namespace Crest
open IntrusiveList MachineWord Alloc BlockList Transition

/-- A call of the scheduler, a call on the kernel heap, or a store into its blocks. -/
inductive PoolOp
  | sched (op : SchedOp)
  | malloc (size : Nat)
  | free (p : Nat)
  | store (a : Nat) (v : UInt8)

def PoolOp.perform (L : Layout) (k : Kernel) : PoolOp → Option Kernel
  | .sched op => op.perform L k
  | .malloc size => (Alloc.malloc L k.heap size).map fun r => { k with heap := r.1 }
  | .free p => (Alloc.free L k.heap p).map fun heap => { k with heap := heap }
  | .store a v =>
    some { k with heap := { k.heap with mem := Function.update k.heap.mem a v } }

/-- The payload of an allocated block of the kernel heap. -/
def Kernel.Allocated (L : Layout) (k : Kernel) (p : Nat) : Prop :=
  ∃ bs, Tiled L.heap k.heap bs ∧ ∃ a ∈ liveAddrs L.heap.start bs, p = a + headerSize

/-- Only `task_delete` frees stacks, and stores stay inside allocated blocks. -/
def PoolOp.Allowed (L : Layout) (k : Kernel) : PoolOp → Prop
  | .free p => p = 0 ∨ (k.Allocated L p ∧ ∀ t, k.tcbUsed t = true → (k.tcb t).stackAlloc ≠ p)
  | .store a _ => ∃ p, k.Allocated L p ∧ p ≤ a ∧ a < p - headerSize + payloadBlock k.heap p
  | _ => True

/-- Pool, run lists, mask, cursors and free list are the same. Where no request has been made
before, a call that has `asked` for memory leaves the free list of `heap_init`. -/
structure SameBooks (L : Layout) (asked : Prop) (k k' : Kernel) : Prop where
  pool : k'.tcbUsed = k.tcbUsed
  lists : ∀ pr l, Linked k'.next (k'.taskList pr) l ↔ Linked k.next (k.taskList pr) l
  mask : k'.priorityMask = k.priorityMask
  cursors : k'.rrCurrent = k.rrCurrent
  freeList : k.heap.heapInited = true → SameFreeList k.heap k'.heap
  refused : ¬ asked → k'.heap = k.heap
  inited : asked → k'.heap.heapInited = true
  first : asked → k.heap.heapInited = false → SameFreeList (heapInit L.heap k.heap) k'.heap

section Heap
variable {L : Layout} {h : Heap} {live : List Nat} {p : Nat}

theorem HeapOwns.tiles (hL : L.heap.Placed) (ho : HeapOwns L h live) : ∃ bs, Tiles L.heap h bs := by
  rcases ho with ⟨hin, _⟩ | ⟨bs, hbs⟩
  · exact Ready.tiles hL (Or.inl hin)
  · exact ⟨bs, hbs.1.tiles⟩

theorem HeapOwns.allocated {k : Kernel} (ho : HeapOwns L k.heap live) (hp : k.Allocated L p) :
    p ∈ live := by
  obtain ⟨bs, ht, hat⟩ := hp
  rcases ho with ⟨hin, _⟩ | ⟨bs', hbs⟩
  · rw [ht.inited] at hin
    cases hin
  · obtain rfl := ht.tiles.unique hbs.1.tiles
    exact (hbs.mem_iff p).mpr hat

theorem HeapOwns.store {k : Kernel} (ho : HeapOwns L k.heap live) {a : Nat} (v : UInt8)
    (hallowed : (PoolOp.store a v).Allowed L k) :
    HeapOwns L { k.heap with mem := Function.update k.heap.mem a v } live := by
  obtain ⟨p, hp, hlo, hhi⟩ := hallowed
  have hmem := ho.allocated hp
  rcases ho with ⟨_, rfl⟩ | ⟨bs, hbs⟩
  · cases hmem
  · obtain ⟨c', hstep, hbs'⟩ := store_holds (A := kernelHeap L) (v := v) hbs ⟨p, hmem, hlo, hhi⟩
    obtain rfl := Option.some.inj hstep
    exact Or.inr hbs'

end Heap

section Roster
variable {L : Layout} {k k' : Kernel} {runs : Nat → List Tid} {live : List Nat} {t : Tid}

theorem Roster.withHeap (h : Roster L k runs live) {heap : Heap} {live' : List Nat}
    (hheap : HeapOwns L heap live')
    (hstack : ∀ t, k.tcbUsed t = true → (k.tcb t).stackAlloc ∈ live') :
    Roster L { k with heap := heap } runs live' :=
  ⟨h.linked, h.rank, h.bounded, h.used, h.cursor, h.byte, h.mask, hheap, hstack, h.bare, h.own⟩

theorem poolOp_roster (hL : L.heap.Placed) (op : PoolOp) (h : ∃ runs live, Roster L k runs live)
    (ha : op.Allowed L k) (hstep : op.perform L k = some k') :
    ∃ runs live, Roster L k' runs live := by
  cases op with
  | sched op => exact schedOp_roster hL op h hstep
  | malloc size =>
    obtain ⟨runs, live, h⟩ := h
    obtain ⟨⟨heap, p⟩, hrun, rfl⟩ := Option.map_eq_some_iff.mp hstep
    refine ⟨runs, _, h.withHeap (h.heap.malloc hL hrun) fun t ht => ?_⟩
    split
    · exact h.stack t ht
    · exact List.mem_cons_of_mem _ (h.stack t ht)
  | free p =>
    obtain ⟨runs, live, h⟩ := h
    obtain ⟨heap, hrun, rfl⟩ := Option.map_eq_some_iff.mp hstep
    rcases ha with rfl | ⟨hp, hstack⟩
    · have hsame : Alloc.free L k.heap 0 = some k.heap := by
        rw [Alloc.free, coalescingFree, if_pos rfl]
      obtain rfl := Option.some.inj (hsame.symm.trans hrun)
      exact ⟨runs, live, h⟩
    · refine ⟨runs, _, h.withHeap (h.heap.free hL (h.heap.allocated hp) hrun) fun t ht => ?_⟩
      exact (List.mem_erase_of_ne (hstack t ht)).mpr (h.stack t ht)
  | store a v =>
    obtain ⟨runs, live, h⟩ := h
    obtain rfl := Option.some.inj hstep
    exact ⟨runs, live, h.withHeap (h.heap.store v ha) h.stack⟩

/-- Setting and clearing a bit that was not set. -/
theorem clear_setMask {m pr : Nat} (hm : m < 2 ^ 8) (hpr : pr < maxTaskPriorities)
    (hbit : m.testBit pr = false) : andNot (m ||| 1 <<< pr) (1 <<< pr) = m := by
  have hall : ∀ (m : Fin 256) (pr : Fin 8), m.val.testBit pr.val = false →
      andNot (m.val ||| 1 <<< pr.val) (1 <<< pr.val) = m.val := by decide +kernel
  exact hall ⟨m, hm⟩ ⟨pr, hpr⟩ hbit

theorem setMask_set {m pr : Nat} (hbit : m.testBit pr = true) : m ||| 1 <<< pr = m := by
  refine Nat.eq_of_testBit_eq fun q => ?_
  rw [testBit_setMask]
  by_cases hq : q = pr
  · subst hq
    simp [hbit]
  · simp [hq]

/-- A request and its undoing keep the blocks, those of `heap_init` if it is the first. -/
theorem SameBooks.of_heap {bs : List Block} {asked : Prop} (hL : L.heap.Placed) (hasked : asked)
    (ht : Tiles L.heap k.heap bs) (ht' : Tiled L.heap k'.heap bs)
    (hpool : k'.tcbUsed = k.tcbUsed)
    (hlists : ∀ pr l, Linked k'.next (k'.taskList pr) l ↔ Linked k.next (k.taskList pr) l)
    (hmask : k'.priorityMask = k.priorityMask) (hcursors : k'.rrCurrent = k.rrCurrent) :
    SameBooks L asked k k' := by
  have hsame : SameFreeList (k.heap.started L.heap) k'.heap := Tiled.sameFreeList hL ht ht'
  refine ⟨hpool, hlists, hmask, hcursors, fun hin => ?_, fun hno => absurd hasked hno,
    fun _ => ht'.inited, fun _ hin => ?_⟩
  · rwa [Heap.started, if_pos hin] at hsame
  · rwa [Heap.started, if_neg (by rw [hin]; exact Bool.false_ne_true)] at hsame

theorem SameBooks.of_refused {bs : List Block} {asked : Prop} (hL : L.heap.Placed)
    (hasked : ¬ asked) (ht : Tiles L.heap k.heap bs) : SameBooks L asked k k := by
  refine ⟨rfl, fun _ _ => Iff.rfl, rfl, rfl, fun hin => ?_, fun _ => rfl,
    fun hyes => absurd hyes hasked, fun hyes => absurd hyes hasked⟩
  rw [Tiles, Heap.started, if_pos hin] at ht
  exact ht.sameFreeList hL ht

/-- The lists after a task has come and gone. -/
theorem Roster.undone (hL : L.heap.Placed) (h : Roster L k runs live) {heap : Heap} {alloc : Nat}
    {args : TaskArgs} {bs : List Block} {asked : Prop} (hasked : asked)
    (hpr : args.priority < maxTaskPriorities)
    (ht : k.tcbUsed t = false)
    (hmalloc : malloc L k.heap (stackAllocSize (nextPowerOfTwo args.stackSize)) =
      some (heap, alloc)) (hnull : alloc ≠ 0) {heap' : Heap} (htiles : Tiles L.heap k.heap bs)
    (hfree : Alloc.free L heap alloc = some heap') (htiled : Tiled L.heap heap' bs) :
    ∃ k'', taskDelete L (schedulerAddTask (initTcb { k with
        heap := heap, tcbUsed := Function.update k.tcbUsed t true } t alloc args) t) t = some k'' ∧
      SameBooks L asked k k'' := by
  have hown := h.heap.malloc hL hmalloc
  rw [if_neg hnull] at hown
  have hr := h.join hown (h.heap.fresh hL hmalloc hnull) hpr ht
  have hj := schedulerAddTask_joined
    { k with heap := heap, tcbUsed := Function.update k.tcbUsed t true } t alloc args
  have hmask : (schedulerAddTask (initTcb { k with
      heap := heap, tcbUsed := Function.update k.tcbUsed t true } t alloc args) t).priorityMask =
      k.priorityMask ||| 1 <<< args.priority := by
    simp [schedulerAddTask, initTcb, portTriggerPendsv, Kernel.setTcb]
  have hstack : ((schedulerAddTask (initTcb { k with
      heap := heap, tcbUsed := Function.update k.tcbUsed t true } t alloc args) t).tcb
      t).stackAlloc = alloc := by
    simp [schedulerAddTask, initTcb, portTriggerPendsv]
  generalize schedulerAddTask (initTcb { k with
    heap := heap, tcbUsed := Function.update k.tcbUsed t true } t alloc args) t = k₁ at *
  have hused₁ : k₁.tcbUsed = Function.update k.tcbUsed t true :=
    (congrArg Kernel.tcbUsed hj.rest :)
  have hheap₁ : k₁.heap = heap := (congrArg Kernel.heap hj.rest :)
  have hcursor₁ : k₁.rrCurrent = k.rrCurrent := (congrArg Kernel.rrCurrent hj.rest :)
  have hnot : ∀ p, t ∉ runs p := by
    intro p hmem
    have hin := (h.used t).mpr ((h.rank p t hmem).symm ▸ hmem)
    rw [ht] at hin
    cases hin
  have hrem := hr.removed t
  rw [hj.priority] at hrem
  rw [taskDelete]
  generalize schedulerRemoveTask k₁ t = k₂ at hrem
  have hstack₂ : (k₂.tcb t).stackAlloc = alloc :=
    (congrArg Tcb.stackAlloc (hrem.tcb t) :).trans hstack
  have hheap₂ : k₂.heap = heap := (congrArg Kernel.heap hrem.rest :).trans hheap₁
  have hused₂ : k₂.tcbUsed = k₁.tcbUsed := (congrArg Kernel.tcbUsed hrem.rest :)
  simp only [hstack₂, hheap₂, hfree, if_pos hnull, Option.map_some]
  refine ⟨_, rfl, SameBooks.of_heap hL hasked htiles htiled ?_ ?_ ?_ ?_⟩
  · change Function.update k₂.tcbUsed t false = k.tcbUsed
    rw [hused₂, hused₁, Function.update_idem, ← ht, Function.update_eq_self]
  · have hback : ∀ p, Linked k₂.next (k₂.taskList p) (runs p) := by
      intro p
      have hl := hrem.linked p
      rwa [Function.update_self, List.erase_cons_head, Function.update_idem,
        Function.update_eq_self] at hl
    have hnext : (freeTcb ({ k₂ with heap := heap' }.setTcb t fun tcb =>
        { tcb with stackAlloc := 0, stackBase := 0 }) t).next = k₂.next := by
      funext x
      by_cases hx : x = t
      · subst hx
        simp [Kernel.next, freeTcb]
      · simp [Kernel.next, freeTcb, setTcb_tcb_of_ne _ _ hx]
    intro p l
    rw [hnext]
    constructor
    · intro hl
      rw [linked_unique hl (hback p)]
      exact h.linked p
    · intro hl
      rw [linked_unique hl (h.linked p)]
      exact hback p
  · refine hrem.mask.trans ?_
    rw [hmask, Function.update_self, List.erase_cons_head]
    have hbit := h.mask args.priority hpr
    by_cases hnil : runs args.priority = []
    · rw [if_pos hnil]
      refine clear_setMask h.byte hpr ?_
      cases hset : k.priorityMask.testBit args.priority with
      | false => rfl
      | true => exact absurd hnil (hbit.mp hset)
    · rw [if_neg hnil]
      exact setMask_set (hbit.mpr hnil)
  · funext p
    refine (hrem.cursor p).trans ?_
    rw [hcursor₁, if_neg fun hc => hnot p (h.cursor p t hc.2)]

/-- What `task_create` does to the books, and `task_delete` after it. -/
theorem Roster.create_undo (hL : L.heap.Placed) (h : Roster L k runs live) (args : TaskArgs) :
    ∃ k' made, taskCreate L k args = some (k', made) ∧
      (made = none → SameBooks L (k.AsksMemory args) k k') ∧
      ∀ t, made = some t → k.AsksMemory args ∧
        ∃ k'', taskDelete L k' t = some k'' ∧ SameBooks L (k.AsksMemory args) k k'' := by
  obtain ⟨k', made, hrun, _⟩ := h.create hL args
  obtain ⟨bs, htiles⟩ := h.heap.tiles hL
  refine ⟨k', made, hrun, ?_⟩
  rcases taskCreate_cases hrun with
    ⟨hno, rfl, rfl⟩ | ⟨t, heap, alloc, hacc, ht, hmalloc, hrest⟩
  · exact ⟨fun _ => .of_refused hL hno htiles,
      fun _ hnone => absurd hnone.symm (Option.some_ne_none _)⟩
  have hasked : k.AsksMemory args := ⟨hacc, t, ht⟩
  have hpr : args.priority < maxTaskPriorities := by
    simp only [TaskArgs.accepted, Bool.and_eq_true, decide_eq_true_eq] at hacc
    exact hacc.1.1
  have hsize : stackAllocSize (nextPowerOfTwo args.stackSize) ≠ 0 := by
    simp only [stackAllocSize, Port.portStackGuardSize]
    omega
  have hreq : ∀ {r}, firstFitMalloc L.heap (k.heap.started L.heap)
      (stackAllocSize (nextPowerOfTwo args.stackSize)) = some r → r = (heap, alloc) := by
    intro r hr
    rw [← firstFitMalloc_started hL hsize] at hr
    exact Option.some.inj (hr.symm.trans hmalloc)
  cases hserved : request (stackAllocSize (nextPowerOfTwo args.stackSize)) bs with
  | none =>
    obtain ⟨h', hrun', _, hkeep⟩ := (Tiled.tiles htiles).malloc_none hL hserved
    obtain rfl := hkeep htiles
    obtain ⟨rfl, rfl⟩ := Prod.mk.inj (hreq hrun')
    rcases hrest with ⟨_, rfl, rfl⟩ | ⟨hnull, _⟩
    · exact ⟨fun _ => .of_heap hL hasked htiles htiles rfl (fun _ _ => Iff.rfl) rfl rfl,
        fun _ hnone => absurd hnone.symm (Option.some_ne_none _)⟩
    · exact absurd rfl hnull
  | some bs' =>
    obtain ⟨h', p, hp, hrun', _, _, h'', hfree, htiled⟩ :=
      (Tiled.tiles htiles).malloc_some hL hserved
    obtain ⟨rfl, rfl⟩ := Prod.mk.inj (hreq hrun')
    rcases hrest with ⟨hnull, _⟩ | ⟨hnull, rfl, rfl⟩
    · exact absurd hnull hp
    · refine ⟨fun hnone => absurd hnone (Option.some_ne_none _), fun u hu => ⟨hasked, ?_⟩⟩
      obtain rfl := Option.some.inj hu
      exact h.undone hL hasked hpr ht hmalloc hnull htiles hfree htiled

end Roster

/-- A state that some permitted run after `task_init` leaves behind. -/
def Kernel.PoolReached (L : Layout) (k : Kernel) : Prop :=
  ∃ heapMem ram ops,
    Permitted (fun k op => op.Allowed L k) (PoolOp.perform L) (Kernel.reset heapMem ram) ops ∧
      run (PoolOp.perform L) (Kernel.reset heapMem ram) ops = some k

/-- A `task_create` that adds no task leaves the books as they are, and one that adds a
task is undone by `task_delete`. -/
theorem task_create_undone (L : Layout) (hL : L.heap.Placed) {k : Kernel} (hk : k.PoolReached L)
    (args : TaskArgs) :
    ∃ k' made, taskCreate L k args = some (k', made) ∧
      (made = none → SameBooks L (k.AsksMemory args) k k') ∧
      ∀ t, made = some t → k.AsksMemory args ∧
        ∃ k'', taskDelete L k' t = some k'' ∧ SameBooks L (k.AsksMemory args) k k'' := by
  obtain ⟨heapMem, ram, ops, hp, hrun⟩ := hk
  obtain ⟨runs, live, h⟩ := permitted_invariant (fun k op k' hr => poolOp_roster hL op hr)
    ⟨_, _, roster_reset L heapMem ram⟩ hp hrun
  exact h.create_undo hL args

/-- The second task of one priority, behind another block of the heap. -/
theorem task_create_undone_second : ∃ k k' k'' : Kernel,
    run (PoolOp.perform (linkerLayout 0x20001000)) (Kernel.reset (fun _ => 0) fun _ => 0)
      [.malloc 24, .sched (.call (.create ⟨0x08001000, 1, 512, 0⟩))] = some k ∧
    taskCreate (linkerLayout 0x20001000) k ⟨0x08002000, 1, 64, 0⟩ = some (k', some 1) ∧
    taskDelete (linkerLayout 0x20001000) k' 1 = some k'' ∧
    SameBooks (linkerLayout 0x20001000) (k.AsksMemory ⟨0x08002000, 1, 64, 0⟩) k k'' := by
  have hplaced := linkerLayout_placed 0x20001000 (by decide) (by decide)
  obtain ⟨k, k', hk, hrun, hmake⟩ : ∃ k k' : Kernel, k.PoolReached (linkerLayout 0x20001000) ∧
      run (PoolOp.perform (linkerLayout 0x20001000)) (Kernel.reset (fun _ => 0) fun _ => 0)
        [.malloc 24, .sched (.call (.create ⟨0x08001000, 1, 512, 0⟩))] = some k ∧
      taskCreate (linkerLayout 0x20001000) k ⟨0x08002000, 1, 64, 0⟩ = some (k', some 1) :=
    ⟨_, _, ⟨fun _ => 0, fun _ => 0, [.malloc 24, .sched (.call (.create ⟨0x08001000, 1, 512, 0⟩))],
      ⟨trivial, fun _ _ => ⟨trivial, fun _ _ => trivial⟩⟩, rfl⟩, rfl, rfl⟩
  obtain ⟨k₁, made, hrun₁, _, hundo⟩ := task_create_undone _ hplaced.1 hk ⟨0x08002000, 1, 64, 0⟩
  obtain ⟨rfl, rfl⟩ := Prod.mk.inj (Option.some.inj (hmake.symm.trans hrun₁))
  obtain ⟨_, k'', hgone, hbooks⟩ := hundo 1 rfl
  exact ⟨k, k', k'', hrun, hmake, hgone, hbooks⟩

/-- The first task of all: its creation initialises the heap, and its deletion does not
undo that. -/
theorem first_task_leaves_heap : ∃ k' k'' : Kernel,
    (Kernel.reset (fun _ => 0) fun _ => 0).PoolReached (linkerLayout 0x20001000) ∧
    taskCreate (linkerLayout 0x20001000) (Kernel.reset (fun _ => 0) fun _ => 0)
      ⟨0x08001000, 1, 512, 0⟩ = some (k', some 0) ∧
    taskDelete (linkerLayout 0x20001000) k' 0 = some k'' ∧ k''.heap.freeList = 0x20005000 ∧
    ¬ SameFreeList (Kernel.reset (fun _ => 0) fun _ => 0).heap k''.heap := by
  obtain ⟨k', k'', hmake, hgone, hhead⟩ : ∃ k' k'' : Kernel,
      taskCreate (linkerLayout 0x20001000) (Kernel.reset (fun _ => 0) fun _ => 0)
        ⟨0x08001000, 1, 512, 0⟩ = some (k', some 0) ∧
      taskDelete (linkerLayout 0x20001000) k' 0 = some k'' ∧ k''.heap.freeList = 0x20005000 :=
    ⟨_, _, rfl, rfl, by decide +kernel⟩
  refine ⟨k', k'', ⟨_, _, [], trivial, rfl⟩, hmake, hgone, hhead, ?_⟩
  rintro ⟨l, hbefore, hafter⟩
  have hnil : l.map Prod.fst = [] := linked_none_iff.mp hbefore.1
  have hlist := hafter.1
  rw [hnil, FreeList, hhead] at hlist
  cases hlist

end Crest
