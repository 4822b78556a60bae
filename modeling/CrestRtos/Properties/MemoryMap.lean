import CrestRtos.System.OneMemory
import CrestRtos.System.Tabled

/-!
# The memory map of a running system

Calls allocate with other tasks in between, and a failed one gives back what it took. In
every state each stack, kernel object and queue buffer, and what a call in progress has
in hand, is a live block of the kernel heap of its own.
-/

namespace Crest
open IntrusiveList ByteMemory MachineWord Alloc Port Transition

/-- A stack as `task_create` lays it out behind its guard. -/
structure Tcb.LaidOut (tcb : Tcb) : Prop where
  pow : ∃ n, 5 ≤ n ∧ n ≤ 9 ∧ tcb.stackSize = 2 ^ n
  base : tcb.stackBase = stackBaseFor tcb.stackAlloc tcb.stackSize

/-- Every task that is on a run list has a stack. -/
structure Kernel.Stacked (k : Kernel) : Prop where
  laidOut : ∀ t, (k.tcb t).stackAlloc ≠ 0 → (k.tcb t).LaidOut
  heads : ∀ pr t, k.taskList pr = some t → (k.tcb t).stackAlloc ≠ 0
  links : ∀ x t, (k.tcb x).next = some t → (k.tcb t).stackAlloc ≠ 0

/-- Every payload in use belongs to one owner. -/
structure Mapped (L : Layout) (s : Sys) : Prop where
  backed : Backed L.heap s.k.heap s.holds
  stacked : s.k.Stacked

section Frames
variable {L : Layout} {k k' : Kernel} {s s' : Sys} {u t : Tid} {alloc p : Nat} {args : TaskArgs}

theorem lasting_fields {tcb tcb' : Tcb} (h : tcb'.lasting = tcb.lasting) :
    tcb'.stackAlloc = tcb.stackAlloc ∧ tcb'.stackBase = tcb.stackBase ∧
      tcb'.stackSize = tcb.stackSize ∧ tcb'.next = tcb.next :=
  ⟨(congrArg Prod.fst h :), (congrArg (fun x => x.2.1) h :), (congrArg (fun x => x.2.2.1) h :),
    (congrArg (fun x => x.2.2.2) h :)⟩

theorem Kernel.Stacked.keep (h : k.Stacked) (hlist : k'.taskList = k.taskList)
    (htcb : ∀ t, (k'.tcb t).lasting = (k.tcb t).lasting) : k'.Stacked := by
  constructor
  · intro t ht
    obtain ⟨halloc, hbase, hsize, _⟩ := lasting_fields (htcb t)
    rw [halloc] at ht
    obtain ⟨hpow, hlaid⟩ := h.laidOut t ht
    refine ⟨?_, ?_⟩
    · rw [hsize]
      exact hpow
    · rw [hbase, halloc, hsize]
      exact hlaid
  · intro pr t ht
    rw [hlist] at ht
    rw [(lasting_fields (htcb t)).1]
    exact h.heads pr t ht
  · intro x t ht
    rw [(lasting_fields (htcb x)).2.2.2] at ht
    rw [(lasting_fields (htcb t)).1]
    exact h.links x t ht

theorem addTask_lasting (k : Kernel) (t : Tid) (alloc : Nat) (args : TaskArgs) (x : Tid) :
    ((schedulerAddTask (initTcb k t alloc args) t).tcb x).lasting =
      if x = t then (alloc, stackBaseFor alloc (nextPowerOfTwo args.stackSize),
        nextPowerOfTwo args.stackSize, k.taskList args.priority)
      else (k.tcb x).lasting := by
  by_cases hx : x = t
  · subst hx
    simp [schedulerAddTask, initTcb, portTriggerPendsv, Tcb.lasting, Kernel.setTcb]
  · rw [if_neg hx]
    simp [schedulerAddTask, initTcb, portTriggerPendsv, Kernel.setTcb, hx]

/-- A new task goes in front of its list, with a stack of its own. -/
theorem Kernel.Stacked.add (h : k.Stacked) (hacc : args.accepted = true) (halloc : alloc ≠ 0) :
    (schedulerAddTask (initTcb k t alloc args) t).Stacked := by
  let fresh : Tcb := { Tcb.zero with
    stackAlloc := alloc
    stackBase := stackBaseFor alloc (nextPowerOfTwo args.stackSize)
    stackSize := nextPowerOfTwo args.stackSize
    next := k.taskList args.priority }
  have hnew : ((schedulerAddTask (initTcb k t alloc args) t).tcb t).lasting = fresh.lasting :=
    (addTask_lasting k t alloc args t).trans (if_pos rfl)
  obtain ⟨hna, hnb, hns, hnn⟩ := lasting_fields hnew
  simp only [fresh] at hna hnb hns hnn
  have hold : ∀ x, x ≠ t → ((schedulerAddTask (initTcb k t alloc args) t).tcb x).lasting =
      (k.tcb x).lasting := fun x hx => by rw [addTask_lasting, if_neg hx]
  have hkeep : ∀ x, (k.tcb x).stackAlloc ≠ 0 →
      ((schedulerAddTask (initTcb k t alloc args) t).tcb x).stackAlloc ≠ 0 := by
    intro x hx
    by_cases hxt : x = t
    · rw [hxt, hna]
      exact halloc
    · rw [(lasting_fields (hold x hxt)).1]
      exact hx
  constructor
  · intro x hx
    by_cases hxt : x = t
    · subst hxt
      have hle : args.stackSize ≤ maxTaskStackSize := by
        simp only [TaskArgs.accepted, Bool.and_eq_true, decide_eq_true_eq] at hacc
        exact hacc.2
      obtain ⟨n, hlo, hhi, hpow, _⟩ := nextPowerOfTwo_spec hle
      exact ⟨⟨n, hlo, hhi, hns.trans hpow⟩, by rw [hnb, hna, hns]⟩
    · obtain ⟨ha, hb, hs, _⟩ := lasting_fields (hold x hxt)
      rw [ha] at hx
      obtain ⟨hpow, hlaid⟩ := h.laidOut x hx
      refine ⟨?_, ?_⟩
      · rw [hs]
        exact hpow
      · rw [hb, ha, hs]
        exact hlaid
  · intro pr x hx
    have hhead : Function.update k.taskList
        ((initTcb k t alloc args).tcb t).priority (some t) pr = some x := hx
    by_cases hpr : pr = ((initTcb k t alloc args).tcb t).priority
    · rw [hpr, Function.update_self] at hhead
      obtain rfl := Option.some.inj hhead
      rw [hna]
      exact halloc
    · rw [Function.update_of_ne hpr] at hhead
      exact hkeep x (h.heads pr x hhead)
  · intro x y hy
    by_cases hxt : x = t
    · rw [hxt, hnn] at hy
      exact hkeep y (h.heads _ y hy)
    · rw [(lasting_fields (hold x hxt)).2.2.2] at hy
      exact hkeep y (h.links x y hy)

theorem bufferOf_of_shape {a : Nat} (h : (k'.queue a).shape = (k.queue a).shape) :
    k'.bufferOf a = k.bufferOf a := by
  have hbuffer : (k'.queue a).buffer = (k.queue a).buffer := (congrArg Prod.fst h :)
  have hitem : (k'.queue a).itemSize = (k.queue a).itemSize := (congrArg (fun x => x.2.1) h :)
  have hslots : (k'.queue a).slots = (k.queue a).slots := (congrArg (fun x => x.2.2) h :)
  rw [Kernel.bufferOf, Kernel.bufferOf, hbuffer, hitem, hslots]

/-- What the code of `u` has in hand. -/
def Owner.Hand (u : Tid) (o : Owner) : Prop := o = .newStack u ∨ o = .newObject u ∨ o = .newBuffer u

/-- A task's own code and the idle loop have nothing in hand. -/
theorem Pc.Bare.empty {o : Owner} {x : Nat × Nat} (h : (s.pc u).Bare) (ho : o.Hand u) :
    s.holds o ≠ some x := by
  intro hx
  rcases ho with rfl | rfl | rfl
  · rw [Sys.holds, h.stack] at hx
    cases hx
  · rw [Sys.holds, h.object] at hx
    cases hx
  · rw [Sys.holds, h.queue] at hx
    cases hx

theorem newQueue_object {s : Sys} {a : Nat} (h : (s.pc u).newQueue = some a) :
    s.holds (.newObject u) = some (a, KobjType.queue.bytes) := by
  rw [Sys.holds]
  cases hcode : s.pc u with
  | publish q type r =>
    rw [hcode] at h
    cases type with
    | queue =>
      obtain rfl := Option.some.inj h
      rfl
    | sem => cases h
    | mutex => cases h
  | _ =>
    rw [hcode] at h
    cases h

/-- Where the code stays and the queue is not the one at `p`, an owner holds what it held. -/
theorem holds_le (htable : s'.k.table = s.k.table)
    (htcb : ∀ t, (s'.k.tcb t).lasting = (s.k.tcb t).lasting)
    (hshape : ∀ a, a ≠ p → (s'.k.queue a).shape = (s.k.queue a).shape)
    (hp : ∀ o n, s.holds o = some (p, n) → ∃ v, o = .newObject v ∧ s'.pc v ≠ s.pc v)
    {o : Owner} {x : Nat × Nat} (ho : s'.holds o = some x) :
    s.holds o = some x ∨ ∃ v, s'.pc v ≠ s.pc v ∧ o.Hand v := by
  cases o with
  | stack t =>
    obtain ⟨ha, _, hs, _⟩ := lasting_fields (htcb t)
    rw [Sys.holds, ha, hs] at ho
    exact Or.inl ho
  | object i =>
    rw [Sys.holds, htable] at ho
    exact Or.inl ho
  | buffer i =>
    rw [Sys.holds, htable] at ho
    split at ho
    · rename_i huse
      have hne : (s.k.table i).ptr ≠ p := by
        rintro rfl
        obtain ⟨v, hv, _⟩ := hp (.object i) _ (by rw [Sys.holds, if_pos huse.1])
        cases hv
      left
      rw [Sys.holds, if_pos huse, ← bufferOf_of_shape (hshape _ hne)]
      exact ho
    · cases ho
  | newStack v =>
    by_cases hv : s'.pc v = s.pc v
    · rw [Sys.holds, hv] at ho
      exact Or.inl ho
    · exact Or.inr ⟨v, hv, Or.inl rfl⟩
  | newObject v =>
    by_cases hv : s'.pc v = s.pc v
    · rw [Sys.holds, hv] at ho
      exact Or.inl ho
    · exact Or.inr ⟨v, hv, Or.inr (Or.inl rfl)⟩
  | newBuffer v =>
    by_cases hv : s'.pc v = s.pc v
    · rw [Sys.holds, hv] at ho
      obtain ⟨a, ha, hx⟩ := Option.map_eq_some_iff.mp ho
      have hne : a ≠ p := by
        rintro rfl
        obtain ⟨v', hv', hmoved⟩ := hp (.newObject v) _ (newQueue_object ha)
        obtain rfl := Owner.newObject.inj hv'
        exact hmoved hv
      left
      rw [Sys.holds, ha, Option.map_some, ← bufferOf_of_shape (hshape a hne)]
      exact congrArg some hx
    · exact Or.inr ⟨v, hv, Or.inr (Or.inr rfl)⟩

theorem estate_fields (h : k'.estate = k.estate) : k'.heap = k.heap ∧ k'.table = k.table ∧
    k'.taskList = k.taskList ∧ (∀ t, (k'.tcb t).lasting = (k.tcb t).lasting) ∧
    ∀ a, (k'.queue a).shape = (k.queue a).shape :=
  ⟨(congrArg Prod.fst h :), (congrArg (fun x => x.2.1) h :), (congrArg (fun x => x.2.2.1) h :),
    congrFun (congrArg (fun x => x.2.2.2.1) h :), congrFun (congrArg (fun x => x.2.2.2.2) h :)⟩

end Frames

section Steps
variable {L : Layout} {s s' : Sys} {g : Ghost} {u t : Tid}

theorem Mapped.null (hL : L.heap.Placed) (h : Mapped L s) (o : Owner) (n : Nat) :
    s.holds o ≠ some (0, n) := by
  intro ho
  obtain ⟨b, hb, _⟩ := h.backed.block o 0 n ho
  exact hb.ne_null hL rfl

/-- A step that leaves the heap and everything in it alone. -/
theorem Mapped.still (hL : L.heap.Placed) (h : Mapped L s) (hk : s'.k.estate = s.k.estate)
    (hhand : ∀ v o x, s'.pc v ≠ s.pc v → o.Hand v → s'.holds o = some x → s.holds o = some x) :
    Mapped L s' := by
  obtain ⟨hheap, htable, hlists, htcb, hshape⟩ := estate_fields hk
  refine ⟨?_, h.stacked.keep hlists htcb⟩
  rw [hheap]
  refine h.backed.mono fun o x ho => ?_
  rcases holds_le htable htcb (fun a _ => hshape a) (fun o n hn => absurd hn (h.null hL o n)) ho
    with hold | ⟨v, hv, hvo⟩
  · exact hold
  · exact hhand v o x hv hvo ho

theorem Mapped.quiet (hL : L.heap.Placed) (h : Mapped L s) (hk : s'.k.estate = s.k.estate)
    (hpc : ∀ v, s'.pc v = s.pc v ∨ (s'.pc v).Bare) : Mapped L s' :=
  h.still hL hk fun v _ _ hv ho hx => absurd hx (((hpc v).resolve_left hv).empty ho)

theorem setPc_moved {k : Kernel} {log : List Event} {p : Pc} {v : Tid}
    (hv : ((⟨k, s.pc, log⟩ : Sys).setPc u p).pc v ≠ s.pc v) : v = u := by
  by_contra hne
  exact hv (Function.update_of_ne hne _ _)

theorem setPc_at (s : Sys) (u : Tid) (p : Pc) : (s.setPc u p).pc u = p := Function.update_self _ _ _

/-- A request of `u`, for the object at `p`, its buffer or a stack. -/
theorem Mapped.grow {heap : Heap} {o : Owner} {p q size : Nat} (hL : L.heap.Placed)
    (h : Mapped L s) (hready : Alloc.Ready L.heap s.k.heap)
    (hmalloc : malloc L s.k.heap size = some (heap, q)) (hheap : s'.k.heap = heap)
    (htable : s'.k.table = s.k.table) (hlists : s'.k.taskList = s.k.taskList)
    (htcb : ∀ t, (s'.k.tcb t).lasting = (s.k.tcb t).lasting)
    (hshape : ∀ a, a ≠ p → (s'.k.queue a).shape = (s.k.queue a).shape)
    (hp : ∀ o n, s.holds o = some (p, n) → ∃ v, o = .newObject v ∧ s'.pc v ≠ s.pc v)
    (hhand : ∀ v o' x, s'.pc v ≠ s.pc v → o'.Hand v → s'.holds o' = some x →
      s.holds o' = some x ∨ (o' = o ∧ q ≠ 0 ∧ x = (q, size))) : Mapped L s' := by
  refine ⟨?_, h.stacked.keep hlists htcb⟩
  rw [hheap]
  refine h.backed.malloc (x := o) hL hready hmalloc fun o' x ho' => ?_
  rcases holds_le htable htcb hshape hp ho' with hold | ⟨v, hv, hvo⟩
  · exact Or.inl hold
  · exact hhand v o' x hv hvo ho'

theorem HeapOwns.ready {h : Heap} {live : List Nat} (ho : HeapOwns L h live) :
    Alloc.Ready L.heap h := by
  rcases ho with ⟨hin, _⟩ | ⟨bs, hbs⟩
  · exact Or.inl hin
  · exact Or.inr ⟨bs, hbs.1⟩

/-- The block that a request returns is nobody's yet. -/
theorem Mapped.fresh {heap : Heap} {p size : Nat} (hL : L.heap.Placed) (h : Mapped L s)
    (hready : Alloc.Ready L.heap s.k.heap)
    (hmalloc : malloc L s.k.heap size = some (heap, p)) (o : Owner) (n : Nat) :
    s.holds o ≠ some (p, n) := by
  intro ho
  obtain ⟨b, hb, _⟩ := h.backed.block o p n ho
  exact ((malloc_live hL hready hmalloc).1 p b hb).2 rfl

theorem Mapped.create {c : Creation} {r : Ret} (hL : L.heap.Placed) (h : Mapped L s)
    (hg : Inv L s g) (hpc : s.pc u = .create c r) (hstep : s.go L u = some s') : Mapped L s' := by
  have hready := HeapOwns.ready hg.objects.heap
  simp only [Sys.go, hpc, Sys.create] at hstep
  obtain ⟨⟨k, p⟩, halloc, rfl⟩ := Option.map_eq_some_iff.mp hstep
  rcases alloc_cases halloc with ⟨rfl, rfl⟩ | ⟨heap, hmalloc, _, hk⟩
  · refine h.quiet hL ?_ fun v => finish_moved v
    change (Sys.finish _ u r _).k.estate = _
    rw [finish_k]
  by_cases hp : p = 0
  · subst hp
    rw [if_pos rfl] at hk
    subst hk
    simp only [if_true]
    refine h.grow (o := .newObject u) (p := 0) hL hready hmalloc ?_ ?_ ?_ ?_ ?_
      (fun o n hn => absurd hn (h.null hL o n)) fun v o x hv ho hx => ?_
    · rw [finish_k]
    · rw [finish_k]
    · rw [finish_k]
    · intro t
      rw [finish_k]
    · intro a _
      rw [finish_k]
    · exact absurd hx (((finish_moved v).resolve_left hv).empty ho)
  · rw [if_neg hp] at hk
    simp only [if_neg hp]
    subst hk
    obtain ⟨hiheap, hitable, hilists, hitcb, hiqueue⟩ :=
      Creation.init_frame { s.k with heap := heap } p c
    have hfresh := h.fresh hL hready hmalloc
    refine h.grow (o := .newObject u) (p := p) hL hready hmalloc ?_ ?_ ?_ ?_ ?_
      (fun o n hn => absurd hn (hfresh o n)) fun v o x hv ho hx => Or.inr ?_
    · cases c <;> exact hiheap
    · cases c <;> exact hitable
    · cases c <;> exact hilists
    · intro t
      have hthis := congrArg (fun f => (f t).lasting) hitcb
      cases c <;> exact hthis
    · intro a ha
      have hthis := congrArg Queue.shape (hiqueue a ha)
      cases c <;> exact hthis
    · cases c with
      | queue itemSize size =>
        obtain rfl := setPc_moved hv
        rcases ho with rfl | rfl | rfl
        · rw [Sys.holds, setPc_at] at hx
          cases hx
        · rw [Sys.holds, setPc_at] at hx
          exact ⟨rfl, hp, (Option.some.inj hx).symm⟩
        · rw [Sys.holds, setPc_at] at hx
          cases hx
      | _ =>
        obtain rfl := setPc_moved hv
        rcases ho with rfl | rfl | rfl
        · rw [Sys.holds, setPc_at] at hx
          cases hx
        · rw [Sys.holds, setPc_at] at hx
          exact ⟨rfl, hp, (Option.some.inj hx).symm⟩
        · rw [Sys.holds, setPc_at] at hx
          cases hx

/-- A queue keeps its own memory while it asks for its buffer. -/
theorem Mapped.queueBuffer {p : Nat} {r : Ret} {k : Kernel} {ok : Bool} (hL : L.heap.Placed)
    (h : Mapped L s) (hg : Inv L s g) (hpc : s.pc u = .queueBuffer p r)
    (hrun : queueInitBuffer L s.k p = some (k, ok)) :
    Mapped L ({ s with k := k }.setPc u (if ok then .publish p .queue r else .queueFree p r)) := by
  have hready := HeapOwns.ready hg.objects.heap
  have hold : s.holds (.newObject u) = some (p, KobjType.queue.bytes) := by
    rw [Sys.holds, hpc]
    rfl
  have hleave : ∀ b : Bool, (if b then Pc.publish p .queue r else .queueFree p r) ≠ s.pc u := by
    intro b
    rw [hpc]
    cases b <;> simp
  rcases queueInitBuffer_split hrun with ⟨rfl, rfl⟩ | ⟨heap, buffer, hmalloc, rfl, rfl⟩
  · refine h.still hL rfl fun v o x hv ho hx => ?_
    obtain rfl := setPc_moved hv
    rcases ho with rfl | rfl | rfl
    · rw [Sys.holds, setPc_at] at hx
      cases hx
    · rw [Sys.holds, setPc_at] at hx
      exact hold.trans hx
    · rw [Sys.holds, setPc_at] at hx
      cases hx
  · have hshape : ∀ a, a ≠ p → (({ s.k with heap := heap }.setQueue p
        { s.k.queue p with buffer := buffer }).queue a).shape = (s.k.queue a).shape :=
      fun a ha => congrArg Queue.shape (Function.update_of_ne ha _ _)
    refine h.grow (o := .newBuffer u) (p := p) hL hready hmalloc rfl rfl rfl
      (fun _ => rfl) hshape (fun o n ho => ⟨u, h.backed.single _ _ p n _ ho hold, by
        rw [setPc_at]
        exact hleave _⟩) fun v o x hv ho hx => ?_
    obtain rfl := setPc_moved hv
    cases hok : buffer != 0 with
    | false =>
      rw [hok] at hx
      rcases ho with rfl | rfl | rfl
      · rw [Sys.holds, setPc_at] at hx
        cases hx
      · rw [Sys.holds, setPc_at] at hx
        exact Or.inl (hold.trans hx)
      · rw [Sys.holds, setPc_at] at hx
        cases hx
    | true =>
      rw [hok] at hx hrun
      rcases ho with rfl | rfl | rfl
      · rw [Sys.holds, setPc_at] at hx
        cases hx
      · rw [Sys.holds, setPc_at] at hx
        exact Or.inl (hold.trans hx)
      · -- the product has not wrapped around
        have hshaped : ∃ q : Queue, q.Shaped ∧ q.itemSize = (s.k.queue p).itemSize ∧
            q.slots = (s.k.queue p).slots := by
          rcases queueInitBuffer_cases hrun (hg.objects.drafts v p r hpc) with ⟨hno, _⟩ |
            ⟨_, _, _, _, heq, hmade⟩
          · cases hno
          · refine ⟨_, (hmade rfl).2, ?_, ?_⟩ <;> rw [heq] <;> simp [Kernel.setQueue]
        obtain ⟨q, hq, hitem, hslots⟩ := hshaped
        have hfits := hq.fits
        rw [hitem, hslots] at hfits
        rw [Sys.holds, setPc_at] at hx
        refine Or.inr ⟨rfl, by simpa using hok, (Option.some.inj hx).symm.trans ?_⟩
        rw [wrap_of_lt hfits]
        simp [Kernel.bufferOf, Sys.setPc, Kernel.setQueue]

theorem Mapped.queueFree {p : Nat} {r : Ret} {k : Kernel} (hL : L.heap.Placed) (h : Mapped L s)
    (hpc : s.pc u = .queueFree p r) (hrun : Crest.queueFree L s.k p = some k) :
    Mapped L ({ s with k := k }.finish u r kobjInvalid) := by
  have hold : s.holds (.newObject u) = some (p, KobjType.queue.bytes) := by
    rw [Sys.holds, hpc]
    rfl
  obtain ⟨heap, hfree, rfl⟩ := Option.map_eq_some_iff.mp hrun
  have hk : ({ s with k := { s.k with heap := heap } }.finish u r kobjInvalid).k =
      { s.k with heap := heap } := finish_k _ u r _
  constructor
  · rw [hk]
    refine h.backed.free hL hold hfree fun o x ho => ?_
    have hle := holds_le (s := s) (p := 0) (by rw [hk]) (fun t => by rw [hk])
      (fun a _ => by rw [hk]) (fun o n hn => absurd hn (h.null hL o n)) ho
    rcases hle with hthis | ⟨v, hv, hvo⟩
    · refine ⟨hthis, ?_⟩
      rintro rfl
      exact (finish_bare _ u r _).empty (Or.inr (Or.inl rfl)) ho
    · exact absurd ho (((finish_moved v).resolve_left hv).empty hvo)
  · rw [hk]
    exact h.stacked.keep rfl fun _ => rfl

/-- The object in hand, with its buffer, goes to the slot that is found. -/
theorem Mapped.publish {p : Nat} {type : KobjType} {r : Ret} (hL : L.heap.Placed)
    (h : Mapped L s) (hpc : s.pc u = .publish p type r) :
    Mapped L ({ s with k := (kObjAlloc s.k p type).1 }.finish u r (kObjAlloc s.k p type).2) := by
  rcases kObjAlloc_cases s.k p type with hk | ⟨i, _, hk⟩
  · rw [hk]
    refine h.quiet hL ?_ fun v => finish_moved v
    rw [finish_k]
  · rw [hk]
    generalize (kObjAlloc s.k p type).2 = handle
    have hhand := fun o x => (finish_bare ({ s with k := s.k.enlist i p type }) u r handle).empty
      (o := o) (x := x)
    have hmoved : ∀ v,
        (({ s with k := s.k.enlist i p type } : Sys).finish u r handle).pc v = s.pc v ∨
          ((({ s with k := s.k.enlist i p type } : Sys).finish u r handle).pc v).Bare :=
      fun v => finish_moved v
    have hk' := finish_k { s with k := s.k.enlist i p type } u r handle
    set s' := ({ s with k := s.k.enlist i p type } : Sys).finish u r handle with hs'
    have hslot : s'.k.table i = ⟨p, type, true, nextGen (s.k.table i).gen⟩ := by
      rw [hk']
      exact Function.update_self _ _ _
    have hother : ∀ j, j ≠ i → s'.k.table j = s.k.table j := by
      intro j hj
      rw [hk']
      exact Function.update_of_ne hj _ _
    have hbuffer : s'.k.bufferOf = s.k.bufferOf := by
      rw [hk']
      rfl
    refine ⟨?_, ?_⟩
    swap
    · rw [hk']
      exact h.stacked.keep rfl fun _ => rfl
    have hheap : s'.k.heap = s.k.heap := by rw [hk']; rfl
    rw [hheap]
    refine h.backed.moved (fun o => if o = .object i then .newObject u
      else if o = .buffer i then .newBuffer u else o) (fun o x ho => ?_) fun y z v w hy hz heq => ?_
    · cases o with
      | stack t =>
        rw [if_neg (by simp), if_neg (by simp)]
        rw [Sys.holds, hk'] at ho
        exact ho
      | object j =>
        by_cases hj : j = i
        · subst hj
          rw [if_pos rfl, Sys.holds, hpc]
          rw [Sys.holds, hslot] at ho
          exact ho
        · rw [if_neg (by simp [hj]), if_neg (by simp)]
          rw [Sys.holds, hother j hj] at ho
          exact ho
      | buffer j =>
        by_cases hj : j = i
        · subst hj
          rw [if_neg (by simp), if_pos rfl, Sys.holds, hpc]
          rw [Sys.holds, hslot, hbuffer] at ho
          cases type with
          | queue => exact ho
          | sem => cases ho
          | mutex => cases ho
        · rw [if_neg (by simp), if_neg (by simp [hj])]
          rw [Sys.holds, hother j hj, hbuffer] at ho
          exact ho
      | newStack v =>
        rw [if_neg (by simp), if_neg (by simp)]
        rcases hmoved v with hsame | hbare
        · rw [Sys.holds, hsame] at ho
          exact ho
        · exact absurd ho (hbare.empty (Or.inl rfl))
      | newObject v =>
        rw [if_neg (by simp), if_neg (by simp)]
        rcases hmoved v with hsame | hbare
        · rw [Sys.holds, hsame] at ho
          exact ho
        · exact absurd ho (hbare.empty (Or.inr (Or.inl rfl)))
      | newBuffer v =>
        rw [if_neg (by simp), if_neg (by simp)]
        rcases hmoved v with hsame | hbare
        · rw [Sys.holds, hsame, hbuffer] at ho
          exact ho
        · exact absurd ho (hbare.empty (Or.inr (Or.inr rfl)))
    · -- what was in hand is in hand no more
      have hobject : ∀ {o x}, s'.holds o = some x → o ≠ .newObject u := by
        rintro o x ho rfl
        exact hhand _ x (Or.inr (Or.inl rfl)) ho
      have hqueue : ∀ {o x}, s'.holds o = some x → o ≠ .newBuffer u := by
        rintro o x ho rfl
        exact hhand _ x (Or.inr (Or.inr rfl)) ho
      split_ifs at heq with h1 h2 h3 h4 h5 h6 h7 h8
      · exact h1.trans h2.symm
      · exact absurd heq.symm (hobject hz)
      · exact h4.trans h6.symm
      · exact absurd heq.symm (hqueue hz)
      · exact absurd heq (hobject hy)
      · exact absurd heq (hqueue hy)
      · exact heq

theorem Mapped.spawnStack {args : TaskArgs} {heap : Heap} {alloc : Nat} (hL : L.heap.Placed)
    (h : Mapped L s) (hg : Inv L s g) (hpc : s.pc u = .spawnStack t args)
    (hrun : malloc L s.k.heap (stackAllocSize (nextPowerOfTwo args.stackSize)) =
      some (heap, alloc)) :
    Mapped L ({ s with k := { s.k with heap := heap } }.setPc u
      (if alloc = 0 then .spawnFree t else .spawnAdd t alloc args)) := by
  have hready := HeapOwns.ready hg.objects.heap
  refine h.grow (o := .newStack u) (p := 0) hL hready hrun rfl rfl rfl (fun _ => rfl)
    (fun _ _ => rfl) (fun o n hn => absurd hn (h.null hL o n)) fun v o x hv ho hx => Or.inr ?_
  obtain rfl := setPc_moved hv
  by_cases hnull : alloc = 0
  · rcases ho with rfl | rfl | rfl
    · rw [Sys.holds, setPc_at, if_pos hnull] at hx
      cases hx
    · rw [Sys.holds, setPc_at, if_pos hnull] at hx
      cases hx
    · rw [Sys.holds, setPc_at, if_pos hnull] at hx
      cases hx
  · rcases ho with rfl | rfl | rfl
    · rw [Sys.holds, setPc_at, if_neg hnull] at hx
      exact ⟨rfl, hnull, (Option.some.inj hx).symm⟩
    · rw [Sys.holds, setPc_at, if_neg hnull] at hx
      cases hx
    · rw [Sys.holds, setPc_at, if_neg hnull] at hx
      cases hx

/-- A new task of `k`, with the stack at `alloc`, and nothing new in the rest of the heap. -/
theorem addTask_holds {s' : Sys} {alloc : Nat} {args : TaskArgs} (halloc : alloc ≠ 0)
    (hk : s'.k = schedulerAddTask (initTcb s.k t alloc args) t)
    (hpc : ∀ v, s'.pc v = s.pc v ∨ (s'.pc v).Bare) {o : Owner} {x : Nat × Nat}
    (ho : s'.holds o = some x) :
    (o = .stack t ∧ x = (alloc, stackAllocSize (nextPowerOfTwo args.stackSize))) ∨
      (o ≠ .stack t ∧ s.holds o = some x ∧ ∀ v, o.Hand v → s'.pc v = s.pc v) := by
  cases o with
  | stack y =>
    have hlast := addTask_lasting s.k t alloc args y
    rw [← hk] at hlast
    by_cases hy : y = t
    · subst hy
      rw [if_pos rfl] at hlast
      have ha : (s'.k.tcb y).stackAlloc = alloc := (congrArg Prod.fst hlast :)
      have hs : (s'.k.tcb y).stackSize = nextPowerOfTwo args.stackSize :=
        (congrArg (fun x => x.2.2.1) hlast :)
      rw [Sys.holds, ha, hs, if_neg halloc] at ho
      exact Or.inl ⟨rfl, (Option.some.inj ho).symm⟩
    · rw [if_neg hy] at hlast
      obtain ⟨ha, _, hs, _⟩ := lasting_fields hlast
      rw [Sys.holds, ha, hs] at ho
      refine Or.inr ⟨by simp [hy], ho, ?_⟩
      rintro v (hv | hv | hv) <;> cases hv
  | object i =>
    rw [Sys.holds, hk] at ho
    refine Or.inr ⟨by simp, ho, ?_⟩
    rintro v (hv | hv | hv) <;> cases hv
  | buffer i =>
    rw [Sys.holds, hk] at ho
    refine Or.inr ⟨by simp, ho, ?_⟩
    rintro v (hv | hv | hv) <;> cases hv
  | newStack v =>
    rcases hpc v with hsame | hbare
    · rw [Sys.holds, hsame] at ho
      refine Or.inr ⟨by simp, ho, ?_⟩
      rintro w (hw | hw | hw) <;> cases hw
      exact hsame
    · exact absurd ho (hbare.empty (Or.inl rfl))
  | newObject v =>
    rcases hpc v with hsame | hbare
    · rw [Sys.holds, hsame] at ho
      refine Or.inr ⟨by simp, ho, ?_⟩
      rintro w (hw | hw | hw) <;> cases hw
      exact hsame
    · exact absurd ho (hbare.empty (Or.inr (Or.inl rfl)))
  | newBuffer v =>
    rcases hpc v with hsame | hbare
    · rw [Sys.holds, hsame, hk] at ho
      refine Or.inr ⟨by simp, ho, ?_⟩
      rintro w (hw | hw | hw) <;> cases hw
      exact hsame
    · exact absurd ho (hbare.empty (Or.inr (Or.inr rfl)))

theorem Mapped.spawnAdd {alloc : Nat} {args : TaskArgs} (hL : L.heap.Placed) (h : Mapped L s)
    (hg : Inv L s g) (hpc : s.pc u = .spawnAdd t alloc args) :
    Mapped L (({ s with k := schedulerAddTask (initTcb s.k t alloc args) t }.setPc t
      .app).finish u .app 0) := by
  have hold : s.holds (.newStack u) =
      some (alloc, stackAllocSize (nextPowerOfTwo args.stackSize)) := by
    rw [Sys.holds, hpc]
    rfl
  have halloc : alloc ≠ 0 := by
    rintro rfl
    exact h.null hL _ _ hold
  have hfits := hg.coded.pcs u
  rw [hpc] at hfits
  have hself := finish_bare ({ s with k := schedulerAddTask (initTcb s.k t alloc args) t }.setPc t
    .app) u .app 0
  have hk := finish_k ({ s with k := schedulerAddTask (initTcb s.k t alloc args) t }.setPc t
    .app) u .app 0
  have hmoved : ∀ v, ((({ s with k := schedulerAddTask (initTcb s.k t alloc args) t }.setPc t
      .app).finish u .app 0).pc v = s.pc v) ∨ ((({ s with
        k := schedulerAddTask (initTcb s.k t alloc args) t }.setPc t .app).finish u .app 0).pc
          v).Bare := by
    intro v
    by_cases hv : v = u
    · rw [hv]
      exact Or.inr hself
    · rw [finish_pc _ _ _ hv]
      by_cases hvt : v = t
      · rw [hvt, setPc_at]
        exact Or.inr ⟨rfl, rfl, rfl⟩
      · exact Or.inl (Function.update_of_ne hvt _ _)
  generalize (({ s with k := schedulerAddTask (initTcb s.k t alloc args) t }.setPc t
    .app).finish u .app 0) = s' at hself hk hmoved ⊢
  constructor
  · have hheap : s'.k.heap = s.k.heap := by
      rw [hk]
      rfl
    rw [hheap]
    refine h.backed.moved (fun o => if o = .stack t then .newStack u else o)
      (fun o x ho => ?_) fun y z v w hy hz heq => ?_
    · rcases addTask_holds halloc hk hmoved ho with ⟨rfl, rfl⟩ | ⟨hne, hthis, _⟩
      · rw [if_pos rfl]
        exact hold
      · rw [if_neg hne]
        exact hthis
    · have hgone : ∀ {o x}, s'.holds o = some x → o ≠ .newStack u := by
        rintro o x ho rfl
        exact hself.empty (Or.inl rfl) ho
      split_ifs at heq with h1 h2 h3
      · exact h1.trans h2.symm
      · exact absurd heq.symm (hgone hz)
      · exact absurd heq (hgone hy)
      · exact heq
  · rw [hk]
    exact h.stacked.add hfits.2 halloc

theorem Mapped.go (hL : L.heap.Placed) (h : Mapped L s) (hg : Inv L s g)
    (hstep : s.go L u = some s') : Mapped L s' := by
  rcases go_estate hstep with halloc | ⟨hk, hself⟩
  · have hno : (s.pc u).allocates = false → Mapped L s' := by
      intro hfalse
      rw [halloc] at hfalse
      cases hfalse
    cases go_cases hstep with
    | create c r s' hpc hrun => exact h.create hL hg hpc hstep
    | queueBuffer p r k ok hpc hrun => exact h.queueBuffer hL hg hpc hrun
    | queueFree p r k hpc hrun => exact h.queueFree hL hpc hrun
    | publish p type r hpc => exact h.publish hL hpc
    | spawnStack t args heap alloc hpc hrun => exact h.spawnStack hL hg hpc hrun
    | spawnAdd t alloc args hpc => exact h.spawnAdd hL hg hpc
    | popNone hpc hpop => exact hno (by rw [hpc]; rfl)
    | popSome k item hpc hpop => exact hno (by rw [hpc]; rfl)
    | spawnNone args hpc hfree => exact hno (by rw [hpc]; rfl)
    | spawnTcb args k t hpc hfree => exact hno (by rw [hpc]; rfl)
    | _ =>
      rename_i hpc
      exact hno (by rw [hpc]; rfl)
  · refine h.quiet hL hk fun v => ?_
    by_cases hv : v = u
    · rw [hv]
      exact Or.inr hself
    · refine (go_pc_other hstep hv).imp_right fun happ => ?_
      rw [happ]
      exact ⟨rfl, rfl, rfl⟩

/-- Any step of the system. -/
theorem Mapped.step {l : Label} (hL : L.heap.Placed) (h : Mapped L s) (hg : Inv L s g)
    (hstep : s.step L l = some s') : Mapped L s' := by
  obtain ⟨_, htick⟩ | ⟨oldSp, k, _, _, hrun, rfl⟩ | ⟨u, _, _, hthread⟩ := step_cases hstep
  · rw [htick]
    refine h.quiet hL ?_ fun v => Or.inl (congrFun (sysTick_frame s).1 v)
    rw [sysTick_k]
    exact estate_sysTickHandler s.k
  · exact h.quiet hL (estate_switch hrun) fun _ => Or.inl rfl
  · cases l with
    | tick => cases hthread
    | pendSV oldSp => cases hthread
    | svc id a0 a1 a2 a3 =>
      rw [Sys.thread] at hthread
      split at hthread
      · obtain rfl := Option.some.inj hthread
        refine h.quiet hL (estate_svcHandler _ _) fun v => ?_
        by_cases hv : v = u
        · subst hv
          exact Or.inr (setPc_bare ⟨rfl, rfl, rfl⟩)
        · exact Or.inl (Function.update_of_ne hv _ _)
      · cases hthread
    | call c =>
      rw [Sys.thread] at hthread
      split at hthread
      · obtain rfl := Option.some.inj hthread
        exact h.quiet hL (call_estate s u c).1 (call_estate s u c).2
      · cases hthread
    | compute r0 ram =>
      rw [Sys.thread] at hthread
      split at hthread
      · obtain rfl := Option.some.inj hthread
        exact h.quiet hL rfl fun _ => Or.inl rfl
      · cases hthread
    | go => exact h.go hL hg hthread

end Steps

section Boot
variable {L : Layout} {s s' : Sys} {g : Ghost}

theorem mapped_reset (L : Layout) (heapMem ram : Memory) : Mapped L (Sys.reset heapMem ram) := by
  have hnone : ∀ o x, (Sys.reset heapMem ram).holds o ≠ some x := by
    intro o x ho
    cases o <;> cases ho
  refine ⟨⟨fun o p n ho => absurd ho (hnone o _), fun o _ p n _ ho _ => absurd ho (hnone o _)⟩,
    ⟨fun t ht => absurd rfl ht, fun pr t ht => ?_, fun x t ht => ?_⟩⟩
  · cases ht
  · cases ht

/-- `task_create` from `main`: a stack more, or nothing. -/
theorem Mapped.task {task : Entry × TaskArgs} (hL : L.heap.Placed) (h : Mapped L s)
    (hg : Booting L s g) (hstep : s.bootTask L task = some s') : Mapped L s' := by
  obtain ⟨entry, args⟩ := task
  have hready := HeapOwns.ready hg.heap
  obtain ⟨⟨k, created⟩, hcreate, rfl⟩ := Option.map_eq_some_iff.mp hstep
  rcases taskCreate_cases hcreate with ⟨_, rfl, rfl⟩ |
    ⟨t, heap, alloc, hacc, _, hmalloc, ⟨_, rfl, rfl⟩ | ⟨halloc, rfl, rfl⟩⟩
  · exact h
  · exact h.grow (o := .object 0) (p := 0) hL hready hmalloc rfl rfl rfl (fun _ => rfl)
      (fun _ _ => rfl) (fun o n hn => absurd hn (h.null hL o n)) fun v _ _ hv => absurd rfl hv
  · have hentry : entry.pc.Bare := by cases entry <;> exact ⟨rfl, rfl, rfl⟩
    constructor
    · have hmoved : ∀ v, (Function.update s.pc t entry.pc v = s.pc v) ∨
          (Function.update s.pc t entry.pc v).Bare := by
        intro v
        by_cases hv : v = t
        · subst hv
          rw [Function.update_self]
          exact Or.inr hentry
        · exact Or.inl (Function.update_of_ne hv _ _)
      refine h.backed.malloc (x := .stack t) hL hready hmalloc fun o x ho => ?_
      rcases addTask_holds (s := { s with k := { s.k with
          heap := heap
          tcbUsed := Function.update s.k.tcbUsed t true } }) halloc rfl hmoved ho with
        ⟨rfl, rfl⟩ | ⟨_, hthis, _⟩
      · exact Or.inr ⟨rfl, halloc, rfl⟩
      · exact Or.inl hthis
    · refine Kernel.Stacked.add (k := { s.k with
          heap := heap
          tcbUsed := Function.update s.k.tcbUsed t true }) ?_ hacc halloc
      exact h.stacked.keep rfl fun _ => rfl

theorem Sys.Started.mapped (hL : L.heap.Placed) (h : s.Started L) : Mapped L s := by
  obtain ⟨heapMem, ram, tasks, s₁, hboot, hstart, _⟩ := h
  have hboth := bootTasks_induction (P := fun s => Mapped L s ∧ ∃ g, Booting L s g)
    (fun s task s' hs hl => by
      obtain ⟨hmap, g, hg⟩ := hs
      obtain ⟨g', hg', _⟩ := hg.task hL hl
      exact ⟨hmap.task hL hg hl, g', hg'⟩)
    ⟨mapped_reset L heapMem ram, _, booting_reset L heapMem ram 0⟩ hboot
  obtain ⟨⟨k, first⟩, hnext, rfl⟩ := Option.map_eq_some_iff.mp hstart
  obtain ⟨pr, c, rfl⟩ := schedulerGetNext_cursor hnext
  refine hboth.1.quiet hL ?_ fun _ => Or.inl rfl
  have hset : (({ s₁.k with rrCurrent := Function.update s₁.k.rrCurrent pr (some c) } :
      Kernel).setTcb first fun tcb => { tcb with state := .running }).estate = s₁.k.estate :=
    estate_setTcb rfl
  exact Eq.trans rfl hset

end Boot

section Memory
variable {P : Placement} {L : Layout} {s s' : Sys} {g : Ghost} {l : Label} {u : Tid} {q : Nat}

theorem Mapped.withRam (h : Mapped L s) (m : Memory) : Mapped L (s.withRam m) := by
  have hholds : (s.withRam m).holds = s.holds := by
    funext o
    cases o <;> rfl
  refine ⟨?_, ⟨h.stacked.1, h.stacked.2, h.stacked.3⟩⟩
  rw [hholds]
  exact h.backed

theorem filling_object (h : s.filling u = some q) : (s.pc u).object = some (q, .queue) := by
  have hpush : ∀ {op : Op} {r : Ret}, (s.pc u).passes = some (op, r) →
      op.object = some (q, .queue) := by
    intro op r hpasses
    rw [Sys.filling, hpasses] at h
    cases op with
    | queuePush q' item ms =>
      simp only [Option.ite_none_right_eq_some, Option.some.injEq] at h
      obtain ⟨_, rfl⟩ := h
      rfl
    | _ => cases h
  cases hpc : s.pc u with
  | enter op r => exact hpush (by rw [hpc]; rfl)
  | retry op r => exact hpush (by rw [hpc]; rfl)
  | _ =>
    rw [Sys.filling, hpc] at h
    cases h

/-- A queue whose buffer was asked for without a wrap has it, with all its slots. -/
theorem Mapped.slotHeld (h : Mapped L s) (hg : Inv L s g) (ht : Tabled s)
    (hq : s.filling u = some q)
    (hsmall : (s.k.queue q).itemSize * ((s.k.queue q).size + 1) + 15 < 2 ^ 32) :
    s.k.SlotHeld L q := by
  have hobject := filling_object hq
  obtain ⟨i, huse, hptr, htype⟩ := ht u q .queue hobject
  have hshaped := hg.objects.shaped q (hg.objects.refs u q .queue hobject)
  have hholds : s.holds (.buffer i) = some (s.k.bufferOf q) := by
    rw [Sys.holds, if_pos ⟨huse, htype⟩, hptr]
  have hslots : (s.k.queue q).slots = (s.k.queue q).size + 1 := by
    rw [hshaped.slots]
    refine wrap_of_lt ?_
    have hle := Nat.le_mul_of_pos_left ((s.k.queue q).size + 1) hshaped.item
    omega
  obtain ⟨m, hm, hroom⟩ := h.backed.block _ _ _ hholds
  rw [hslots] at hroom
  have hslot := Nat.mul_le_mul_left (s.k.queue q).itemSize (Nat.succ_le_of_lt hshaped.tail)
  rw [hslots] at hslot
  exact ⟨m, hm, (Nat.add_le_add_right hslot _).trans (hroom hsmall)⟩

theorem Mapped.not_strays (h : Mapped L s) (hg : Inv L s g) (ht : Tabled s)
    (htame : s.Tame P L l) : ¬ s.Strays P L l := by
  rintro (⟨c, x, hstored, hnot, _⟩ | ⟨hgo, q, hq, hnot⟩)
  · exact hnot (htame.stores c x hstored)
  · obtain ⟨v, _, hfill⟩ := Option.bind_eq_some_iff.mp hq
    exact hnot (h.slotHeld hg ht hfill (htame.queues hgo q hq))

/-- In one memory, a tame step is the system's own, whatever the RAM holds behind it. -/
theorem Mapped.tame_moves (h : Mapped L s) (hg : Inv L s g) (ht : Tabled s) (htame : s.Tame P L l)
    (hmoves : s.Moves P L l s') : ∃ t m, s.step L l = some t ∧ s' = t.withRam m := by
  cases hmoves with
  | keeps t m hstep hm =>
    rw [htame.reload]
    exact ⟨t, m, hstep, rfl⟩
  | strays t s' hstep hstrays => exact absurd hstrays (h.not_strays hg ht htame)

/-- What holds at the start and is kept by every step, whatever the RAM holds, holds in every
state that tame steps lead to. -/
theorem Sys.TameReached.induction {Q : Sys → Prop} (hL : L.heap.Placed)
    (hstart : ∀ s, s.Started L → Q s)
    (hstep : ∀ s g l s' m, Inv L s g → Q s → s.step L l = some s' → Q (s'.withRam m))
    (h : s.TameReached P L) : Q s ∧ (∃ g, Inv L s g) ∧ Mapped L s := by
  obtain ⟨s₀, hs₀, hsteps⟩ := h
  have hall : Q s ∧ (∃ g, Inv L s g) ∧ Mapped L s ∧ Tabled s := by
    induction hsteps with
    | refl => exact ⟨hstart s₀ hs₀, hs₀.inv hL, hs₀.mapped hL, hs₀.tabled⟩
    | tail _ hlast ih =>
      obtain ⟨hQ, ⟨g, hg⟩, hmap, htab⟩ := ih
      obtain ⟨l, htame, hmoves⟩ := hlast
      obtain ⟨t, m, hrun, rfl⟩ := hmap.tame_moves hg htab htame hmoves
      obtain ⟨g', hg', _⟩ := hg.step hL hrun
      exact ⟨hstep _ g l t m hg hQ hrun, ⟨g', hg'.withRam m⟩, (hmap.step hL hg hrun).withRam m,
        (htab.step hrun : Tabled t)⟩
  exact ⟨hall.1, hall.2.1, hall.2.2.1⟩

theorem Sys.TameReached.sound (hL : L.heap.Placed) (h : s.TameReached P L) :
    (∃ g, Inv L s g) ∧ Mapped L s :=
  (h.induction (Q := fun _ => True) hL (fun _ _ => trivial) fun _ _ _ _ _ _ _ _ => trivial).2

end Memory

section Map
variable {L : Layout} {s : Sys} {t : Tid}

/-- A task that a run list leads to has a stack. -/
theorem Kernel.Stacked.onList {k : Kernel} {pr : Nat} {l : List Tid} (h : k.Stacked)
    (hl : Linked k.next (k.taskList pr) l) (ht : t ∈ l) : (k.tcb t).stackAlloc ≠ 0 := by
  have hall : ∀ (l : List Tid) (a : Option Tid), (∀ x, a = some x → (k.tcb x).stackAlloc ≠ 0) →
      Linked k.next a l → ∀ x ∈ l, (k.tcb x).stackAlloc ≠ 0 := by
    intro l
    induction l with
    | nil => exact fun _ _ _ x hx => by cases hx
    | cons y ys ih =>
      intro a ha hlinked x hx
      obtain ⟨rfl, hrest⟩ := linked_cons.mp hlinked
      rcases List.mem_cons.mp hx with rfl | hin
      · exact ha x rfl
      · exact ih _ (fun z hz => h.links y z hz) hrest x hin
  exact hall l _ (fun x hx => h.heads pr x hx) hl t ht

/-- Guard and stack lie in the block that was allocated for them. -/
theorem Mapped.stackIn (hL : L.heap.Placed) (h : Mapped L s) (ht : (s.k.tcb t).stackAlloc ≠ 0) :
    s.holds (.stack t) = some ((s.k.tcb t).stackAlloc, stackAllocSize (s.k.tcb t).stackSize) ∧
      stackAllocSize (s.k.tcb t).stackSize + 15 < 2 ^ 32 ∧
      (s.k.tcb t).stackAlloc + portStackGuardSize ≤ (s.k.tcb t).stackBase ∧
      (s.k.tcb t).stackBase + (s.k.tcb t).stackSize ≤
        (s.k.tcb t).stackAlloc + stackAllocSize (s.k.tcb t).stackSize ∧
      (s.k.tcb t).stackBase % (s.k.tcb t).stackSize = 0 := by
  obtain ⟨⟨n, hlo, hhi, hsize⟩, hbase⟩ := h.stacked.laidOut t ht
  have hholds : s.holds (.stack t) =
      some ((s.k.tcb t).stackAlloc, stackAllocSize (s.k.tcb t).stackSize) := by
    rw [Sys.holds, if_neg ht]
  have hn : 2 ^ n ≤ 512 := Nat.pow_le_pow_right (by decide) hhi
  have hsum : stackAllocSize (2 ^ n) = 2 ^ n + 256 + (2 ^ n - 1) := rfl
  obtain ⟨m, hm, hroom⟩ := h.backed.block _ _ _ hholds
  obtain ⟨hlow, hhigh, _, _⟩ := hm.inside hL
  have hstop := hL.stopLt
  rw [hsize] at hroom hbase ⊢
  have hroom' := hroom (by omega)
  simp only [headerSize] at hlow hhigh
  obtain ⟨hmod, hguard, hfit⟩ := stackBaseFor_spec
    (show (s.k.tcb t).stackAlloc + stackAllocSize (2 ^ n) < 2 ^ 32 by omega)
  rw [hbase]
  rw [hsize] at hholds
  exact ⟨hholds, by omega, hguard, hfit, hmod⟩

end Map

end Crest
