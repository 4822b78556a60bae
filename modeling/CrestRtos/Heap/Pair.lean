import CrestRtos.Heap.Requests

/-!
# Two heaps in one memory

The kernel heap begins where the user heap ends. Each allocator reads and writes
headers inside its own region only, so that calls in any order do to each heap what
its own calls alone would do. A pointer of one heap that is passed to the `free` of
the other one has its header in the wrong region, and nothing happens.
-/

namespace Alloc
open ByteMemory MachineWord BlockList Transition

/-- Memory outside `R` is the same. -/
def Region.Spares (R : Region) (m m' : Memory) : Prop :=
  ∀ x, x < R.start ∨ R.stop ≤ x → m' x = m x

section Frames
variable {R : Region} {h h' : Heap} {bs : List Block} {size prev hdr v x : Nat}

theorem Region.Spares.refl (R : Region) (m : Memory) : R.Spares m m := fun _ _ => rfl

theorem setSize_mem (hx : x < hdr ∨ hdr + 4 ≤ x) : (h.setSize hdr v).mem x = h.mem x :=
  write32_of_outside _ hx

theorem setNext_mem (hx : x < hdr + 4 ∨ hdr + 8 ≤ x) : (h.setNext hdr v).mem x = h.mem x :=
  write32_of_outside _ hx

theorem link_mem (hx : prev = 0 ∨ x < prev + 4 ∨ prev + 8 ≤ x) :
    (h.link prev v).mem x = h.mem x := by
  rw [Heap.link]
  split
  · exact setNext_mem (hx.resolve_left ‹_›)
  · rfl

theorem mergeNext_mem (hx : x < hdr ∨ hdr + 8 ≤ x) : (mergeNext h hdr).mem x = h.mem x := by
  rw [mergeNext]
  dsimp only
  split
  · rw [setNext_mem (by omega), setSize_mem (by omega)]
  · rfl

theorem mergePrev_mem (hx : prev = 0 ∨ x < prev ∨ prev + 8 ≤ x) :
    (mergePrev h prev hdr).mem x = h.mem x := by
  rw [mergePrev]
  split
  · rename_i hmerge
    have hout := hx.resolve_left hmerge.1
    dsimp only
    rw [setNext_mem (by omega), setSize_mem (by omega)]
  · rfl

/-- The last free block of a segment lies in the segment. -/
theorem lastFree_bounds {a : Nat} {xs : List Block} (hs : Sized 16 8 xs) :
    lastFree a 0 xs = 0 ∨ (a ≤ lastFree a 0 xs ∧ lastFree a 0 xs + 16 ≤ a + extent xs) := by
  rcases lastFree_split xs with hall | ⟨us, s, vs, rfl, hvs⟩
  · exact Or.inl (lastFree_of_live hall)
  · have hb := (sized_cons.mp (sized_append.mp hs).2).1
    rw [lastFree_append_free hvs]
    simp only [extent_append, extent] at hb ⊢
    omega

theorem heapInit_spares (hR : R.Placed) (h : Heap) : R.Spares h.mem (heapInit R h).mem := by
  intro x hx
  have hroom := hR.room
  rw [heapInit, hR.heapStart, if_neg (by omega)]
  dsimp only
  rw [setNext_mem (by dsimp only [Heap.setSize]; omega), setSize_mem (by omega)]

/-- A request writes headers and links of the region. -/
theorem malloc_spares {p : Nat} (hR : R.Placed) (ht : Tiled R h bs)
    (hrun : firstFitMalloc R h size = some (h', p)) : R.Spares h.mem h'.mem := by
  by_cases hsize : size = 0
  · rw [firstFitMalloc, if_pos hsize] at hrun
    obtain ⟨rfl, _⟩ := Prod.mk.inj (Option.some.inj hrun)
    exact .refl R _
  obtain ⟨hleast, _, _⟩ := blockNeed_spec size
  have hspan := ht.span
  have hstop := hR.stopLt
  have hpos := hR.pos
  rcases searchFit_spec (blockNeed size) ht.sized hpos ht.laid 0 (loopBound R)
      (ht.length_lt_loopBound hR) with ⟨xs, s, ys, rfl, hfit, _, hsearch⟩ | ⟨_, hsearch⟩
  · obtain ⟨hx, hbody⟩ := sized_append.mp ht.sized
    obtain ⟨hs, _⟩ := sized_cons.mp hbody
    simp only [extent_append, extent] at hspan hs
    have hread := (laid_at_free hs.2 ht.laid ht.head).2.2.1
    have hprev := lastFree_bounds (a := R.start) hx
    rw [firstFitMalloc_of_search hsize ht.inited (ht.head ▸ hsearch), if_neg (by omega)] at hrun
    obtain ⟨rfl, _⟩ := Prod.mk.inj (Option.some.inj hrun)
    intro x hout
    rw [takeBlock, hread]
    dsimp only
    split
    · rename_i hsplit
      have hnext : wrap (R.start + extent xs + blockNeed size) =
          R.start + extent xs + blockNeed size := wrap_of_lt (by omega)
      simp only [minBlockSize, headerSize, align] at hsplit
      rw [hnext, setSize_mem (by omega), link_mem (by omega), setNext_mem (by omega),
        setSize_mem (by omega)]
    · rw [setSize_mem (by omega), link_mem (by omega)]
  · rw [firstFitMalloc_of_search hsize ht.inited (ht.head ▸ hsearch), if_pos rfl] at hrun
    obtain ⟨rfl, _⟩ := Prod.mk.inj (Option.some.inj hrun)
    exact .refl R _

/-- So does `free` of a live pointer. -/
theorem free_spares {xs ys : List Block} {s : Nat} (hR : R.Placed)
    (ht : Tiled R h (xs ++ ⟨s, true⟩ :: ys))
    (hrun : coalescingFree R h (R.start + extent xs + 8) = some h') : R.Spares h.mem h'.mem := by
  obtain ⟨hx, hbody⟩ := sized_append.mp ht.sized
  obtain ⟨hs, hy⟩ := sized_cons.mp hbody
  have hspan := ht.span
  have hstop := hR.stopLt
  simp only [extent_append, extent] at hspan hs
  have hprev := lastFree_bounds (a := R.start) hx
  rw [free_of_live hR ht] at hrun
  obtain rfl := Option.some.inj hrun
  intro x hout
  rw [mergePrev_mem (by omega), mergeNext_mem (by omega), inserted, link_mem (by omega),
    setNext_mem (by omega), setSize_mem (by omega)]

end Frames

section Copies
variable {R : Region} {h k : Heap} {bs : List Block} {size : Nat}

/-- The first fit is one block. -/
theorem first_fit_unique {xs ys xs' ys' : List Block} {s s' n : Nat}
    (heq : xs ++ ⟨s, false⟩ :: ys = xs' ++ ⟨s', false⟩ :: ys') (hs : n ≤ s) (hs' : n ≤ s')
    (hx : ∀ b ∈ xs, b.live = false → b.size < n) (hx' : ∀ b ∈ xs', b.live = false → b.size < n) :
    xs = xs' := by
  rcases List.append_eq_append_iff.mp heq with ⟨zs, rfl, hz⟩ | ⟨zs, rfl, hz⟩
  · cases zs with
    | nil => simp
    | cons z zs =>
      obtain ⟨rfl, _⟩ := List.cons.inj hz
      have hlt : s < n := hx' ⟨s, false⟩ (by simp) rfl
      omega
  · cases zs with
    | nil => simp
    | cons z zs =>
      obtain ⟨rfl, _⟩ := List.cons.inj hz
      have hlt : s' < n := hx ⟨s', false⟩ (by simp) rfl
      omega

/-- Two heaps with the same blocks serve a request in the same way. -/
theorem malloc_copies (hR : R.Placed) (ht : Tiled R h bs) (ht' : Tiled R k bs) (hsize : size ≠ 0) :
    ∃ h' k' p bs', firstFitMalloc R h size = some (h', p) ∧
      firstFitMalloc R k size = some (k', p) ∧ Tiled R h' bs' ∧ Tiled R k' bs' := by
  rcases malloc_tiled hR ht hsize with ⟨hsmall, hrun⟩ | ⟨xs, s, ys, h', rfl, hfit, hsmall, hrun, hh⟩
  · rcases malloc_tiled hR ht' hsize with ⟨_, hrun'⟩ | ⟨xs, s, ys, _, rfl, hfit, _⟩
    · exact ⟨h, k, 0, bs, hrun, hrun', ht, ht'⟩
    · have hlt : s < blockNeed size := hsmall ⟨s, false⟩ (by simp) rfl
      omega
  · rcases malloc_tiled hR ht' hsize with
      ⟨hnone, _⟩ | ⟨us, n, vs, k', heq, hfit', hsmall', hrun', hk⟩
    · have hlt : s < blockNeed size := hnone ⟨s, false⟩ (by simp) rfl
      omega
    · obtain rfl := first_fit_unique heq hfit hfit' hsmall hsmall'
      obtain ⟨hblock, rfl⟩ := List.cons.inj (List.append_cancel_left heq)
      obtain rfl : s = n := congrArg Block.size hblock
      exact ⟨h', k', _, _, hrun, hrun', hh, hk⟩

end Copies

/-- The addresses of the free blocks, read off memory. -/
def FreeList (h : Heap) (l : List Nat) : Prop :=
  IntrusiveList.Linked (nextFree h.mem) (ptr h.freeList) l

/-- No call has asked for memory yet. -/
structure Client.Untouched (c : Client) : Prop where
  inited : c.heap.heapInited = false
  freeList : c.heap.freeList = 0
  live : c.live = []

/-- Two clients of the same heap after the same calls; only bytes that no header has
may differ. -/
structure Alike (R : Region) (d c : Client) : Prop where
  live : c.live = d.live
  blocks : (d.Untouched ∧ c.Untouched) ∨ ∃ bs, Holds R d bs ∧ Tiled R c.heap bs

section Alike
variable {A : Allocator} {R : Region} {c d : Client} {op : HeapOp}

/-- A payload that a client holds has its header in the region. -/
def Region.Header (R : Region) (p : Nat) : Prop :=
  R.start + headerSize ≤ p ∧ p < R.stop + headerSize

instance (R : Region) (p : Nat) : Decidable (R.Header p) := inferInstanceAs (Decidable (_ ∧ _))

theorem Alike.header (h : Alike R d c) {p : Nat} (hp : p ∈ d.live) : R.Header p := by
  rcases h.blocks with ⟨hd, _⟩ | ⟨bs, hbs, _⟩
  · rw [hd.live] at hp
    cases hp
  · obtain ⟨a, ha, rfl⟩ := (hbs.mem_iff p).mp hp
    have hbounds := liveAddrs_bounds hbs.1.sized ha
    have hspan := hbs.1.span
    constructor
    · omega
    · simp only [headerSize]
      omega

/-- The free list of two such clients is the same. -/
theorem Alike.freeList (hR : R.Placed) (h : Alike R d c) :
    c.heap.freeList = d.heap.freeList ∧ c.heap.heapInited = d.heap.heapInited ∧
      ∃ l, FreeList d.heap l ∧ FreeList c.heap l := by
  rcases h.blocks with ⟨hd, hc⟩ | ⟨bs, hbs, ht⟩
  · refine ⟨hc.freeList.trans hd.freeList.symm, hc.inited.trans hd.inited.symm, [], ?_, ?_⟩
    · rw [FreeList, hd.freeList]
      rfl
    · rw [FreeList, hc.freeList]
      rfl
  · refine ⟨ht.head.trans hbs.1.head.symm, ht.inited.trans hbs.1.inited.symm,
      freeAddrs R.start bs, ?_, ?_⟩
    · rw [FreeList, hbs.1.head]
      exact freeList_linked hR.pos hbs.1.laid
    · rw [FreeList, ht.head]
      exact freeList_linked hR.pos ht.laid

/-- Memory of another heap may change. -/
theorem Alike.foreign {m : Memory} (h : Alike R d c)
    (hm : ∀ x, R.start ≤ x → x < R.stop → m x = d.heap.mem x) :
    Alike R ⟨{ d.heap with mem := m }, d.live⟩ c := by
  refine ⟨h.live, ?_⟩
  rcases h.blocks with ⟨hd, hc⟩ | ⟨bs, ⟨ht, hlive⟩, htc⟩
  · exact Or.inl ⟨⟨hd.inited, hd.freeList, hd.live⟩, hc⟩
  · refine Or.inr ⟨bs, ⟨⟨ht.inited, ht.span, ht.sized, ht.coalesced, ?_, ht.head⟩, hlive⟩, htc⟩
    have hspan := ht.span
    exact laid_congr ht.sized (fun x hlo hhi => (hm x hlo (by omega)).symm) ht.laid

theorem Region.Spares.trans {m m' m'' : Memory} (h : R.Spares m m') (h' : R.Spares m' m'') :
    R.Spares m m'' := fun x hx => (h' x hx).trans (h x hx)

/-- One call on both copies. -/
def Alike.Next (A : Allocator) (d c : Client) (op : HeapOp) : Prop :=
  ∃ d' c', d.step A op = some d' ∧ c.step A op = some c' ∧ Alike A.region d' c' ∧
    A.region.Spares d.heap.mem d'.heap.mem

theorem Alike.malloc {bs : List Block} {size : Nat} (hR : A.region.Placed)
    (hA : A.malloc = firstFitMalloc A.region) (hlive : c.live = d.live)
    (hd : Holds A.region d bs) (hc : Tiled A.region c.heap bs) (hsize : size ≠ 0) :
    Alike.Next A d c (.malloc size) := by
  obtain ⟨h', k', p, bs', hrun, hrun', ht, ht'⟩ := malloc_copies hR hd.1 hc hsize
  obtain ⟨d', hstep, bs'', hholds⟩ := malloc_holds hR hA hd hsize
  have hd' : d' = ⟨h', if p = 0 then d.live else p :: d.live⟩ := by
    simpa [Client.step, hA, hrun, eq_comm] using hstep
  subst hd'
  obtain rfl := hholds.1.tiles.unique ht.tiles
  refine ⟨_, ⟨k', if p = 0 then c.live else p :: c.live⟩, hstep, ?_, ⟨?_, Or.inr ⟨_, hholds, ht'⟩⟩,
    malloc_spares hR hd.1 hrun⟩
  · simp [Client.step, hA, hrun']
  · simp only [hlive]

theorem Alike.step (hR : A.region.Placed) (hm : A.malloc = firstFitMalloc A.region)
    (hf : A.free = coalescingFree A.region) (h : Alike A.region d c) (ha : d.Allowed op) :
    Alike.Next A d c op := by
  cases op with
  | malloc size =>
    by_cases hsize : size = 0
    · subst hsize
      have hstep : ∀ c : Client, c.step A (.malloc 0) = some c := fun c => by
        simp [Client.step, hm, firstFitMalloc]
      exact ⟨d, c, hstep d, hstep c, h, .refl _ _⟩
    rcases h.blocks with ⟨hd, hc⟩ | ⟨bs, hbs, ht⟩
    · -- the first request initialises both heaps and then allocates from them
      have hstart : ∀ c : Client, c.heap.heapInited = false → c.step A (.malloc size) =
          (Client.mk (heapInit A.region c.heap) c.live).step A (.malloc size) := by
        intro c hin
        simp only [Client.step, hm, firstFitMalloc_heapInit hR hsize hin]
      have hfirst := heapInit_tiled hR d.heap
      obtain ⟨d', c', hstep, hstep', halike, hspares⟩ := Alike.malloc
        (d := ⟨heapInit A.region d.heap, d.live⟩) (c := ⟨heapInit A.region c.heap, c.live⟩) hR hm
        h.live ⟨hfirst, by simp [hd.live, liveAddrs]⟩ (heapInit_tiled hR c.heap) hsize
      exact ⟨d', c', (hstart d hd.inited).trans hstep, (hstart c hc.inited).trans hstep', halike,
        (heapInit_spares hR d.heap).trans hspares⟩
    · exact Alike.malloc hR hm h.live hbs ht hsize
  | free p =>
    have hnull : ∀ c : Client, 0 ∉ c.live → c.step A (.free 0) = some c := by
      intro c hnot
      simp [Client.step, hf, coalescingFree, List.erase_of_not_mem hnot]
    by_cases hp : p = 0
    · subst hp
      have hnot : 0 ∉ d.live := fun hmem => absurd (h.header hmem).1 (by simp [headerSize])
      exact ⟨d, c, hnull d hnot, hnull c (h.live ▸ hnot), h, .refl _ _⟩
    have hpl : p ∈ d.live := ha.resolve_left hp
    rcases h.blocks with ⟨hd, _⟩ | ⟨bs, hbs, ht⟩
    · rw [hd.live] at hpl
      cases hpl
    obtain ⟨d', hstep, bs', hholds⟩ := free_holds hR hf hbs ha
    obtain ⟨xs, n, ys, rfl, rfl, _⟩ := live_block hbs.1 ((hbs.mem_iff p).mp hpl)
    obtain ⟨h', hrun, hh⟩ := free_tiled hR hbs.1
    obtain ⟨k', hrun', hk⟩ := free_tiled hR ht
    have hd' : d' = ⟨h', d.live.erase (A.region.start + extent xs + 8)⟩ := by
      simpa [Client.step, hf, hrun, eq_comm] using hstep
    subst hd'
    obtain rfl := hholds.1.tiles.unique hh.tiles
    refine ⟨_, ⟨k', c.live.erase (A.region.start + extent xs + 8)⟩, hstep, ?_,
      ⟨?_, Or.inr ⟨_, hholds, hk⟩⟩, free_spares hR hbs.1 hrun⟩
    · simp [Client.step, hf, hrun']
    · simp only [h.live]
  | store a v =>
    obtain ⟨p, hp, hlo, hhi⟩ := ha
    rcases h.blocks with ⟨hd, _⟩ | ⟨bs, hbs, ht⟩
    · rw [hd.live] at hp
      cases hp
    obtain ⟨xs, n, ys, rfl, rfl, hn⟩ := live_block hbs.1 ((hbs.mem_iff p).mp hp)
    have hspan := hbs.1.span
    simp only [hn, headerSize, Nat.add_sub_cancel] at hhi
    simp only [extent_append, extent] at hspan
    refine ⟨_, _, rfl, rfl, ⟨h.live, Or.inr ⟨_, ⟨store_tiled v hbs.1 hlo hhi, hbs.2⟩,
      store_tiled v ht hlo hhi⟩⟩, fun x hx => ?_⟩
    exact Function.update_of_ne (by omega) _ _

/-- `free` of a pointer whose header is somewhere else does nothing. -/
theorem free_foreign {p : Nat} (hR : A.region.Placed) (hf : A.free = coalescingFree A.region)
    (hp : ¬ A.region.Header p) (hlt : p < 2 ^ 32) (hlive : p ∉ d.live) :
    d.step A (.free p) = some d := by
  have hrun : A.free d.heap p = some d.heap := by
    have hstop := hR.stopLt
    have hal := hR.stopAligned
    simp only [Region.Header, headerSize] at hp
    rw [hf, coalescingFree]
    by_cases hnull : p = 0
    · rw [if_pos hnull]
    rw [if_neg hnull, hR.heapStart]
    refine if_pos ?_
    simp only [wrap, headerSize]
    omega
  simp [Client.step, hrun, List.erase_of_not_mem hlive]

end Alike

inductive HeapName
  | kernel
  | user
  deriving DecidableEq, Repr

def HeapName.other : HeapName → HeapName
  | .kernel => .user
  | .user => .kernel

/-- `malloc` and `free`, or `user_malloc` and `user_free`. -/
def HeapName.allocator (L : Layout) : HeapName → Allocator
  | .kernel => kernelHeap L
  | .user => userHeap L

/-- The static variables of one allocator, and the payload pointers of its clients. -/
structure Share where
  freeList : Nat
  heapInited : Bool
  live : List Nat

structure Heaps where
  mem : Memory
  share : HeapName → Share

def Heaps.fresh (mem : Memory) : Heaps := ⟨mem, fun _ => ⟨0, false, []⟩⟩

def Heaps.client (s : Heaps) (o : HeapName) : Client :=
  ⟨⟨s.mem, (s.share o).freeList, (s.share o).heapInited⟩, (s.share o).live⟩

def Heaps.put (s : Heaps) (o : HeapName) (c : Client) : Heaps :=
  ⟨c.heap.mem, Function.update s.share o ⟨c.heap.freeList, c.heap.heapInited, c.live⟩⟩

def Heaps.step (L : Layout) (s : Heaps) : HeapName × HeapOp → Option Heaps
  | (o, op) => ((s.client o).step (o.allocator L) op).map (s.put o)

/-- A heap's own clients, and `free` with a pointer of the other heap. -/
def Heaps.Allowed (L : Layout) (s : Heaps) : HeapName × HeapOp → Prop
  | (o, op) => (s.client o).Allowed op ∨
    ∃ p, op = .free p ∧ (o.other.allocator L).region.Header p

/-- Everything but a `free` of some other pointer. -/
def Region.keeps (R : Region) : HeapOp → Bool
  | .free p => decide (R.Header p)
  | _ => true

/-- The calls on the heap `o` with pointers of that heap. -/
def callsOf (L : Layout) (o : HeapName) (ops : List (HeapName × HeapOp)) : List HeapOp :=
  (ops.filter fun l => l.1 = o ∧ (o.allocator L).region.keeps l.2 = true).map Prod.snd

section Pair
variable {L : Layout} {s s' : Heaps} {o : HeapName} {op : HeapOp}

theorem allocator_code (o : HeapName) :
    (o.allocator L).malloc = firstFitMalloc (o.allocator L).region ∧
      (o.allocator L).free = coalescingFree (o.allocator L).region := by
  cases o <;> exact ⟨rfl, rfl⟩

/-- Two regions without a common byte, each fit for a heap. -/
structure Layout.Split (L : Layout) : Prop where
  heap : L.heap.Placed
  userHeap : L.userHeap.Placed
  below : L.userHeap.stop ≤ L.heap.start

theorem Layout.Split.placed (hL : L.Split) (o : HeapName) : (o.allocator L).region.Placed := by
  cases o
  · exact hL.heap
  · exact hL.userHeap

/-- A header is in one region at most: the last block of the user heap ends where the
first header of the kernel heap is. -/
theorem Layout.Split.header (hL : L.Split) {p : Nat} (hp : (o.other.allocator L).region.Header p) :
    ¬ (o.allocator L).region.Header p := by
  have hbelow := hL.below
  cases o with
  | kernel =>
    obtain ⟨_, hhi⟩ : L.userHeap.Header p := hp
    rintro ⟨hlo, _⟩
    change L.heap.start + headerSize ≤ p at hlo
    omega
  | user =>
    obtain ⟨hlo, _⟩ : L.heap.Header p := hp
    rintro ⟨_, hhi⟩
    change p < L.userHeap.stop + headerSize at hhi
    omega

theorem client_put_same (c : Client) : (s.put o c).client o = c := by
  simp [Heaps.put, Heaps.client]

theorem client_put_other {o' : HeapName} (c : Client) (ho : o' ≠ o) :
    (s.put o c).client o' =
      ⟨{ (s.client o').heap with mem := c.heap.mem }, (s.client o').live⟩ := by
  simp [Heaps.put, Heaps.client, ho]

theorem put_client (s : Heaps) (o : HeapName) : s.put o (s.client o) = s := by
  simp [Heaps.put, Heaps.client]

theorem callsOf_keep (ops : List (HeapName × HeapOp))
    (h : (o.allocator L).region.keeps op = true) :
    callsOf L o (ops ++ [(o, op)]) = callsOf L o ops ++ [op] := by
  simp [callsOf, h]

theorem callsOf_drop {o' : HeapName} (ops : List (HeapName × HeapOp))
    (h : o' ≠ o ∨ (o.allocator L).region.keeps op = false) :
    callsOf L o' (ops ++ [(o, op)]) = callsOf L o' ops := by
  have hout : ¬ (o = o' ∧ (o'.allocator L).region.keeps op = true) := by
    rintro ⟨rfl, hkeep⟩
    rcases h with hne | hdrop
    · exact hne rfl
    · rw [hdrop] at hkeep
      cases hkeep
  simp [callsOf, hout]

/-- Each heap is as its own calls have left it. -/
def Projects (L : Layout) (mem : Memory) (ops : List (HeapName × HeapOp)) (s : Heaps) : Prop :=
  ∀ o, ∃ c, run (Client.step (o.allocator L)) (Client.fresh mem) (callsOf L o ops) = some c ∧
    Alike (o.allocator L).region (s.client o) c

/-- A call on `o` leaves the other heap alone, and does nothing at all when it frees a
pointer of the other heap. -/
structure Contained (L : Layout) (o : HeapName) (op : HeapOp) (s s' : Heaps) : Prop where
  mem : ∀ x, (o.other.allocator L).region.start ≤ x → x < (o.other.allocator L).region.stop →
    s'.mem x = s.mem x
  share : s'.share o.other = s.share o.other
  foreign : ∀ p, op = .free p → (o.other.allocator L).region.Header p → s' = s

theorem contained_refl (s : Heaps) : Contained L o op s s :=
  ⟨fun _ _ _ => rfl, rfl, fun _ _ _ => rfl⟩

/-- Bytes of the other region are outside the own one. -/
theorem Layout.Split.outside (hL : L.Split) {o' : HeapName} (ho : o' ≠ o) {x : Nat}
    (hlo : (o'.allocator L).region.start ≤ x) (hhi : x < (o'.allocator L).region.stop) :
    x < (o.allocator L).region.start ∨ (o.allocator L).region.stop ≤ x := by
  have hbelow := hL.below
  cases o with
  | kernel =>
    cases o' with
    | kernel => exact absurd rfl ho
    | user => exact Or.inl (Nat.lt_of_lt_of_le hhi hbelow)
  | user =>
    cases o' with
    | kernel => exact Or.inr (hbelow.trans hlo)
    | user => exact absurd rfl ho

theorem other_ne (o : HeapName) : o.other ≠ o := by
  cases o <;> simp [HeapName.other]

/-- A permitted call is on the own heap, or it is a `free` without a header there. -/
theorem allowed_cases {c : Client} (hL : L.Split)
    (hlive : Alike (o.allocator L).region (s.client o) c) (h : s.Allowed L (o, op)) :
    ((s.client o).Allowed op ∧ (o.allocator L).region.keeps op = true) ∨
    ∃ p, op = .free p ∧ ¬ (o.allocator L).region.Header p ∧ p < 2 ^ 32 := by
  rcases h with hown | ⟨p, rfl, hp⟩
  · cases op with
    | malloc size => exact Or.inl ⟨hown, rfl⟩
    | store a v => exact Or.inl ⟨hown, rfl⟩
    | free p =>
      rcases hown with rfl | hmem
      · refine Or.inr ⟨0, rfl, fun hhead => ?_, by decide⟩
        exact absurd hhead.1 (by simp [headerSize])
      · exact Or.inl ⟨Or.inr hmem, decide_eq_true (hlive.header hmem)⟩
  · have hplaced := hL.placed o.other
    have hstop := hplaced.stopLt
    have hal := hplaced.stopAligned
    have hhi := hp.2
    simp only [headerSize] at hhi
    exact Or.inr ⟨p, rfl, hL.header hp, by omega⟩

theorem Projects.step {mem : Memory} {ops : List (HeapName × HeapOp)} (hL : L.Split)
    (h : Projects L mem ops s) (ha : s.Allowed L (o, op)) :
    ∃ s', s.step L (o, op) = some s' ∧ Projects L mem (ops ++ [(o, op)]) s' ∧
      Contained L o op s s' := by
  obtain ⟨hm, hf⟩ := allocator_code (L := L) o
  obtain ⟨c, hrun, halike⟩ := h o
  rcases allowed_cases hL halike ha with ⟨hown, hkeep⟩ | ⟨p, rfl, hp, hlt⟩
  · obtain ⟨d', c', hd, hc, halike', hspares⟩ := halike.step (hL.placed o) hm hf hown
    refine ⟨s.put o d', by rw [Heaps.step, hd, Option.map_some], fun o' => ?_, ?_, ?_, ?_⟩
    · by_cases ho : o' = o
      · subst ho
        rw [callsOf_keep _ hkeep, client_put_same]
        exact ⟨c', run_append.mpr ⟨c, hrun, run_cons.mpr ⟨c', hc, rfl⟩⟩, halike'⟩
      · obtain ⟨e, hrun', halike''⟩ := h o'
        rw [callsOf_drop _ (Or.inl ho), client_put_other _ ho]
        exact ⟨e, hrun', halike''.foreign fun x hlo hhi => hspares x (hL.outside ho hlo hhi)⟩
    · exact fun x hlo hhi => hspares x (hL.outside (other_ne o) hlo hhi)
    · exact Function.update_of_ne (other_ne o) _ _
    · rintro p rfl hp
      exact absurd (of_decide_eq_true hkeep) (hL.header hp)
  · have hstep := free_foreign (hL.placed o) hf hp hlt fun hmem => hp (halike.header hmem)
    refine ⟨s, by rw [Heaps.step, hstep, Option.map_some, put_client], fun o' => ?_,
      contained_refl s⟩
    have hdrop : (o.allocator L).region.keeps (.free p) = false := decide_eq_false hp
    rw [callsOf_drop _ (Or.inr hdrop)]
    exact h o'

end Pair

/-- The heap that `c` is left with is the heap of `d`. -/
structure SameHeap (d c : Client) : Prop where
  live : c.live = d.live
  head : c.heap.freeList = d.heap.freeList
  inited : c.heap.heapInited = d.heap.heapInited
  freeList : ∃ l, FreeList d.heap l ∧ FreeList c.heap l

theorem linkerLayout_split (bssEnd : Nat) (hlo : 0x20000000 ≤ bssEnd)
    (hhi : bssEnd + 0x4017 ≤ 0x2001F000) : (linkerLayout bssEnd).Split := by
  obtain ⟨hk, hu⟩ := linkerLayout_placed bssEnd hlo hhi
  exact ⟨hk, hu, Nat.le_refl _⟩

/-- In every interleaving each heap has the free list and the live payloads that its own
calls alone lead to, and no call touches the other heap. -/
theorem heaps_independent (bssEnd : Nat) (hlo : 0x20000000 ≤ bssEnd)
    (hhi : bssEnd + 0x4017 ≤ 0x2001F000) (mem : Memory) (ops : List (HeapName × HeapOp))
    (hp : Permitted (Heaps.Allowed (linkerLayout bssEnd)) (Heaps.step (linkerLayout bssEnd))
      (Heaps.fresh mem) ops) :
    ∃ s, run (Heaps.step (linkerLayout bssEnd)) (Heaps.fresh mem) ops = some s ∧
      (∀ o, ∃ c, run (Client.step (o.allocator (linkerLayout bssEnd))) (Client.fresh mem)
        (callsOf (linkerLayout bssEnd) o ops) = some c ∧ SameHeap (s.client o) c) ∧
      ∀ before o op after t t', ops = before ++ (o, op) :: after →
        run (Heaps.step (linkerLayout bssEnd)) (Heaps.fresh mem) before = some t →
        t.step (linkerLayout bssEnd) (o, op) = some t' →
        Contained (linkerLayout bssEnd) o op t t' := by
  have hL := linkerLayout_split bssEnd hlo hhi
  have hstart : Projects (linkerLayout bssEnd) mem [] (Heaps.fresh mem) := fun o =>
    ⟨_, rfl, rfl, Or.inl ⟨⟨rfl, rfl, rfl⟩, ⟨rfl, rfl, rfl⟩⟩⟩
  have hstep : ∀ ls s l, Projects (linkerLayout bssEnd) mem ls s →
      s.Allowed (linkerLayout bssEnd) l →
      ∃ s', s.step (linkerLayout bssEnd) l = some s' ∧
        Projects (linkerLayout bssEnd) mem (ls ++ [l]) s' := by
    rintro ls s ⟨o, op⟩ h ha
    obtain ⟨s', hs', hproj, _⟩ := h.step hL ha
    exact ⟨s', hs', hproj⟩
  obtain ⟨s, hrun, hproj⟩ := run_of_permitted hstep hstart hp
  refine ⟨s, hrun, fun o => ?_, ?_⟩
  · obtain ⟨c, hc, halike⟩ := hproj o
    obtain ⟨hhead, hin, hfree⟩ := halike.freeList (hL.placed o)
    exact ⟨c, hc, halike.live, hhead, hin, hfree⟩
  · rintro before o op after t t' rfl hbefore ht'
    obtain ⟨hpb, hpa⟩ := permitted_append hp hbefore
    obtain ⟨u, hu, hproj'⟩ := run_of_permitted hstep hstart hpb
    obtain rfl := Option.some.inj (hbefore.symm.trans hu)
    obtain ⟨v, hv, _, hcont⟩ := hproj'.step hL hpa.1
    obtain rfl := Option.some.inj (ht'.symm.trans hv)
    exact hcont

/-- The user heap is one block that ends at the first kernel header, and each pointer is
given to the wrong `free`. -/
def crossedFrees : List (HeapName × HeapOp) :=
  [(.user, .malloc 0x3FF8), (.kernel, .malloc 24), (.user, .free 0x20004410),
    (.kernel, .free 0x20000410), (.kernel, .free 0x20004410)]

theorem heaps_independent_boundary :
    ∃ s, run (Heaps.step (linkerLayout 0x20000404)) (Heaps.fresh fun _ => 0) crossedFrees =
        some s ∧
      (∀ o, ∃ c, run (Client.step (o.allocator (linkerLayout 0x20000404)))
        (Client.fresh fun _ => 0) (callsOf (linkerLayout 0x20000404) o crossedFrees) = some c ∧
        SameHeap (s.client o) c) ∧
      ∀ before o op after t t', crossedFrees = before ++ (o, op) :: after →
        run (Heaps.step (linkerLayout 0x20000404)) (Heaps.fresh fun _ => 0) before = some t →
        t.step (linkerLayout 0x20000404) (o, op) = some t' →
        Contained (linkerLayout 0x20000404) o op t t' := by
  refine heaps_independent 0x20000404 (by decide) (by decide) _ _ ⟨?_, fun s₁ h₁ => ⟨?_,
    fun s₂ h₂ => ⟨?_, fun s₃ h₃ => ⟨?_, fun s₄ h₄ => ⟨?_, fun _ _ => trivial⟩⟩⟩⟩⟩
  · exact Or.inl (by decide : 0x3FF8 < 2 ^ 32)
  · exact Or.inl (by decide : 24 < 2 ^ 32)
  · exact Or.inr ⟨_, rfl, by decide⟩
  · exact Or.inr ⟨_, rfl, by decide⟩
  · obtain rfl := Option.some.inj h₁
    obtain rfl := Option.some.inj h₂
    obtain rfl := Option.some.inj h₃
    obtain rfl := Option.some.inj h₄
    exact Or.inl (Or.inr (by decide +kernel))

end Alloc
