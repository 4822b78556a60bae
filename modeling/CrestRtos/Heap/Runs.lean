import CrestRtos.Heap.Calls
import CrestRtos.Library.Transition

/-!
# Runs of an allocator and its clients

Clients call `malloc` and `free` in any order and write into the payloads they
own. A payload is what follows the header of a block that `malloc` returned and
that has not been freed. `Tiling` describes the heap in terms of memory alone;
it holds after every call once the first request for memory has been made.
-/

namespace Alloc
open ByteMemory MachineWord BlockList Transition

structure Allocator where
  region : Region
  malloc : Heap → Nat → Option (Heap × Nat)
  free : Heap → Nat → Option Heap

def kernelHeap (L : Layout) : Allocator := ⟨L.heap, malloc L, Alloc.free L⟩
def userHeap (L : Layout) : Allocator := ⟨L.userHeap, userMalloc L, userFree L⟩

/-- The heap and the payload pointers the clients hold. -/
structure Client where
  heap : Heap
  live : List Nat

def Client.fresh (mem : Memory) : Client := ⟨⟨mem, 0, false⟩, []⟩

inductive HeapOp
  | malloc (size : Nat)
  | free (p : Nat)
  | store (a : Nat) (v : UInt8)

def Client.step (A : Allocator) (c : Client) : HeapOp → Option Client
  | .malloc size => (A.malloc c.heap size).map fun (h, p) =>
      ⟨h, if p = 0 then c.live else p :: c.live⟩
  | .free p => (A.free c.heap p).map fun h => ⟨h, c.live.erase p⟩
  | .store a v => some ⟨{ c.heap with mem := Function.update c.heap.mem a v }, c.live⟩

/-- The total size recorded in front of a payload. -/
def payloadBlock (h : Heap) (p : Nat) : Nat := hdrSize h.mem (p - headerSize)

/-- Arguments are 32-bit, freed pointers are null or live, and stores stay
inside a live payload. -/
def Client.Allowed (c : Client) : HeapOp → Prop
  | .malloc size => size < 2 ^ 32
  | .free p => p = 0 ∨ p ∈ c.live
  | .store a _ => ∃ p ∈ c.live, p ≤ a ∧ a < p - headerSize + payloadBlock c.heap p

def ptr (a : Nat) : Option Nat := if a = 0 then none else some a

def nextFree (m : Memory) (a : Nat) : Option Nat := ptr (hdrNext m a)

/-- The blocks `bs` tile the region, and memory and free list describe them. -/
structure Tiling (R : Region) (c : Client) (bs : List Block) : Prop where
  partition : R.start + extent bs = R.stop
  sized : ∀ b ∈ bs, 16 ≤ b.size ∧ b.size % 8 = 0
  header : ∀ xs b ys, bs = xs ++ b :: ys →
    read32 c.heap.mem (R.start + extent xs) = b.size + (if b.live then 1 else 0)
  freeList : IntrusiveList.Linked (nextFree c.heap.mem) (ptr c.heap.freeList)
    (freeAddrs R.start bs)
  increasing : (freeAddrs R.start bs).Pairwise (· < ·)
  coalesced : ∀ xs b d ys, bs = xs ++ b :: d :: ys → b.live = true ∨ d.live = true
  liveOnce : c.live.Nodup
  live : ∀ p, p ∈ c.live ↔ ∃ a ∈ liveAddrs R.start bs, p = a + headerSize
  disjoint : ∀ p ∈ c.live, ∀ q ∈ c.live, p ≠ q →
    p - headerSize + payloadBlock c.heap p ≤ q - headerSize ∨
    q - headerSize + payloadBlock c.heap q ≤ p - headerSize

theorem header_of_laid {m : Memory} {a z : Nat} {xs ys : List Block} {b : Block}
    (h : Laid m a z (xs ++ b :: ys)) :
    read32 m (a + extent xs) = b.size + (if b.live then 1 else 0) :=
  (laid_append.mp h).2.1

/-- Following the links over the headers of a segment visits its free blocks. -/
theorem freeList_seg {m : Memory} {a z : Nat} {bs : List Block} (ha : 0 < a)
    (h : Laid m a z bs) :
    IntrusiveList.Seg (nextFree m) (ptr (firstFree a z bs)) (freeAddrs a bs) (ptr z) := by
  induction bs generalizing a with
  | nil => rfl
  | cons b bs ih =>
    have hrest := ih (a := a + b.size) (by omega) h.2.2
    cases hb : b.live with
    | true => simpa [firstFree, freeAddrs, hb] using hrest
    | false =>
      simp only [firstFree, freeAddrs, hb, Bool.false_eq_true, if_false]
      refine ⟨if_neg (by omega), ?_⟩
      rw [nextFree, h.2.1 hb]
      exact hrest

theorem freeList_linked {m : Memory} {a : Nat} {bs : List Block} (ha : 0 < a)
    (h : Laid m a 0 bs) :
    IntrusiveList.Linked (nextFree m) (ptr (firstFree a 0 bs)) (freeAddrs a bs) :=
  freeList_seg ha h

/-- Two occurrences of blocks in one list are equal or do not overlap. -/
theorem block_order {xs ys xs' ys' : List Block} {b b' : Block}
    (h : xs ++ b :: ys = xs' ++ b' :: ys') :
    xs = xs' ∨ extent xs + b.size ≤ extent xs' ∨ extent xs' + b'.size ≤ extent xs := by
  rcases List.append_eq_append_iff.mp h with ⟨zs, rfl, hz⟩ | ⟨zs, rfl, hz⟩
  · cases zs with
    | nil => exact Or.inl (by simp)
    | cons z zs =>
      obtain ⟨rfl, _⟩ := List.cons.inj hz
      refine Or.inr (Or.inl ?_)
      simp only [extent_append, extent]
      omega
  · cases zs with
    | nil => exact Or.inl (by simp)
    | cons z zs =>
      obtain ⟨rfl, _⟩ := List.cons.inj hz
      refine Or.inr (Or.inr ?_)
      simp only [extent_append, extent]
      omega

/-- The block behind a live payload pointer. -/
theorem live_block {R : Region} {h : Heap} {bs : List Block} {p : Nat} (ht : Tiled R h bs)
    (hp : ∃ a ∈ liveAddrs R.start bs, p = a + headerSize) :
    ∃ xs s ys, bs = xs ++ ⟨s, true⟩ :: ys ∧ p = R.start + extent xs + 8 ∧
      payloadBlock h p = s := by
  obtain ⟨a, ha, rfl⟩ := hp
  obtain ⟨xs, ⟨s, live⟩, ys, rfl, hb, rfl⟩ := mem_liveAddrs_iff.mp ha
  simp only at hb
  subst hb
  have hs := (sized_cons.mp (sized_append.mp ht.sized).2).1
  refine ⟨xs, s, ys, rfl, rfl, ?_⟩
  rw [payloadBlock, Nat.add_sub_cancel]
  exact hdrSize_laid (laid_append.mp ht.laid).2 hs.2

/-- What the clients hold is what the block list says is live. -/
def Holds (R : Region) (c : Client) (bs : List Block) : Prop :=
  Tiled R c.heap bs ∧ c.live.Perm ((liveAddrs R.start bs).map (· + headerSize))

theorem Holds.mem_iff {R : Region} {c : Client} {bs : List Block} (h : Holds R c bs) (p : Nat) :
    p ∈ c.live ↔ ∃ a ∈ liveAddrs R.start bs, p = a + headerSize := by
  rw [h.2.mem_iff]
  simp [eq_comm]

theorem Holds.tiling {R : Region} {c : Client} {bs : List Block} (hR : R.Placed)
    (h : Holds R c bs) : Tiling R c bs := by
  obtain ⟨ht, hlive⟩ := h
  have hmem := Holds.mem_iff ⟨ht, hlive⟩
  refine ⟨ht.span, ht.sized, ?_, ?_, freeAddrs_sorted (by decide) ht.sized, ?_, ?_, hmem, ?_⟩
  · rintro xs b ys rfl
    exact header_of_laid ht.laid
  · rw [ht.head]
    exact freeList_linked hR.pos ht.laid
  · rintro xs b d ys rfl
    exact (List.isChain_cons_cons.mp (List.isChain_append.mp ht.coalesced).2.1).1
  · rw [hlive.nodup_iff]
    refine (liveAddrs_nodup (by decide) ht.sized).map fun x y hxy => ?_
    exact Nat.add_right_cancel hxy
  · intro p hp q hq hne
    obtain ⟨xs, s, ys, rfl, rfl, hps⟩ := live_block ht ((hmem p).mp hp)
    obtain ⟨xs', s', ys', heq, rfl, hqs⟩ := live_block ht ((hmem q).mp hq)
    simp only [hps, hqs, headerSize, Nat.add_sub_cancel]
    rcases block_order heq with rfl | hle | hle
    · exact absurd rfl hne
    · exact Or.inl (by simp only at hle; omega)
    · exact Or.inr (by simp only at hle; omega)

/-- Untouched until the first request for memory, then tiled for good. -/
def Sound (R : Region) (mem : Memory) (ops : List HeapOp) (c : Client) : Prop :=
  ((∀ n, HeapOp.malloc n ∈ ops → n = 0) ∧ c = Client.fresh mem) ∨
  ((∃ n, HeapOp.malloc n ∈ ops ∧ n ≠ 0) ∧ ∃ bs, Holds R c bs)

/-- Initialising first changes nothing about what a request gets. -/
theorem firstFitMalloc_heapInit {R : Region} {h : Heap} {size : Nat} (hR : R.Placed)
    (hsize : size ≠ 0) (hin : h.heapInited = false) :
    firstFitMalloc R h size = firstFitMalloc R (heapInit R h) size := by
  have hinit := (heapInit_tiled hR h).inited
  simp only [firstFitMalloc, if_neg hsize, hin, hinit, if_true, Bool.false_eq_true, if_false]

section Calls
variable {A : Allocator} {c : Client} {bs : List Block}

theorem malloc_holds (hR : A.region.Placed) (hA : A.malloc = firstFitMalloc A.region)
    (hc : Holds A.region c bs) {size : Nat} (hsize : size ≠ 0) :
    ∃ c', c.step A (.malloc size) = some c' ∧ ∃ bs', Holds A.region c' bs' := by
  obtain ⟨ht, hlive⟩ := hc
  rcases malloc_tiled hR ht hsize with ⟨_, hrun⟩ | ⟨xs, s, ys, h', rfl, hfit, _, hrun, ht'⟩
  · refine ⟨c, ?_, bs, ht, hlive⟩
    simp [Client.step, hA, hrun]
  · refine ⟨⟨h', (A.region.start + extent xs + 8) :: c.live⟩, ?_, _, ht', ?_⟩
    · simp [Client.step, hA, hrun]
    · simp only [liveAddrs_append, liveAddrs_carve, extent_carve hfit, liveAddrs,
        List.map_append, List.map_cons, headerSize, Bool.false_eq_true, if_false,
        List.cons_append, List.nil_append] at hlive ⊢
      exact (hlive.cons _).trans List.perm_middle.symm

theorem free_holds (hR : A.region.Placed) (hA : A.free = coalescingFree A.region)
    (hc : Holds A.region c bs) {p : Nat} (hp : p = 0 ∨ p ∈ c.live) :
    ∃ c', c.step A (.free p) = some c' ∧ ∃ bs', Holds A.region c' bs' := by
  have hmem := hc.mem_iff
  obtain ⟨ht, hlive⟩ := hc
  by_cases hnull : p = 0
  · subst hnull
    have hnot : 0 ∉ c.live := by
      rw [hmem]
      rintro ⟨a, _, ha⟩
      simp [headerSize] at ha
    refine ⟨c, ?_, bs, ht, hlive⟩
    simp [Client.step, hA, coalescingFree, List.erase_of_not_mem hnot]
  · have hpl := hp.resolve_left hnull
    obtain ⟨xs, s, ys, rfl, rfl, _⟩ := live_block ht ((hmem p).mp hpl)
    obtain ⟨h', hrun, ht'⟩ := free_tiled hR ht
    refine ⟨⟨h', c.live.erase (A.region.start + extent xs + 8)⟩, ?_, _, ht', ?_⟩
    · simp [Client.step, hA, hrun]
    · simp only [liveAddrs_insertFree, liveAddrs_append, liveAddrs, List.map_append,
        List.map_cons, headerSize, if_true] at hlive ⊢
      have herase := (hlive.trans List.perm_middle).erase (A.region.start + extent xs + 8)
      simpa using herase

theorem store_holds (hc : Holds A.region c bs) {a : Nat} {v : UInt8}
    (hallowed : c.Allowed (.store a v)) :
    ∃ c', c.step A (.store a v) = some c' ∧ ∃ bs', Holds A.region c' bs' := by
  have hmem := hc.mem_iff
  obtain ⟨ht, hlive⟩ := hc
  obtain ⟨p, hp, hlo, hhi⟩ := hallowed
  obtain ⟨xs, s, ys, rfl, rfl, hs⟩ := live_block ht ((hmem p).mp hp)
  rw [hs] at hhi
  simp only [headerSize, Nat.add_sub_cancel] at hhi
  exact ⟨_, rfl, _, store_tiled v ht hlo hhi, hlive⟩

/-- One call or store of the clients. -/
theorem sound_step (hR : A.region.Placed) (hm : A.malloc = firstFitMalloc A.region)
    (hf : A.free = coalescingFree A.region) (mem : Memory) (ops : List HeapOp) (c : Client)
    (op : HeapOp) (hc : Sound A.region mem ops c) (hallowed : c.Allowed op) :
    ∃ c', c.step A op = some c' ∧ Sound A.region mem (ops ++ [op]) c' := by
  have hkeep : ∀ c', (∃ n, HeapOp.malloc n ∈ ops ∧ n ≠ 0) → (∃ bs', Holds A.region c' bs') →
      Sound A.region mem (ops ++ [op]) c' := by
    rintro c' ⟨n, hn, hne⟩ hbs
    exact Or.inr ⟨⟨n, List.mem_append_left _ hn, hne⟩, hbs⟩
  cases op with
  | malloc size =>
    by_cases hsize : size = 0
    · subst hsize
      refine ⟨c, by simp [Client.step, hm, firstFitMalloc], ?_⟩
      rcases hc with ⟨hzero, hfresh⟩ | ⟨hbefore, hbs⟩
      · refine Or.inl ⟨fun n hn => ?_, hfresh⟩
        rcases List.mem_append.mp hn with hn | hn
        · exact hzero n hn
        · simpa using hn
      · exact hkeep c hbefore hbs
    · have hnow : ∃ n, HeapOp.malloc n ∈ ops ++ [HeapOp.malloc size] ∧ n ≠ 0 :=
        ⟨size, by simp, hsize⟩
      rcases hc with ⟨_, rfl⟩ | ⟨hbefore, bs, hbs⟩
      · -- the first request initialises the heap and then allocates from it
        have hinit := heapInit_tiled hR (Client.fresh mem).heap
        have hsame : (Client.fresh mem).step A (.malloc size) =
            (Client.mk (heapInit A.region (Client.fresh mem).heap) []).step A
              (.malloc size) := by
          simp only [Client.step, hm, firstFitMalloc_heapInit hR hsize
            (show (Client.fresh mem).heap.heapInited = false from rfl)]
          rfl
        rw [hsame]
        obtain ⟨c', hrun, hbs⟩ := malloc_holds hR hm (c := ⟨heapInit A.region
          (Client.fresh mem).heap, []⟩) ⟨hinit, by simp [liveAddrs]⟩ hsize
        exact ⟨c', hrun, Or.inr ⟨hnow, hbs⟩⟩
      · obtain ⟨c', hrun, hbs'⟩ := malloc_holds hR hm hbs hsize
        exact ⟨c', hrun, Or.inr ⟨hnow, hbs'⟩⟩
  | free p =>
    rcases hc with ⟨hzero, rfl⟩ | ⟨hbefore, bs, hbs⟩
    · obtain rfl : p = 0 := by simpa [Client.Allowed, Client.fresh] using hallowed
      refine ⟨Client.fresh mem, by simp [Client.step, hf, coalescingFree, Client.fresh], ?_⟩
      refine Or.inl ⟨fun n hn => hzero n ?_, rfl⟩
      simpa using hn
    · obtain ⟨c', hrun, hbs'⟩ := free_holds hR hf hbs hallowed
      exact ⟨c', hrun, hkeep c' hbefore hbs'⟩
  | store a v =>
    rcases hc with ⟨_, rfl⟩ | ⟨hbefore, bs, hbs⟩
    · obtain ⟨p, hp, _⟩ := hallowed
      simp [Client.fresh] at hp
    · obtain ⟨c', hrun, hbs'⟩ := store_holds hbs hallowed
      exact ⟨c', hrun, hkeep c' hbefore hbs'⟩

end Calls

/-- A heap that some permitted run of clients has left behind. -/
def Reached (A : Allocator) (h : Heap) : Prop :=
  ∃ mem ops c, Permitted Client.Allowed (Client.step A) (Client.fresh mem) ops ∧
    run (Client.step A) (Client.fresh mem) ops = some c ∧ c.heap = h

/-- Untouched or tiled, whatever the clients hold. -/
def Ready (R : Region) (h : Heap) : Prop := h.heapInited = false ∨ ∃ bs, Tiled R h bs

theorem Reached.ready {A : Allocator} {h : Heap} (hR : A.region.Placed)
    (hm : A.malloc = firstFitMalloc A.region) (hf : A.free = coalescingFree A.region)
    (hr : Reached A h) : Ready A.region h := by
  obtain ⟨mem, ops, c, hp, hrun, rfl⟩ := hr
  have hstart : Sound A.region mem [] (Client.fresh mem) := Or.inl ⟨by simp, rfl⟩
  obtain ⟨c', hrun', hsound⟩ := run_of_permitted (sound_step hR hm hf mem) hstart hp
  obtain rfl := Option.some.inj (hrun.symm.trans hrun')
  rcases hsound with ⟨_, hfresh⟩ | ⟨_, bs, hbs⟩
  · exact Or.inl (by rw [hfresh]; rfl)
  · exact Or.inr ⟨bs, hbs.1⟩

/-- A request that does not wrap around is for the bytes and a header. -/
theorem blockNeed_ge {size : Nat} (hsmall : size + 15 < 2 ^ 32) : size + 8 ≤ blockNeed size := by
  have hup : alignUp size = size + 7 - (size + 7) % 8 := by
    rw [alignUp, alignMask, wrap_of_lt (by omega), andNot_seven]
  have hword : wrap (alignUp size + headerSize) = alignUp size + 8 :=
    wrap_of_lt (by simp only [headerSize]; omega)
  by_cases hleast : alignUp size + 8 < 16
  · have hneed : blockNeed size = 16 := by
      simp only [blockNeed, hword]
      exact if_pos hleast
    omega
  · have hneed : blockNeed size = alignUp size + 8 := by
      simp only [blockNeed, hword]
      exact if_neg hleast
    omega

/-- One that wraps around is for the smallest block. -/
theorem blockNeed_wrapped {size : Nat} (hlt : size < 2 ^ 32) (hbig : 2 ^ 32 ≤ size + 15) :
    blockNeed size = 16 := by
  have hup : alignUp size = 0 ∨ alignUp size = 2 ^ 32 - 8 := by
    rw [alignUp, alignMask, wrap, andNot_seven]
    omega
  have hword : wrap (alignUp size + headerSize) < minBlockSize := by
    rcases hup with hup | hup <;> rw [hup] <;> decide
  simp only [blockNeed, if_pos hword]
  rfl

/-- What a request that succeeds has done: a free block was carved. -/
theorem Ready.malloc {R : Region} {h h' : Heap} {size p : Nat} (hR : R.Placed) (hready : Ready R h)
    (hsize : size ≠ 0) (hrun : firstFitMalloc R h size = some (h', p)) (hp : p ≠ 0) :
    ∃ h₁ xs s ys, Tiled R h₁ (xs ++ ⟨s, false⟩ :: ys) ∧ blockNeed size ≤ s ∧
      p = R.start + extent xs + 8 ∧ Tiled R h' (xs ++ (carve 16 (blockNeed size) s ++ ys)) := by
  obtain ⟨h₁, bs, ht, hrun₁⟩ : ∃ h₁ bs, Tiled R h₁ bs ∧
      firstFitMalloc R h₁ size = some (h', p) := by
    rcases hready with hin | ⟨bs, ht⟩
    · exact ⟨heapInit R h, _, heapInit_tiled hR h, firstFitMalloc_heapInit hR hsize hin ▸ hrun⟩
    · exact ⟨h, bs, ht, hrun⟩
  rcases malloc_tiled hR ht hsize with
    ⟨_, hnone⟩ | ⟨xs, s, ys, h₂, rfl, hfit, _, hsome, ht'⟩
  · rw [hnone] at hrun₁
    exact absurd (congrArg Prod.snd (Option.some.inj hrun₁)).symm hp
  · rw [hsome] at hrun₁
    obtain ⟨rfl, rfl⟩ := Prod.mk.inj (Option.some.inj hrun₁)
    exact ⟨h₁, xs, s, ys, ht, hfit, rfl, ht'⟩

/-- The payload's block has the size asked for, or too little more to split off. -/
theorem malloc_payload {R : Region} {h h' : Heap} {size p : Nat} (hR : R.Placed)
    (hready : Ready R h) (hsize : size ≠ 0) (hrun : firstFitMalloc R h size = some (h', p))
    (hp : p ≠ 0) :
    blockNeed size ≤ payloadBlock h' p ∧ payloadBlock h' p < blockNeed size + 16 := by
  obtain ⟨_, xs, s, ys, _, hfit, rfl, ht'⟩ := hready.malloc hR hsize hrun hp
  have hblock : ∀ b bs, carve 16 (blockNeed size) s ++ ys = ⟨b, true⟩ :: bs →
      payloadBlock h' (R.start + extent xs + 8) = b := by
    intro b bs heq
    rw [heq] at ht'
    have hb := (sized_cons.mp (sized_append.mp ht'.sized).2).1
    rw [payloadBlock, headerSize, Nat.add_sub_cancel]
    exact hdrSize_laid (laid_append.mp ht'.laid).2 hb.2
  by_cases hsplit : 16 ≤ s - blockNeed size
  · rw [hblock _ _ (by rw [carve, if_pos hsplit]; rfl)]
    omega
  · rw [hblock _ _ (by rw [carve, if_neg hsplit]; rfl)]
    omega

/-- A request that does not wrap around gets memory inside the region. -/
theorem malloc_bounds {R : Region} {h h' : Heap} {size p : Nat} (hR : R.Placed)
    (hready : Ready R h) (hsize : size ≠ 0) (hsmall : size + 15 < 2 ^ 32)
    (hrun : firstFitMalloc R h size = some (h', p)) (hp : p ≠ 0) :
    R.start + 8 ≤ p ∧ p + size ≤ R.stop ∧ p % 8 = 0 := by
  obtain ⟨_, xs, s, ys, ht, hfit, rfl, _⟩ := hready.malloc hR hsize hrun hp
  have hspan := ht.span
  have hx := sized_extent (sized_append.mp ht.sized).1
  have hal := hR.startAligned
  simp only [extent_append, extent] at hspan
  have hneed := blockNeed_ge hsmall
  omega

/-- Both allocators run the same code on a region of their own. -/
theorem either_code {L : Layout} (hk : L.heap.Placed) (hu : L.userHeap.Placed) {A : Allocator}
    (hA : A = kernelHeap L ∨ A = userHeap L) : A.region.Placed ∧
      A.malloc = firstFitMalloc A.region ∧ A.free = coalescingFree A.region := by
  rcases hA with rfl | rfl
  · exact ⟨hk, rfl, rfl⟩
  · exact ⟨hu, rfl, rfl⟩

/-- No call of a permitted run loops, and after each of them the heap is either
untouched, when no memory has been requested yet, or tiled. -/
theorem heap_tiling_run (L : Layout) (hk : L.heap.Placed) (hu : L.userHeap.Placed)
    (A : Allocator) (hA : A = kernelHeap L ∨ A = userHeap L) (mem : Memory)
    (ops : List HeapOp)
    (hp : Permitted Client.Allowed (Client.step A) (Client.fresh mem) ops) :
    ∃ c, run (Client.step A) (Client.fresh mem) ops = some c ∧
      (((∀ n, HeapOp.malloc n ∈ ops → n = 0) ∧ c = Client.fresh mem) ∨
       ((∃ n, HeapOp.malloc n ∈ ops ∧ n ≠ 0) ∧ ∃ bs, Tiling A.region c bs)) := by
  obtain ⟨hR, hm, hf⟩ := either_code hk hu hA
  have hstart : Sound A.region mem [] (Client.fresh mem) := Or.inl ⟨by simp, rfl⟩
  obtain ⟨c, hrun, hsound⟩ := run_of_permitted (sound_step hR hm hf mem) hstart hp
  refine ⟨c, hrun, ?_⟩
  rcases hsound with ⟨hzero, hfresh⟩ | ⟨hbefore, bs, hbs⟩
  · exact Or.inl ⟨by simpa using hzero, hfresh⟩
  · exact Or.inr ⟨by simpa using hbefore, bs, hbs.tiling hR⟩

theorem heap_tiling_run_reuse :
    ∃ c, run (Client.step (kernelHeap (linkerLayout 0x20000404))) (Client.fresh fun _ => 0)
        [.malloc 24, .malloc 0xFFFFFFFF, .store 0x20004410 7, .free 0x20004410, .malloc 0] =
          some c ∧
      (((∀ n, HeapOp.malloc n ∈ ([.malloc 24, .malloc 0xFFFFFFFF, .store 0x20004410 7,
          .free 0x20004410, .malloc 0] : List HeapOp) → n = 0) ∧
          c = Client.fresh fun _ => 0) ∨
       ((∃ n, HeapOp.malloc n ∈ ([.malloc 24, .malloc 0xFFFFFFFF, .store 0x20004410 7,
          .free 0x20004410, .malloc 0] : List HeapOp) ∧ n ≠ 0) ∧
          ∃ bs, Tiling (linkerLayout 0x20000404).heap c bs)) := by
  have hplaced := linkerLayout_placed 0x20000404 (by decide) (by decide)
  refine heap_tiling_run _ hplaced.1 hplaced.2 _ (Or.inl rfl) _ _ ?_
  have hsmall : ∀ (c : Client) (n : Nat), n < 2 ^ 32 → c.Allowed (.malloc n) := fun _ _ h => h
  refine ⟨hsmall _ _ (by decide), fun c₁ h₁ => ⟨hsmall _ _ (by decide), fun c₂ h₂ => ⟨?_,
    fun c₃ h₃ => ⟨?_, fun c₄ _ => ⟨hsmall _ _ (by decide), fun _ _ => trivial⟩⟩⟩⟩⟩
  · obtain rfl := Option.some.inj h₁
    obtain rfl := Option.some.inj h₂
    exact ⟨0x20004410, by decide +kernel, by decide +kernel, by decide +kernel⟩
  · obtain rfl := Option.some.inj h₁
    obtain rfl := Option.some.inj h₂
    obtain rfl := Option.some.inj h₃
    exact Or.inr (by decide +kernel)

/-- A first call for no memory returns before the heap is initialised, so after
it the region is not yet cut into blocks. -/
theorem heap_untiled_after_malloc_zero :
    Permitted Client.Allowed (Client.step (kernelHeap (linkerLayout 0x20000404)))
      (Client.fresh fun _ => 0) [.malloc 0] ∧
    ∃ c, run (Client.step (kernelHeap (linkerLayout 0x20000404))) (Client.fresh fun _ => 0)
        [.malloc 0] = some c ∧
      ¬ ∃ bs, Tiling (linkerLayout 0x20000404).heap c bs := by
  have hallowed : (Client.fresh fun _ => 0).Allowed (.malloc 0) := Nat.two_pow_pos 32
  refine ⟨⟨hallowed, fun _ _ => trivial⟩, Client.fresh fun _ => 0, rfl, ?_⟩
  rintro ⟨bs, htiling⟩
  cases bs with
  | nil =>
    have hspan := htiling.partition
    simp [extent, linkerLayout] at hspan
  | cons b bs =>
    have hsize := (htiling.sized b List.mem_cons_self).1
    have hheader := htiling.header [] b bs rfl
    simp [Client.fresh, read32] at hheader
    omega

end Alloc
