import CrestRtos.Heap.Tiling

/-!
# One call of the allocator

`Tiled R h bs` says that the initialised heap `h` is the block list `bs` laid
out over the region `R`. A call of `malloc` carves a block out of the first
free block that fits, and a call of `free` gives the block back with
`insertFree`. Both searches end within the loop bound.
-/

namespace Alloc
open ByteMemory MachineWord BlockList

/-- What the linker script provides: an aligned region with room for a block. -/
structure Region.Placed (R : Region) : Prop where
  pos : 0 < R.start
  startAligned : R.start % 8 = 0
  stopAligned : R.stop % 8 = 0
  room : R.start + 16 ≤ R.stop
  stopLt : R.stop < 2 ^ 32

theorem linkerLayout_placed (bssEnd : Nat) (hlo : 0x20000000 ≤ bssEnd)
    (hhi : bssEnd + 0x4017 ≤ 0x2001F000) :
    (linkerLayout bssEnd).heap.Placed ∧ (linkerLayout bssEnd).userHeap.Placed := by
  constructor
  · constructor <;> simp only [linkerLayout] <;> omega
  · constructor <;> simp only [linkerLayout] <;> omega

structure Tiled (R : Region) (h : Heap) (bs : List Block) : Prop where
  inited : h.heapInited = true
  span : R.start + extent bs = R.stop
  sized : Sized 16 8 bs
  coalesced : Coalesced bs
  laid : Laid h.mem R.start 0 bs
  head : h.freeList = firstFree R.start 0 bs

theorem alignUp_mod (x : Nat) : alignUp x % 8 = 0 := by
  simp only [alignUp, alignMask, andNot_seven]
  omega

theorem blockNeed_spec (size : Nat) :
    16 ≤ blockNeed size ∧ blockNeed size % 8 = 0 ∧ blockNeed size < 2 ^ 32 := by
  have hal := alignUp_mod size
  have hmod : wrap (alignUp size + 8) % 8 = 0 := by
    simp only [wrap]
    omega
  have hlt := wrap_lt (alignUp size + 8)
  by_cases hsmall : wrap (alignUp size + 8) < 16
  · have hneed : blockNeed size = 16 := if_pos hsmall
    omega
  · have hneed : blockNeed size = wrap (alignUp size + 8) := if_neg hsmall
    omega

theorem Region.Placed.heapStart {R : Region} (hR : R.Placed) : R.heapStart = R.start := by
  have hstop := hR.stopLt
  have hroom := hR.room
  have hal := hR.startAligned
  have hstopal := hR.stopAligned
  have hwrap : wrap (R.start + alignMask) = R.start + 7 := wrap_of_lt
    (by simp only [alignMask]; omega)
  rw [Region.heapStart, hwrap, alignMask, andNot_seven]
  omega

theorem sized_length {bs : List Block} (h : Sized 16 8 bs) : 16 * bs.length ≤ extent bs := by
  induction bs with
  | nil => simp
  | cons b bs ih =>
    obtain ⟨hb, hbs⟩ := sized_cons.mp h
    have := ih hbs
    simp only [List.length_cons, extent]
    omega

section OneCall
variable {R : Region} {h : Heap} {bs : List Block}

theorem Tiled.length_lt_loopBound (hR : R.Placed) (ht : Tiled R h bs) :
    bs.length < loopBound R := by
  have hlen := sized_length ht.sized
  have hspan := ht.span
  rw [loopBound, hR.heapStart]
  omega

/-- The first call builds one free block over the whole region. -/
theorem heapInit_tiled (hR : R.Placed) (h : Heap) :
    Tiled R (heapInit R h) [⟨R.stop - R.start, false⟩] := by
  have hroom := hR.room
  have hstop := hR.stopLt
  have hpos := hR.pos
  have hal := hR.startAligned
  have hstopal := hR.stopAligned
  have hinit : heapInit R h =
      { ((({ h with freeList := R.start } : Heap).setSize R.start (R.stop - R.start)).setNext
          R.start 0) with heapInited := true } := by
    simp only [heapInit, hR.heapStart]
    rw [if_neg (by omega)]
    rfl
  rw [hinit]
  refine ⟨rfl, ?_, ?_, List.isChain_singleton _, ?_, rfl⟩
  · simp only [extent]
    omega
  · exact sized_cons.mpr ⟨⟨by simp only; omega, by simp only; omega⟩, sized_nil⟩
  · refine ⟨?_, fun _ => ?_, trivial⟩
    · change read32 (write32 (write32 h.mem _ _) _ _) _ = R.stop - R.start + 0
      rw [read32_write32_of_disjoint _ (by omega)]
      exact read32_write32_same _ (by omega)
    · exact read32_write32_same _ (by decide)

theorem firstFitMalloc_of_search {size prev curr : Nat} (hsize : size ≠ 0)
    (hin : h.heapInited = true)
    (hsearch : searchFit h.mem (blockNeed size) (loopBound R) 0 h.freeList = some (prev, curr)) :
    firstFitMalloc R h size =
      if curr = 0 then some (h, 0)
      else some (takeBlock h prev curr (blockNeed size), wrap (curr + headerSize)) := by
  simp only [firstFitMalloc, if_neg hsize, hin, if_true, hsearch]

/-- `malloc` on an initialised heap: out of memory, or the first fit is carved. -/
theorem malloc_tiled (hR : R.Placed) (ht : Tiled R h bs) {size : Nat} (hsize : size ≠ 0) :
    ((∀ b ∈ bs, b.live = false → b.size < blockNeed size) ∧
      firstFitMalloc R h size = some (h, 0)) ∨
    ∃ xs s ys h', bs = xs ++ ⟨s, false⟩ :: ys ∧ blockNeed size ≤ s ∧
      (∀ b ∈ xs, b.live = false → b.size < blockNeed size) ∧
      firstFitMalloc R h size = some (h', R.start + extent xs + 8) ∧
      Tiled R h' (xs ++ (carve 16 (blockNeed size) s ++ ys)) := by
  obtain ⟨hleast, hmod, hlt⟩ := blockNeed_spec size
  have hspan := ht.span
  have hstop := hR.stopLt
  have hpos := hR.pos
  rcases searchFit_spec (blockNeed size) ht.sized hpos ht.laid 0 (loopBound R)
      (ht.length_lt_loopBound hR) with ⟨xs, s, ys, rfl, hfit, hsmall, hsearch⟩ | ⟨hsmall, hsearch⟩
  · refine Or.inr ⟨xs, s, ys, takeBlock h (lastFree R.start 0 xs) (R.start + extent xs)
      (blockNeed size), rfl, hfit, hsmall, ?_, ?_⟩
    · have hs16 := (sized_cons.mp (sized_append.mp ht.sized).2).1
      simp only [extent_append, extent] at hspan hs16
      have hnull : ¬ R.start + extent xs = 0 := by omega
      have hptr : wrap (R.start + extent xs + headerSize) = R.start + extent xs + 8 :=
        wrap_of_lt (by simp only [headerSize]; omega)
      rw [firstFitMalloc_of_search hsize ht.inited (ht.head ▸ hsearch), if_neg hnull, hptr]
    · obtain ⟨hx, hbody⟩ := sized_append.mp ht.sized
      obtain ⟨hs, hy⟩ := sized_cons.mp hbody
      simp only [extent_append, extent] at hspan hs
      obtain ⟨hlaid, hhead, hin⟩ := takeBlock_laid (blockNeed size) hpos hx hy
        ⟨hleast, hmod⟩ hs.2 hfit (by omega) ht.laid ht.head
      refine ⟨hin.trans ht.inited, ?_, ?_, coalesced_carve ht.coalesced, hlaid, hhead⟩
      · simp only [extent_append, extent_carve hfit]
        omega
      · exact sized_append.mpr ⟨hx, sized_append.mpr ⟨sized_carve hs ⟨hleast, hmod⟩, hy⟩⟩
  · refine Or.inl ⟨hsmall, ?_⟩
    rw [firstFitMalloc_of_search hsize ht.inited (ht.head ▸ hsearch), if_pos rfl]

/-- `free` of a header that passes the checks. -/
theorem coalescingFree_of_search {x bsz prev curr : Nat} (hR : R.Placed)
    (hin : h.heapInited = true) (hlo : R.start ≤ x) (hbsz : hdrSize h.mem x = bsz)
    (hleast : 8 ≤ bsz) (hend : x + bsz ≤ R.stop)
    (hsearch : searchSlot (h.setSize x bsz).mem x (loopBound R) 0 h.freeList =
      some (prev, curr)) :
    coalescingFree R h (x + 8) = some
      (mergePrev (mergeNext (((h.setSize x bsz).setNext x curr).link prev x) x) prev x) := by
  have hstop := hR.stopLt
  have hhdr : wrap (x + 8 + (2 ^ 32 - headerSize)) = x := by
    simp only [wrap, headerSize]
    omega
  have hwrap : wrap (x + bsz) = x + bsz := wrap_of_lt (by omega)
  have hsearch' : searchSlot (h.setSize x bsz).mem x (loopBound R) 0 (h.setSize x bsz).freeList =
      some (prev, curr) := hsearch
  simp only [coalescingFree, hhdr, hR.heapStart, hbsz, hwrap, hin, hsearch']
  rw [if_neg (by omega), if_neg (by omega), if_neg (by simp),
    if_neg (by simp only [headerSize]; omega)]

/-- The block that `free` puts between its free neighbours before it merges it. -/
def inserted (R : Region) (h : Heap) (s : Nat) (xs ys : List Block) : Heap :=
  ((h.setSize (R.start + extent xs) s).setNext (R.start + extent xs)
    (firstFree (R.start + extent xs + s) 0 ys)).link (lastFree R.start 0 xs) (R.start + extent xs)

/-- `free` of a live payload pointer passes all its checks. Clearing the allocated bit leaves
every link that the search follows. -/
theorem free_of_live {xs ys : List Block} {s : Nat} (hR : R.Placed)
    (ht : Tiled R h (xs ++ ⟨s, true⟩ :: ys)) :
    coalescingFree R h (R.start + extent xs + 8) =
      some (mergePrev (mergeNext (inserted R h s xs ys) (R.start + extent xs))
        (lastFree R.start 0 xs) (R.start + extent xs)) := by
  obtain ⟨hx, hbody⟩ := sized_append.mp ht.sized
  obtain ⟨hs, hy⟩ := sized_cons.mp hbody
  have hspan := ht.span
  have hstop := hR.stopLt
  have hpos := hR.pos
  simp only [extent_append, extent] at hspan hs
  have hlen := ht.length_lt_loopBound hR
  have hxlen : xs.length < loopBound R := by
    simp only [List.length_append, List.length_cons] at hlen
    omega
  have hbsz : hdrSize h.mem (R.start + extent xs) = s :=
    hdrSize_laid (laid_append.mp ht.laid).2 hs.2
  have hlaidx : Laid (h.setSize (R.start + extent xs) s).mem R.start
      (firstFree (R.start + extent xs + s) 0 ys) xs := by
    have hlx := (laid_append.mp ht.laid).1
    refine laid_congr hx (fun x _ hx' => ?_) (by simpa [firstFree] using hlx)
    exact (write32_of_outside _ (by omega)).symm
  have hz := firstFree_zero_or_ge (a := R.start + extent xs + s) ys
  have hstart : h.freeList = firstFree R.start (firstFree (R.start + extent xs + s) 0 ys) xs := by
    refine ht.head.trans ?_
    rw [firstFree_append]
    simp [firstFree]
  have hsearch := searchSlot_spec (R.start + extent xs) hx hpos hlaidx (by omega)
    (Nat.le_refl _) 0 (loopBound R) hxlen
  rw [← hstart] at hsearch
  rw [coalescingFree_of_search hR ht.inited (by omega) hbsz (by omega) (by omega) hsearch]
  rfl

/-- `free` of a live payload pointer puts the block back and merges it. -/
theorem free_tiled {xs ys : List Block} {s : Nat} (hR : R.Placed)
    (ht : Tiled R h (xs ++ ⟨s, true⟩ :: ys)) :
    ∃ h', coalescingFree R h (R.start + extent xs + 8) = some h' ∧
      Tiled R h' (insertFree s xs ys) := by
  obtain ⟨hx, hbody⟩ := sized_append.mp ht.sized
  obtain ⟨hs, hy⟩ := sized_cons.mp hbody
  have hspan := ht.span
  have hstop := hR.stopLt
  have hpos := hR.pos
  simp only [extent_append, extent] at hspan hs
  obtain ⟨hlaid₁, hhead₁, hin₁⟩ :=
    insert_laid hpos hx hy hs.1 (by omega) ht.laid ht.head
  obtain ⟨hlaid₂, hhead₂, hin₂⟩ := mergeNext_laid hpos hx hy hs (by omega) hlaid₁ hhead₁
  obtain ⟨hlaid₃, hhead₃, hin₃⟩ := mergePrev_laid hpos hx hy hs (by omega) hlaid₂ hhead₂
  refine ⟨_, free_of_live hR ht, ⟨hin₃.trans (hin₂.trans (hin₁.trans ht.inited)), ?_, ?_, ?_,
    hlaid₃, hhead₃⟩⟩
  · rw [extent_insertFree]
    omega
  · exact sized_insertFree hs hx hy
  · obtain ⟨hcx, hcb, _⟩ := List.isChain_append.mp ht.coalesced
    exact coalesced_insertFree hcx (List.isChain_cons.mp hcb).2

/-- A store into the payload of a live block changes no header. -/
theorem store_tiled {xs ys : List Block} {s a : Nat} (v : UInt8)
    (ht : Tiled R h (xs ++ ⟨s, true⟩ :: ys)) (hlo : R.start + extent xs + 8 ≤ a)
    (hhi : a < R.start + extent xs + s) :
    Tiled R { h with mem := Function.update h.mem a v } (xs ++ ⟨s, true⟩ :: ys) := by
  obtain ⟨hx, hbody⟩ := sized_append.mp ht.sized
  obtain ⟨_, hy⟩ := sized_cons.mp hbody
  obtain ⟨hlx, hlb⟩ := laid_append.mp ht.laid
  refine ⟨ht.inited, ht.span, ht.sized, ht.coalesced, laid_append.mpr ⟨?_, ?_, ?_, ?_⟩, ht.head⟩
  · refine laid_congr hx (fun x _ hx' => ?_) hlx
    have hne : x ≠ a := by omega
    exact (Function.update_of_ne hne v h.mem).symm
  · rw [read32_update_of_outside _ v (by omega)]
    exact hlb.1
  · intro hlive
    cases hlive
  · refine laid_congr hy (fun x hx' _ => ?_) hlb.2.2
    simp only at hx'
    have hne : x ≠ a := by omega
    exact (Function.update_of_ne hne v h.mem).symm

end OneCall

end Alloc
