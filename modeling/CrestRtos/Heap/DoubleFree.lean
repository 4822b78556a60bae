import CrestRtos.Heap.History

/-!
# Freeing a block twice

`free` clears the allocated bit of the header but never looks at it. A second call
finds the old header and links it in again: in front of itself when the block is in
the free list, and as a second block inside the merged one when it is not.
-/

namespace Alloc
open ByteMemory MachineWord BlockList Transition

section Writes
variable {h : Heap} {a v : Nat}

theorem write32_read32 (m : Memory) (a : Nat) : write32 m a (read32 m a) = m := by
  have hbyte : ∀ (b : UInt8) (n : Nat), n % 256 = b.toNat → UInt8.ofNat n = b := by
    intro b n hn
    exact UInt8.toNat_inj.mp (by rw [UInt8.toNat_ofNat', hn])
  have h0 := (m a).toNat_lt
  have h1 := (m (a + 1)).toNat_lt
  have h2 := (m (a + 2)).toNat_lt
  have h3 := (m (a + 3)).toNat_lt
  funext x
  simp only [write32, read32]
  split
  · rename_i hx
    rw [hx]
    exact hbyte _ _ (by omega)
  split
  · rename_i hx
    rw [hx]
    exact hbyte _ _ (by omega)
  split
  · rename_i hx
    rw [hx]
    exact hbyte _ _ (by omega)
  split
  · rename_i hx
    rw [hx]
    exact hbyte _ _ (by omega)
  · rfl

/-- Writing what is there already. -/
theorem setSize_read (hv : read32 h.mem a = v) : h.setSize a v = h := by
  subst hv
  rw [Heap.setSize, write32_read32]

theorem setNext_read (hv : hdrNext h.mem a = v) : h.setNext a v = h := by
  subst hv
  rw [Heap.setNext, hdrNext, write32_read32]

end Writes

section Again
variable {R : Region} {h : Heap} {xs ys ws fs : List Block} {x m d k : Nat}

/-- The link out of the last free block of a segment. -/
theorem lastFree_next {m : Memory} {a z : Nat} (hl : Laid m a z xs)
    (hne : lastFree a 0 xs ≠ 0) : hdrNext m (lastFree a 0 xs) = z := by
  rcases lastFree_split xs with hall | ⟨us, s, vs, rfl, hvs⟩
  · exact absurd (lastFree_of_live hall) hne
  · rw [lastFree_append_free hvs]
    obtain ⟨_, hnext, _⟩ := (laid_append.mp hl).2
    exact (hnext rfl).trans (firstFree_of_live hvs)

/-- Linking the block that is linked there already. -/
theorem link_same {a v : Nat} (ha : 0 < a) (hl : Laid h.mem a v xs)
    (hf : h.freeList = firstFree a v xs) : h.link (lastFree a 0 xs) v = h := by
  by_cases hnone : lastFree a 0 xs = 0
  · rcases lastFree_split xs with hall | ⟨us, s, vs, rfl, hvs⟩
    · rw [Heap.link, if_neg (by simp [hnone]), ← hf.trans (firstFree_of_live hall)]
    · rw [lastFree_append_free hvs] at hnone
      omega
  · rw [Heap.link, if_pos hnone, setNext_read (lastFree_next hl hnone)]

/-- A free block ends before the next free block begins. -/
theorem lastFree_apart {mem : Memory} {a z : Nat} (hs : Sized 16 8 xs)
    (hc : Coalesced (xs ++ ⟨m, false⟩ :: fs)) (hl : Laid mem a z xs) (hne : lastFree a 0 xs ≠ 0) :
    lastFree a 0 xs + hdrSize mem (lastFree a 0 xs) < a + extent xs := by
  rcases lastFree_split xs with hall | ⟨us, s, vs, rfl, hvs⟩
  · exact absurd (lastFree_of_live hall) hne
  · obtain ⟨hsz, hsv⟩ := sized_cons.mp (sized_append.mp hs).2
    rw [lastFree_append_free hvs, hdrSize_laid (laid_append.mp hl).2 hsz.2, extent_append, extent]
    cases vs with
    | nil =>
      have hadj := (List.isChain_append.mp hc).2.2 ⟨s, false⟩ (by simp) ⟨m, false⟩ rfl
      simp at hadj
    | cons v vs =>
      have hv := (sized_cons.mp hsv).1
      simp only [extent]
      omega

/-- A second `free` of a block that is in the list makes it its own successor. -/
theorem free_listed (hR : R.Placed) (ht : Tiled R h (xs ++ ⟨m, false⟩ :: fs)) :
    coalescingFree R h (R.start + extent xs + 8) =
      some (h.setNext (R.start + extent xs) (R.start + extent xs)) := by
  obtain ⟨hx, hbody⟩ := sized_append.mp ht.sized
  obtain ⟨hm, hf⟩ := sized_cons.mp hbody
  have hspan := ht.span
  have hstop := hR.stopLt
  have hpos := hR.pos
  have hlen := ht.length_lt_loopBound hR
  simp only [extent_append, extent, List.length_append, List.length_cons] at hspan hm hlen
  obtain ⟨hlx, hfree, hsize, _, _⟩ := laid_at_free hm.2 ht.laid ht.head
  have hread : read32 h.mem (R.start + extent xs) = m := (laid_append.mp ht.laid).2.1
  have hsearch := searchSlot_spec (R.start + extent xs) hx hpos hlx (Or.inr (Nat.le_refl _))
    (Nat.le_refl _) 0 (loopBound R) (by omega)
  rw [← hfree, ← setSize_read hread] at hsearch
  rw [coalescingFree_of_search hR ht.inited (by omega) hsize (by omega) (by omega) hsearch,
    setSize_read hread]
  have hframe : ∀ y, R.start ≤ y → y < R.start + extent xs →
      h.mem y = (h.setNext (R.start + extent xs) (R.start + extent xs)).mem y :=
    fun y _ hy => (setNext_mem (by omega)).symm
  have hlx' := laid_congr hx hframe hlx
  have hsize' : hdrSize (h.setNext (R.start + extent xs) (R.start + extent xs)).mem
      (R.start + extent xs) = m := by
    refine (congrArg (andNot · 1) ?_).trans hsize
    exact read32_write32_of_disjoint _ (by omega)
  have hnext' : hdrNext (h.setNext (R.start + extent xs) (R.start + extent xs)).mem
      (R.start + extent xs) = R.start + extent xs := read32_write32_same _ (by omega)
  have hwrap : wrap (R.start + extent xs + m) = R.start + extent xs + m := wrap_of_lt (by omega)
  rw [link_same hpos hlx' hfree, mergeNext, hnext', hsize', hwrap, if_neg (by omega), mergePrev,
    if_neg ?_]
  rintro ⟨hne, hadj⟩
  have hapart := lastFree_apart hx ht.coalesced hlx' hne
  rw [wrap_of_lt (by omega)] at hadj
  omega

/-- The walk of `free` over a segment in front of the block. -/
theorem searchSlot_walk {mem : Memory} {a z : Nat} (hdr : Nat) (hs : Sized 16 8 xs) (ha : 0 < a)
    (hl : Laid mem a z xs) (hhdr : a + extent xs ≤ hdr) (p n : Nat) (enough : xs.length ≤ n) :
    ∃ j, n ≤ j + xs.length ∧ searchSlot mem hdr n p (firstFree a z xs) =
      searchSlot mem hdr j (lastFree a p xs) z := by
  induction xs generalizing a p n with
  | nil => exact ⟨n, by simp, rfl⟩
  | cons b bs ih =>
    obtain ⟨hb, hbs⟩ := sized_cons.mp hs
    obtain ⟨size, live⟩ := b
    simp only [extent] at hb hhdr
    simp only [List.length_cons] at enough
    cases live with
    | true =>
      obtain ⟨j, hj, hwalk⟩ := ih (a := a + size) hbs (by omega) hl.2.2 (by omega) p n (by omega)
      exact ⟨j, by simp only [List.length_cons]; omega, by simpa [firstFree, lastFree] using hwalk⟩
    | false =>
      obtain ⟨i, rfl⟩ : ∃ i, n = i + 1 := ⟨n - 1, by omega⟩
      have hnext : hdrNext mem a = firstFree (a + size) z bs := hl.2.1 rfl
      have hgo : a ≠ 0 ∧ a < hdr := by omega
      obtain ⟨j, hj, hwalk⟩ := ih (a := a + size) hbs (by omega) hl.2.2 (by omega) a i (by omega)
      refine ⟨j, by simp only [List.length_cons]; omega, ?_⟩
      simp only [searchSlot, firstFree, lastFree, Bool.false_eq_true, if_false, if_pos hgo, hnext]
      exact hwalk

/-- A free block behind a free block begins further on. -/
theorem firstFree_apart {a : Nat} (hc : Coalesced (⟨m, false⟩ :: fs)) (hs : Sized 16 8 fs) :
    firstFree a 0 fs = 0 ∨ a < firstFree a 0 fs := by
  cases fs with
  | nil => exact Or.inl rfl
  | cons f fs =>
    have hlive : f.live = true := ((List.isChain_cons_cons.mp hc).1).resolve_left (by simp)
    have hsize := (sized_cons.mp hs).1
    rw [firstFree, if_pos hlive]
    rcases firstFree_zero_or_ge (a := a + f.size) fs with h | h
    · exact Or.inl h
    · exact Or.inr (by omega)

/-- A second `free` of a block that was merged into the one in front makes it the
successor of the block it lies in. -/
theorem free_swallowed (hR : R.Placed) (ht : Tiled R h (ws ++ ⟨d + k, false⟩ :: fs)) (hd : 16 ≤ d)
    (hk : 16 ≤ k ∧ k % 8 = 0) (hx : x = R.start + extent ws + d) (hread : read32 h.mem x = k)
    (hnext : hdrNext h.mem x = firstFree (x + k) 0 fs) :
    coalescingFree R h (x + 8) = some (h.setNext (R.start + extent ws) x) := by
  obtain ⟨hw, hbody⟩ := sized_append.mp ht.sized
  obtain ⟨hm, hf⟩ := sized_cons.mp hbody
  have hspan := ht.span
  have hstop := hR.stopLt
  have hpos := hR.pos
  have hlen := ht.length_lt_loopBound hR
  simp only [extent_append, extent, List.length_append, List.length_cons] at hspan hm hlen
  obtain ⟨hlw, hfree, hsize, hnextw, _⟩ := laid_at_free hm.2 ht.laid ht.head
  have hsizex : hdrSize h.mem x = k := @hdrSize_of_header _ _ _ false hread hk.2
  have hfar := firstFree_apart (a := x + k)
    (List.isChain_append.mp ht.coalesced).2.1 hf
  rw [show R.start + extent ws + (d + k) = x + k by omega] at hnextw
  have hsearch : searchSlot h.mem x (loopBound R) 0 h.freeList =
      some (R.start + extent ws, firstFree (x + k) 0 fs) := by
    rw [hfree]
    obtain ⟨j, hj, hwalk⟩ := searchSlot_walk x hw hpos hlw (by omega) 0 (loopBound R) (by omega)
    obtain ⟨i, rfl⟩ : ∃ i, j = i + 2 := ⟨j - 2, by omega⟩
    rw [hwalk, searchSlot, if_pos (by omega), hnextw, searchSlot, if_neg (by omega)]
  rw [← setSize_read hread] at hsearch
  rw [coalescingFree_of_search hR ht.inited (by omega) hsizex (by omega) (by omega) hsearch,
    setSize_read hread, setNext_read hnext, Heap.link, if_pos (by omega)]
  have hsize' : hdrSize (h.setNext (R.start + extent ws) x).mem x = k := by
    refine (congrArg (andNot · 1) ?_).trans hsizex
    exact read32_write32_of_disjoint _ (by omega)
  have hnext' : hdrNext (h.setNext (R.start + extent ws) x).mem x = firstFree (x + k) 0 fs := by
    refine Eq.trans ?_ hnext
    exact read32_write32_of_disjoint _ (by omega)
  have hsizew : hdrSize (h.setNext (R.start + extent ws) x).mem (R.start + extent ws) =
      d + k := by
    refine (congrArg (andNot · 1) ?_).trans hsize
    exact read32_write32_of_disjoint _ (by omega)
  rw [mergeNext, hnext', hsize', wrap_of_lt (by omega), if_neg (by omega), mergePrev, hsizew,
    wrap_of_lt (by omega), if_neg (by omega)]

/-- Where the header of a live block is once it has been freed. -/
inductive Released (R : Region) (h : Heap) (x : Nat) : Prop
  | listed {xs fs : List Block} {m : Nat} (ht : Tiled R h (xs ++ ⟨m, false⟩ :: fs))
      (hx : x = R.start + extent xs)
  | swallowed {ws fs : List Block} {d k : Nat} (ht : Tiled R h (ws ++ ⟨d + k, false⟩ :: fs))
      (hd : 16 ≤ d) (hk : 16 ≤ k ∧ k % 8 = 0) (hx : x = R.start + extent ws + d)
      (hread : read32 h.mem x = k) (hnext : hdrNext h.mem x = firstFree (x + k) 0 fs)

/-- The merge with the next block still writes the header that is swallowed afterwards. -/
theorem free_released {s : Nat} (hR : R.Placed) (ht : Tiled R h (xs ++ ⟨s, true⟩ :: ys)) :
    ∃ h', coalescingFree R h (R.start + extent xs + 8) = some h' ∧
      Released R h' (R.start + extent xs) := by
  obtain ⟨h', hrun, ht'⟩ := free_tiled hR ht
  refine ⟨h', hrun, ?_⟩
  obtain ⟨hx, hbody⟩ := sized_append.mp ht.sized
  obtain ⟨hs, hy⟩ := sized_cons.mp hbody
  obtain ⟨k, fs, hjoin, hsk⟩ := joinNext_eq s ys
  rcases insertFree_cases s xs ys with ⟨rfl, heq⟩ | ⟨ws, c, rfl, _, heq⟩ | ⟨ws, c, rfl, hc, heq⟩
  · rw [heq, hjoin] at ht'
    exact @Released.listed _ _ _ [] _ _ ht' rfl
  · rw [heq, hjoin] at ht'
    exact .listed ht' rfl
  · obtain ⟨d, live⟩ := c
    obtain rfl : live = false := hc
    rw [heq, joinNext_add hjoin] at ht'
    have hspan := ht.span
    have hstop := hR.stopLt
    have hpos := hR.pos
    have hd := (sized_cons.mp (sized_append.mp hx).2).1
    have hxs : R.start + extent (ws ++ [⟨d, false⟩]) = R.start + extent ws + d := by
      simp only [extent_append, extent]
      omega
    simp only [extent_append, extent] at hspan hd hs
    obtain ⟨hlaid, hhead, _⟩ := insert_laid hpos hx hy hs.1
      (by simp only [extent_append, extent]; omega) ht.laid ht.head
    obtain ⟨hlaid', _, _⟩ := mergeNext_laid hpos hx hy hs
      (by simp only [extent_append, extent]; omega) hlaid hhead
    rw [hjoin] at hlaid'
    obtain ⟨hread, hnext, _⟩ := (laid_append.mp hlaid').2
    have hk := sized_joinNext hs hy
    rw [hjoin] at hk
    rw [free_of_live hR ht, lastFree_append_free (by simp)] at hrun
    obtain rfl := Option.some.inj hrun
    have hsame : ∀ y, R.start + extent ws + d ≤ y → (mergePrev (mergeNext (inserted R h s
        (ws ++ [⟨d, false⟩]) ys) (R.start + extent (ws ++ [⟨d, false⟩]))) (R.start + extent ws)
        (R.start + extent (ws ++ [⟨d, false⟩]))).mem y = (mergeNext (inserted R h s
        (ws ++ [⟨d, false⟩]) ys) (R.start + extent (ws ++ [⟨d, false⟩]))).mem y :=
      fun y hy => mergePrev_mem (by omega)
    refine .swallowed ht' hd.1 (sized_cons.mp hk).1 hxs ?_ ?_
    · exact (read32_congr fun y hy _ => hsame y (by omega)).trans hread
    · exact (read32_congr fun y hy _ => hsame y (by omega)).trans (hnext rfl)

end Again

/-- Freeing `p` and freeing it again comes to the same as freeing it once, and the free
list ends. -/
def FreeTwiceHarmless (A : Allocator) (h : Heap) (p : Nat) : Prop :=
  ∃ h₁, A.free h p = some h₁ ∧ A.free h₁ p = some h₁ ∧ ∃ l, FreeList h₁ l

/-- What the second `free` of `p` does to the free list `l`: the header becomes its own
successor and the list has no end, or it is linked in inside another free block. -/
inductive Corrupted (h : Heap) (l : List (Nat × Nat)) (hdr : Nat) : Prop
  | loop {s : Nat} (hmem : (hdr, s) ∈ l) (hself : hdrNext h.mem hdr = hdr)
      (hendless : ¬ ∃ l', FreeList h l')
  | overlap {y s : Nat} (hmem : (y, s) ∈ l) (hin : y < hdr ∧ hdr < y + s)
      (hlink : hdrNext h.mem y = hdr)

section Twice
variable {R : Region} {h : Heap} {x : Nat}

theorem Released.again (hR : R.Placed) (hx : Released R h x) : ∃ h₂ l,
    coalescingFree R h (x + 8) = some h₂ ∧ h₂ ≠ h ∧ FreeBlocks h l ∧ Corrupted h₂ l x := by
  have hstop := hR.stopLt
  have hpos := hR.pos
  cases hx with
  | @listed xs fs m ht hx =>
    subst hx
    have hspan := ht.span
    obtain ⟨hs, hbody⟩ := sized_append.mp ht.sized
    obtain ⟨hm, hfs⟩ := sized_cons.mp hbody
    simp only [extent_append, extent] at hspan hm
    obtain ⟨hlx, hfree, _, hnext, _⟩ := laid_at_free hm.2 ht.laid ht.head
    have hself : hdrNext (h.setNext (R.start + extent xs) (R.start + extent xs)).mem
        (R.start + extent xs) = R.start + extent xs := read32_write32_same _ (by omega)
    refine ⟨_, _, free_listed hR ht, fun heq => ?_, ht.freeBlocks hR,
      .loop (mem_freeBlocks.mpr ⟨xs, fs, rfl, rfl⟩) hself ?_⟩
    · rw [heq, hnext] at hself
      have hfar := firstFree_zero_or_ge (a := R.start + extent xs + m) fs
      omega
    · rintro ⟨l, hl⟩
      have hframe : ∀ y, R.start ≤ y → y < R.start + extent xs →
          h.mem y = (h.setNext (R.start + extent xs) (R.start + extent xs)).mem y :=
        fun y _ hy => (setNext_mem (by omega)).symm
      have hseg := freeList_seg hpos (laid_congr hs hframe hlx)
      rw [← hfree] at hseg
      obtain ⟨t, hlinked⟩ := IntrusiveList.linked_after hl hseg
      rw [ptr, if_neg (by omega)] at hlinked
      refine IntrusiveList.not_linked_of_self ?_ hlinked
      rw [nextFree, hself, ptr, if_neg (by omega)]
  | @swallowed ws fs d k ht hd hk hx hread hnext =>
    have hspan := ht.span
    have hm := (sized_cons.mp (sized_append.mp ht.sized).2).1
    simp only [extent_append, extent] at hspan hm
    obtain ⟨_, _, _, hnextw, _⟩ := laid_at_free hm.2 ht.laid ht.head
    have hlink : hdrNext (h.setNext (R.start + extent ws) x).mem (R.start + extent ws) = x :=
      read32_write32_same _ (by omega)
    refine ⟨_, _, free_swallowed hR ht hd hk hx hread hnext, fun heq => ?_, ht.freeBlocks hR,
      .overlap (mem_freeBlocks.mpr ⟨ws, fs, rfl, rfl⟩) (by omega) hlink⟩
    rw [heq, hnextw] at hlink
    have hfar := firstFree_zero_or_ge (a := R.start + extent ws + (d + k)) fs
    omega

end Twice

/-- The second `free` of a pointer never leaves the heap as it is. -/
theorem free_twice_never_harmless (L : Layout) (hk : L.heap.Placed) (hu : L.userHeap.Placed)
    {A : Allocator} (hA : A = kernelHeap L ∨ A = userHeap L) {c : Client} (hc : c.Reached A)
    {p : Nat} (hp : p ∈ c.live) : ¬ FreeTwiceHarmless A c.heap p ∧
      ∃ h₁ h₂ l, A.free c.heap p = some h₁ ∧ A.free h₁ p = some h₂ ∧ FreeBlocks h₁ l ∧
        Corrupted h₂ l (p - headerSize) := by
  obtain ⟨hR, hm, hf⟩ := either_code hk hu hA
  obtain ⟨hlive, bs, hbs⟩ := hc.holds hR hm hf
  have hstarted : c.heap.started A.region = c.heap := by
    refine hlive.resolve_left fun hnone => ?_
    rw [hnone] at hp
    cases hp
  have ht : Tiled A.region c.heap bs := hstarted ▸ hbs.1
  obtain ⟨xs, n, ys, rfl, rfl, _⟩ := live_block ht ((hbs.mem_iff p).mp hp)
  obtain ⟨h₁, hfirst, hreleased⟩ := free_released hR ht
  obtain ⟨h₂, l, hsecond, hne, hblocks, hcorrupt⟩ := hreleased.again hR
  rw [hf, show headerSize = 8 from rfl, Nat.add_sub_cancel]
  refine ⟨?_, h₁, h₂, l, hfirst, hsecond, hblocks, hcorrupt⟩
  rintro ⟨h, hone, htwo, _⟩
  rw [hf] at hone htwo
  obtain rfl := Option.some.inj (hfirst.symm.trans hone)
  exact hne (Option.some.inj (hsecond.symm.trans htwo))

/-- The second block of two, freed twice after the first one: its header is inside the
merged block. -/
theorem free_twice_never_harmless_merged : ∃ c : Client, 0x20004430 ∈ c.live ∧
    ¬ FreeTwiceHarmless (kernelHeap (linkerLayout 0x20000404)) c.heap 0x20004430 ∧
    ∃ h₁ h₂ l, (kernelHeap (linkerLayout 0x20000404)).free c.heap 0x20004430 = some h₁ ∧
      (kernelHeap (linkerLayout 0x20000404)).free h₁ 0x20004430 = some h₂ ∧ FreeBlocks h₁ l ∧
      Corrupted h₂ l 0x20004428 := by
  have hplaced := linkerLayout_placed 0x20000404 (by decide) (by decide)
  obtain ⟨c, hc, hrun⟩ := reached_hole
  have hlive : 0x20004430 ∈ c.live := by
    obtain rfl := Option.some.inj hrun
    decide +kernel
  exact ⟨c, hlive, free_twice_never_harmless _ hplaced.1 hplaced.2 (Or.inl rfl) hc hlive⟩

/-- Freed twice, the only block in use becomes its own successor. -/
theorem free_twice_self_loop : ∃ c : Client, ∃ h₁ h₂,
    c.Reached (kernelHeap (linkerLayout 0x20000404)) ∧ c.live = [0x20004410] ∧
    (kernelHeap (linkerLayout 0x20000404)).free c.heap 0x20004410 = some h₁ ∧
    (kernelHeap (linkerLayout 0x20000404)).free h₁ 0x20004410 = some h₂ ∧
    hdrNext h₁.mem 0x20004408 = 0 ∧ hdrNext h₂.mem 0x20004408 = 0x20004408 ∧
    ¬ FreeTwiceHarmless (kernelHeap (linkerLayout 0x20000404)) c.heap 0x20004410 := by
  obtain ⟨c, h₁, h₂, hc, hlive, hone, htwo, hbefore, hafter⟩ : ∃ c : Client, ∃ h₁ h₂,
      c.Reached (kernelHeap (linkerLayout 0x20000404)) ∧ c.live = [0x20004410] ∧
      (kernelHeap (linkerLayout 0x20000404)).free c.heap 0x20004410 = some h₁ ∧
      (kernelHeap (linkerLayout 0x20000404)).free h₁ 0x20004410 = some h₂ ∧
      hdrNext h₁.mem 0x20004408 = 0 ∧ hdrNext h₂.mem 0x20004408 = 0x20004408 :=
    ⟨_, _, _, ⟨fun _ => 0, [.malloc 24], ⟨(by decide : (24 : Nat) < 2 ^ 32), fun _ _ => trivial⟩,
      rfl⟩, by decide +kernel, rfl, rfl, by decide +kernel, by decide +kernel⟩
  refine ⟨c, h₁, h₂, hc, hlive, hone, htwo, hbefore, hafter, ?_⟩
  rintro ⟨h, hfirst, hsecond, _⟩
  obtain rfl := Option.some.inj (hone.symm.trans hfirst)
  obtain rfl := Option.some.inj (htwo.symm.trans hsecond)
  rw [hbefore] at hafter
  cases hafter

end Alloc
