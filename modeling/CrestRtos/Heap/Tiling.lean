import CrestRtos.Heap.Alloc
import CrestRtos.Library.BlockList
import CrestRtos.Library.IntrusiveList

/-!
# The allocator on memory refines the block list

`Laid` reads a block list out of the headers in memory. Each piece of the C
code is matched with one operation on the list: the two searches, the cut made
by `malloc`, and the insertion and the two merges of `free`. `Tiled` is the
state of an initialised heap. It holds whatever sizes are requested, because a
request only enters through `blockNeed`.
-/

namespace Alloc
open ByteMemory MachineWord BlockList

/-- The headers from address `a` on describe `bs`; `z` is the free block that
follows the segment. -/
def Laid (m : Memory) (a z : Nat) : List Block → Prop
  | [] => True
  | b :: bs =>
    read32 m a = b.size + (if b.live then 1 else 0) ∧
    (b.live = false → hdrNext m a = firstFree (a + b.size) z bs) ∧
    Laid m (a + b.size) z bs

theorem laid_append {m : Memory} {a z : Nat} {xs ys : List Block} :
    Laid m a z (xs ++ ys) ↔
      Laid m a (firstFree (a + extent xs) z ys) xs ∧ Laid m (a + extent xs) z ys := by
  induction xs generalizing a with
  | nil => simp [Laid, extent]
  | cons x xs ih =>
    simp only [List.cons_append, Laid, extent, ih, firstFree_append, Nat.add_assoc, and_assoc]

/-- A segment only depends on the bytes it spans. -/
theorem laid_congr {m m' : Memory} {a z : Nat} {bs : List Block} (hs : Sized 16 8 bs)
    (same : ∀ x, a ≤ x → x < a + extent bs → m x = m' x) (h : Laid m a z bs) :
    Laid m' a z bs := by
  induction bs generalizing a with
  | nil => trivial
  | cons b bs ih =>
    obtain ⟨hb, hbs⟩ := sized_cons.mp hs
    obtain ⟨hsize, hnext, hrest⟩ := h
    simp only [extent] at same
    refine ⟨?_, fun hlive => ?_, ih hbs (fun x hx hx' => same x (by omega) (by omega)) hrest⟩
    · rw [← hsize]
      exact (read32_congr fun x hx hx' => same x hx (by omega)).symm
    · rw [← hnext hlive]
      exact (read32_congr fun x hx hx' => same x (by omega) (by omega)).symm

theorem firstFree_of_live {a z : Nat} {bs : List Block} (h : ∀ b ∈ bs, b.live = true) :
    firstFree a z bs = z := by
  induction bs generalizing a with
  | nil => rfl
  | cons b bs ih =>
    simp only [firstFree, h b List.mem_cons_self, if_true]
    exact ih fun c hc => h c (List.mem_cons_of_mem b hc)

theorem lastFree_of_live {a z : Nat} {bs : List Block} (h : ∀ b ∈ bs, b.live = true) :
    lastFree a z bs = z := by
  induction bs generalizing a with
  | nil => rfl
  | cons b bs ih =>
    simp only [lastFree, h b List.mem_cons_self, if_true]
    exact ih fun c hc => h c (List.mem_cons_of_mem b hc)

theorem laid_of_live {m : Memory} {a z z' : Nat} {bs : List Block}
    (h : ∀ b ∈ bs, b.live = true) (hl : Laid m a z bs) : Laid m a z' bs := by
  induction bs generalizing a with
  | nil => trivial
  | cons b bs ih =>
    obtain ⟨hsize, _, hrest⟩ := hl
    have hb := h b List.mem_cons_self
    refine ⟨hsize, ?_, ih (fun c hc => h c (List.mem_cons_of_mem b hc)) hrest⟩
    intro hf
    rw [hb] at hf
    cases hf

/-- Either there is no free block, or the last one is found by splitting. -/
theorem lastFree_split (bs : List Block) :
    (∀ b ∈ bs, b.live = true) ∨
    ∃ us s vs, bs = us ++ ⟨s, false⟩ :: vs ∧ ∀ b ∈ vs, b.live = true := by
  induction bs with
  | nil => exact Or.inl (by simp)
  | cons b bs ih =>
    rcases ih with hall | ⟨us, s, vs, rfl, hvs⟩
    · cases hb : b.live with
      | true =>
        refine Or.inl fun c hc => ?_
        rcases List.mem_cons.mp hc with rfl | hc
        · exact hb
        · exact hall c hc
      | false =>
        obtain ⟨size, live⟩ := b
        obtain rfl : live = false := hb
        exact Or.inr ⟨[], size, bs, rfl, hall⟩
    · exact Or.inr ⟨b :: us, s, vs, rfl, hvs⟩

theorem lastFree_append_free {a z s : Nat} {us vs : List Block}
    (hvs : ∀ b ∈ vs, b.live = true) : lastFree a z (us ++ ⟨s, false⟩ :: vs) = a + extent us := by
  rw [lastFree_append, lastFree, lastFree_of_live hvs]
  simp

theorem hdrSize_of_header {m : Memory} {a s : Nat} {live : Bool}
    (h : read32 m a = s + (if live then 1 else 0)) (hs : s % 8 = 0) : hdrSize m a = s := by
  rw [hdrSize, h, andNot_one]
  cases live <;> simp <;> omega

theorem hdrSize_laid {m : Memory} {a z : Nat} {b : Block} {bs : List Block}
    (h : Laid m a z (b :: bs)) (hs : b.size % 8 = 0) : hdrSize m a = b.size :=
  hdrSize_of_header h.1 hs

/-- `if (prev) prev->next = v; else free_list = v;` with `prev` the last free
block of a segment makes `v` the free block that follows the segment. -/
theorem link_laid {h : Heap} {a z v : Nat} {xs : List Block} (ha : 0 < a)
    (hs : Sized 16 8 xs) (hv : v < 2 ^ 32) (hl : Laid h.mem a z xs)
    (hf : h.freeList = firstFree a z xs) :
    Laid (h.link (lastFree a 0 xs) v).mem a v xs ∧
    (h.link (lastFree a 0 xs) v).freeList = firstFree a v xs ∧
    (∀ x, x < a ∨ a + extent xs ≤ x → (h.link (lastFree a 0 xs) v).mem x = h.mem x) ∧
    (h.link (lastFree a 0 xs) v).heapInited = h.heapInited := by
  rcases lastFree_split xs with hall | ⟨us, s, vs, rfl, hvs⟩
  · rw [lastFree_of_live hall]
    simp only [Heap.link, ne_eq, not_true, if_false, firstFree_of_live hall]
    exact ⟨laid_of_live hall hl, trivial, fun _ _ => trivial, trivial⟩
  · obtain ⟨hus, htail⟩ := sized_append.mp hs
    obtain ⟨hb, hvss⟩ := sized_cons.mp htail
    obtain ⟨hlu, hlt⟩ := laid_append.mp hl
    obtain ⟨hsize, _, hlv⟩ := hlt
    have hext : extent (us ++ ⟨s, false⟩ :: vs) = extent us + s + extent vs := by
      simp only [extent_append, extent]
      omega
    have hsz : 16 ≤ s := hb.1
    rw [lastFree_append_free hvs]
    simp only [Heap.link, ne_eq, show ¬ a + extent us = 0 by omega, not_false_eq_true, if_true,
      Heap.setNext]
    refine ⟨laid_append.mpr ⟨?_, ?_, fun _ => ?_, ?_⟩, ?_, ?_, trivial⟩
    · refine laid_congr hus (fun x _ hx => ?_) hlu
      exact (write32_of_outside _ (by omega)).symm
    · rw [read32_write32_of_disjoint _ (by omega)]
      exact hsize
    · rw [firstFree_of_live hvs]
      exact read32_write32_same _ hv
    · refine laid_congr hvss (fun x hx _ => ?_) (laid_of_live hvs hlv)
      exact (write32_of_outside _ (by simp only at hx; omega)).symm
    · rw [hf, firstFree_append, firstFree_append]
      simp [firstFree]
    · intro x hx
      exact write32_of_outside _ (by omega)

/-- The search of `malloc` stops at the first free block that is large enough. -/
theorem searchFit_spec {m : Memory} (need : Nat) {bs : List Block} (hs : Sized 16 8 bs)
    {a : Nat} (ha : 0 < a) (hl : Laid m a 0 bs) (p n : Nat) (enough : bs.length < n) :
    (∃ xs s ys, bs = xs ++ ⟨s, false⟩ :: ys ∧ need ≤ s ∧
      (∀ b ∈ xs, b.live = false → b.size < need) ∧
      searchFit m need n p (firstFree a 0 bs) = some (lastFree a p xs, a + extent xs)) ∨
    ((∀ b ∈ bs, b.live = false → b.size < need) ∧
      searchFit m need n p (firstFree a 0 bs) = some (lastFree a p bs, 0)) := by
  induction bs generalizing a p n with
  | nil =>
    cases n with
    | zero => simp at enough
    | succ n => exact Or.inr ⟨by simp, by simp [searchFit, firstFree, lastFree]⟩
  | cons b bs ih =>
    obtain ⟨hb, hbs⟩ := sized_cons.mp hs
    obtain ⟨size, live⟩ := b
    have hlen : bs.length < n := by simp only [List.length_cons] at enough; omega
    have hpos : 0 < a + size := by omega
    cases live with
    | true =>
      have hrest := hl.2.2
      rcases ih hbs hpos hrest p n hlen with ⟨xs, s, ys, rfl, hfit, hsmall, hrun⟩ | ⟨hsmall, hrun⟩
      · refine Or.inl ⟨⟨size, true⟩ :: xs, s, ys, rfl, hfit, ?_, ?_⟩
        · intro c hc hfree
          rcases List.mem_cons.mp hc with rfl | hc
          · cases hfree
          · exact hsmall c hc hfree
        · simpa [firstFree, lastFree, extent, Nat.add_assoc] using hrun
      · refine Or.inr ⟨?_, by simpa [firstFree, lastFree] using hrun⟩
        intro c hc hfree
        rcases List.mem_cons.mp hc with rfl | hc
        · cases hfree
        · exact hsmall c hc hfree
    | false =>
      obtain ⟨k, rfl⟩ : ∃ k, n = k + 1 := ⟨n - 1, by omega⟩
      have hsize : hdrSize m a = size := hdrSize_laid hl hb.2
      have hnext : hdrNext m a = firstFree (a + size) 0 bs := hl.2.1 rfl
      have hstep : searchFit m need (k + 1) p (firstFree a 0 (⟨size, false⟩ :: bs)) =
          if need ≤ size then some (p, a)
          else searchFit m need k a (firstFree (a + size) 0 bs) := by
        simp only [searchFit, firstFree, Bool.false_eq_true, if_false, hsize, hnext,
          show ¬ a = 0 by omega]
      by_cases hfit : need ≤ size
      · refine Or.inl ⟨[], size, bs, rfl, hfit, by simp, ?_⟩
        rw [hstep, if_pos hfit]
        simp [lastFree, extent]
      · rw [hstep, if_neg hfit]
        have hlen' : bs.length < k := by simp only [List.length_cons] at enough; omega
        rcases ih hbs hpos hl.2.2 a k hlen' with
          ⟨xs, s, ys, rfl, hfit', hsmall, hrun⟩ | ⟨hsmall, hrun⟩
        · refine Or.inl ⟨⟨size, false⟩ :: xs, s, ys, rfl, hfit', ?_, ?_⟩
          · intro c hc hfree
            rcases List.mem_cons.mp hc with rfl | hc
            · exact Nat.lt_of_not_le hfit
            · exact hsmall c hc hfree
          · simpa [lastFree, extent, Nat.add_assoc] using hrun
        · refine Or.inr ⟨?_, by simpa [lastFree] using hrun⟩
          intro c hc hfree
          rcases List.mem_cons.mp hc with rfl | hc
          · exact Nat.lt_of_not_le hfit
          · exact hsmall c hc hfree

section Take
variable {h : Heap} {a need s : Nat} {xs ys : List Block}

/-- What the loop body reads when the search has stopped at the free block
between `xs` and `ys`. -/
theorem laid_at_free (hss : s % 8 = 0) (hl : Laid h.mem a 0 (xs ++ ⟨s, false⟩ :: ys))
    (hf : h.freeList = firstFree a 0 (xs ++ ⟨s, false⟩ :: ys)) :
    Laid h.mem a (a + extent xs) xs ∧ h.freeList = firstFree a (a + extent xs) xs ∧
    hdrSize h.mem (a + extent xs) = s ∧
    hdrNext h.mem (a + extent xs) = firstFree (a + extent xs + s) 0 ys ∧
    Laid h.mem (a + extent xs + s) 0 ys := by
  obtain ⟨hlx, hlt⟩ := laid_append.mp hl
  refine ⟨by simpa [firstFree] using hlx, ?_, hdrSize_laid hlt hss, hlt.2.1 rfl, hlt.2.2⟩
  rw [hf, firstFree_append]
  simp [firstFree]

/-- The block is split: the header of the remainder is written before the links
move, and the size of the taken part last. -/
theorem takeBlock_split (ha : 0 < a) (hx : Sized 16 8 xs) (hy : Sized 16 8 ys)
    (hneed : 16 ≤ need ∧ need % 8 = 0) (hss : s % 8 = 0) (hsplit : 16 ≤ s - need)
    (hbound : a + extent xs + s + extent ys < 2 ^ 32)
    (hl : Laid h.mem a 0 (xs ++ ⟨s, false⟩ :: ys))
    (hf : h.freeList = firstFree a 0 (xs ++ ⟨s, false⟩ :: ys)) :
    Laid (takeBlock h (lastFree a 0 xs) (a + extent xs) need).mem a 0
      (xs ++ ⟨need, true⟩ :: ⟨s - need, false⟩ :: ys) ∧
    (takeBlock h (lastFree a 0 xs) (a + extent xs) need).freeList =
      firstFree a 0 (xs ++ ⟨need, true⟩ :: ⟨s - need, false⟩ :: ys) ∧
    (takeBlock h (lastFree a 0 xs) (a + extent xs) need).heapInited = h.heapInited := by
  obtain ⟨hlx, hf', hsize, hnext, hly⟩ := laid_at_free hss hl hf
  generalize hc : a + extent xs = curr at *
  have hwrap : wrap (curr + need) = curr + need := wrap_of_lt (by omega)
  let h₁ : Heap := (h.setSize (curr + need) (s - need)).setNext (curr + need)
    (hdrNext (h.setSize (curr + need) (s - need)).mem curr)
  have hnext₁ : hdrNext (h.setSize (curr + need) (s - need)).mem curr =
      firstFree (curr + s) 0 ys := by
    rw [← hnext]
    exact read32_write32_of_disjoint _ (by omega)
  have hmem₁ : ∀ x, x < curr + need ∨ curr + need + 8 ≤ x → h₁.mem x = h.mem x := by
    intro x hx'
    change write32 (write32 h.mem _ _) _ _ x = h.mem x
    rw [write32_of_outside _ (by omega), write32_of_outside _ (by omega)]
  have hlx₁ : Laid h₁.mem a curr xs :=
    laid_congr hx (fun x _ hx' => (hmem₁ x (by omega)).symm) hlx
  obtain ⟨hlx₂, hf₂, hmem₂, hin₂⟩ := link_laid (v := curr + need) ha hx (by omega) hlx₁ hf'
  have htake : takeBlock h (lastFree a 0 xs) curr need =
      (h₁.link (lastFree a 0 xs) (curr + need)).setSize curr (need ||| 1) := by
    simp only [takeBlock, hsize, hwrap]
    rw [if_pos (by exact hsplit)]
  have hmem : ∀ x, curr + 4 ≤ x →
      (takeBlock h (lastFree a 0 xs) curr need).mem x = h₁.mem x := by
    intro x hx'
    rw [htake]
    exact (write32_of_outside _ (by omega)).trans (hmem₂ x (by omega))
  have hsum : curr + need + (s - need) = curr + s := by omega
  refine ⟨laid_append.mpr ⟨?_, ?_⟩, ?_, ?_⟩
  · rw [hc, htake]
    refine laid_congr hx (fun x _ hx' => ?_) (by simpa [firstFree] using hlx₂)
    exact (write32_of_outside _ (by omega)).symm
  · rw [hc]
    refine ⟨?_, (fun hlive => by cases hlive), ?_, fun _ => ?_, ?_⟩
    · rw [htake, or_one_of_even (by omega)]
      exact read32_write32_same _ (by omega)
    · change read32 (takeBlock h (lastFree a 0 xs) curr need).mem (curr + need) = s - need + 0
      rw [read32_congr (fun x hx' _ => hmem x (by omega))]
      change read32 (write32 (write32 h.mem _ _) _ _) _ = _
      rw [read32_write32_of_disjoint _ (by omega)]
      exact read32_write32_same _ (by omega)
    · simp only [hsum]
      rw [← hnext₁]
      change read32 (takeBlock h (lastFree a 0 xs) curr need).mem (curr + need + 4) = _
      rw [read32_congr (fun x hx' _ => hmem x (by omega))]
      exact read32_write32_same _ (read32_lt _ _)
    · simp only [hsum]
      refine laid_congr hy (fun x hx' _ => ?_) hly
      rw [hmem x (by omega)]
      exact (hmem₁ x (by omega)).symm
  · rw [htake, firstFree_append, hc]
    simpa [firstFree, Heap.setSize] using hf₂
  · rw [htake]
    exact hin₂

/-- The whole block is handed out. -/
theorem takeBlock_whole (ha : 0 < a) (hx : Sized 16 8 xs) (hy : Sized 16 8 ys)
    (hneed : 16 ≤ need) (hss : s % 8 = 0) (hfit : need ≤ s) (hwhole : ¬ 16 ≤ s - need)
    (hbound : a + extent xs + s + extent ys < 2 ^ 32)
    (hl : Laid h.mem a 0 (xs ++ ⟨s, false⟩ :: ys))
    (hf : h.freeList = firstFree a 0 (xs ++ ⟨s, false⟩ :: ys)) :
    Laid (takeBlock h (lastFree a 0 xs) (a + extent xs) need).mem a 0 (xs ++ ⟨s, true⟩ :: ys) ∧
    (takeBlock h (lastFree a 0 xs) (a + extent xs) need).freeList =
      firstFree a 0 (xs ++ ⟨s, true⟩ :: ys) ∧
    (takeBlock h (lastFree a 0 xs) (a + extent xs) need).heapInited = h.heapInited := by
  obtain ⟨hlx, hf', hsize, hnext, hly⟩ := laid_at_free hss hl hf
  generalize hc : a + extent xs = curr at *
  obtain ⟨hlx₂, hf₂, hmem₂, hin₂⟩ :=
    link_laid (v := firstFree (curr + s) 0 ys) ha hx (hnext ▸ read32_lt _ _) hlx hf'
  have htake : takeBlock h (lastFree a 0 xs) curr need =
      (h.link (lastFree a 0 xs) (firstFree (curr + s) 0 ys)).setSize curr (s ||| 1) := by
    simp only [takeBlock, hsize, hnext]
    rw [if_neg (by exact hwhole)]
  rw [htake]
  refine ⟨laid_append.mpr ⟨?_, ?_⟩, ?_, hin₂⟩
  · rw [hc]
    refine laid_congr hx (fun x _ hx' => ?_) (by simpa [firstFree] using hlx₂)
    exact (write32_of_outside _ (by omega)).symm
  · rw [hc]
    refine ⟨?_, (fun hlive => by cases hlive), ?_⟩
    · rw [or_one_of_even (by omega)]
      exact read32_write32_same _ (by omega)
    · refine laid_congr hy (fun x hx' _ => ?_) hly
      simp only at hx'
      exact ((write32_of_outside _ (by omega)).trans (hmem₂ x (by omega))).symm
  · rw [firstFree_append, hc]
    simpa [firstFree, Heap.setSize] using hf₂

/-- Cutting a block out of memory is `carve` on the list. -/
theorem takeBlock_laid (need : Nat) (ha : 0 < a) (hx : Sized 16 8 xs) (hy : Sized 16 8 ys)
    (hneed : 16 ≤ need ∧ need % 8 = 0) (hss : s % 8 = 0) (hfit : need ≤ s)
    (hbound : a + extent xs + s + extent ys < 2 ^ 32)
    (hl : Laid h.mem a 0 (xs ++ ⟨s, false⟩ :: ys))
    (hf : h.freeList = firstFree a 0 (xs ++ ⟨s, false⟩ :: ys)) :
    Laid (takeBlock h (lastFree a 0 xs) (a + extent xs) need).mem a 0
      (xs ++ (carve 16 need s ++ ys)) ∧
    (takeBlock h (lastFree a 0 xs) (a + extent xs) need).freeList =
      firstFree a 0 (xs ++ (carve 16 need s ++ ys)) ∧
    (takeBlock h (lastFree a 0 xs) (a + extent xs) need).heapInited = h.heapInited := by
  by_cases hsplit : 16 ≤ s - need
  · simp only [carve, if_pos hsplit, List.cons_append, List.nil_append]
    exact takeBlock_split ha hx hy hneed hss hsplit hbound hl hf
  · simp only [carve, if_neg hsplit, List.cons_append, List.nil_append]
    exact takeBlock_whole ha hx hy hneed.1 hss hfit hsplit hbound hl hf

end Take

/-- The walk of `free` stops between the free neighbours of the block. -/
theorem searchSlot_spec {m : Memory} {z : Nat} (hdr : Nat) {xs : List Block} (hs : Sized 16 8 xs)
    {a : Nat} (ha : 0 < a) (hl : Laid m a z xs) (hz : z = 0 ∨ hdr ≤ z)
    (hhdr : a + extent xs ≤ hdr) (p n : Nat) (enough : xs.length < n) :
    searchSlot m hdr n p (firstFree a z xs) = some (lastFree a p xs, z) := by
  induction xs generalizing a p n with
  | nil =>
    obtain ⟨k, rfl⟩ : ∃ k, n = k + 1 := ⟨n - 1, by simp at enough; omega⟩
    have hstop : ¬ (z ≠ 0 ∧ z < hdr) := by omega
    have hnil : firstFree a z [] = z := rfl
    rw [hnil, searchSlot, if_neg hstop, lastFree]
  | cons b bs ih =>
    obtain ⟨hb, hbs⟩ := sized_cons.mp hs
    obtain ⟨size, live⟩ := b
    simp only [extent] at hb hhdr
    have hlen : bs.length + 1 < n := by simpa using enough
    cases live with
    | true =>
      simpa [firstFree, lastFree] using
        ih (a := a + size) hbs (by omega) hl.2.2 (by omega) p n (by omega)
    | false =>
      obtain ⟨k, rfl⟩ : ∃ k, n = k + 1 := ⟨n - 1, by omega⟩
      have hnext : hdrNext m a = firstFree (a + size) z bs := hl.2.1 rfl
      have hgo : a ≠ 0 ∧ a < hdr := by omega
      have hrest := ih (a := a + size) hbs (by omega) hl.2.2 (by omega) a k (by omega)
      simp only [searchSlot, firstFree, lastFree, Bool.false_eq_true, if_false, if_pos hgo, hnext]
      exact hrest

theorem firstFree_zero_or_ge {a : Nat} (bs : List Block) :
    firstFree a 0 bs = 0 ∨ a ≤ firstFree a 0 bs := by
  induction bs generalizing a with
  | nil => exact Or.inl rfl
  | cons b bs ih =>
    simp only [firstFree]
    split
    · rcases ih (a := a + b.size) with h | h
      · exact Or.inl h
      · exact Or.inr (by omega)
    · exact Or.inr (Nat.le_refl a)

theorem firstFree_lt {a c : Nat} {bs : List Block} (hc : 0 < c) (h : a + extent bs < c) :
    firstFree a 0 bs < c := by
  induction bs generalizing a with
  | nil => exact hc
  | cons b bs ih =>
    simp only [extent] at h
    simp only [firstFree]
    split
    · exact ih (by omega)
    · omega

section Release
variable {h : Heap} {a s : Nat} {xs ys : List Block}

/-- Clearing the allocated bit and linking the block between its free
neighbours turns it into a free block of the list. -/
theorem insert_laid (ha : 0 < a) (hx : Sized 16 8 xs) (hy : Sized 16 8 ys)
    (hs : 16 ≤ s) (hbound : a + extent xs + s + extent ys < 2 ^ 32)
    (hl : Laid h.mem a 0 (xs ++ ⟨s, true⟩ :: ys))
    (hf : h.freeList = firstFree a 0 (xs ++ ⟨s, true⟩ :: ys)) :
    let curr := firstFree (a + extent xs + s) 0 ys
    let h' := (((h.setSize (a + extent xs) s).setNext (a + extent xs) curr).link
      (lastFree a 0 xs) (a + extent xs))
    Laid h'.mem a 0 (xs ++ ⟨s, false⟩ :: ys) ∧
    h'.freeList = firstFree a 0 (xs ++ ⟨s, false⟩ :: ys) ∧ h'.heapInited = h.heapInited := by
  intro curr h'
  obtain ⟨hlx, hlb⟩ := laid_append.mp hl
  have hly : Laid h.mem (a + extent xs + s) 0 ys := hlb.2.2
  have hzx : firstFree (a + extent xs) 0 (⟨s, true⟩ :: ys) = curr := by simp [firstFree, curr]
  rw [hzx] at hlx
  rw [firstFree_append, hzx] at hf
  let h₂ : Heap := (h.setSize (a + extent xs) s).setNext (a + extent xs) curr
  have hmem₂ : ∀ x, x < a + extent xs ∨ a + extent xs + 8 ≤ x → h₂.mem x = h.mem x := by
    intro x hx'
    change write32 (write32 h.mem _ _) _ _ x = h.mem x
    rw [write32_of_outside _ (by omega), write32_of_outside _ (by omega)]
  have hcurr : curr < 2 ^ 32 := firstFree_lt (by decide) hbound
  have hlx₂ : Laid h₂.mem a curr xs :=
    laid_congr hx (fun x _ hx' => (hmem₂ x (by omega)).symm) hlx
  obtain ⟨hlx₃, hf₃, hmem₃, hin₃⟩ :=
    link_laid (h := h₂) (v := a + extent xs) ha hx (by omega) hlx₂ hf
  refine ⟨laid_append.mpr ⟨by simpa [firstFree] using hlx₃, ?_, fun _ => ?_, ?_⟩, ?_, hin₃⟩
  · change read32 h'.mem (a + extent xs) = s + 0
    rw [read32_congr (fun x hx' _ => hmem₃ x (by omega))]
    change read32 (write32 (write32 h.mem _ _) _ _) _ = _
    rw [read32_write32_of_disjoint _ (by omega)]
    exact read32_write32_same _ (by omega)
  · change read32 h'.mem (a + extent xs + 4) = curr
    rw [read32_congr (fun x hx' _ => hmem₃ x (by omega))]
    exact read32_write32_same _ hcurr
  · refine laid_congr hy (fun x hx' _ => ?_) hly
    simp only at hx'
    exact ((hmem₃ x (by omega)).trans (hmem₂ x (by omega))).symm
  · rw [firstFree_append]
    simpa [firstFree] using hf₃

/-- Growing a free block over the bytes that follow it. -/
theorem grow_laid {n k : Nat} (hx : Sized 16 8 xs) (hy : Sized 16 8 ys)
    (hn : 16 ≤ n) (hnk : a + extent xs + n + k + extent ys < 2 ^ 32)
    (hlx : Laid h.mem a (a + extent xs) xs) (hf : h.freeList = firstFree a (a + extent xs) xs)
    (hly : Laid h.mem (a + extent xs + n + k) 0 ys) {v : Nat} (hv : v < 2 ^ 32)
    (hvy : v = firstFree (a + extent xs + n + k) 0 ys) :
    Laid ((h.setSize (a + extent xs) (n + k)).setNext (a + extent xs) v).mem a 0
      (xs ++ ⟨n + k, false⟩ :: ys) ∧
    ((h.setSize (a + extent xs) (n + k)).setNext (a + extent xs) v).freeList =
      firstFree a 0 (xs ++ ⟨n + k, false⟩ :: ys) ∧
    ((h.setSize (a + extent xs) (n + k)).setNext (a + extent xs) v).heapInited =
      h.heapInited := by
  have hmem : ∀ x, x < a + extent xs ∨ a + extent xs + 8 ≤ x →
      ((h.setSize (a + extent xs) (n + k)).setNext (a + extent xs) v).mem x = h.mem x := by
    intro x hx'
    change write32 (write32 h.mem _ _) _ _ x = h.mem x
    rw [write32_of_outside _ (by omega), write32_of_outside _ (by omega)]
  refine ⟨laid_append.mpr ⟨?_, ?_, fun _ => ?_, ?_⟩, ?_, rfl⟩
  · refine laid_congr hx (fun x _ hx' => (hmem x (by omega)).symm) ?_
    simpa [firstFree] using hlx
  · change read32 (write32 (write32 h.mem _ _) _ _) _ = n + k + 0
    rw [read32_write32_of_disjoint _ (by omega)]
    exact read32_write32_same _ (by omega)
  · change read32 (write32 (write32 h.mem _ _) _ _) _ = _
    rw [← Nat.add_assoc (a + extent xs) n k, ← hvy]
    exact read32_write32_same _ hv
  · rw [← Nat.add_assoc (a + extent xs) n k]
    exact laid_congr hy (fun x hx' _ => (hmem x (by omega)).symm) hly
  · rw [firstFree_append]
    simpa [firstFree, Heap.setSize, Heap.setNext] using hf

/-- Merging with the block behind is `joinNext` on the list. Behind a live block the next free
one is not adjacent. -/
theorem mergeNext_laid (ha : 0 < a) (hx : Sized 16 8 xs) (hy : Sized 16 8 ys)
    (hs : 16 ≤ s ∧ s % 8 = 0) (hbound : a + extent xs + s + extent ys < 2 ^ 32)
    (hl : Laid h.mem a 0 (xs ++ ⟨s, false⟩ :: ys))
    (hf : h.freeList = firstFree a 0 (xs ++ ⟨s, false⟩ :: ys)) :
    Laid (mergeNext h (a + extent xs)).mem a 0 (xs ++ joinNext s ys) ∧
    (mergeNext h (a + extent xs)).freeList = firstFree a 0 (xs ++ joinNext s ys) ∧
    (mergeNext h (a + extent xs)).heapInited = h.heapInited := by
  obtain ⟨hlx, hf', hsize, hnext, hly⟩ := laid_at_free hs.2 hl hf
  have hend : wrap (a + extent xs + s) = a + extent xs + s := wrap_of_lt (by omega)
  simp only [mergeNext, hsize, hnext, hend]
  cases ys with
  | nil =>
    rw [if_neg (by simp [firstFree])]
    exact ⟨hl, hf, rfl⟩
  | cons c cs =>
    obtain ⟨hc, hcs⟩ := sized_cons.mp hy
    cases hlive : c.live with
    | true =>
      have hfar := firstFree_zero_or_ge (a := a + extent xs + s + c.size) cs
      simp only [firstFree, hlive, if_true, joinNext]
      rw [if_neg (by omega)]
      exact ⟨hl, by simpa [firstFree, hlive] using hf, rfl⟩
    | false =>
      simp only [extent] at hbound
      simp only [firstFree, hlive, Bool.false_eq_true, if_false, joinNext]
      rw [if_pos ⟨by omega, trivial⟩]
      have hszc : hdrSize h.mem (a + extent xs + s) = c.size := hdrSize_laid hly hc.2
      have hsum : wrap (s + c.size) = s + c.size := wrap_of_lt (by omega)
      have hnextc : hdrNext (h.setSize (a + extent xs) (s + c.size)).mem (a + extent xs + s) =
          firstFree (a + extent xs + s + c.size) 0 cs := by
        rw [← hly.2.1 hlive]
        exact read32_write32_of_disjoint _ (by omega)
      rw [hszc, hsum, hnextc]
      exact grow_laid hx hcs hs.1 (by omega) hlx hf' hly.2.2
        (firstFree_lt (by decide) (by omega)) rfl

end Release

theorem joinNext_add {n m k : Nat} {ys fs : List Block} (h : joinNext n ys = ⟨m, false⟩ :: fs) :
    joinNext (k + n) ys = ⟨k + m, false⟩ :: fs := by
  cases ys with
  | nil =>
    obtain ⟨hb, rfl⟩ := List.cons.inj h
    obtain rfl : n = m := congrArg Block.size hb
    rfl
  | cons c cs =>
    cases hc : c.live with
    | true =>
      simp only [joinNext, hc, if_true] at h ⊢
      obtain ⟨hb, rfl⟩ := List.cons.inj h
      obtain rfl : n = m := congrArg Block.size hb
      rfl
    | false =>
      simp only [joinNext, hc, Bool.false_eq_true, if_false] at h ⊢
      obtain ⟨hb, rfl⟩ := List.cons.inj h
      obtain rfl : n + c.size = m := congrArg Block.size hb
      rw [Nat.add_assoc]

theorem insertFree_last_live {n : Nat} {xs ys : List Block}
    (h : ∀ d ∈ xs.getLast?, d.live = true) : insertFree n xs ys = xs ++ joinNext n ys := by
  rcases insertFree_cases n xs ys with ⟨rfl, heq⟩ | ⟨ws, d, rfl, _, heq⟩ | ⟨ws, d, rfl, hd, _⟩
  · exact heq
  · exact heq
  · have hlive := h d (by simp)
    rw [hd] at hlive
    cases hlive

theorem insertFree_last_free {n k : Nat} {ws ys : List Block} :
    insertFree n (ws ++ [⟨k, false⟩]) ys = ws ++ joinNext (k + n) ys := by
  rw [insertFree_append, insertFree_singleton]
  simp

/-- Merging with the block in front completes `insertFree`. -/
theorem mergePrev_laid {h : Heap} {a s : Nat} {xs ys : List Block} (ha : 0 < a)
    (hx : Sized 16 8 xs) (hy : Sized 16 8 ys) (hs : 16 ≤ s ∧ s % 8 = 0)
    (hbound : a + extent xs + s + extent ys < 2 ^ 32)
    (hl : Laid h.mem a 0 (xs ++ joinNext s ys))
    (hf : h.freeList = firstFree a 0 (xs ++ joinNext s ys)) :
    Laid (mergePrev h (lastFree a 0 xs) (a + extent xs)).mem a 0 (insertFree s xs ys) ∧
    (mergePrev h (lastFree a 0 xs) (a + extent xs)).freeList =
      firstFree a 0 (insertFree s xs ys) ∧
    (mergePrev h (lastFree a 0 xs) (a + extent xs)).heapInited = h.heapInited := by
  obtain ⟨m, fs, hjoin, hsm⟩ := joinNext_eq s ys
  have hsized := sized_joinNext hs hy
  have hext := extent_joinNext s ys
  rw [hjoin] at hsized hext
  obtain ⟨hm, hfs⟩ := sized_cons.mp hsized
  simp only [extent] at hm hext
  rcases lastFree_split xs with hall | ⟨us, d, vs, rfl, hvs⟩
  · have hlast : insertFree s xs ys = xs ++ joinNext s ys :=
      insertFree_last_live fun e he => hall e (List.mem_of_getLast? he)
    rw [hlast, lastFree_of_live hall]
    simp only [mergePrev, ne_eq, not_true, false_and, if_false]
    exact ⟨hl, hf, trivial⟩
  · obtain ⟨hus, htail⟩ := sized_append.mp hx
    obtain ⟨hd, hvss⟩ := sized_cons.mp htail
    simp only at hd
    have hxs : extent (us ++ ⟨d, false⟩ :: vs) = extent us + d + extent vs := by
      simp only [extent_append, extent]
      omega
    rw [lastFree_append_free hvs]
    have hl' := hl
    have hf' := hf
    rw [List.append_assoc, List.cons_append] at hl' hf'
    obtain ⟨hlu, hfu, hsize, _, hlv⟩ := laid_at_free hd.2 hl' hf'
    have hend : wrap (a + extent us + d) = a + extent us + d := wrap_of_lt (by omega)
    simp only [mergePrev, hsize, hend]
    cases vs with
    | cons v vs =>
      have hv := (sized_cons.mp hvss).1
      simp only [extent] at hxs
      have hlast : insertFree s (us ++ ⟨d, false⟩ :: v :: vs) ys =
          (us ++ ⟨d, false⟩ :: v :: vs) ++ joinNext s ys := by
        refine insertFree_last_live fun e he => hvs e ?_
        have heq : (us ++ ⟨d, false⟩ :: v :: vs).getLast? = (v :: vs).getLast? := by
          simp [List.getLast?_append, List.getLast?_cons]
        exact List.mem_of_getLast? (heq ▸ he)
      rw [if_neg (by omega), hlast]
      exact ⟨hl, hf, rfl⟩
    | nil =>
      simp only [extent, Nat.add_zero] at hxs
      rw [hxs, ← Nat.add_assoc a, if_pos ⟨by omega, rfl⟩, insertFree_last_free,
        joinNext_add hjoin]
      rw [List.nil_append, hjoin] at hlv
      have hszm : hdrSize h.mem (a + extent us + d) = m := hdrSize_laid hlv hm.2
      have hsum : wrap (d + m) = d + m := wrap_of_lt (by omega)
      have hnextm : hdrNext (h.setSize (a + extent us) (d + m)).mem (a + extent us + d) =
          firstFree (a + extent us + d + m) 0 fs := by
        rw [← hlv.2.1 rfl]
        exact read32_write32_of_disjoint _ (by omega)
      rw [hszm, hsum, hnextm]
      exact grow_laid (k := m) hus hfs hd.1 (by omega) hlu hfu hlv.2.2
        (firstFree_lt (a := a + extent us + d + m) (by decide) (by omega)) rfl

end Alloc
