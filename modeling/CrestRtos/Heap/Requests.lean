import CrestRtos.Heap.Runs

/-!
# The heap as a list of blocks

The first request builds the one free block that the region then is, so that
every heap in use has a list of blocks, and no more than one. A request takes
the first free block that fits or leaves the list as it is, and `free` undoes
the last request.
-/

namespace Alloc
open ByteMemory MachineWord BlockList

/-- The heap once its first block is built. -/
def Heap.started (R : Region) (h : Heap) : Heap := if h.heapInited then h else heapInit R h

/-- The heap consists of the blocks `bs`. -/
def Tiles (R : Region) (h : Heap) (bs : List Block) : Prop := Tiled R (h.started R) bs

/-- What a request of `size` bytes makes of the blocks. -/
def request (size : Nat) (bs : List Block) : Option (List Block) :=
  if size = 0 then none else takeFirst minBlockSize (blockNeed size) bs

section Blocks
variable {R : Region} {h h' : Heap} {bs bs' : List Block} {size p : Nat}

theorem Tiled.started (ht : Tiled R h bs) : h.started R = h := by
  rw [Heap.started, ht.inited, if_pos rfl]

theorem Tiled.tiles (ht : Tiled R h bs) : Tiles R h bs := by
  rw [Tiles, ht.started]
  exact ht

theorem Ready.tiles (hR : R.Placed) (hready : Ready R h) : ∃ bs, Tiles R h bs := by
  rcases hready with hin | ⟨bs, ht⟩
  · refine ⟨[⟨R.stop - R.start, false⟩], ?_⟩
    rw [Tiles, Heap.started, hin, if_neg Bool.false_ne_true]
    exact heapInit_tiled hR h
  · exact ⟨bs, ht.tiles⟩

theorem laid_unique {m : Memory} {a z z' : Nat} (hs : Sized 16 8 bs) (hs' : Sized 16 8 bs')
    (hl : Laid m a z bs) (hl' : Laid m a z' bs') (hext : extent bs = extent bs') : bs = bs' := by
  induction bs generalizing a bs' with
  | nil =>
    cases bs' with
    | nil => rfl
    | cons b bs' =>
      have hb := (sized_cons.mp hs').1
      simp only [extent] at hext
      omega
  | cons b bs ih =>
    obtain ⟨hb, hbs⟩ := sized_cons.mp hs
    cases bs' with
    | nil =>
      simp only [extent] at hext
      omega
    | cons c cs =>
      obtain ⟨hc, hcs⟩ := sized_cons.mp hs'
      have hheader := hl.1.symm.trans hl'.1
      obtain rfl : b = c := by
        obtain ⟨n, live⟩ := b
        obtain ⟨m, live'⟩ := c
        have hlive : live = live' := by
          cases live <;> cases live' <;> simp at hheader hb hc ⊢ <;> omega
        subst hlive
        have hsize : n = m := Nat.add_right_cancel hheader
        rw [hsize]
      simp only [extent] at hext
      rw [ih hbs hcs hl.2.2 hl'.2.2 (by omega)]

/-- Memory determines the blocks. -/
theorem Tiles.unique (ht : Tiles R h bs) (ht' : Tiles R h bs') : bs = bs' :=
  laid_unique ht.sized ht'.sized ht.laid ht'.laid (by have := ht.span; have := ht'.span; omega)

theorem firstFitMalloc_started (hR : R.Placed) (hsize : size ≠ 0) :
    firstFitMalloc R h size = firstFitMalloc R (h.started R) size := by
  rw [Heap.started]
  cases hin : h.heapInited with
  | true => rfl
  | false => exact firstFitMalloc_heapInit hR hsize hin

/-- A request that cannot be met changes no block. -/
theorem Tiles.malloc_none (hR : R.Placed) (ht : Tiles R h bs) (hnone : request size bs = none) :
    ∃ h', firstFitMalloc R h size = some (h', 0) ∧ Tiles R h' bs ∧ (Tiled R h bs → h' = h) := by
  by_cases hsize : size = 0
  · exact ⟨h, by rw [firstFitMalloc, if_pos hsize], ht, fun _ => rfl⟩
  · rw [firstFitMalloc_started hR hsize]
    rcases malloc_tiled hR ht hsize with ⟨_, hrun⟩ | ⟨xs, s, ys, _, rfl, hfit, hsmall, _⟩
    · exact ⟨_, hrun, Tiled.tiles ht, Tiled.started⟩
    · rw [request, if_neg hsize, takeFirst_some hfit hsmall] at hnone
      cases hnone

/-- One that can be met takes a block, and `free` gives it back. -/
theorem Tiles.malloc_some (hR : R.Placed) (ht : Tiles R h bs) (hsome : request size bs = some bs') :
    ∃ h' p, p ≠ 0 ∧ firstFitMalloc R h size = some (h', p) ∧ Tiled R h' bs' ∧
      (liveAddrs R.start bs').length = (liveAddrs R.start bs).length + 1 ∧
      ∃ h'', coalescingFree R h' p = some h'' ∧ Tiled R h'' bs := by
  have hsize : size ≠ 0 := by
    rintro rfl
    cases hsome
  rw [request, if_neg hsize] at hsome
  rw [firstFitMalloc_started hR hsize]
  rcases malloc_tiled hR ht hsize with ⟨hsmall, _⟩ | ⟨xs, s, ys, h', rfl, hfit, hsmall, hrun, ht'⟩
  · rw [takeFirst_none hsmall] at hsome
    cases hsome
  · rw [takeFirst_some hfit hsmall] at hsome
    obtain rfl := Option.some.inj hsome
    refine ⟨h', _, by omega, hrun, ht', ?_, ?_⟩
    · simp only [liveAddrs_append, liveAddrs_carve, liveAddrs, extent_carve hfit,
        List.length_append, List.length_singleton, Bool.false_eq_true, if_false]
      omega
    · obtain ⟨b, rest, hcarve, hback⟩ := insertFree_carve minBlockSize hfit ht.coalesced
      rw [show (16 : Nat) = minBlockSize from rfl, hcarve] at ht'
      obtain ⟨h'', hfree, ht''⟩ := free_tiled hR ht'
      exact ⟨h'', hfree, hback ▸ ht''⟩

end Blocks

end Alloc
