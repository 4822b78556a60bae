import CrestRtos.Heap.Requests
import CrestRtos.Library.BlockRuns

/-!
# Who owns the blocks

`LiveBlock` finds a live block by its payload pointer, in memory alone. `Backed` is for
any number of holders that each claim at most one payload: every claim has a live block
of its own behind it. A request, a `free` and a change of hands keep it.
-/

namespace Alloc
open ByteMemory MachineWord BlockList

/-- `p` is the payload pointer of a live block of `s` bytes, header included. -/
def LiveBlock (R : Region) (h : Heap) (p s : Nat) : Prop :=
  ∃ bs a, Tiled R h bs ∧ p = a + headerSize ∧ BlockAt R.start bs a ⟨s, true⟩

/-- Each holder's payload, with the size it asked for, is a live block that no other holder
claims. Sizes next to 2^32 get less than they ask for. -/
structure Backed {α : Type} (R : Region) (h : Heap) (c : α → Option (Nat × Nat)) : Prop where
  block : ∀ x p n, c x = some (p, n) → ∃ s, LiveBlock R h p s ∧ (n + 15 < 2 ^ 32 → n + 8 ≤ s)
  single : ∀ x y p n m, c x = some (p, n) → c y = some (p, m) → x = y

section Blocks
variable {R : Region} {h h' : Heap} {p q s t size : Nat}

/-- Two live blocks have no byte in common. -/
theorem LiveBlock.apart (hp : LiveBlock R h p s) (hq : LiveBlock R h q t) (hne : p ≠ q) :
    p - headerSize + s ≤ q - headerSize ∨ q - headerSize + t ≤ p - headerSize := by
  obtain ⟨bs, a, ht, rfl, hat⟩ := hp
  obtain ⟨bs', b, ht', rfl, hbt⟩ := hq
  obtain rfl := ht.tiles.unique ht'.tiles
  rw [Nat.add_sub_cancel, Nat.add_sub_cancel]
  rcases hat.order hbt with ⟨hsame, _⟩ | hle | hle
  · exact absurd (congrArg (· + headerSize) hsame) hne
  · exact Or.inl hle
  · exact Or.inr hle

theorem LiveBlock.inside (hR : R.Placed) (hp : LiveBlock R h p s) :
    R.start + headerSize ≤ p ∧ p - headerSize + s ≤ R.stop ∧ p % 8 = 0 ∧ 16 ≤ s := by
  obtain ⟨bs, a, ht, rfl, hat⟩ := hp
  have hbounds := hat.size_le
  have hs := (hat.sized ht.sized).1
  have hspan := ht.span
  have hal := hR.startAligned
  obtain ⟨xs, ys, rfl, rfl⟩ := hat
  have hx := sized_extent (sized_append.mp ht.sized).1
  simp only [headerSize] at *
  omega

theorem LiveBlock.ne_null (hR : R.Placed) (hp : LiveBlock R h p s) : p ≠ 0 := by
  have hlow := (hp.inside hR).1
  simp only [headerSize] at hlow
  omega

/-- A request takes nobody's block away and returns a block that nobody has. -/
theorem malloc_live (hR : R.Placed) (hready : Ready R h)
    (hrun : firstFitMalloc R h size = some (h', p)) :
    (∀ q t, LiveBlock R h q t → LiveBlock R h' q t ∧ q ≠ p) ∧
      (p ≠ 0 → ∃ s, LiveBlock R h' p s ∧ blockNeed size ≤ s) := by
  by_cases hsize : size = 0
  · rw [firstFitMalloc, if_pos hsize] at hrun
    obtain ⟨rfl, rfl⟩ := Prod.mk.inj (Option.some.inj hrun)
    exact ⟨fun q t hq => ⟨hq, hq.ne_null hR⟩, fun hnull => absurd rfl hnull⟩
  obtain ⟨bs, ht⟩ := hready.tiles hR
  rw [firstFitMalloc_started hR hsize] at hrun
  rcases malloc_tiled hR ht hsize with ⟨_, hnone⟩ | ⟨xs, s, ys, h₁, rfl, hfit, _, hsome, ht'⟩
  · obtain ⟨rfl, rfl⟩ := Prod.mk.inj (Option.some.inj (hnone.symm.trans hrun))
    refine ⟨fun q t hq => ⟨?_, hq.ne_null hR⟩, fun hnull => absurd rfl hnull⟩
    obtain ⟨bs', a, htiled, hqa, hat⟩ := hq
    exact ⟨bs', a, by rwa [htiled.started], hqa, hat⟩
  · obtain ⟨rfl, rfl⟩ := Prod.mk.inj (Option.some.inj (hsome.symm.trans hrun))
    obtain ⟨m, rest, hcarve, hlow, _⟩ := carve_head 16 hfit
    have hext : extent (carve 16 (blockNeed size) s) = s := extent_carve hfit
    refine ⟨fun q t hq => ?_, fun _ => ⟨m, ⟨_, R.start + extent xs, ht', rfl, ?_⟩, hlow⟩⟩
    · obtain ⟨bs', a, htiled, rfl, hat⟩ := hq
      obtain rfl := htiled.tiles.unique ht
      have hs := (sized_cons.mp (sized_append.mp htiled.sized).2).1.1
      have ht16 := (hat.sized htiled.sized).1
      simp only at hs ht16
      rw [blockAt_append, blockAt_cons] at hat
      rcases hat with hx | ⟨_, hfree⟩ | hy
      · have hend := hx.size_le.2
        simp only at hend
        refine ⟨⟨_, a, ht', rfl, blockAt_append.mpr (Or.inl hx)⟩, ?_⟩
        simp only [headerSize]
        omega
      · cases hfree
      · have hstart := hy.size_le.1
        simp only at hstart
        refine ⟨⟨_, a, ht', rfl, ?_⟩, by simp only [headerSize]; omega⟩
        rw [blockAt_append, blockAt_append, hext]
        exact Or.inr (Or.inr hy)
    · rw [hcarve, blockAt_append]
      exact Or.inr (blockAt_cons.mpr (Or.inl ⟨rfl, rfl⟩))

/-- Giving a block back leaves all others where they are. -/
theorem free_live (hR : R.Placed) (hp : LiveBlock R h p s) (hrun : coalescingFree R h p = some h')
    (hq : LiveBlock R h q t) (hne : q ≠ p) : LiveBlock R h' q t := by
  obtain ⟨bs, a, ht, rfl, hat⟩ := hp
  obtain ⟨bs', b, ht', rfl, hbt⟩ := hq
  obtain rfl := ht.tiles.unique ht'.tiles
  obtain ⟨xs, ys, rfl, rfl⟩ := hat
  obtain ⟨h₁, hfree, htiled⟩ := free_tiled hR ht
  obtain rfl := Option.some.inj (hfree.symm.trans hrun)
  refine ⟨_, b, htiled, rfl, (live_insertFree rfl).mpr ?_⟩
  rw [blockAt_append, blockAt_cons] at hbt
  rcases hbt with hx | ⟨hb, _⟩ | hy
  · exact Or.inl hx
  · exact absurd (congrArg (· + headerSize) hb) hne
  · exact Or.inr hy

end Blocks

section Claims
variable {α : Type} {R : Region} {h h' : Heap} {c c' : α → Option (Nat × Nat)} {x : α}
  {p q n size : Nat}

/-- Claims change hands, or are given up. -/
theorem Backed.moved (hb : Backed R h c) (f : α → α)
    (hf : ∀ y v, c' y = some v → c (f y) = some v)
    (hinj : ∀ y z v w, c' y = some v → c' z = some w → f y = f z → y = z) : Backed R h c' := by
  refine ⟨fun y p n hy => hb.block (f y) p n (hf y _ hy), fun y z p n m hy hz => ?_⟩
  exact hinj y z _ _ hy hz (hb.single _ _ p n m (hf y _ hy) (hf z _ hz))

theorem Backed.mono (hb : Backed R h c) (hle : ∀ y v, c' y = some v → c y = some v) :
    Backed R h c' := hb.moved id hle fun _ _ _ _ _ _ heq => heq

/-- A request of one holder. -/
theorem Backed.malloc (hR : R.Placed) (hb : Backed R h c) (hready : Ready R h)
    (hrun : firstFitMalloc R h size = some (h', p))
    (hle : ∀ y v, c' y = some v → c y = some v ∨ (y = x ∧ p ≠ 0 ∧ v = (p, size))) :
    Backed R h' c' := by
  obtain ⟨hkept, hnew⟩ := malloc_live hR hready hrun
  have hother : ∀ y n, c y ≠ some (p, n) := by
    intro y n hy
    obtain ⟨s, hs, _⟩ := hb.block y p n hy
    exact (hkept p s hs).2 rfl
  constructor
  · intro y q n hy
    rcases hle y _ hy with hold | ⟨_, hnull, hv⟩
    · obtain ⟨s, hs, hroom⟩ := hb.block y q n hold
      exact ⟨s, (hkept q s hs).1, hroom⟩
    · obtain ⟨rfl, rfl⟩ := Prod.mk.inj hv
      obtain ⟨s, hs, hneed⟩ := hnew hnull
      exact ⟨s, hs, fun hsmall => (blockNeed_ge hsmall).trans hneed⟩
  · intro y z q n m hy hz
    rcases hle y _ hy with hold | ⟨rfl, _, hv⟩
    · rcases hle z _ hz with hold' | ⟨rfl, _, hv'⟩
      · exact hb.single y z q n m hold hold'
      · obtain ⟨rfl, rfl⟩ := Prod.mk.inj hv'
        exact absurd hold (hother y n)
    · rcases hle z _ hz with hold' | ⟨rfl, _, _⟩
      · obtain ⟨rfl, rfl⟩ := Prod.mk.inj hv
        exact absurd hold' (hother z m)
      · rfl

/-- A holder gives its block back. -/
theorem Backed.free (hR : R.Placed) (hb : Backed R h c) (hx : c x = some (p, n))
    (hrun : coalescingFree R h p = some h')
    (hle : ∀ y v, c' y = some v → c y = some v ∧ y ≠ x) : Backed R h' c' := by
  obtain ⟨s, hs, _⟩ := hb.block x p n hx
  constructor
  · intro y q m hy
    obtain ⟨hold, hne⟩ := hle y _ hy
    obtain ⟨t, ht, hroom⟩ := hb.block y q m hold
    refine ⟨t, free_live hR hs hrun ht ?_, hroom⟩
    rintro rfl
    exact hne (hb.single y x q m n hold hx)
  · intro y z q m k hy hz
    exact hb.single y z q m k (hle y _ hy).1 (hle z _ hz).1

/-- What different holders claim has no byte in common. -/
theorem Backed.apart (hR : R.Placed) (hb : Backed R h c) {y : α} {m : Nat}
    (hx : c x = some (p, n)) (hy : c y = some (q, m)) (hne : x ≠ y)
    (hn : n + 15 < 2 ^ 32) (hm : m + 15 < 2 ^ 32) : p + n ≤ q ∨ q + m ≤ p := by
  obtain ⟨s, hs, hroom⟩ := hb.block x p n hx
  obtain ⟨t, ht, hroom'⟩ := hb.block y q m hy
  have hpq : p ≠ q := by
    rintro rfl
    exact hne (hb.single x y p n m hx hy)
  have hns := hroom hn
  have hmt := hroom' hm
  have hlow := (hs.inside hR).1
  have hlow' := (ht.inside hR).1
  have horder := hs.apart ht hpq
  simp only [headerSize] at hlow hlow' horder
  omega

end Claims

end Alloc
