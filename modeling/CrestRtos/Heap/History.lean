import CrestRtos.Heap.Pair
import CrestRtos.Heap.Space

/-!
# The free list does not depend on the history

Between the live blocks the free memory can be cut in one coalesced way only, so the
live blocks alone determine the free list, whatever calls led to them.
-/

namespace Alloc
open BlockList Transition

/-- The free list with the sizes of its blocks, read off memory. -/
def FreeBlocks (h : Heap) (l : List (Nat × Nat)) : Prop :=
  FreeList h (l.map Prod.fst) ∧ ∀ b ∈ l, hdrSize h.mem b.1 = b.2

def SameFreeList (h h' : Heap) : Prop := ∃ l, FreeBlocks h l ∧ FreeBlocks h' l

/-- The state after `heap_init`. -/
def Client.initialised (R : Region) (mem : ByteMemory.Memory) : Client :=
  ⟨heapInit R (Client.fresh mem).heap, []⟩

/-- A state that some permitted run leaves behind after initialisation. -/
def Client.FromInit (A : Allocator) (c : Client) : Prop :=
  ∃ mem ops, Permitted Client.Allowed (Client.step A) (Client.initialised A.region mem) ops ∧
    run (Client.step A) (Client.initialised A.region mem) ops = some c

/-- The same blocks are live, each with its address and its size. -/
def SameBlocks (c c' : Client) : Prop := ∀ p s,
  (p ∈ c.live ∧ payloadBlock c.heap p = s) ↔ (p ∈ c'.live ∧ payloadBlock c'.heap p = s)

section Lists
variable {R : Region} {h h' : Heap} {bs bs' : List Block} {l l' : List (Nat × Nat)}
  {c c' : Client}

theorem Tiled.freeBlocks (hR : R.Placed) (ht : Tiled R h bs) :
    FreeBlocks h (freeBlocks R.start bs) := by
  constructor
  · rw [FreeList, freeBlocks_fst, ht.head]
    exact freeList_linked hR.pos ht.laid
  · rintro ⟨x, s⟩ hb
    obtain ⟨xs, ys, rfl, rfl⟩ := mem_freeBlocks.mp hb
    have hs := (sized_cons.mp (sized_append.mp ht.sized).2).1.2
    exact hdrSize_laid (laid_append.mp ht.laid).2 hs

theorem Tiled.sameFreeList (hR : R.Placed) (ht : Tiled R h bs) (ht' : Tiled R h' bs) :
    SameFreeList h h' :=
  ⟨_, ht.freeBlocks hR, ht'.freeBlocks hR⟩

/-- The live blocks determine the other ones. -/
theorem Holds.unique (hc : Holds R c bs) (hc' : Holds R c' bs') (hsame : SameBlocks c c') :
    bs = bs' := by
  have hspan := hc.1.span
  have hspan' := hc'.1.span
  refine partition_unique (a := R.start) (by decide) hc.1.sized hc'.1.sized hc.1.coalesced
    hc'.1.coalesced (by omega) ?_
  have hlive : ∀ {c bs}, Holds R c bs → ∀ x s, BlockAt R.start bs x ⟨s, true⟩ ↔
      (x + headerSize ∈ c.live ∧ payloadBlock c.heap (x + headerSize) = s) := by
    intro c bs hc x s
    rw [hc.live_iff]
    constructor
    · intro hat
      exact ⟨x, rfl, hat⟩
    · rintro ⟨y, heq, hat⟩
      obtain rfl := Nat.add_right_cancel heq
      exact hat
  rintro x ⟨s, live⟩ hb
  obtain rfl : live = true := hb
  rw [hlive hc, hlive hc']
  exact hsame _ _

theorem sameBlocks_of (hlive : ∀ q, q ∈ c.live ↔ q ∈ c'.live)
    (hsize : ∀ q ∈ c.live, payloadBlock c.heap q = payloadBlock c'.heap q) : SameBlocks c c' := by
  intro q s
  constructor
  · rintro ⟨hq, rfl⟩
    exact ⟨(hlive q).mp hq, (hsize q hq).symm⟩
  · rintro ⟨hq, rfl⟩
    exact ⟨(hlive q).mpr hq, hsize q ((hlive q).mpr hq)⟩

theorem Holds.nodup (hc : Holds R c bs) : c.live.Nodup := by
  rw [hc.2.nodup_iff]
  refine (liveAddrs_nodup (by decide) hc.1.sized).map fun x y hxy => ?_
  exact Nat.add_right_cancel hxy

end Lists

section Calls
variable {A : Allocator} {c c' : Client} {bs : List Block} {op : HeapOp} {p : Nat} {ps : List Nat}

theorem Holds.step (hR : A.region.Placed) (hm : A.malloc = firstFitMalloc A.region)
    (hf : A.free = coalescingFree A.region) (hc : Holds A.region c bs) (ha : c.Allowed op) :
    ∃ c', c.step A op = some c' ∧ ∃ bs', Holds A.region c' bs' := by
  cases op with
  | malloc n =>
    by_cases hn : n = 0
    · subst hn
      exact ⟨c, by simp [Client.step, hm, firstFitMalloc], bs, hc⟩
    · exact malloc_holds hR hm hc hn
  | free p => exact free_holds hR hf hc ha
  | store a v => exact store_holds hc ha

theorem initialised_holds (hR : A.region.Placed) (mem : ByteMemory.Memory) :
    Holds A.region (Client.initialised A.region mem)
      [⟨A.region.stop - A.region.start, false⟩] :=
  ⟨heapInit_tiled hR _, by simp [Client.initialised, liveAddrs]⟩

theorem Client.FromInit.holds (hR : A.region.Placed) (hm : A.malloc = firstFitMalloc A.region)
    (hf : A.free = coalescingFree A.region) (hc : c.FromInit A) : ∃ bs, Holds A.region c bs := by
  obtain ⟨mem, ops, hp, hrun⟩ := hc
  refine permitted_invariant (I := fun c => ∃ bs, Holds A.region c bs) ?_
    ⟨_, initialised_holds hR mem⟩ hp hrun
  rintro s op s' ⟨bs, hbs⟩ ha hs'
  obtain ⟨t, ht, hholds⟩ := hbs.step hR hm hf ha
  obtain rfl := Option.some.inj (hs'.symm.trans ht)
  exact hholds

/-- What `free` of a live pointer leaves of the others. -/
structure Freed (c c' : Client) (ps : List Nat) : Prop where
  live : ∀ q, q ∈ c'.live ↔ q ∈ c.live ∧ q ∉ ps
  size : ∀ q ∈ c'.live, payloadBlock c'.heap q = payloadBlock c.heap q

theorem Holds.free (hR : A.region.Placed) (hf : A.free = coalescingFree A.region)
    (hc : Holds A.region c bs) (hp : p ∈ c.live) :
    ∃ c', c.step A (.free p) = some c' ∧ (∃ bs', Holds A.region c' bs') ∧ Freed c c' [p] := by
  obtain ⟨c', hstep, bs', hholds⟩ := free_holds hR hf hc (Or.inr hp)
  obtain ⟨xs, n, ys, rfl, rfl, _⟩ := live_block hc.1 ((hc.mem_iff p).mp hp)
  obtain ⟨h', hrun, ht⟩ := free_tiled hR hc.1
  have hc' : c' = ⟨h', c.live.erase (A.region.start + extent xs + 8)⟩ := by
    simpa [Client.step, hf, hrun, eq_comm] using hstep
  subst hc'
  obtain rfl := hholds.1.tiles.unique ht.tiles
  refine ⟨_, hstep, ⟨_, hholds⟩, fun q => ?_, fun q hq => ?_⟩
  · rw [hc.nodup.mem_erase_iff, List.mem_singleton, and_comm]
  · obtain ⟨x, rfl, hat⟩ := hholds.live_iff.mp ⟨hq, rfl⟩
    refine (hc.live_iff.mpr ⟨x, rfl, ?_⟩).2.symm
    rw [blockAt_append, blockAt_cons]
    exact ((live_insertFree rfl).mp hat).imp_right Or.inr

/-- Any number of live blocks can be freed, in any order. -/
theorem Holds.freeAll (hR : A.region.Placed) (hf : A.free = coalescingFree A.region)
    (hc : Holds A.region c bs) (hnodup : ps.Nodup) (hps : ∀ p ∈ ps, p ∈ c.live) :
    ∃ c', run (Client.step A) c (ps.map .free) = some c' ∧ (∃ bs', Holds A.region c' bs') ∧
      Freed c c' ps := by
  induction ps generalizing c bs with
  | nil => exact ⟨c, rfl, ⟨bs, hc⟩, by simp, fun _ _ => rfl⟩
  | cons p ps ih =>
    obtain ⟨hp, hrest⟩ := List.nodup_cons.mp hnodup
    obtain ⟨c₁, hstep, ⟨bs₁, hc₁⟩, hfreed⟩ := hc.free hR hf (hps p List.mem_cons_self)
    have hps₁ : ∀ q ∈ ps, q ∈ c₁.live := fun q hq => (hfreed.live q).mpr
      ⟨hps q (List.mem_cons_of_mem p hq), fun heq => hp (List.mem_singleton.mp heq ▸ hq)⟩
    obtain ⟨c', hrun, hholds, hfreed'⟩ := ih hc₁ hrest hps₁
    refine ⟨c', run_cons.mpr ⟨c₁, hstep, hrun⟩, hholds, fun q => ?_, fun q hq => ?_⟩
    · rw [hfreed'.live, hfreed.live, List.mem_singleton, List.mem_cons, and_assoc, not_or]
    · exact (hfreed'.size q hq).trans (hfreed.size q ((hfreed'.live q).mp hq).1)

/-- The order in which they are freed does not matter. -/
theorem Holds.freeAll_perm (hR : A.region.Placed) (hf : A.free = coalescingFree A.region)
    (hc : Holds A.region c bs) (hnodup : ps.Nodup) (hps : ∀ p ∈ ps, p ∈ c.live) {qs : List Nat}
    (hperm : ps.Perm qs) : ∃ c₁ c₂, run (Client.step A) c (ps.map .free) = some c₁ ∧
      run (Client.step A) c (qs.map .free) = some c₂ ∧ SameFreeList c₁.heap c₂.heap := by
  obtain ⟨c₁, hrun₁, ⟨bs₁, hc₁⟩, hfreed₁⟩ := hc.freeAll hR hf hnodup hps
  obtain ⟨c₂, hrun₂, ⟨bs₂, hc₂⟩, hfreed₂⟩ := hc.freeAll hR hf (hperm.nodup_iff.mp hnodup)
    fun q hq => hps q (hperm.mem_iff.mpr hq)
  have hlive : ∀ q, q ∈ c₁.live ↔ q ∈ c₂.live := fun q => by
    rw [hfreed₁.live, hfreed₂.live, hperm.mem_iff]
  have hsame : SameBlocks c₁ c₂ := sameBlocks_of hlive fun q hq =>
    (hfreed₁.size q hq).trans (hfreed₂.size q ((hlive q).mp hq)).symm
  obtain rfl := hc₁.unique hc₂ hsame
  exact ⟨c₁, c₂, hrun₁, hrun₂, hc₁.1.sameFreeList hR hc₂.1⟩

/-- A request and the `free` of its result. -/
theorem Holds.malloc_free (hR : A.region.Placed) (hm : A.malloc = firstFitMalloc A.region)
    (hf : A.free = coalescingFree A.region) (hc : Holds A.region c bs) (n : Nat) :
    ∃ h p h', A.malloc c.heap n = some (h, p) ∧ A.free h p = some h' ∧
      SameFreeList c.heap h' := by
  rw [hm, hf]
  cases hreq : request n bs with
  | none =>
    obtain ⟨h, hrun, _, hkeep⟩ := hc.1.tiles.malloc_none hR hreq
    obtain rfl := hkeep hc.1
    exact ⟨_, 0, _, hrun, if_pos rfl, hc.1.sameFreeList hR hc.1⟩
  | some bs' =>
    obtain ⟨h, p, _, hrun, _, _, h', hfree, ht⟩ := hc.1.tiles.malloc_some hR hreq
    exact ⟨h, p, h', hrun, hfree, hc.1.sameFreeList hR ht⟩

end Calls

/-- The free list is a function of the live blocks. So a request and its `free` cancel,
two blocks can be freed in either order, and without live blocks the heap is one block. -/
theorem free_list_history_independent (L : Layout) (hk : L.heap.Placed) (hu : L.userHeap.Placed)
    {A : Allocator} (hA : A = kernelHeap L ∨ A = userHeap L) {c : Client} (hc : c.FromInit A) :
    (∀ c' : Client, c'.FromInit A → SameBlocks c c' → SameFreeList c.heap c'.heap) ∧
    (∀ n, ∃ h p h', A.malloc c.heap n = some (h, p) ∧ A.free h p = some h' ∧
      SameFreeList c.heap h') ∧
    (∀ p ∈ c.live, ∀ q ∈ c.live, p ≠ q → ∃ c₁ c₂,
      run (Client.step A) c [.free p, .free q] = some c₁ ∧
      run (Client.step A) c [.free q, .free p] = some c₂ ∧ SameFreeList c₁.heap c₂.heap) ∧
    ∀ ps : List Nat, ps.Perm c.live → ∃ c', run (Client.step A) c (ps.map .free) = some c' ∧
      FreeBlocks c'.heap [(A.region.start, A.region.stop - A.region.start)] := by
  obtain ⟨hR, hm, hf⟩ := either_code hk hu hA
  obtain ⟨bs, hbs⟩ := hc.holds hR hm hf
  refine ⟨fun c' hc' hsame => ?_, hbs.malloc_free hR hm hf, fun p hp q hq hne => ?_,
    fun ps hps => ?_⟩
  · obtain ⟨bs', hbs'⟩ := hc'.holds hR hm hf
    obtain rfl := hbs.unique hbs' hsame
    exact hbs.1.sameFreeList hR hbs'.1
  · have hnodup : [p, q].Nodup := by simpa using hne
    exact hbs.freeAll_perm hR hf hnodup (by simp [hp, hq]) (List.Perm.swap q p [])
  · obtain ⟨c', hrun, ⟨bs', hbs'⟩, hfreed⟩ := hbs.freeAll hR hf (hps.nodup_iff.mpr hbs.nodup)
      fun p hp => hps.mem_iff.mp hp
    have hnone : ∀ q, q ∉ c'.live := fun q hq =>
      ((hfreed.live q).mp hq).2 (hps.mem_iff.mpr ((hfreed.live q).mp hq).1)
    have hsame : SameBlocks c' (Client.initialised A.region c'.heap.mem) := fun q s =>
      iff_of_false (fun hq => hnone q hq.1) fun hq => List.not_mem_nil hq.1
    obtain rfl := hbs'.unique (initialised_holds hR _) hsame
    exact ⟨c', hrun, hbs'.1.freeBlocks hR⟩

/-- Two histories that end with the same two blocks; the second one has a detour. -/
theorem detour_fromInit : ∃ c c' : Client, c.FromInit (kernelHeap (linkerLayout 0x20000404)) ∧
    c'.FromInit (kernelHeap (linkerLayout 0x20000404)) ∧ SameBlocks c c' ∧
    c.live = [0x20004430, 0x20004410] := by
  have hsmall : ∀ (c : Client) (n : Nat), n < 2 ^ 32 → c.Allowed (.malloc n) := fun _ _ h => h
  have hblocks : ∀ c c' : Client, c.live = [0x20004430, 0x20004410] → c'.live = c.live →
      (∀ q ∈ [0x20004430, 0x20004410], payloadBlock c.heap q = payloadBlock c'.heap q) →
      SameBlocks c c' := fun c c' hc hc' hsize =>
    sameBlocks_of (fun q => by rw [hc']) (hc ▸ hsize)
  refine ⟨_, _, ⟨fun _ => 0, [.malloc 24, .malloc 40], ⟨hsmall _ _ (by decide), fun _ _ =>
      ⟨hsmall _ _ (by decide), fun _ _ => trivial⟩⟩, rfl⟩,
    ⟨fun _ => 0, [.malloc 24, .malloc 100, .free 0x20004430, .malloc 40],
      ⟨hsmall _ _ (by decide), fun c₁ h₁ => ⟨hsmall _ _ (by decide), fun c₂ h₂ => ⟨?_, fun _ _ =>
        ⟨hsmall _ _ (by decide), fun _ _ => trivial⟩⟩⟩⟩, rfl⟩,
    hblocks _ _ ?_ ?_ ?_, ?_⟩
  · obtain rfl := Option.some.inj h₁
    obtain rfl := Option.some.inj h₂
    exact Or.inr (by decide +kernel)
  · decide +kernel
  · decide +kernel
  · decide +kernel
  · decide +kernel

theorem free_list_history_independent_detour : ∃ c c' : Client,
    c.live = [0x20004430, 0x20004410] ∧ SameBlocks c c' ∧ SameFreeList c.heap c'.heap ∧
    (∃ c₁ c₂, run (Client.step (kernelHeap (linkerLayout 0x20000404))) c
        [.free 0x20004410, .free 0x20004430] = some c₁ ∧
      run (Client.step (kernelHeap (linkerLayout 0x20000404))) c
        [.free 0x20004430, .free 0x20004410] = some c₂ ∧ SameFreeList c₁.heap c₂.heap) ∧
    ∃ c₃, run (Client.step (kernelHeap (linkerLayout 0x20000404))) c
        [.free 0x20004410, .free 0x20004430] = some c₃ ∧
      FreeBlocks c₃.heap [(0x20004408, 0x2001F000 - 0x20004408)] := by
  have hplaced := linkerLayout_placed 0x20000404 (by decide) (by decide)
  obtain ⟨c, c', hc, hc', hsame, hlive⟩ := detour_fromInit
  obtain ⟨hall, _, horder, hnone⟩ :=
    free_list_history_independent _ hplaced.1 hplaced.2 (Or.inl rfl) hc
  refine ⟨c, c', hlive, hsame, hall c' hc' hsame, ?_, hnone [0x20004410, 0x20004430] ?_⟩
  · exact horder _ (by simp [hlive]) _ (by simp [hlive]) (by decide)
  · rw [hlive]
    exact List.Perm.swap _ _ _

end Alloc
