import CrestRtos.Heap.Requests
import CrestRtos.Library.BlockRuns

/-!
# Free space in terms of memory

What a request gets is decided by the bytes that belong to no live block, headers
included. A request succeeds exactly when one contiguous run of them is long enough,
and the lowest such run is used. Only sizes next to 2^32, whose block size wraps
around, get less than they ask for.
-/

namespace Alloc
open ByteMemory MachineWord BlockList Transition

/-- A state that some permitted run of clients leaves behind. -/
def Client.Reached (A : Allocator) (c : Client) : Prop :=
  ∃ mem ops, Permitted Client.Allowed (Client.step A) (Client.fresh mem) ops ∧
    run (Client.step A) (Client.fresh mem) ops = some c

/-- A byte of the heap that belongs to no live block. -/
def Client.Unused (R : Region) (c : Client) (x : Nat) : Prop :=
  (R.start ≤ x ∧ x < R.stop) ∧
    ∀ p ∈ c.live, x < p - headerSize ∨ p - headerSize + payloadBlock c.heap p ≤ x

def FreeRun (R : Region) (c : Client) (a b : Nat) : Prop := MaxRun (c.Unused R) a b

/-- `n` rounded up to a multiple of 8, as a number. -/
def align8 (n : Nat) : Nat := (n + 7) / 8 * 8

/-- The state with the first block built. -/
def Client.started (R : Region) (c : Client) : Client := ⟨c.heap.started R, c.live⟩

section Holds
variable {R : Region} {c : Client} {bs : List Block} {p s x a b : Nat}

/-- The live pointers with the sizes of their blocks are the live blocks. -/
theorem Holds.live_iff (h : Holds R c bs) : (p ∈ c.live ∧ payloadBlock c.heap p = s) ↔
    ∃ a, p = a + headerSize ∧ BlockAt R.start bs a ⟨s, true⟩ := by
  constructor
  · rintro ⟨hp, rfl⟩
    obtain ⟨xs, s, ys, rfl, rfl, hs⟩ := live_block h.1 ((h.mem_iff p).mp hp)
    exact ⟨_, rfl, xs, ys, by rw [hs], rfl⟩
  · rintro ⟨a, rfl, xs, ys, rfl, rfl⟩
    have hat := (sized_cons.mp (sized_append.mp h.1.sized).2).1.2
    refine ⟨(h.mem_iff _).mpr ⟨_, mem_liveAddrs_iff.mpr ⟨xs, _, ys, rfl, rfl, rfl⟩, rfl⟩, ?_⟩
    rw [payloadBlock, Nat.add_sub_cancel]
    exact hdrSize_laid (laid_append.mp h.1.laid).2 hat

theorem Holds.unused_iff (h : Holds R c bs) : c.Unused R x ↔ Free R.start bs x := by
  have hspan := h.1.span
  rw [free_iff, Client.Unused, hspan]
  refine and_congr_right fun _ => ⟨fun hout y b hat hb => ?_, fun hout p hp => ?_⟩
  · obtain ⟨n, live⟩ := b
    obtain rfl : live = true := hb
    obtain ⟨hp, hs⟩ := h.live_iff.mpr ⟨y, rfl, hat⟩
    have hthis := hout _ hp
    rwa [hs, Nat.add_sub_cancel] at hthis
  · obtain ⟨a, rfl, hat⟩ := h.live_iff.mp ⟨hp, rfl⟩
    rw [Nat.add_sub_cancel]
    exact hout a _ hat rfl

theorem Holds.freeRun_iff (h : Holds R c bs) :
    FreeRun R c a b ↔ ∃ s, BlockAt R.start bs a ⟨s, false⟩ ∧ b = a + s := by
  rw [FreeRun, MaxRun.congr fun _ => h.unused_iff,
    maxRun_iff (by decide) h.1.sized h.1.coalesced]
  constructor
  · rintro ⟨⟨s, live⟩, hat, hfree, rfl⟩
    obtain rfl : live = false := hfree
    exact ⟨s, hat, rfl⟩
  · rintro ⟨s, hat, rfl⟩
    exact ⟨_, hat, rfl, rfl⟩

/-- Before the first request no block is live. -/
theorem started_live (hlive : c.live = [] ∨ c.heap.started R = c.heap) (hp : p ∈ c.live) :
    payloadBlock (c.started R).heap p = payloadBlock c.heap p := by
  rcases hlive with hnil | hsame
  · rw [hnil] at hp
    cases hp
  · rw [Client.started, hsame]

theorem started_unused (hlive : c.live = [] ∨ c.heap.started R = c.heap) :
    (c.started R).Unused R x ↔ c.Unused R x := by
  refine and_congr_right fun _ => forall₂_congr fun p hp => ?_
  rw [started_live hlive hp]

end Holds

/-- Every heap in use is a list of blocks, as if it had been initialised before. -/
theorem Client.Reached.holds {A : Allocator} {c : Client} (hR : A.region.Placed)
    (hm : A.malloc = firstFitMalloc A.region) (hf : A.free = coalescingFree A.region)
    (hc : c.Reached A) :
    (c.live = [] ∨ c.heap.started A.region = c.heap) ∧
      ∃ bs, Holds A.region (c.started A.region) bs := by
  obtain ⟨mem, ops, hp, hrun⟩ := hc
  have hstart : Sound A.region mem [] (Client.fresh mem) := Or.inl ⟨by simp, rfl⟩
  obtain ⟨c', hrun', hsound⟩ := run_of_permitted (sound_step hR hm hf mem) hstart hp
  obtain rfl := Option.some.inj (hrun.symm.trans hrun')
  rcases hsound with ⟨_, rfl⟩ | ⟨_, bs, hbs⟩
  · refine ⟨Or.inl rfl, [⟨A.region.stop - A.region.start, false⟩], ?_,
      by simp [liveAddrs, Client.started, Client.fresh]⟩
    exact heapInit_tiled hR _
  · have hsame := hbs.1.started
    refine ⟨Or.inr hsame, bs, ?_⟩
    rw [Client.started, hsame]
    exact hbs

/-- The sizes that fit in 32 bits with a header. -/
theorem blockNeed_eq {n : Nat} (hn : 1 ≤ n) (hsmall : n ≤ 0xFFFFFFF0) :
    blockNeed n = align8 n + 8 := by
  have hup : alignUp n = align8 n := by
    rw [alignUp, alignMask, wrap_of_lt (by omega), andNot_seven, align8]
    omega
  have hge : 8 ≤ align8 n := by
    rw [align8]
    omega
  have hle : align8 n ≤ 0xFFFFFFF0 := by
    rw [align8]
    omega
  have hword : wrap (alignUp n + headerSize) = align8 n + 8 := by
    rw [hup]
    exact wrap_of_lt (by simp only [headerSize]; omega)
  simp only [blockNeed, hword]
  exact if_neg (by simp only [minBlockSize, headerSize, align]; omega)

/-- What a request makes of the free space: nothing is long enough, or it cuts the
front off the lowest run that is. -/
inductive Request (R : Region) (c : Client) (n : Nat) (h : Heap) (p : Nat) : Prop
  | failed (hp : p = 0) (hnone : ∀ a b, FreeRun R c a b → b - a < blockNeed n)
  | served {a b : Nat} (hp : p = a + headerSize) (hrun : FreeRun R c a b)
      (hfit : blockNeed n ≤ b - a)
      (hlow : ∀ a' b', FreeRun R c a' b' → blockNeed n ≤ b' - a' → a ≤ a')
      (hblock : blockNeed n ≤ payloadBlock h p ∧ payloadBlock h p ≤ b - a)

section Requests
variable {A : Allocator} {c : Client} {n : Nat}

theorem Client.Reached.freeRun_iff (hR : A.region.Placed)
    (hm : A.malloc = firstFitMalloc A.region) (hf : A.free = coalescingFree A.region)
    (hc : c.Reached A) : ∃ bs, Tiled A.region (c.heap.started A.region) bs ∧
      ∀ a b, FreeRun A.region c a b ↔ ∃ s, BlockAt A.region.start bs a ⟨s, false⟩ ∧ b = a + s := by
  obtain ⟨hlive, bs, hbs⟩ := hc.holds hR hm hf
  refine ⟨bs, hbs.1, fun a b => ?_⟩
  rw [← hbs.freeRun_iff]
  exact MaxRun.congr fun x => (started_unused hlive).symm

/-- Each request comes to an end, and is served when a run is long enough. -/
theorem Client.Reached.request (hR : A.region.Placed) (hm : A.malloc = firstFitMalloc A.region)
    (hf : A.free = coalescingFree A.region) (hc : c.Reached A) (hn : 1 ≤ n) :
    ∃ h p, A.malloc c.heap n = some (h, p) ∧ Request A.region c n h p := by
  obtain ⟨bs, ht, hruns⟩ := hc.freeRun_iff hR hm hf
  have hsize : n ≠ 0 := by omega
  rw [hm, firstFitMalloc_started hR hsize]
  rcases malloc_tiled hR ht hsize with ⟨hsmall, hrun⟩ | ⟨xs, s, ys, h, rfl, hfit, hsmall, hrun, ht'⟩
  · refine ⟨_, 0, hrun, .failed rfl fun a b hab => ?_⟩
    obtain ⟨s, ⟨xs, ys, rfl, rfl⟩, rfl⟩ := (hruns a b).mp hab
    have hless := hsmall ⟨s, false⟩ (by simp) rfl
    simp only at hless
    omega
  · have hthis : BlockAt A.region.start (xs ++ ⟨s, false⟩ :: ys) (A.region.start + extent xs)
        ⟨s, false⟩ := ⟨xs, ys, rfl, rfl⟩
    obtain ⟨m, rest, hcarve, hlo, hhi⟩ := carve_head 16 hfit
    have hblock : payloadBlock h (A.region.start + extent xs + 8) = m := by
      rw [hcarve, List.cons_append] at ht'
      have hm8 := (sized_cons.mp (sized_append.mp ht'.sized).2).1.2
      rw [payloadBlock, headerSize, Nat.add_sub_cancel]
      exact hdrSize_laid (laid_append.mp ht'.laid).2 hm8
    refine ⟨h, _, hrun, .served (a := A.region.start + extent xs)
      (b := A.region.start + extent xs + s) rfl ((hruns _ _).mpr ⟨s, hthis, rfl⟩) (by omega) ?_
      (by rw [hblock]; omega)⟩
    intro a' b' hab' hlong
    obtain ⟨s', hat, rfl⟩ := (hruns a' b').mp hab'
    by_contra hlt
    have hless := hsmall _ (hat.mem_front (by omega)) rfl
    simp only at hless
    omega

/-- `malloc` fails exactly when no run of unused bytes has room for the bytes and a
header, and otherwise returns a pointer behind the header at the lowest such run. -/
theorem malloc_finds_lowest_run (L : Layout) (hk : L.heap.Placed) (hu : L.userHeap.Placed)
    (hA : A = kernelHeap L ∨ A = userHeap L) (hc : c.Reached A) (hn : 1 ≤ n)
    (hsmall : n ≤ 0xFFFFFFF0) :
    ∃ h p, A.malloc c.heap n = some (h, p) ∧
      (p = 0 ↔ ∀ a b, FreeRun A.region c a b → b - a < align8 n + 8) ∧
      (p ≠ 0 → ∃ a b, FreeRun A.region c a b ∧ align8 n + 8 ≤ b - a ∧ p = a + 8 ∧
        ∀ a' b', FreeRun A.region c a' b' → align8 n + 8 ≤ b' - a' → a ≤ a') := by
  obtain ⟨hR, hm, hf⟩ := either_code hk hu hA
  obtain ⟨h, p, hrun, hreq⟩ := hc.request hR hm hf hn
  have hneed := blockNeed_eq hn hsmall
  refine ⟨h, p, hrun, ?_⟩
  cases hreq with
  | failed hp hnone =>
    rw [hneed] at hnone
    exact ⟨iff_of_true hp hnone, fun hne => absurd hp hne⟩
  | @served a b hp hab hfit hlow =>
    rw [hneed] at hfit hlow
    refine ⟨iff_of_false (by rw [hp, headerSize]; omega) fun hnone => ?_,
      fun _ => ⟨a, b, hab, hfit, hp, hlow⟩⟩
    have hshort := hnone a b hab
    omega

/-- What a request for `n` bytes may rely on when it returns `p`. -/
structure Granted (R : Region) (c : Client) (n : Nat) (h : Heap) (p : Nat) : Prop where
  aligned : p % 8 = 0
  header : R.start + headerSize ≤ p
  payload : p + n ≤ p - headerSize + payloadBlock h p
  inside : p - headerSize + payloadBlock h p ≤ R.stop
  apart : ∀ q ∈ c.live, q - headerSize + payloadBlock c.heap q ≤ p - headerSize ∨
    p - headerSize + payloadBlock h p ≤ q - headerSize

/-- A pointer comes with the bytes asked for, and a request that no run of unused bytes
has room for gets none. -/
structure Adequate (R : Region) (c : Client) (n : Nat) (h : Heap) (p : Nat) : Prop where
  granted : p ≠ 0 → Granted R c n h p
  refused : (∀ a b, FreeRun R c a b → b - a < align8 n + 8) → p = 0

/-- A block cut out of unused bytes. -/
theorem Client.Reached.granted (hR : A.region.Placed) (hm : A.malloc = firstFitMalloc A.region)
    (hf : A.free = coalescingFree A.region) (hc : c.Reached A) {a b m : Nat} {h : Heap}
    (hrun : FreeRun A.region c a b)
    (hblock : m ≤ payloadBlock h (a + headerSize) ∧ payloadBlock h (a + headerSize) ≤ b - a)
    (hfit : n + 8 ≤ m) : Granted A.region c n h (a + headerSize) := by
  obtain ⟨hlive, bs, hbs⟩ := hc.holds hR hm hf
  obtain ⟨s, hat, rfl⟩ := hbs.freeRun_iff.mp
    ((MaxRun.congr fun x => (started_unused hlive).symm).mp hrun)
  have hbounds := hat.size_le
  have hspan := hbs.1.span
  have hal := hR.startAligned
  simp only at hbounds
  refine ⟨?_, by omega, ?_, ?_, fun q hq => ?_⟩
  · obtain ⟨xs, ys, rfl, rfl⟩ := hat
    have hx := sized_extent (sized_append.mp hbs.1.sized).1
    simp only [headerSize]
    omega
  · rw [Nat.add_sub_cancel]
    simp only [headerSize] at hblock ⊢
    omega
  · rw [Nat.add_sub_cancel]
    omega
  · obtain ⟨y, rfl, haty⟩ := hbs.live_iff.mp ⟨hq, started_live hlive hq⟩
    simp only [Nat.add_sub_cancel]
    rcases haty.order hat with ⟨_, heq⟩ | hle | hle
    · simp at heq
    · exact Or.inl hle
    · right
      simp only at hle
      omega

/-- A request of any size gets what it asks for or nothing, unless adding the header
wraps around while some byte of the heap is unused. -/
theorem malloc_adequate_iff (L : Layout) (hk : L.heap.Placed) (hu : L.userHeap.Placed)
    (hA : A = kernelHeap L ∨ A = userHeap L) (hc : c.Reached A) (hn : 1 ≤ n)
    (hword : n < 2 ^ 32) :
    ∃ h p, A.malloc c.heap n = some (h, p) ∧
      (Adequate A.region c n h p ↔ n ≤ 0xFFFFFFF0 ∨ ∀ x, ¬ c.Unused A.region x) := by
  obtain ⟨hR, hm, hf⟩ := either_code hk hu hA
  obtain ⟨h, p, hrun, hreq⟩ := hc.request hR hm hf hn
  refine ⟨h, p, hrun, ?_⟩
  by_cases hsmall : n ≤ 0xFFFFFFF0
  · refine iff_of_true ?_ (Or.inl hsmall)
    have hneed := blockNeed_eq hn hsmall
    have hround : n ≤ align8 n := by
      rw [align8]
      omega
    cases hreq with
    | failed hp _ => exact ⟨fun hne => absurd hp hne, fun _ => hp⟩
    | @served a b hp hab hfit _ hblock =>
      subst hp
      refine ⟨fun _ => hc.granted hR hm hf hab hblock (by omega), fun hnone => ?_⟩
      have hshort := hnone a b hab
      omega
  · have hneed : blockNeed n = 16 := blockNeed_wrapped hword (by omega)
    cases hreq with
    | failed hp hnone =>
      refine iff_of_true ⟨fun hne => absurd hp hne, fun _ => hp⟩ (Or.inr fun x hx => ?_)
      obtain ⟨bs, ht, hruns⟩ := hc.freeRun_iff hR hm hf
      obtain ⟨hlive, bs', hbs'⟩ := hc.holds hR hm hf
      obtain ⟨y, d, hat, hfree, _⟩ := hbs'.unused_iff.mp ((started_unused hlive).mpr hx)
      have hsized := (hat.sized hbs'.1.sized).1
      obtain ⟨s, live⟩ := d
      obtain rfl : live = false := hfree
      have hshort := hnone _ _ ((MaxRun.congr fun x => started_unused hlive).mp
        (hbs'.freeRun_iff.mpr ⟨s, hat, rfl⟩))
      simp only at hsized
      omega
    | @served a b hp hab hfit _ hblock =>
      refine iff_of_false (fun hade => ?_) ?_
      · have hnull := hade.refused fun a' b' hab' => by
          obtain ⟨bs, ht, hruns⟩ := hc.freeRun_iff hR hm hf
          obtain ⟨s, hat, rfl⟩ := (hruns a' b').mp hab'
          have hbounds := hat.size_le
          have hspan := ht.span
          have hstop := hR.stopLt
          simp only at hbounds
          rw [align8]
          omega
        rw [hp, headerSize] at hnull
        omega
      · rintro (hle | hnone)
        · exact hsmall hle
        · exact hnone a (hab.inside a (Nat.le_refl a) hab.pos)

end Requests

theorem fresh_reached (A : Allocator) (mem : Memory) : (Client.fresh mem).Reached A :=
  ⟨mem, [], trivial, rfl⟩

/-- Two blocks, the first of them freed again: a hole of 32 bytes before the rest. -/
theorem reached_hole : ∃ c : Client, c.Reached (kernelHeap (linkerLayout 0x20000404)) ∧
    run (Client.step (kernelHeap (linkerLayout 0x20000404))) (Client.fresh fun _ => 0)
      [.malloc 24, .malloc 40, .free 0x20004410] = some c := by
  refine ⟨_, ⟨fun _ => 0, [.malloc 24, .malloc 40, .free 0x20004410],
    ⟨?_, fun c₁ h₁ => ⟨?_, fun c₂ h₂ => ⟨?_, fun _ _ => trivial⟩⟩⟩, rfl⟩, rfl⟩
  · exact (by decide : (24 : Nat) < 2 ^ 32)
  · exact (by decide : (40 : Nat) < 2 ^ 32)
  · obtain rfl := Option.some.inj h₁
    obtain rfl := Option.some.inj h₂
    exact Or.inr (by decide +kernel)

/-- A request that fits into the hole gets its address. -/
theorem malloc_finds_lowest_run_hole : ∃ c : Client, ∃ h p,
    (kernelHeap (linkerLayout 0x20000404)).malloc c.heap 17 = some (h, p) ∧ p = 0x20004410 ∧
    (p = 0 ↔ ∀ a b, FreeRun (linkerLayout 0x20000404).heap c a b → b - a < align8 17 + 8) ∧
    (p ≠ 0 → ∃ a b, FreeRun (linkerLayout 0x20000404).heap c a b ∧ align8 17 + 8 ≤ b - a ∧
      p = a + 8 ∧ ∀ a' b', FreeRun (linkerLayout 0x20000404).heap c a' b' →
        align8 17 + 8 ≤ b' - a' → a ≤ a') := by
  have hplaced := linkerLayout_placed 0x20000404 (by decide) (by decide)
  obtain ⟨c, hc, hrun⟩ := reached_hole
  obtain ⟨h, p, hget, hnull, hlow⟩ := malloc_finds_lowest_run _ hplaced.1 hplaced.2 (Or.inl rfl) hc
    (show 1 ≤ 17 by decide) (by decide)
  obtain rfl := Option.some.inj hrun
  refine ⟨_, h, p, hget, ?_, hnull, hlow⟩
  have hptr := congrArg (Option.map Prod.snd) hget
  exact (Option.some.inj ((show some 0x20004410 = _ by decide +kernel).trans hptr)).symm

/-- The largest size that fits in 32 bits with its header, on an untouched heap. -/
theorem malloc_adequate_top : ∃ h p,
    (kernelHeap (linkerLayout 0x20000404)).malloc (Client.fresh fun _ => 0).heap 0xFFFFFFF0 =
      some (h, p) ∧
    (Adequate (linkerLayout 0x20000404).heap (Client.fresh fun _ => 0) 0xFFFFFFF0 h p ↔
      0xFFFFFFF0 ≤ 0xFFFFFFF0 ∨ ∀ x, ¬ (Client.fresh fun _ => 0).Unused
        (linkerLayout 0x20000404).heap x) := by
  have hplaced := linkerLayout_placed 0x20000404 (by decide) (by decide)
  exact malloc_adequate_iff _ hplaced.1 hplaced.2 (Or.inl rfl) (fresh_reached _ _)
    (show 1 ≤ 0xFFFFFFF0 by decide) (by decide)

/-- A request for 2^32 - 1 bytes gets a block of 16. -/
theorem malloc_huge_gets_sixteen : ∃ h,
    (kernelHeap (linkerLayout 0x20000404)).malloc (Client.fresh fun _ => 0).heap 0xFFFFFFFF =
      some (h, 0x20004410) ∧ payloadBlock h 0x20004410 = 16 ∧
    (Client.fresh fun _ => 0).Reached (kernelHeap (linkerLayout 0x20000404)) ∧
    ¬ Adequate (linkerLayout 0x20000404).heap (Client.fresh fun _ => 0) 0xFFFFFFFF h
      0x20004410 := by
  obtain ⟨h, hrun, hblock⟩ : ∃ h, (kernelHeap (linkerLayout 0x20000404)).malloc
      (Client.fresh fun _ => 0).heap 0xFFFFFFFF = some (h, 0x20004410) ∧
        payloadBlock h 0x20004410 = 16 := ⟨_, rfl, by decide +kernel⟩
  refine ⟨h, hrun, hblock, fresh_reached _ _, fun hade => ?_⟩
  have hpayload := (hade.granted (by decide)).payload
  rw [hblock] at hpayload
  exact absurd hpayload (by decide)

end Alloc
