import CrestRtos.Library.BlockList

/-!
# Blocks as intervals of addresses

Where the blocks of a partition lie, and what the free ones are in terms of
addresses alone. In a coalesced partition they are the maximal intervals of free
addresses, so the live blocks determine the whole partition.
-/

namespace BlockList

/-- The block `b` of a partition that begins at `a` lies at `x`. -/
def BlockAt (a : Nat) (bs : List Block) (x : Nat) (b : Block) : Prop :=
  ∃ xs ys, bs = xs ++ b :: ys ∧ x = a + extent xs

/-- `[p, q)` is a maximal interval of `P`. -/
structure MaxRun (P : Nat → Prop) (p q : Nat) : Prop where
  pos : p < q
  inside : ∀ x, p ≤ x → x < q → P x
  left : ∀ y, y + 1 = p → ¬ P y
  right : ¬ P q

/-- The address `x` is in a free block. -/
def Free (a : Nat) (bs : List Block) (x : Nat) : Prop :=
  ∃ y b, BlockAt a bs y b ∧ b.live = false ∧ y ≤ x ∧ x < y + b.size

/-- The free blocks, address and size. -/
def freeBlocks (a : Nat) : List Block → List (Nat × Nat)
  | [] => []
  | b :: bs =>
    if b.live then freeBlocks (a + b.size) bs else (a, b.size) :: freeBlocks (a + b.size) bs

section MaxRun
variable {P : Nat → Prop} {p q p' q' x : Nat}

theorem MaxRun.start_le (h : MaxRun P p q) (h' : MaxRun P p' q') (hx : p ≤ x ∧ x < q)
    (hx' : p' ≤ x ∧ x < q') : p' ≤ p := by
  by_contra hlt
  exact h'.left (p' - 1) (by omega) (h.inside (p' - 1) (by omega) (by omega))

theorem MaxRun.stop_le (h : MaxRun P p q) (h' : MaxRun P p' q') (hx : p ≤ x ∧ x < q)
    (hx' : p' ≤ x ∧ x < q') : q ≤ q' := by
  by_contra hlt
  exact h'.right (h.inside q' (by omega) (by omega))

/-- Two maximal runs that meet are equal. -/
theorem MaxRun.unique (h : MaxRun P p q) (h' : MaxRun P p' q') (hx : p ≤ x ∧ x < q)
    (hx' : p' ≤ x ∧ x < q') : p = p' ∧ q = q' :=
  ⟨Nat.le_antisymm (h'.start_le h hx' hx) (h.start_le h' hx hx'),
    Nat.le_antisymm (h.stop_le h' hx hx') (h'.stop_le h hx' hx)⟩

theorem MaxRun.congr {P' : Nat → Prop} (hP : ∀ x, P x ↔ P' x) : MaxRun P p q ↔ MaxRun P' p q := by
  rw [show P = P' from funext fun x => propext (hP x)]

end MaxRun

section Blocks
variable {least align a x y : Nat} {bs cs : List Block} {b c : Block}

theorem blockAt_nil : ¬ BlockAt a [] x b := by
  rintro ⟨xs, ys, h, _⟩
  cases xs <;> cases h

theorem blockAt_cons : BlockAt a (c :: cs) x b ↔ (x = a ∧ b = c) ∨ BlockAt (a + c.size) cs x b := by
  constructor
  · rintro ⟨xs, ys, heq, rfl⟩
    cases xs with
    | nil =>
      obtain ⟨rfl, rfl⟩ := List.cons.inj heq
      exact Or.inl ⟨rfl, rfl⟩
    | cons d xs =>
      obtain ⟨rfl, rfl⟩ := List.cons.inj heq
      exact Or.inr ⟨xs, ys, rfl, by simp only [extent]; omega⟩
  · rintro (⟨rfl, rfl⟩ | ⟨xs, ys, rfl, rfl⟩)
    · exact ⟨[], cs, rfl, rfl⟩
    · exact ⟨c :: xs, ys, rfl, by simp only [extent]; omega⟩

theorem BlockAt.size_le (h : BlockAt a bs x b) : a ≤ x ∧ x + b.size ≤ a + extent bs := by
  obtain ⟨xs, ys, rfl, rfl⟩ := h
  simp only [extent_append, extent]
  omega

theorem BlockAt.sized (hs : Sized least align bs) (h : BlockAt a bs x b) :
    least ≤ b.size ∧ b.size % align = 0 := by
  obtain ⟨xs, ys, rfl, _⟩ := h
  exact (sized_cons.mp (sized_append.mp hs).2).1

/-- Two blocks are the same one or do not overlap. -/
theorem BlockAt.order (h : BlockAt a bs x b) (h' : BlockAt a bs y c) :
    (x = y ∧ b = c) ∨ x + b.size ≤ y ∨ y + c.size ≤ x := by
  induction bs generalizing a with
  | nil => exact absurd h blockAt_nil
  | cons d ds ih =>
    rcases blockAt_cons.mp h with ⟨rfl, rfl⟩ | hin
    · rcases blockAt_cons.mp h' with ⟨rfl, rfl⟩ | hin'
      · exact Or.inl ⟨rfl, rfl⟩
      · exact Or.inr (Or.inl hin'.size_le.1)
    · rcases blockAt_cons.mp h' with ⟨rfl, rfl⟩ | hin'
      · exact Or.inr (Or.inr hin.size_le.1)
      · exact ih hin hin'

/-- The blocks cover the whole region. -/
theorem blockAt_cover (hlo : a ≤ x) (hhi : x < a + extent bs) :
    ∃ y b, BlockAt a bs y b ∧ y ≤ x ∧ x < y + b.size := by
  induction bs generalizing a with
  | nil => simp only [extent] at hhi; omega
  | cons c cs ih =>
    simp only [extent] at hhi
    by_cases hin : x < a + c.size
    · exact ⟨a, c, blockAt_cons.mpr (Or.inl ⟨rfl, rfl⟩), hlo, hin⟩
    · obtain ⟨y, b, hat, hle, hlt⟩ := ih (a := a + c.size) (by omega) (by omega)
      exact ⟨y, b, blockAt_cons.mpr (Or.inr hat), hle, hlt⟩

/-- An address is free when it lies in no live block. -/
theorem free_iff : Free a bs x ↔ (a ≤ x ∧ x < a + extent bs) ∧
    ∀ y b, BlockAt a bs y b → b.live = true → x < y ∨ y + b.size ≤ x := by
  constructor
  · rintro ⟨y, b, hat, hfree, hle, hlt⟩
    have hbounds := hat.size_le
    refine ⟨by omega, fun z c hat' hlive => ?_⟩
    rcases hat.order hat' with ⟨rfl, rfl⟩ | h | h
    · rw [hfree] at hlive
      cases hlive
    · omega
    · omega
  · rintro ⟨⟨hlo, hhi⟩, hlive⟩
    obtain ⟨y, b, hat, hle, hlt⟩ := blockAt_cover hlo hhi
    refine ⟨y, b, hat, ?_, hle, hlt⟩
    cases hb : b.live with
    | false => rfl
    | true =>
      have hout := hlive y b hat hb
      omega

/-- Of two neighbours one is live. -/
theorem BlockAt.apart (hl : 0 < least) (hs : Sized least align bs) (hc : Coalesced bs)
    (h : BlockAt a bs x b) (h' : BlockAt a bs (x + b.size) c) : b.live = true ∨ c.live = true := by
  have hpos := (h'.sized hs).1
  have hend := h'.size_le.2
  obtain ⟨xs, ys, rfl, rfl⟩ := h
  cases ys with
  | nil =>
    simp only [extent_append, extent] at hend
    omega
  | cons d ds =>
    have hd : BlockAt a (xs ++ b :: d :: ds) (a + extent xs + b.size) d :=
      ⟨xs ++ [b], ds, by simp, by simp only [extent_append, extent]; omega⟩
    have hdpos := (hd.sized hs).1
    obtain rfl : c = d := by
      rcases h'.order hd with ⟨_, heq⟩ | hle | hle
      · exact heq
      · omega
      · omega
    exact (List.isChain_cons_cons.mp (List.isChain_append.mp hc).2.1).1

/-- A block that begins in front of another one is in the list in front of it. -/
theorem BlockAt.mem_front {xs ys : List Block} (h : BlockAt a (xs ++ b :: ys) y c)
    (hlt : y < a + extent xs) : c ∈ xs := by
  obtain ⟨us, vs, heq, rfl⟩ := h
  rcases List.append_eq_append_iff.mp heq with ⟨zs, rfl, _⟩ | ⟨zs, rfl, hz⟩
  · simp only [extent_append] at hlt
    omega
  · cases zs with
    | nil =>
      simp only [List.append_nil] at hlt
      omega
    | cons z zs =>
      obtain ⟨rfl, _⟩ := List.cons.inj hz
      simp

/-- In a coalesced partition a free block is a maximal run of free addresses. -/
theorem BlockAt.maxRun (hl : 0 < least) (hs : Sized least align bs) (hc : Coalesced bs)
    (h : BlockAt a bs x b) (hb : b.live = false) : MaxRun (Free a bs) x (x + b.size) := by
  have hsize := (h.sized hs).1
  refine ⟨by omega, fun y hy hy' => ⟨x, b, h, hb, hy, hy'⟩, ?_, ?_⟩
  · rintro y rfl ⟨z, c, hat, hfree, hle, hlt⟩
    rcases hat.order h with ⟨rfl, _⟩ | hend | hend
    · omega
    · have hadj := hat.apart hl hs hc (c := b) (by rwa [show z + c.size = y + 1 by omega])
      rw [hfree, hb] at hadj
      simp at hadj
    · omega
  · rintro ⟨z, c, hat, hfree, hle, hlt⟩
    rcases h.order hat with ⟨rfl, rfl⟩ | hend | hend
    · omega
    · have hadj := h.apart hl hs hc (c := c) (by rwa [show x + b.size = z by omega])
      rw [hfree, hb] at hadj
      simp at hadj
    · omega

/-- The maximal runs of free addresses are the free blocks. -/
theorem maxRun_iff (hl : 0 < least) (hs : Sized least align bs) (hc : Coalesced bs) :
    MaxRun (Free a bs) x y ↔ ∃ b, BlockAt a bs x b ∧ b.live = false ∧ y = x + b.size := by
  constructor
  · intro hrun
    have hpos := hrun.pos
    obtain ⟨z, b, hat, hb, hle, hlt⟩ := hrun.inside x (Nat.le_refl x) hpos
    obtain ⟨rfl, rfl⟩ := hrun.unique (hat.maxRun hl hs hc hb) ⟨Nat.le_refl x, hpos⟩ ⟨hle, hlt⟩
    exact ⟨b, hat, hb, rfl⟩
  · rintro ⟨b, hat, hb, rfl⟩
    exact hat.maxRun hl hs hc hb

/-- A list is determined by where its blocks lie. -/
theorem eq_of_blockAt (hl : 0 < least) {bs' : List Block} (hs : Sized least align bs)
    (hs' : Sized least align bs') (h : ∀ x b, BlockAt a bs x b ↔ BlockAt a bs' x b) : bs = bs' := by
  induction bs generalizing a bs' with
  | nil =>
    cases bs' with
    | nil => rfl
    | cons c cs => exact absurd ((h a c).mpr (blockAt_cons.mpr (Or.inl ⟨rfl, rfl⟩))) blockAt_nil
  | cons b bs ih =>
    obtain ⟨hb, hbs⟩ := sized_cons.mp hs
    have hat : BlockAt a bs' a b := (h a b).mp (blockAt_cons.mpr (Or.inl ⟨rfl, rfl⟩))
    cases bs' with
    | nil => exact absurd hat blockAt_nil
    | cons c cs =>
      obtain ⟨hc, hcs⟩ := sized_cons.mp hs'
      obtain rfl : b = c := by
        rcases blockAt_cons.mp hat with ⟨_, heq⟩ | hin
        · exact heq
        · have hge := hin.size_le.1
          omega
      have htail : ∀ x d, BlockAt (a + b.size) bs x d ↔ BlockAt (a + b.size) cs x d := by
        intro x d
        have hcons := h x d
        rw [blockAt_cons, blockAt_cons] at hcons
        constructor
        · intro hin
          have hge := hin.size_le.1
          exact (hcons.mp (Or.inr hin)).resolve_left fun heq => by omega
        · intro hin
          have hge := hin.size_le.1
          exact (hcons.mpr (Or.inr hin)).resolve_left fun heq => by omega
      rw [ih hbs hcs htail]

theorem free_congr {bs' : List Block} (hext : extent bs = extent bs')
    (hlive : ∀ x b, b.live = true → (BlockAt a bs x b ↔ BlockAt a bs' x b)) (x : Nat) :
    Free a bs x ↔ Free a bs' x := by
  rw [free_iff, free_iff, hext]
  refine and_congr_right fun _ => ⟨fun h y b hat hb => ?_, fun h y b hat hb => ?_⟩
  · exact h y b ((hlive y b hb).mpr hat) hb
  · exact h y b ((hlive y b hb).mp hat) hb

/-- Two coalesced partitions of one region with the same live blocks are equal: a free block is
one maximal run of the addresses that both leave free. -/
theorem partition_unique (hl : 0 < least) {bs' : List Block} (hs : Sized least align bs)
    (hs' : Sized least align bs') (hc : Coalesced bs) (hc' : Coalesced bs')
    (hext : extent bs = extent bs')
    (hlive : ∀ x b, b.live = true → (BlockAt a bs x b ↔ BlockAt a bs' x b)) : bs = bs' := by
  refine eq_of_blockAt (a := a) hl hs hs' fun x b => ?_
  cases hb : b.live with
  | true => exact hlive x b hb
  | false =>
    have hsame := fun y => maxRun_iff (a := a) (x := x) (y := y) hl hs hc
    have hsame' := fun y => maxRun_iff (a := a) (x := x) (y := y) hl hs' hc'
    have hrun := fun y => MaxRun.congr (p := x) (q := y) (free_congr hext hlive)
    have hblock : ∀ {c : Block}, c.live = false → c.size = b.size → c = b := by
      rintro ⟨n, live⟩ hc heq
      obtain ⟨m, live'⟩ := b
      simp only at hb hc heq
      rw [hb, hc, heq]
    constructor
    · intro hat
      obtain ⟨c, hat', hfree, hsize⟩ :=
        (hsame' _).mp ((hrun (x + b.size)).mp ((hsame _).mpr ⟨b, hat, hb, rfl⟩))
      exact hblock hfree (by omega) ▸ hat'
    · intro hat
      obtain ⟨c, hat', hfree, hsize⟩ :=
        (hsame _).mp ((hrun (x + b.size)).mpr ((hsame' _).mpr ⟨b, hat, hb, rfl⟩))
      exact hblock hfree (by omega) ▸ hat'

theorem carve_head (least : Nat) {n s : Nat} (h : n ≤ s) :
    ∃ m rest, carve least n s = ⟨m, true⟩ :: rest ∧ n ≤ m ∧ m ≤ s := by
  rw [carve]
  split
  · exact ⟨n, [⟨s - n, false⟩], rfl, Nat.le_refl n, h⟩
  · exact ⟨s, [], rfl, h, Nat.le_refl s⟩

theorem blockAt_append {xs ys : List Block} : BlockAt a (xs ++ ys) x b ↔
    BlockAt a xs x b ∨ BlockAt (a + extent xs) ys x b := by
  induction xs generalizing a with
  | nil => simp [blockAt_nil, extent]
  | cons c cs ih =>
    rw [List.cons_append, blockAt_cons, ih, blockAt_cons, extent, Nat.add_assoc, or_assoc]

theorem freeBlocks_fst (a : Nat) (bs : List Block) :
    (freeBlocks a bs).map Prod.fst = freeAddrs a bs := by
  induction bs generalizing a with
  | nil => rfl
  | cons b bs ih =>
    cases hb : b.live <;> simp [freeBlocks, freeAddrs, hb, ih]

theorem mem_freeBlocks {n : Nat} : (x, n) ∈ freeBlocks a bs ↔ BlockAt a bs x ⟨n, false⟩ := by
  induction bs generalizing a with
  | nil => simp [freeBlocks, blockAt_nil]
  | cons b bs ih =>
    obtain ⟨m, live⟩ := b
    rw [blockAt_cons, ← ih]
    cases live <;> simp [freeBlocks]

/-- Merging free blocks moves no live one. -/
theorem live_joinNext {n : Nat} {ys : List Block} (hb : b.live = true) :
    BlockAt a (joinNext n ys) x b ↔ BlockAt (a + n) ys x b := by
  have hne : ∀ m, b ≠ ⟨m, false⟩ := by
    rintro m rfl
    cases hb
  cases ys with
  | nil => simp [joinNext, blockAt_cons, blockAt_nil, hne]
  | cons c cs =>
    cases hc : c.live with
    | true => simp [joinNext, hc, blockAt_cons, hne]
    | false =>
      have hcb : b ≠ c := by
        rintro rfl
        rw [hc] at hb
        cases hb
      simp [joinNext, hc, blockAt_cons, hne, hcb, Nat.add_assoc]

/-- Giving a block back takes it, and no other one, out of the live blocks. -/
theorem live_insertFree {n : Nat} {xs ys : List Block} (hb : b.live = true) :
    BlockAt a (insertFree n xs ys) x b ↔
      BlockAt a xs x b ∨ BlockAt (a + extent xs + n) ys x b := by
  rcases insertFree_cases n xs ys with ⟨rfl, h⟩ | ⟨ws, d, rfl, _, h⟩ | ⟨ws, d, rfl, hd, h⟩
  · rw [h, live_joinNext hb]
    simp [blockAt_nil, extent]
  · rw [h, blockAt_append, live_joinNext hb]
  · have hdb : b ≠ d := by
      rintro rfl
      rw [hd] at hb
      cases hb
    rw [h, blockAt_append, live_joinNext hb, blockAt_append]
    simp [blockAt_cons, blockAt_nil, hdb, extent, Nat.add_assoc]

end Blocks

end BlockList
