import Mathlib.Data.List.Chain
import Mathlib.Data.List.Nodup
import Mathlib.Tactic.Lemma

/-!
# Contiguous blocks with first-fit allocation and boundary coalescing

A region of addresses is cut into consecutive blocks, each free or live. The
list of blocks, read from a base address, is the abstract state of a
coalescing allocator: a block is taken by cutting the front off a free one and
given back by merging it with its free neighbours. Addresses are derived from
the sizes, so a partition of the region cannot have gaps or overlaps.
-/

namespace BlockList

structure Block where
  size : Nat
  live : Bool
  deriving DecidableEq, Repr

def extent : List Block → Nat
  | [] => 0
  | b :: bs => b.size + extent bs

/-- The address of the first free block, or `z` when every block is live. -/
def firstFree (a : Nat) (z : Nat) : List Block → Nat
  | [] => z
  | b :: bs => if b.live then firstFree (a + b.size) z bs else a

/-- The address of the last free block, or `z` when every block is live. -/
def lastFree (a : Nat) (z : Nat) : List Block → Nat
  | [] => z
  | b :: bs => lastFree (a + b.size) (if b.live then z else a) bs

def freeAddrs (a : Nat) : List Block → List Nat
  | [] => []
  | b :: bs => if b.live then freeAddrs (a + b.size) bs else a :: freeAddrs (a + b.size) bs

def liveAddrs (a : Nat) : List Block → List Nat
  | [] => []
  | b :: bs => if b.live then a :: liveAddrs (a + b.size) bs else liveAddrs (a + b.size) bs

/-- No two neighbouring blocks are both free. -/
def Coalesced (bs : List Block) : Prop :=
  bs.IsChain (fun b c => b.live = true ∨ c.live = true)

/-- Every block is a multiple of `align` and at least `least`. -/
def Sized (least align : Nat) (bs : List Block) : Prop :=
  ∀ b ∈ bs, least ≤ b.size ∧ b.size % align = 0

/-- Put a free block of size `n` in front, merging it with a free first block. -/
def joinNext (n : Nat) : List Block → List Block
  | [] => [⟨n, false⟩]
  | c :: cs => if c.live then ⟨n, false⟩ :: c :: cs else ⟨n + c.size, false⟩ :: cs

/-- Put a free block of size `n` between `xs` and `ys`, merging on both sides. -/
def insertFree (n : Nat) : List Block → List Block → List Block
  | [], ys => joinNext n ys
  | [d], ys => if d.live then d :: joinNext n ys else
      match joinNext n ys with
      | [] => [d]
      | f :: fs => ⟨d.size + f.size, false⟩ :: fs
  | x :: y :: xs, ys => x :: insertFree n (y :: xs) ys

/-- Take `n` bytes from the front of a free block of size `s`; what is left
stays free when it reaches `least`, and is handed out with the block otherwise. -/
def carve (least n s : Nat) : List Block :=
  if least ≤ s - n then [⟨n, true⟩, ⟨s - n, false⟩] else [⟨s, true⟩]

@[simp] theorem extent_append (xs ys : List Block) :
    extent (xs ++ ys) = extent xs + extent ys := by
  induction xs with
  | nil => simp [extent]
  | cons x xs ih => simp only [List.cons_append, extent, ih]; omega

theorem liveAddrs_append (a : Nat) (xs ys : List Block) :
    liveAddrs a (xs ++ ys) = liveAddrs a xs ++ liveAddrs (a + extent xs) ys := by
  induction xs generalizing a with
  | nil => simp [liveAddrs, extent]
  | cons x xs ih =>
    simp only [List.cons_append, liveAddrs, extent, ih, Nat.add_assoc]
    split <;> simp

theorem firstFree_append (a z : Nat) (xs ys : List Block) :
    firstFree a z (xs ++ ys) = firstFree a (firstFree (a + extent xs) z ys) xs := by
  induction xs generalizing a with
  | nil => simp [firstFree, extent]
  | cons x xs ih => simp only [List.cons_append, firstFree, extent, ih, Nat.add_assoc]

theorem lastFree_append (a z : Nat) (xs ys : List Block) :
    lastFree a z (xs ++ ys) = lastFree (a + extent xs) (lastFree a z xs) ys := by
  induction xs generalizing a z with
  | nil => simp [lastFree, extent]
  | cons x xs ih => simp only [List.cons_append, lastFree, extent, ih, Nat.add_assoc]

theorem sized_append {least align : Nat} {xs ys : List Block} :
    Sized least align (xs ++ ys) ↔ Sized least align xs ∧ Sized least align ys := by
  simp only [Sized, List.mem_append]
  exact ⟨fun h => ⟨fun b hb => h b (Or.inl hb), fun b hb => h b (Or.inr hb)⟩,
    fun h b hb => hb.elim (h.1 b) (h.2 b)⟩

theorem sized_cons {least align : Nat} {b : Block} {bs : List Block} :
    Sized least align (b :: bs) ↔
      (least ≤ b.size ∧ b.size % align = 0) ∧ Sized least align bs := by
  simp [Sized]

theorem sized_nil {least align : Nat} : Sized least align [] := by simp [Sized]

theorem sized_extent {least align : Nat} {bs : List Block} (h : Sized least align bs) :
    extent bs % align = 0 := by
  induction bs with
  | nil => simp [extent]
  | cons b bs ih =>
    obtain ⟨hb, hbs⟩ := sized_cons.mp h
    simp only [extent]
    exact Nat.mod_eq_zero_of_dvd (Nat.dvd_add (Nat.dvd_of_mod_eq_zero hb.2)
      (Nat.dvd_of_mod_eq_zero (ih hbs)))

/-- The block in front is free, and nothing else changes its status. -/
theorem joinNext_eq (n : Nat) (ys : List Block) :
    ∃ m fs, joinNext n ys = ⟨m, false⟩ :: fs ∧ n ≤ m := by
  cases ys with
  | nil => exact ⟨n, [], rfl, Nat.le_refl n⟩
  | cons c cs =>
    cases hc : c.live with
    | true => exact ⟨n, c :: cs, by simp [joinNext, hc], Nat.le_refl n⟩
    | false => exact ⟨n + c.size, cs, by simp [joinNext, hc], Nat.le_add_right n c.size⟩

theorem extent_joinNext (n : Nat) (ys : List Block) :
    extent (joinNext n ys) = n + extent ys := by
  cases ys with
  | nil => simp [joinNext, extent]
  | cons c cs => simp only [joinNext]; split <;> simp only [extent]; omega

theorem liveAddrs_joinNext (a n : Nat) (ys : List Block) :
    liveAddrs a (joinNext n ys) = liveAddrs (a + n) ys := by
  cases ys with
  | nil => simp [joinNext, liveAddrs]
  | cons c cs =>
    cases hc : c.live <;> simp [joinNext, liveAddrs, hc, Nat.add_assoc]

theorem sized_joinNext {least align n : Nat} {ys : List Block} (hn : least ≤ n ∧ n % align = 0)
    (h : Sized least align ys) : Sized least align (joinNext n ys) := by
  cases ys with
  | nil => exact sized_cons.mpr ⟨hn, sized_nil⟩
  | cons c cs =>
    obtain ⟨hc, hcs⟩ := sized_cons.mp h
    simp only [joinNext]
    split
    · exact sized_cons.mpr ⟨hn, h⟩
    · refine sized_cons.mpr ⟨⟨Nat.le_add_right_of_le hn.1, ?_⟩, hcs⟩
      exact Nat.mod_eq_zero_of_dvd (Nat.dvd_add (Nat.dvd_of_mod_eq_zero hn.2)
        (Nat.dvd_of_mod_eq_zero hc.2))

theorem coalesced_joinNext {n : Nat} {ys : List Block} (h : Coalesced ys) :
    Coalesced (joinNext n ys) := by
  cases ys with
  | nil => exact List.isChain_singleton _
  | cons c cs =>
    cases hc : c.live with
    | true => simpa [joinNext, hc, Coalesced] using h
    | false =>
      cases cs with
      | nil => simp [joinNext, hc, Coalesced]
      | cons d ds =>
        simp only [Coalesced, List.isChain_cons_cons, hc] at h
        simpa [joinNext, hc, Coalesced, List.isChain_cons_cons] using h

theorem insertFree_append (n : Nat) (xs : List Block) (d : Block) (ys : List Block) :
    insertFree n (xs ++ [d]) ys = xs ++ insertFree n [d] ys := by
  induction xs with
  | nil => rfl
  | cons x xs ih =>
    cases xs with
    | nil => rfl
    | cons y xs => simpa [insertFree] using ih

/-- Merging with the block before: either it is live, or it is absorbed. -/
theorem insertFree_singleton (n : Nat) (d : Block) (ys : List Block) :
    insertFree n [d] ys = if d.live then d :: joinNext n ys else joinNext (d.size + n) ys := by
  cases ys with
  | nil => simp [insertFree, joinNext]
  | cons c cs =>
    cases hd : d.live <;> cases hc : c.live <;>
      simp [insertFree, joinNext, hd, hc, Nat.add_assoc]

/-- Both neighbours decide the shape: an empty prefix, a live last block, or a
free last block that swallows the new one. -/
theorem insertFree_cases (n : Nat) (xs ys : List Block) :
    (xs = [] ∧ insertFree n xs ys = joinNext n ys) ∨
    (∃ ws d, xs = ws ++ [d] ∧ d.live = true ∧ insertFree n xs ys = xs ++ joinNext n ys) ∨
    (∃ ws d, xs = ws ++ [d] ∧ d.live = false ∧
      insertFree n xs ys = ws ++ joinNext (d.size + n) ys) := by
  rcases List.eq_nil_or_concat xs with rfl | ⟨ws, d, rfl⟩
  · exact Or.inl ⟨rfl, rfl⟩
  · rw [List.concat_eq_append, insertFree_append, insertFree_singleton]
    cases hd : d.live with
    | true => exact Or.inr (Or.inl ⟨ws, d, rfl, hd, by simp⟩)
    | false => exact Or.inr (Or.inr ⟨ws, d, rfl, hd, by simp⟩)

theorem extent_insertFree (n : Nat) (xs ys : List Block) :
    extent (insertFree n xs ys) = extent xs + n + extent ys := by
  rcases insertFree_cases n xs ys with ⟨rfl, h⟩ | ⟨ws, d, rfl, _, h⟩ | ⟨ws, d, rfl, _, h⟩ <;>
    rw [h] <;> simp only [extent_append, extent_joinNext, extent] <;> omega

theorem liveAddrs_insertFree (a n : Nat) (xs ys : List Block) :
    liveAddrs a (insertFree n xs ys) = liveAddrs a xs ++ liveAddrs (a + extent xs + n) ys := by
  rcases insertFree_cases n xs ys with ⟨rfl, h⟩ | ⟨ws, d, rfl, hd, h⟩ | ⟨ws, d, rfl, hd, h⟩
  · rw [h, liveAddrs_joinNext]
    simp [liveAddrs, extent]
  · rw [h, liveAddrs_append, liveAddrs_joinNext]
  · rw [h, liveAddrs_append, liveAddrs_joinNext, liveAddrs_append, extent_append]
    simp [liveAddrs, extent, hd, Nat.add_assoc]

theorem sized_insertFree {least align n : Nat} {xs ys : List Block}
    (hn : least ≤ n ∧ n % align = 0) (hx : Sized least align xs) (hy : Sized least align ys) :
    Sized least align (insertFree n xs ys) := by
  rcases insertFree_cases n xs ys with ⟨rfl, h⟩ | ⟨ws, d, rfl, _, h⟩ | ⟨ws, d, rfl, _, h⟩
  · rw [h]
    exact sized_joinNext hn hy
  · rw [h]
    exact sized_append.mpr ⟨hx, sized_joinNext hn hy⟩
  · rw [h]
    obtain ⟨hws, hd⟩ := sized_append.mp hx
    have hdn := (sized_cons.mp hd).1
    refine sized_append.mpr ⟨hws, sized_joinNext ⟨Nat.le_add_right_of_le hdn.1, ?_⟩ hy⟩
    exact Nat.mod_eq_zero_of_dvd (Nat.dvd_add (Nat.dvd_of_mod_eq_zero hdn.2)
      (Nat.dvd_of_mod_eq_zero hn.2))

/-- Giving a block back keeps the list coalesced, on both sides. -/
theorem coalesced_insertFree {n : Nat} {xs ys : List Block} (hx : Coalesced xs)
    (hy : Coalesced ys) : Coalesced (insertFree n xs ys) := by
  rcases insertFree_cases n xs ys with ⟨rfl, h⟩ | ⟨ws, d, rfl, hd, h⟩ | ⟨ws, d, rfl, hd, h⟩
  · rw [h]
    exact coalesced_joinNext hy
  · rw [h]
    refine List.isChain_append.mpr ⟨hx, coalesced_joinNext hy, ?_⟩
    intro x hlast y _
    have hxd : d = x := by simpa using hlast
    exact Or.inl (hxd ▸ hd)
  · rw [h]
    obtain ⟨hws, _, hadj⟩ := List.isChain_append.mp hx
    refine List.isChain_append.mpr ⟨hws, coalesced_joinNext hy, ?_⟩
    intro x hlast y _
    have hxd := hadj x hlast d (by simp)
    rw [hd] at hxd
    exact Or.inl (hxd.resolve_right (by simp))

theorem extent_carve {least n s : Nat} (hn : n ≤ s) : extent (carve least n s) = s := by
  simp only [carve]
  split <;> simp only [extent] <;> omega

theorem liveAddrs_carve (a least n s : Nat) : liveAddrs a (carve least n s) = [a] := by
  simp only [carve]
  split <;> simp [liveAddrs]

theorem sized_carve {least align n s : Nat} (hs : least ≤ s ∧ s % align = 0)
    (hn : least ≤ n ∧ n % align = 0) : Sized least align (carve least n s) := by
  simp only [carve]
  split
  · rename_i hrest
    refine sized_cons.mpr ⟨hn, sized_cons.mpr ⟨⟨hrest, ?_⟩, sized_nil⟩⟩
    exact Nat.mod_eq_zero_of_dvd (Nat.dvd_sub (Nat.dvd_of_mod_eq_zero hs.2)
      (Nat.dvd_of_mod_eq_zero hn.2))
  · exact sized_cons.mpr ⟨hs, sized_nil⟩

/-- Taking a block out of a free one keeps the list coalesced. -/
theorem coalesced_carve {least n s : Nat} {xs ys : List Block}
    (h : Coalesced (xs ++ ⟨s, false⟩ :: ys)) : Coalesced (xs ++ (carve least n s ++ ys)) := by
  obtain ⟨hxs, htl, hadj⟩ := List.isChain_append.mp h
  have hys : Coalesced ys := (List.isChain_cons.mp htl).2
  have hnext : ∀ y ∈ ys.head?, y.live = true := fun y hy =>
    ((List.isChain_cons.mp htl).1 y hy).resolve_left (by simp)
  refine List.isChain_append.mpr ⟨hxs, ?_, ?_⟩
  · simp only [carve]
    split
    · refine List.isChain_cons.mpr ⟨fun y _ => Or.inl rfl, List.isChain_cons.mpr ⟨?_, hys⟩⟩
      exact fun y hy => Or.inr (hnext y hy)
    · exact List.isChain_cons.mpr ⟨fun y _ => Or.inl rfl, hys⟩
  · intro x hx y hy
    refine Or.inr ?_
    simp only [carve] at hy
    split at hy <;> simp at hy <;> rw [← hy]

/-- Take `n` bytes from the first free block that has them. -/
def takeFirst (least n : Nat) : List Block → Option (List Block)
  | [] => none
  | b :: bs =>
    if b.live = false ∧ n ≤ b.size then some (carve least n b.size ++ bs)
    else (takeFirst least n bs).map (b :: ·)

theorem takeFirst_none {least n : Nat} {bs : List Block}
    (h : ∀ b ∈ bs, b.live = false → b.size < n) : takeFirst least n bs = none := by
  induction bs with
  | nil => rfl
  | cons b bs ih =>
    have hb : ¬ (b.live = false ∧ n ≤ b.size) := by
      rintro ⟨hfree, hfit⟩
      have hsmall := h b List.mem_cons_self hfree
      omega
    rw [takeFirst, if_neg hb, ih fun c hc => h c (List.mem_cons_of_mem b hc), Option.map_none]

theorem takeFirst_some {least n s : Nat} {xs ys : List Block} (hfit : n ≤ s)
    (h : ∀ b ∈ xs, b.live = false → b.size < n) :
    takeFirst least n (xs ++ ⟨s, false⟩ :: ys) = some (xs ++ (carve least n s ++ ys)) := by
  induction xs with
  | nil => rw [List.nil_append, takeFirst, if_pos ⟨rfl, hfit⟩, List.nil_append]
  | cons b xs ih =>
    have hb : ¬ (b.live = false ∧ n ≤ b.size) := by
      rintro ⟨hfree, hfit⟩
      have hsmall := h b List.mem_cons_self hfree
      omega
    rw [List.cons_append, takeFirst, if_neg hb, ih fun c hc => h c (List.mem_cons_of_mem b hc),
      Option.map_some, List.cons_append]

/-- A free block between live neighbours merges with neither of them. -/
theorem insertFree_between {n : Nat} {xs ys : List Block}
    (hc : Coalesced (xs ++ ⟨n, false⟩ :: ys)) : insertFree n xs ys = xs ++ ⟨n, false⟩ :: ys := by
  obtain ⟨_, htl, hadj⟩ := List.isChain_append.mp hc
  have hjoin : joinNext n ys = ⟨n, false⟩ :: ys := by
    cases ys with
    | nil => rfl
    | cons c cs =>
      have hlive := ((List.isChain_cons.mp htl).1 c rfl).resolve_left (by simp)
      rw [joinNext, if_pos hlive]
  rcases insertFree_cases n xs ys with ⟨rfl, h⟩ | ⟨ws, d, rfl, _, h⟩ | ⟨ws, d, rfl, hd, h⟩
  · rw [h, hjoin, List.nil_append]
  · rw [h, hjoin]
  · have hlive := hadj d (by simp) ⟨n, false⟩ rfl
    rw [hd] at hlive
    simp at hlive

/-- Giving back what was just taken restores the list. -/
theorem insertFree_carve (least : Nat) {n s : Nat} {xs ys : List Block} (hn : n ≤ s)
    (hc : Coalesced (xs ++ ⟨s, false⟩ :: ys)) :
    ∃ b rest, carve least n s ++ ys = ⟨b, true⟩ :: rest ∧
      insertFree b xs rest = xs ++ ⟨s, false⟩ :: ys := by
  by_cases hsplit : least ≤ s - n
  · refine ⟨n, ⟨s - n, false⟩ :: ys, by rw [carve, if_pos hsplit]; rfl, ?_⟩
    have hjoin : ∀ m ws, joinNext m (⟨s - n, false⟩ :: ws) = ⟨m + (s - n), false⟩ :: ws :=
      fun m ws => rfl
    have hsum : n + (s - n) = s := by omega
    obtain ⟨_, _, hadj⟩ := List.isChain_append.mp hc
    rcases insertFree_cases n xs (⟨s - n, false⟩ :: ys) with
      ⟨rfl, h⟩ | ⟨ws, d, rfl, _, h⟩ | ⟨ws, d, rfl, hd, h⟩
    · rw [h, hjoin, hsum, List.nil_append]
    · rw [h, hjoin, hsum]
    · have hlive := hadj d (by simp) ⟨s, false⟩ rfl
      rw [hd] at hlive
      simp at hlive
  · exact ⟨s, ys, by rw [carve, if_neg hsplit]; rfl, insertFree_between hc⟩

theorem freeAddrs_bounds {least align a x : Nat} {bs : List Block}
    (h : Sized least align bs) (hx : x ∈ freeAddrs a bs) : a ≤ x ∧ x + least ≤ a + extent bs := by
  induction bs generalizing a with
  | nil => simp [freeAddrs] at hx
  | cons b bs ih =>
    obtain ⟨hb, hbs⟩ := sized_cons.mp h
    simp only [freeAddrs, extent] at hx ⊢
    split at hx
    · have := ih hbs hx
      omega
    · rcases List.mem_cons.mp hx with rfl | hx
      · omega
      · have := ih hbs hx
        omega

theorem liveAddrs_bounds {least align a x : Nat} {bs : List Block}
    (h : Sized least align bs) (hx : x ∈ liveAddrs a bs) : a ≤ x ∧ x + least ≤ a + extent bs := by
  induction bs generalizing a with
  | nil => simp [liveAddrs] at hx
  | cons b bs ih =>
    obtain ⟨hb, hbs⟩ := sized_cons.mp h
    simp only [liveAddrs, extent] at hx ⊢
    split at hx
    · rcases List.mem_cons.mp hx with rfl | hx
      · omega
      · have := ih hbs hx
        omega
    · have := ih hbs hx
      omega

/-- Read in order, the free blocks have strictly increasing addresses. -/
theorem freeAddrs_sorted {least align a : Nat} {bs : List Block} (hl : 0 < least)
    (h : Sized least align bs) : (freeAddrs a bs).Pairwise (· < ·) := by
  induction bs generalizing a with
  | nil => simp [freeAddrs]
  | cons b bs ih =>
    obtain ⟨hb, hbs⟩ := sized_cons.mp h
    simp only [freeAddrs]
    split
    · exact ih hbs
    · refine List.pairwise_cons.mpr ⟨fun x hx => ?_, ih hbs⟩
      have := freeAddrs_bounds hbs hx
      omega

theorem mem_liveAddrs_iff {a x : Nat} {bs : List Block} :
    x ∈ liveAddrs a bs ↔
      ∃ xs b ys, bs = xs ++ b :: ys ∧ b.live = true ∧ x = a + extent xs := by
  induction bs generalizing a with
  | nil => simp [liveAddrs]
  | cons c cs ih =>
    have tail : (∃ xs b ys, c :: cs = xs ++ b :: ys ∧ b.live = true ∧ x = a + extent xs) ↔
        (c.live = true ∧ x = a) ∨
        ∃ xs b ys, cs = xs ++ b :: ys ∧ b.live = true ∧ x = a + c.size + extent xs := by
      constructor
      · rintro ⟨xs, b, ys, heq, hb, hx⟩
        cases xs with
        | nil =>
          obtain ⟨rfl, rfl⟩ := List.cons.inj heq
          exact Or.inl ⟨hb, by simpa [extent] using hx⟩
        | cons y xs =>
          obtain ⟨rfl, rfl⟩ := List.cons.inj heq
          exact Or.inr ⟨xs, b, ys, rfl, hb, by simp only [extent] at hx; omega⟩
      · rintro (⟨hc, rfl⟩ | ⟨xs, b, ys, rfl, hb, rfl⟩)
        · exact ⟨[], c, cs, rfl, hc, by simp [extent]⟩
        · exact ⟨c :: xs, b, ys, rfl, hb, by simp only [extent]; omega⟩
    rw [tail, ← ih]
    simp only [liveAddrs]
    split
    · rename_i hc
      simp [hc]
    · rename_i hc
      simp [hc]

theorem liveAddrs_nodup {least align a : Nat} {bs : List Block} (hl : 0 < least)
    (h : Sized least align bs) : (liveAddrs a bs).Nodup := by
  induction bs generalizing a with
  | nil => simp [liveAddrs]
  | cons b bs ih =>
    obtain ⟨hb, hbs⟩ := sized_cons.mp h
    simp only [liveAddrs]
    split
    · refine List.nodup_cons.mpr ⟨fun hx => ?_, ih hbs⟩
      have := liveAddrs_bounds hbs hx
      omega
    · exact ih hbs

end BlockList
