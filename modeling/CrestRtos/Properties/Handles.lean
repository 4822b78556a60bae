import CrestRtos.Kernel.Kobject
import Mathlib.Data.Finmap

/-!
# The handle table as a finite map

A client of `kernel/kobject.c` sees a map from the handles that are out to
objects. A handle enters it when `k_obj_alloc` returns it and leaves it with
`k_obj_free`; slots, generations and their wrap-around do not show.
-/

namespace Crest

/-- Any word that a caller can pass as a handle. -/
abbrev HandleWord := Fin (2 ^ 32)

inductive TableOp
  | alloc (ptr : Nat) (type : KobjType)
  | get (handle : HandleWord) (type : KobjType)
  | free (handle : HandleWord)

inductive TableAnswer
  | handle (h : Nat)
  | object (ptr : Option Nat)
  | done
  deriving DecidableEq

def TableOp.perform (k : Kernel) : TableOp → Kernel × TableAnswer
  | .alloc ptr type => ((kObjAlloc k ptr type).1, .handle (kObjAlloc k ptr type).2)
  | .get handle type => (k, .object (kObjGet k handle type))
  | .free handle => (kObjFree k handle, .done)

/-- The calls made so far, each with its answer. -/
abbrev TableTrace := List (TableOp × TableAnswer)

def tableRun (k : Kernel) : List TableOp → Kernel × TableTrace
  | [] => (k, [])
  | op :: ops =>
    let (k', answer) := op.perform k
    let (k'', trace) := tableRun k' ops
    (k'', (op, answer) :: trace)

/-- The handles that are out, with the objects behind them. -/
abbrev Issued := Finmap fun _ : Nat => Nat × KobjType

inductive Issued.Step : Issued → TableOp → TableAnswer → Issued → Prop
  | alloc {M : Issued} {ptr h : Nat} {type : KobjType} (hptr : ptr ≠ 0)
      (hroom : M.keys.card < kobjMax) (hnew : h ∉ M) (hvalid : h ≠ kobjInvalid) :
      Step M (.alloc ptr type) (.handle h) (M.insert h (ptr, type))
  | refuse {M : Issued} {ptr : Nat} {type : KobjType}
      (hwhy : ptr = 0 ∨ M.keys.card = kobjMax) :
      Step M (.alloc ptr type) (.handle kobjInvalid) M
  | found {M : Issued} {ptr : Nat} {h : HandleWord} {type : KobjType}
      (hfound : M.lookup h.val = some (ptr, type)) : Step M (.get h type) (.object (some ptr)) M
  | missing {M : Issued} {h : HandleWord} {type : KobjType}
      (hnone : ∀ ptr, M.lookup h.val ≠ some (ptr, type)) : Step M (.get h type) (.object none) M
  | free {M : Issued} {h : HandleWord} : Step M (.free h) .done (M.erase h.val)

/-- A whole history of the map. -/
inductive Issued.Run : Issued → TableTrace → Issued → Prop
  | nil {M : Issued} : Run M [] M
  | cons {M M' M'' : Issued} {op : TableOp} {answer : TableAnswer} {trace : TableTrace}
      (hstep : Step M op answer M') (hrest : Run M' trace M'') :
      Run M ((op, answer) :: trace) M''

/-- The handle that a slot answers to. -/
def slotHandle (table : Nat → KobjEntry) (i : Nat) : Nat := packHandle (table i).gen i

/-- `M` holds what the slots in use hold. -/
structure Tracks (table : Nat → KobjEntry) (M : Issued) : Prop where
  gen : ∀ i, (table i).gen < 2 ^ 16
  ptr : ∀ i, i < kobjMax → (table i).inUse = true → (table i).ptr ≠ 0
  slots : ∀ h ptr type, M.lookup h = some (ptr, type) ↔
    ∃ i, i < kobjMax ∧ (table i).inUse = true ∧ slotHandle table i = h ∧
      (table i).ptr = ptr ∧ (table i).type = type

section Slots
variable {table : Nat → KobjEntry} {k : Kernel} {M : Issued} {h i : Nat}

theorem Tracks.index (ht : Tracks table M) (hi : i < kobjMax) :
    handleIndex (slotHandle table i) = i ∧ handleGen (slotHandle table i) = (table i).gen :=
  have hi' : i < 2 ^ 16 := hi.trans (by decide)
  ⟨handleIndex_packHandle hi', handleGen_packHandle (ht.gen i) hi'⟩

theorem Tracks.mem_iff (ht : Tracks table M) :
    h ∈ M ↔ ∃ i, i < kobjMax ∧ (table i).inUse = true ∧ slotHandle table i = h := by
  rw [Finmap.mem_iff]
  constructor
  · rintro ⟨⟨ptr, type⟩, hlookup⟩
    obtain ⟨i, hi, huse, hh, _⟩ := (ht.slots h ptr type).mp hlookup
    exact ⟨i, hi, huse, hh⟩
  · rintro ⟨i, hi, huse, hh⟩
    exact ⟨_, (ht.slots h _ _).mpr ⟨i, hi, huse, hh, rfl, rfl⟩⟩

theorem Tracks.invalid (ht : Tracks table M) : kobjInvalid ∉ M := by
  intro hmem
  obtain ⟨i, hi, _, hh⟩ := ht.mem_iff.mp hmem
  exact packHandle_valid hi hh

/-- As many handles as slots in use. -/
theorem Tracks.card (ht : Tracks table M) :
    M.keys.card = ((Finset.range kobjMax).filter fun i => (table i).inUse = true).card := by
  have hkeys : M.keys =
      ((Finset.range kobjMax).filter fun i => (table i).inUse = true).image (slotHandle table) := by
    ext h
    rw [Finmap.mem_keys, ht.mem_iff]
    simp only [Finset.mem_image, Finset.mem_filter, Finset.mem_range, and_assoc]
  rw [hkeys]
  refine Finset.card_image_of_injOn fun i hi j hj heq => ?_
  rw [Finset.mem_coe, Finset.mem_filter, Finset.mem_range] at hi hj
  rw [← (ht.index hi.1).1, ← (ht.index hj.1).1, heq]

theorem Tracks.full_iff (ht : Tracks table M) :
    M.keys.card = kobjMax ↔ ∀ i, i < kobjMax → (table i).inUse = true := by
  have hfull := Finset.card_filter_eq_iff (s := Finset.range kobjMax)
    (p := fun i => (table i).inUse = true)
  rw [Finset.card_range] at hfull
  rw [ht.card, hfull]
  simp only [Finset.mem_range]

theorem Tracks.card_le (ht : Tracks table M) : M.keys.card ≤ kobjMax := by
  rw [ht.card]
  exact (Finset.card_filter_le _ _).trans (Finset.card_range kobjMax).le

/-- Every check of `k_obj_get` passes exactly when the handle is the one that
the slot answers to. -/
theorem Tracks.get (ht : Tracks k.table M) (hh : h < 2 ^ 32) {ptr : Nat} {type : KobjType} :
    kObjGet k h type = some ptr ↔ M.lookup h = some (ptr, type) := by
  rw [ht.slots]
  constructor
  · intro hget
    obtain ⟨hidx, huse, hgen, htype, hptr⟩ := kObjGet_checks hget
    refine ⟨handleIndex h, hidx, huse, ?_, hptr, htype⟩
    rw [slotHandle, hgen, packHandle_halves hh]
  · rintro ⟨i, hi, huse, rfl, rfl, rfl⟩
    obtain ⟨hidx, hgen⟩ := ht.index hi
    have hnull := ht.ptr i hi huse
    have hvalid : slotHandle k.table i ≠ kobjInvalid := packHandle_valid hi
    rw [kObjGet, if_neg hvalid]
    simp [hidx, hgen, huse, hnull, Nat.not_le.mpr hi]

end Slots

section Steps
variable {table : Nat → KobjEntry} {k : Kernel} {M : Issued}

/-- The table after a slot has been taken. -/
theorem Tracks.fill (ht : Tracks table M) {i gen ptr : Nat} (type : KobjType) (hi : i < kobjMax)
    (hfree : (table i).inUse = false) (hgen : gen < 2 ^ 16) (hptr : ptr ≠ 0) :
    packHandle gen i ∉ M ∧
      Tracks (Function.update table i ⟨ptr, type, true, gen⟩)
        (M.insert (packHandle gen i) (ptr, type)) := by
  have hother : ∀ {j}, j < kobjMax → (table j).inUse = true →
      slotHandle table j ≠ packHandle gen i ∧ j ≠ i := by
    intro j hj huse
    have hne : j ≠ i := by
      rintro rfl
      rw [hfree] at huse
      cases huse
    refine ⟨fun heq => hne ?_, hne⟩
    rw [← (ht.index hj).1, heq, handleIndex_packHandle (hi.trans (by decide))]
  refine ⟨fun hmem => ?_, ?_, ?_, ?_⟩
  · obtain ⟨j, hj, huse, heq⟩ := ht.mem_iff.mp hmem
    exact (hother hj huse).1 heq
  · intro j
    by_cases hj : j = i
    · subst hj
      rwa [Function.update_self]
    · rw [Function.update_of_ne hj]
      exact ht.gen j
  · intro j hj
    by_cases hji : j = i
    · subst hji
      rw [Function.update_self]
      exact fun _ => hptr
    · rw [Function.update_of_ne hji]
      exact ht.ptr j hj
  · intro h p ty
    simp only [slotHandle]
    by_cases hh : h = packHandle gen i
    · subst hh
      rw [Finmap.lookup_insert]
      constructor
      · intro heq
        obtain ⟨rfl, rfl⟩ := Prod.mk.inj (Option.some.inj heq)
        exact ⟨i, hi, by simp⟩
      · rintro ⟨j, hj, huse, heq, hp, hty⟩
        by_cases hji : j = i
        · subst hji
          rw [Function.update_self] at hp hty
          rw [← hp, ← hty]
        · rw [Function.update_of_ne hji] at huse heq
          exact absurd heq (hother hj huse).1
    · rw [Finmap.lookup_insert_of_ne _ hh, ht.slots]
      constructor
      · rintro ⟨j, hj, huse, hrest⟩
        exact ⟨j, hj, by simpa [Function.update_of_ne (hother hj huse).2] using ⟨huse, hrest⟩⟩
      · rintro ⟨j, hj, huse, heq, hrest⟩
        have hji : j ≠ i := by
          rintro rfl
          rw [Function.update_self] at heq
          exact hh heq.symm
        rw [Function.update_of_ne hji] at huse heq hrest
        exact ⟨j, hj, huse, heq, hrest⟩

/-- The table after a slot has been given back. -/
theorem Tracks.clear (ht : Tracks table M) {i gen : Nat} (hi : i < kobjMax) (hgen : gen < 2 ^ 16) :
    Tracks (Function.update table i ⟨0, .queue, false, gen⟩)
      (M.erase (slotHandle table i)) := by
  refine ⟨?_, ?_, ?_⟩
  · intro j
    by_cases hj : j = i
    · subst hj
      rwa [Function.update_self]
    · rw [Function.update_of_ne hj]
      exact ht.gen j
  · intro j hj
    by_cases hji : j = i
    · subst hji
      rw [Function.update_self]
      exact fun h => absurd h Bool.false_ne_true
    · rw [Function.update_of_ne hji]
      exact ht.ptr j hj
  · intro h p ty
    by_cases hh : h = slotHandle table i
    · subst hh
      rw [Finmap.lookup_erase]
      constructor
      · intro heq
        cases heq
      · rintro ⟨j, hj, huse, heq, _⟩
        by_cases hji : j = i
        · subst hji
          rw [Function.update_self] at huse
          cases huse
        · simp only [slotHandle, Function.update_of_ne hji] at heq
          have hidx := (ht.index hj).1
          rw [slotHandle, heq, handleIndex_packHandle (hi.trans (by decide))] at hidx
          exact absurd hidx.symm hji
    · rw [Finmap.lookup_erase_ne hh, ht.slots]
      have hne : ∀ j, (table j).inUse = true → slotHandle table j = h → j ≠ i := by
        rintro j _ heq rfl
        exact hh heq.symm
      constructor
      · rintro ⟨j, hj, huse, heq, hrest⟩
        have hji := hne j huse heq
        refine ⟨j, hj, ?_⟩
        simp only [slotHandle, Function.update_of_ne hji]
        exact ⟨huse, heq, hrest⟩
      · rintro ⟨j, hj, huse, heq, hrest⟩
        have hji : j ≠ i := by
          rintro rfl
          rw [Function.update_self] at huse
          cases huse
        simp only [slotHandle, Function.update_of_ne hji] at huse heq hrest
        exact ⟨j, hj, huse, heq, hrest⟩

theorem Tracks.alloc (ht : Tracks k.table M) (ptr : Nat) (type : KobjType) :
    ∃ M', Issued.Step M (.alloc ptr type) (.handle (kObjAlloc k ptr type).2) M' ∧
      Tracks (kObjAlloc k ptr type).1.table M' := by
  rw [kObjAlloc]
  by_cases hptr : ptr = 0
  · rw [if_pos hptr]
    exact ⟨M, .refuse (Or.inl hptr), ht⟩
  rw [if_neg hptr]
  cases hfind : (List.range kobjMax).find? (fun i => !(k.table i).inUse) with
  | none =>
    have hused : ∀ i, i < kobjMax → (k.table i).inUse = true := by
      intro i hi
      simpa using List.find?_eq_none.mp hfind i (List.mem_range.mpr hi)
    exact ⟨M, .refuse (Or.inr (ht.full_iff.mpr hused)), ht⟩
  | some i =>
    have hi := List.mem_range.mp (List.mem_of_find?_eq_some hfind)
    have hfree : (k.table i).inUse = false := by simpa using List.find?_some hfind
    have hroom : M.keys.card < kobjMax := by
      refine lt_of_le_of_ne ht.card_le fun hfull => ?_
      have huse := ht.full_iff.mp hfull i hi
      rw [hfree] at huse
      cases huse
    obtain ⟨hnew, htracks⟩ := ht.fill type hi hfree (nextGen_lt (k.table i).gen) hptr
    exact ⟨_, .alloc hptr hroom hnew (packHandle_valid hi), htracks⟩

/-- A slot that does not answer to the word is left alone. -/
theorem kObjFree_of_notMem (ht : Tracks k.table M) {h : Nat} (hh : h < 2 ^ 32) (hmem : h ∉ M) :
    kObjFree k h = k := by
  rw [kObjFree]
  by_cases hinv : h = kobjInvalid
  · rw [if_pos hinv]
  rw [if_neg hinv]
  by_cases hidx : kobjMax ≤ handleIndex h
  · simp only [if_pos hidx]
  simp only [if_neg hidx]
  refine if_neg ?_
  rintro ⟨huse, hgen⟩
  refine hmem (ht.mem_iff.mpr ⟨handleIndex h, Nat.lt_of_not_le hidx, huse, ?_⟩)
  rw [slotHandle, hgen, packHandle_halves hh]

theorem Tracks.free (ht : Tracks k.table M) {h : Nat} (hh : h < 2 ^ 32) :
    Tracks (kObjFree k h).table (M.erase h) := by
  by_cases hmem : h ∈ M
  · obtain ⟨i, hi, huse, rfl⟩ := ht.mem_iff.mp hmem
    obtain ⟨hidx, hgen⟩ := ht.index hi
    have hfree : kObjFree k (slotHandle k.table i) =
        { k with
          table := Function.update k.table i ⟨0, .queue, false, nextGen (k.table i).gen⟩ } := by
      have hvalid : slotHandle k.table i ≠ kobjInvalid := packHandle_valid hi
      rw [kObjFree, if_neg hvalid]
      simp [hidx, hgen, huse, Nat.not_le.mpr hi]
    rw [hfree]
    exact ht.clear hi (nextGen_lt _)
  · rw [kObjFree_of_notMem ht hh hmem]
    have hsame : M.erase h = M := by
      refine Finmap.ext_lookup fun x => ?_
      by_cases hx : x = h
      · subst hx
        rw [Finmap.lookup_erase, Finmap.lookup_eq_none.mpr hmem]
      · rw [Finmap.lookup_erase_ne hx]
    rw [hsame]
    exact ht

/-- One call is one step of the map. -/
theorem Tracks.perform (ht : Tracks k.table M) (op : TableOp) :
    ∃ M', Issued.Step M op (op.perform k).2 M' ∧ Tracks (op.perform k).1.table M' := by
  cases op with
  | alloc ptr type => exact ht.alloc ptr type
  | get h type =>
    refine ⟨M, ?_, ht⟩
    simp only [TableOp.perform]
    cases hget : kObjGet k h type with
    | none =>
      refine .missing fun ptr hlookup => ?_
      rw [(ht.get h.isLt).mpr hlookup] at hget
      cases hget
    | some ptr => exact .found ((ht.get h.isLt).mp hget)
  | free h => exact ⟨_, .free, ht.free h.isLt⟩

theorem Tracks.run (ht : Tracks k.table M) (ops : List TableOp) :
    ∃ M', Issued.Run M (tableRun k ops).2 M' ∧ Tracks (tableRun k ops).1.table M' := by
  induction ops generalizing k M with
  | nil => exact ⟨M, .nil, ht⟩
  | cons op ops ih =>
    obtain ⟨M₁, hstep, ht₁⟩ := ht.perform op
    obtain ⟨M₂, hrun, ht₂⟩ := ih ht₁
    exact ⟨M₂, .cons hstep hrun, ht₂⟩

end Steps

theorem tracks_reset (heapMem ram : ByteMemory.Memory) :
    Tracks (Kernel.reset heapMem ram).table ∅ := by
  refine ⟨fun i => ?_, fun i _ huse => ?_, fun h ptr type => ?_⟩
  · exact Nat.two_pow_pos 16
  · cases huse
  · rw [Finmap.lookup_empty]
    constructor
    · intro heq
      cases heq
    · rintro ⟨i, _, huse, _⟩
      cases huse

/-- Whatever calls are made on the zeroed table, with whatever handle words, their
answers are a history of the map, and the table goes on to answer as the map does. -/
theorem handle_table_refines_map (heapMem ram : ByteMemory.Memory) (ops : List TableOp) :
    ∃ M : Issued, Issued.Run ∅ (tableRun (Kernel.reset heapMem ram) ops).2 M ∧
      kobjInvalid ∉ M ∧ M.keys.card ≤ kobjMax ∧
      (∀ (h : HandleWord) ptr type,
        kObjGet (tableRun (Kernel.reset heapMem ram) ops).1 h type = some ptr ↔
          M.lookup h.val = some (ptr, type)) ∧
      ∀ h : HandleWord, h.val ∉ M →
        kObjFree (tableRun (Kernel.reset heapMem ram) ops).1 h =
          (tableRun (Kernel.reset heapMem ram) ops).1 := by
  obtain ⟨M, hrun, ht⟩ := (tracks_reset heapMem ram).run ops
  exact ⟨M, hrun, ht.invalid, ht.card_le, fun h _ _ => ht.get h.isLt,
    fun h hmem => kObjFree_of_notMem ht h.isLt hmem⟩

end Crest
