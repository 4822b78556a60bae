import CrestRtos.Properties.Handles
import Mathlib.Data.Nat.ModEq
import Mathlib.Logic.Function.Iterate

/-!
# When a freed handle answers again

A slot takes a new generation when it is allocated and another one when it is freed.
There are 65535 generations, an odd number, so two steps at a time it takes 65535
allocations until a slot answers to an old handle again, and never fewer.
-/

namespace Crest

/-- `k_obj_get` finds an object of some type. -/
def Kernel.Resolves (k : Kernel) (h : Nat) : Prop := ∃ type ptr, kObjGet k h type = some ptr

/-- The answer hands out a handle of slot `i`. -/
def TableAnswer.takes (i : Nat) : TableAnswer → Bool
  | .handle h => h ≠ kobjInvalid ∧ handleIndex h = i
  | _ => false

/-- How often slot `i` is allocated in the course of `trace`. -/
def slotAllocs (i : Nat) (trace : TableTrace) : Nat := trace.countP fun e => e.2.takes i

/-- What one call can do to the entry of slot `i`. -/
inductive SlotChange (i : Nat) (e : KobjEntry) (answer : TableAnswer) : KobjEntry → Prop
  | same (ha : answer.takes i = false) : SlotChange i e answer e
  | filled (ptr : Nat) (type : KobjType) (hfree : e.inUse = false) (hptr : ptr ≠ 0)
      (ha : answer.takes i = true) : SlotChange i e answer ⟨ptr, type, true, nextGen e.gen⟩
  | cleared (huse : e.inUse = true) (ha : answer.takes i = false) :
      SlotChange i e answer ⟨0, .queue, false, nextGen e.gen⟩

/-- An entry as the calls leave it: in use it has a pointer and a generation. -/
def KobjEntry.Valid (e : KobjEntry) : Prop :=
  e.inUse = true → e.ptr ≠ 0 ∧ 1 ≤ e.gen ∧ e.gen < 2 ^ 16

/-- `m` allocations after the slot was freed with generation `g`. -/
structure Since (g m : Nat) (e : KobjEntry) : Prop where
  gen : e.gen = nextGen^[if e.inUse then 2 * m else 2 * m + 1] g
  used : e.inUse = true → 0 < m

section Generations

theorem nextGen_eq {g : Nat} (hlo : 1 ≤ g) (hhi : g < 2 ^ 16) : nextGen g = g % 65535 + 1 := by
  simp only [nextGen]
  split <;> omega

theorem nextGen_pos (g : Nat) : 1 ≤ nextGen g := by
  simp only [nextGen]
  split <;> omega

/-- The generations form one cycle. -/
theorem nextGen_iterate {g : Nat} (hlo : 1 ≤ g) (hhi : g < 2 ^ 16) (n : Nat) :
    nextGen^[n] g = (g - 1 + n) % 65535 + 1 := by
  induction n with
  | zero =>
    have hzero : nextGen^[0] g = g := rfl
    rw [hzero]
    omega
  | succ n ih =>
    have hstep : nextGen^[n + 1] g = nextGen (nextGen^[n] g) :=
      Function.iterate_succ_apply' nextGen n g
    have hmod := Nat.mod_lt (g - 1 + n) (show 0 < 65535 by decide)
    rw [hstep, ih, nextGen_eq (by omega) (by omega)]
    omega

theorem nextGen_iterate_eq_iff {g : Nat} (hlo : 1 ≤ g) (hhi : g < 2 ^ 16) (m : Nat) :
    nextGen^[2 * m] g = g ↔ 65535 ∣ m := by
  have hodd : Nat.Coprime 65535 2 := by decide
  have hsmall : (g - 1) % 65535 = g - 1 := Nat.mod_eq_of_lt (by omega)
  have hback : (g - 1 + 2 * m) % 65535 + 1 = g ↔ g - 1 + 2 * m ≡ g - 1 [MOD 65535] := by
    rw [Nat.ModEq, hsmall]
    generalize (g - 1 + 2 * m) % 65535 = r
    omega
  rw [nextGen_iterate hlo hhi, hback, Nat.add_modEq_left_iff, hodd.dvd_mul_left]

end Generations

section Slots
variable {k : Kernel} {i : Nat}

theorem takes_packHandle (gen : Nat) {j : Nat} (hj : j < kobjMax) :
    (TableAnswer.handle (packHandle gen j)).takes i = decide (j = i) := by
  simp [TableAnswer.takes, packHandle_valid hj, handleIndex_packHandle (hj.trans (by decide))]

theorem kObjAlloc_slot (k : Kernel) (ptr : Nat) (type : KobjType) (i : Nat) :
    SlotChange i (k.table i) (.handle (kObjAlloc k ptr type).2)
      ((kObjAlloc k ptr type).1.table i) := by
  have hinvalid : (TableAnswer.handle kobjInvalid).takes i = false := by simp [TableAnswer.takes]
  rw [kObjAlloc]
  by_cases hptr : ptr = 0
  · rw [if_pos hptr]
    exact .same hinvalid
  rw [if_neg hptr]
  cases hfind : (List.range kobjMax).find? (fun j => !(k.table j).inUse) with
  | none => exact .same hinvalid
  | some j =>
    have hj := List.mem_range.mp (List.mem_of_find?_eq_some hfind)
    have hfree : (k.table j).inUse = false := by simpa using List.find?_some hfind
    simp only
    by_cases hij : i = j
    · subst hij
      rw [Function.update_self]
      exact .filled ptr type hfree hptr (by simp [takes_packHandle _ hj])
    · rw [Function.update_of_ne hij]
      exact .same (by simp [takes_packHandle _ hj, Ne.symm hij])

theorem kObjFree_slot (k : Kernel) (h i : Nat) :
    SlotChange i (k.table i) .done ((kObjFree k h).table i) := by
  rw [kObjFree]
  by_cases hinv : h = kobjInvalid
  · rw [if_pos hinv]
    exact .same rfl
  rw [if_neg hinv]
  by_cases hidx : kobjMax ≤ handleIndex h
  · simp only [if_pos hidx]
    exact .same rfl
  simp only [if_neg hidx]
  split
  · rename_i hmatch
    simp only
    by_cases hi : i = handleIndex h
    · subst hi
      rw [Function.update_self]
      exact .cleared hmatch.1 rfl
    · rw [Function.update_of_ne hi]
      exact .same rfl
  · exact .same rfl

theorem TableOp.perform_slot (k : Kernel) (op : TableOp) (i : Nat) :
    SlotChange i (k.table i) (op.perform k).2 ((op.perform k).1.table i) := by
  cases op with
  | alloc ptr type => exact kObjAlloc_slot k ptr type i
  | get h type => exact .same rfl
  | free h => exact kObjFree_slot k h i

theorem SlotChange.valid {e e' : KobjEntry} {a : TableAnswer} (hc : SlotChange i e a e')
    (he : e.Valid) : e'.Valid := by
  cases hc with
  | same => exact he
  | filled ptr type _ hptr _ => exact fun _ => ⟨hptr, nextGen_pos _, nextGen_lt _⟩
  | cleared => exact fun huse => nomatch huse

theorem SlotChange.since {e e' : KobjEntry} {a : TableAnswer} {g m : Nat}
    (hc : SlotChange i e a e') (hs : Since g m e) :
    Since g (m + if a.takes i then 1 else 0) e' := by
  have hgen := hs.gen
  cases hc with
  | same ha => simpa [ha] using hs
  | filled ptr type hfree _ ha =>
    simp only [hfree, Bool.false_eq_true, if_false] at hgen
    refine ⟨?_, fun _ => by simp [ha]⟩
    simp only [ha, if_true, hgen, ← Function.iterate_succ_apply']
    rfl
  | cleared huse ha =>
    simp only [huse, if_true] at hgen
    refine ⟨?_, fun h => nomatch h⟩
    simp only [ha, Bool.false_eq_true, if_false, Nat.add_zero, hgen, ← Function.iterate_succ_apply']

theorem tableRun_valid (ops : List TableOp) (hk : (k.table i).Valid) :
    ((tableRun k ops).1.table i).Valid := by
  induction ops generalizing k with
  | nil => exact hk
  | cons op ops ih => exact ih ((op.perform_slot k i).valid hk)

theorem slotAllocs_cons (k : Kernel) (op : TableOp) (ops : List TableOp) (i : Nat) :
    slotAllocs i (tableRun k (op :: ops)).2 =
      (if (op.perform k).2.takes i then 1 else 0) +
        slotAllocs i (tableRun (op.perform k).1 ops).2 := by
  rw [tableRun, slotAllocs, List.countP_cons, Nat.add_comm]
  rfl

/-- Each allocation of the slot counts, whatever else is called. -/
theorem tableRun_since {g m : Nat} (ops : List TableOp) (hs : Since g m (k.table i)) :
    Since g (m + slotAllocs i (tableRun k ops).2) ((tableRun k ops).1.table i) := by
  induction ops generalizing k m with
  | nil => exact hs
  | cons op ops ih =>
    have hrest := ih ((op.perform_slot k i).since hs)
    rw [slotAllocs_cons, ← Nat.add_assoc]
    exact hrest

/-- A handle resolves when its slot is in use with its generation. -/
theorem resolves_iff {h : Nat} (hvalid : (k.table (handleIndex h)).Valid) :
    k.Resolves h ↔ handleIndex h < kobjMax ∧ (k.table (handleIndex h)).inUse = true ∧
      (k.table (handleIndex h)).gen = handleGen h := by
  constructor
  · rintro ⟨type, ptr, hget⟩
    obtain ⟨hidx, huse, hgen, _⟩ := kObjGet_checks hget
    exact ⟨hidx, huse, hgen⟩
  · rintro ⟨hidx, huse, hgen⟩
    have hinv : h ≠ kobjInvalid := by
      rintro rfl
      exact absurd hidx (by decide)
    refine ⟨(k.table (handleIndex h)).type, (k.table (handleIndex h)).ptr, ?_⟩
    simp only [kObjGet, if_neg hinv, if_neg (Nat.not_le.mpr hidx), huse, hgen,
      if_neg (hvalid huse).1, ne_eq, not_true_eq_false, if_false, Bool.true_eq_false]

/-- What `k_obj_free` makes of the slot of a handle that resolves. -/
theorem since_free {h : Nat} (hr : k.Resolves h) :
    Since (handleGen h) 0 ((kObjFree k h).table (handleIndex h)) := by
  obtain ⟨type, ptr, hget⟩ := hr
  obtain ⟨hidx, huse, hgen, _⟩ := kObjGet_checks hget
  have hinv : h ≠ kobjInvalid := by
    rintro rfl
    exact absurd hidx (by decide)
  have hfree : (kObjFree k h).table (handleIndex h) = 
      ⟨0, .queue, false, nextGen (handleGen h)⟩ := by
    simp [kObjFree, hinv, Nat.not_le.mpr hidx, huse, hgen]
  rw [hfree]
  exact ⟨rfl, fun hfalse => absurd hfalse Bool.false_ne_true⟩

end Slots

/-- A handle that was good when it was freed is good again exactly while its slot is in
use by an allocation whose number is a multiple of 65535. -/
theorem stale_handle_window (heapMem ram : ByteMemory.Memory) (before after : List TableOp)
    (h : HandleWord) (hlive : (tableRun (Kernel.reset heapMem ram) before).1.Resolves h) :
    let k := (TableOp.free h).perform (tableRun (Kernel.reset heapMem ram) before).1
    let m := slotAllocs (handleIndex h) (tableRun k.1 after).2
    ((tableRun k.1 after).1.Resolves h ↔
      ((tableRun k.1 after).1.table (handleIndex h)).inUse = true ∧ 0 < m ∧ 65535 ∣ m) ∧
    (m ≤ 65534 → ¬ (tableRun k.1 after).1.Resolves h) := by
  intro k m
  have hreset : ((Kernel.reset heapMem ram).table (handleIndex h)).Valid := fun huse => nomatch huse
  have hbefore := tableRun_valid before hreset
  obtain ⟨hidx, huse, hgen⟩ := (resolves_iff hbefore).mp hlive
  obtain ⟨_, hlo, hhi⟩ := hbefore huse
  rw [hgen] at hlo hhi
  have hsince : Since (handleGen h) m ((tableRun k.1 after).1.table (handleIndex h)) :=
    Nat.zero_add m ▸ tableRun_since after (since_free hlive)
  have hafter : ((tableRun k.1 after).1.table (handleIndex h)).Valid :=
    tableRun_valid after ((kObjFree_slot _ h.val (handleIndex h)).valid hbefore)
  have hiff : (tableRun k.1 after).1.Resolves h ↔
      ((tableRun k.1 after).1.table (handleIndex h)).inUse = true ∧ 0 < m ∧ 65535 ∣ m := by
    rw [resolves_iff hafter]
    constructor
    · rintro ⟨_, huse', hgen'⟩
      have hcycle := hsince.gen
      rw [if_pos huse', hgen'] at hcycle
      exact ⟨huse', hsince.used huse', (nextGen_iterate_eq_iff hlo hhi _).mp hcycle.symm⟩
    · rintro ⟨huse', _, hdvd⟩
      have hcycle := hsince.gen
      rw [if_pos huse'] at hcycle
      exact ⟨hidx, huse', hcycle.trans ((nextGen_iterate_eq_iff hlo hhi _).mpr hdvd)⟩
  refine ⟨hiff, fun hfew hr => ?_⟩
  obtain ⟨_, hpos, hdvd⟩ := hiff.mp hr
  have hle := Nat.le_of_dvd hpos hdvd
  omega

section Reuse
variable {k : Kernel}

/-- Slot 0, free with generation `g`, is allocated and freed `n` times and allocated once more. -/
def reuse : Nat → Nat → List TableOp
  | _, 0 => [.alloc 0x20004410 .sem]
  | g, n + 1 => .alloc 0x20004410 .sem ::
      .free ⟨packHandle (nextGen g) 0, packHandle_lt (nextGen_lt g) (by decide)⟩ ::
      reuse (nextGen (nextGen g)) n

theorem kObjAlloc_first {ptr : Nat} (type : KobjType) (hptr : ptr ≠ 0)
    (hfree : (k.table 0).inUse = false) : kObjAlloc k ptr type =
      ({ k with table := Function.update k.table 0 ⟨ptr, type, true, nextGen (k.table 0).gen⟩ },
        packHandle (nextGen (k.table 0).gen) 0) := by
  have hfind : (List.range kobjMax).find? (fun i => !(k.table i).inUse) = some 0 := by
    simp [kobjMax, List.range_succ_eq_map, hfree]
  rw [kObjAlloc, if_neg hptr, hfind]

theorem reuse_takes {g : Nat} (n : Nat) (hfree : (k.table 0).inUse = false)
    (hgen : (k.table 0).gen = g) : ((tableRun k (reuse g n)).1.table 0).inUse = true ∧
      slotAllocs 0 (tableRun k (reuse g n)).2 = n + 1 := by
  induction n generalizing k g with
  | zero =>
    have htakes := takes_packHandle (i := 0) (nextGen g) (show 0 < kobjMax by decide)
    have halloc := kObjAlloc_first .sem (show 0x20004410 ≠ 0 by decide) hfree
    simp [reuse, tableRun, TableOp.perform, halloc, slotAllocs, hgen, htakes]
  | succ n ih =>
    have htakes := takes_packHandle (i := 0) (nextGen g) (show 0 < kobjMax by decide)
    have halloc := kObjAlloc_first .sem (show 0x20004410 ≠ 0 by decide) hfree
    rw [hgen] at halloc
    have hslot : (kObjFree (kObjAlloc k 0x20004410 .sem).1 (packHandle (nextGen g) 0)).table 0 =
        ⟨0, .queue, false, nextGen (nextGen g)⟩ := by
      have hidx : handleIndex (packHandle (nextGen g) 0) = 0 := handleIndex_packHandle (by decide)
      have hback : handleGen (packHandle (nextGen g) 0) = nextGen g :=
        handleGen_packHandle (nextGen_lt g) (by decide)
      have hvalid : packHandle (nextGen g) 0 ≠ kobjInvalid := packHandle_valid (by decide)
      simp [kObjFree, halloc, hidx, hback, hvalid, kobjMax]
    obtain ⟨huse, hcount⟩ := ih (congrArg KobjEntry.inUse hslot) (congrArg KobjEntry.gen hslot)
    refine ⟨huse, ?_⟩
    rw [reuse, slotAllocs_cons, slotAllocs_cons]
    have hone : ((TableOp.alloc 0x20004410 .sem).perform k).2.takes 0 = true := by
      simp [TableOp.perform, halloc, htakes]
    have hnone : ∀ (k : Kernel) (h : HandleWord),
      ((TableOp.free h).perform k).2.takes 0 = false := fun _ _ => rfl
    rw [hone, hnone]
    simp only [if_true, Bool.false_eq_true, if_false, Nat.zero_add]
    exact (congrArg (1 + ·) hcount).trans (Nat.add_comm _ _)

end Reuse

/-- The first handle of slot 0, freed: it is stale while the slot is used three times more,
and good again after 65535 times. -/
theorem stale_handle_window_third :
    let k := ((TableOp.free 0x10000).perform
      (tableRun (Kernel.reset (fun _ => 0) fun _ => 0) [.alloc 0x20004410 .sem]).1).1
    ¬ (tableRun k (reuse 2 2)).1.Resolves 0x10000 ∧
      (tableRun k (reuse 2 65534)).1.Resolves 0x10000 := by
  intro k
  have hwindow := fun n => stale_handle_window (fun _ => 0) (fun _ => 0)
    [.alloc 0x20004410 .sem] (reuse 2 n) 0x10000 ⟨.sem, 0x20004410, rfl⟩
  have htakes : ∀ n, ((tableRun k (reuse 2 n)).1.table 0).inUse = true ∧
      slotAllocs 0 (tableRun k (reuse 2 n)).2 = n + 1 := fun n => reuse_takes n rfl rfl
  have hgood : ∀ n, 65535 ∣ n + 1 → (tableRun k (reuse 2 n)).1.Resolves 0x10000 := by
    intro n hdvd
    have hcount : slotAllocs (handleIndex (0x10000 : HandleWord).val)
        (tableRun k (reuse 2 n)).2 = n + 1 := (htakes n).2
    refine (hwindow n).1.mpr ⟨(htakes n).1, ?_⟩
    rw [hcount]
    exact ⟨Nat.succ_pos n, hdvd⟩
  exact ⟨(hwindow 2).2 ((htakes 2).2.trans_le (by decide)), hgood 65534 (by decide)⟩

end Crest
