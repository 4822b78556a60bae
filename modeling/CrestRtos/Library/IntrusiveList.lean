import Mathlib.Data.List.Nodup
import Mathlib.Logic.Function.Basic
import Mathlib.Tactic.Lemma

/-!
# Singly linked lists threaded through a `next` field

The nodes carry their own link: `next a` is the node after `a`, or `none`. A
list is known only by its head pointer, and one `next` map may hold several
lists at once. `Seg next h l t` says that following the links from `h` visits
exactly `l` and then arrives at `t`. Loops over such a list take an explicit
bound; each lemma says how large a bound makes the loop run to its end.
-/

namespace IntrusiveList

universe u
variable {α : Type u} {next next' : α → Option α}

def Seg (next : α → Option α) : Option α → List α → Option α → Prop
  | h, [], t => h = t
  | h, a :: l, t => h = some a ∧ Seg next (next a) l t

/-- A complete list: the last link is null. -/
def Linked (next : α → Option α) (h : Option α) (l : List α) : Prop := Seg next h l none

@[simp] theorem linked_nil {h : Option α} : Linked next h [] ↔ h = none := Iff.rfl

@[simp] theorem linked_cons {h : Option α} {a : α} {l : List α} :
    Linked next h (a :: l) ↔ h = some a ∧ Linked next (next a) l := Iff.rfl

theorem seg_append {h t : Option α} {l r : List α} :
    Seg next h (l ++ r) t ↔ ∃ m, Seg next h l m ∧ Seg next m r t := by
  induction l generalizing h with
  | nil => simp [Seg]
  | cons a l ih => simp only [List.cons_append, Seg, ih, exists_and_left, and_assoc]

theorem seg_congr {h t : Option α} {l : List α} (same : ∀ a ∈ l, next a = next' a) :
    Seg next h l t ↔ Seg next' h l t := by
  induction l generalizing h with
  | nil => rfl
  | cons a l ih =>
    simp only [Seg, same a List.mem_cons_self,
      ih (fun b hb => same b (List.mem_cons_of_mem a hb))]

theorem linked_congr {h : Option α} {l : List α} (same : ∀ a ∈ l, next a = next' a) :
    Linked next h l ↔ Linked next' h l := seg_congr same

theorem linked_none_iff {l : List α} : Linked next none l ↔ l = [] := by
  cases l with
  | nil => simp
  | cons a l => simp

theorem linked_some_iff {a : α} {l : List α} :
    Linked next (some a) l ↔ ∃ r, l = a :: r ∧ Linked next (next a) r := by
  cases l with
  | nil => simp
  | cons b l =>
    constructor
    · rintro ⟨hb, hl⟩
      obtain rfl := Option.some.inj hb
      exact ⟨l, rfl, hl⟩
    · rintro ⟨r, hr, hl⟩
      obtain ⟨rfl, rfl⟩ := List.cons.inj hr
      exact ⟨rfl, hl⟩

/-- The head pointer determines the list. -/
theorem linked_unique {h : Option α} {l r : List α} (hl : Linked next h l)
    (hr : Linked next h r) : l = r := by
  induction l generalizing h r with
  | nil => rw [linked_nil] at hl; subst hl; exact (linked_none_iff.mp hr).symm
  | cons a l ih =>
    obtain ⟨rfl, hl'⟩ := linked_cons.mp hl
    obtain ⟨r, rfl, hr'⟩ := linked_some_iff.mp hr
    rw [ih hl' hr']

/-- A list begins with each segment that begins where it does. -/
theorem linked_after {h m : Option α} {l r : List α} (hr : Linked next h r)
    (hl : Seg next h l m) : ∃ t, Linked next m t := by
  induction l generalizing h r with
  | nil => exact ⟨r, hl ▸ hr⟩
  | cons a l ih =>
    obtain ⟨rfl, hrest⟩ := hl
    obtain ⟨r, rfl, hr'⟩ := linked_some_iff.mp hr
    exact ih hr' hrest

/-- A node that is its own successor is in no finite list. -/
theorem not_linked_of_self {a : α} {l : List α} (ha : next a = some a) :
    ¬ Linked next (some a) l := by
  intro hl
  obtain ⟨r, rfl, hr⟩ := linked_some_iff.mp hl
  have hlen := congrArg List.length (linked_unique hl (ha ▸ hr))
  simp at hlen

/-- A finite linked list never visits a node twice: a second visit would make a proper suffix
equal to the whole list. -/
theorem linked_nodup {h : Option α} {l : List α} (hl : Linked next h l) : l.Nodup := by
  induction l generalizing h with
  | nil => exact List.nodup_nil
  | cons a l ih =>
    obtain ⟨rfl, hrest⟩ := linked_cons.mp hl
    refine List.nodup_cons.mpr ⟨fun hmem => ?_, ih hrest⟩
    obtain ⟨s, t, rfl⟩ := List.append_of_mem hmem
    obtain ⟨m, _, hm⟩ := seg_append.mp hrest
    obtain ⟨rfl, ht⟩ := linked_cons.mp hm
    have hlen := congrArg List.length (linked_unique hrest ht)
    simp only [List.length_append, List.length_cons] at hlen
    omega

/-- The successor of a node is on its list. -/
theorem linked_next_mem {h : Option α} {l : List α} {a b : α} (hl : Linked next h l) (hmem : a ∈ l)
    (hb : next a = some b) : b ∈ l := by
  induction l generalizing h with
  | nil => cases hmem
  | cons c l ih =>
    obtain ⟨rfl, hrest⟩ := linked_cons.mp hl
    rcases List.mem_cons.mp hmem with rfl | hin
    · rw [hb] at hrest
      obtain ⟨l', rfl, _⟩ := linked_some_iff.mp hrest
      exact List.mem_cons_of_mem _ List.mem_cons_self
    · exact List.mem_cons_of_mem _ (ih hrest hin)

/-- A node that neither the head nor a link points to is on no list. -/
theorem linked_notMem {h : Option α} {l : List α} {a : α} (hl : Linked next h l)
    (hhead : h ≠ some a) (hnext : ∀ b, next b ≠ some a) : a ∉ l := by
  induction l generalizing h with
  | nil => simp
  | cons b l ih =>
    obtain ⟨rfl, hrest⟩ := linked_cons.mp hl
    rw [List.mem_cons, not_or]
    exact ⟨fun heq => hhead (congrArg some heq.symm), ih hrest (hnext b)⟩

/-- Filtering a list leaves the link of a node alone whose successor stays with it. -/
theorem linked_filter_next {h h' : Option α} {l : List α} {p : α → Bool} {a : α}
    (hl : Linked next h l) (hl' : Linked next' h' (l.filter p))
    (hmem : a ∈ l) (ha : p a = true) (hb : ∀ b, next a = some b → p b = true) :
    next' a = next a := by
  induction l generalizing h h' with
  | nil => cases hmem
  | cons c l ih =>
    obtain ⟨rfl, hrest⟩ := linked_cons.mp hl
    rcases List.mem_cons.mp hmem with rfl | hin
    · rw [List.filter_cons_of_pos ha] at hl'
      obtain ⟨_, hrest'⟩ := linked_cons.mp hl'
      cases l with
      | nil => rw [linked_nil.mp hrest, linked_nil.mp hrest']
      | cons b l =>
        obtain ⟨hnext, _⟩ := linked_cons.mp hrest
        rw [List.filter_cons_of_pos (hb b hnext)] at hrest'
        rw [hnext, (linked_cons.mp hrest').1]
    · by_cases hc : p c = true
      · rw [List.filter_cons_of_pos hc] at hl'
        exact ih hrest (linked_cons.mp hl').2 hin
      · rw [List.filter_cons_of_neg hc] at hl'
        exact ih hrest hl' hin

section Update
variable [DecidableEq α]

/-- Writing the link of a node outside the list does not disturb it. -/
theorem linked_update_of_notMem {h v : Option α} {l : List α} {a : α} (ha : a ∉ l) :
    Linked (Function.update next a v) h l ↔ Linked next h l := by
  refine linked_congr fun b hb => ?_
  have hne : b ≠ a := fun heq => ha (heq ▸ hb)
  exact Function.update_of_ne hne v next

theorem linked_push_front {h : Option α} {l : List α} {a : α} (ha : a ∉ l)
    (hl : Linked next h l) : Linked (Function.update next a h) (some a) (a :: l) := by
  rw [linked_cons, Function.update_self, linked_update_of_notMem ha]
  exact ⟨rfl, hl⟩

/-- A list with one of its links cleared still ends. -/
theorem linked_cut {h : Option α} {l : List α} (a : α) (hl : Linked next h l) :
    ∃ r, Linked (Function.update next a none) h r := by
  induction l generalizing h with
  | nil => exact ⟨[], hl⟩
  | cons b l ih =>
    obtain ⟨rfl, hrest⟩ := linked_cons.mp hl
    by_cases hb : b = a
    · subst hb
      exact ⟨[b], rfl, Function.update_self _ _ _⟩
    · obtain ⟨r, hr⟩ := ih hrest
      refine ⟨b :: r, rfl, ?_⟩
      rw [Function.update_of_ne hb]
      exact hr

/-- The null-terminated end of a list, followed from a given node. -/
def lastFrom (next : α → Option α) : Nat → α → α
  | 0, a => a
  | n + 1, a => match next a with
    | none => a
    | some b => lastFrom next n b

omit [DecidableEq α] in
theorem lastFrom_eq {a : α} {l : List α} (n : Nat) (hl : Linked next (next a) l)
    (enough : l.length ≤ n) :
    lastFrom next n a = (a :: l).getLast (List.cons_ne_nil a l) := by
  induction l generalizing a n with
  | nil =>
    rw [linked_nil] at hl
    cases n with
    | zero => rfl
    | succ n => simp [lastFrom, hl]
  | cons b l ih =>
    obtain ⟨hb, hl⟩ := linked_cons.mp hl
    cases n with
    | zero => simp at enough
    | succ n =>
      simp only [lastFrom, hb]
      rw [ih n hl (by simpa using enough), List.getLast_cons (List.cons_ne_nil b l)]

/-- Linking a fresh node behind the last one. -/
theorem linked_push_back {h : Option α} {l : List α} {a b : α} (hb : b ∉ a :: l)
    (hl : Linked next h (a :: l)) (hnull : next b = none) :
    Linked (Function.update next ((a :: l).getLast (List.cons_ne_nil a l)) (some b)) h
      (a :: l ++ [b]) := by
  induction l generalizing a h with
  | nil =>
    obtain ⟨rfl, _⟩ := linked_cons.mp hl
    have hne : b ≠ a := by simpa using hb
    simp [hne, hnull]
  | cons c l ih =>
    obtain ⟨rfl, hl'⟩ := linked_cons.mp hl
    have hlast : (a :: c :: l).getLast (List.cons_ne_nil a _) =
        (c :: l).getLast (List.cons_ne_nil c l) := List.getLast_cons (List.cons_ne_nil c l)
    have hne : a ≠ (c :: l).getLast (List.cons_ne_nil c l) := by
      rintro heq
      have hnd := linked_nodup hl
      exact (List.nodup_cons.mp hnd).1 (heq ▸ List.getLast_mem (List.cons_ne_nil c l))
    rw [List.cons_append, linked_cons, hlast, Function.update_of_ne hne]
    exact ⟨rfl, ih (fun hm => hb (List.mem_cons_of_mem a hm)) hl'⟩

/-- The two-pointer walk that looks for `t`: the cursor and its predecessor. -/
def searchFrom (next : α → Option α) (t : α) : Nat → Option α → Option α → Option α × Option α
  | 0, cur, prev => (cur, prev)
  | n + 1, cur, prev => match cur with
    | none => (none, prev)
    | some c => if c = t then (some c, prev) else searchFrom next t n (next c) (some c)

/-- The last node of `l`, or `prev` when `l` is empty. -/
def lastOr (prev : Option α) (l : List α) : Option α := l.getLast?.or prev

omit [DecidableEq α] in
theorem lastOr_cons (prev : Option α) (a : α) (l : List α) :
    lastOr prev (a :: l) = lastOr (some a) l := by
  cases l with
  | nil => rfl
  | cons b l =>
    have hlast : (b :: l).getLast? ≠ none := by simp
    obtain ⟨c, hc⟩ := Option.ne_none_iff_exists'.mp hlast
    simp only [lastOr, List.getLast?_cons_cons, hc, Option.some_or]

theorem searchFrom_found {h : Option α} {l r : List α} {t : α} (n : Nat) (prev : Option α)
    (hl : Linked next h (l ++ t :: r)) (enough : l.length < n) :
    searchFrom next t n h prev = (some t, lastOr prev l) := by
  induction l generalizing h n prev with
  | nil =>
    obtain ⟨rfl, _⟩ := linked_cons.mp hl
    cases n with
    | zero => simp at enough
    | succ n => simp [searchFrom, lastOr]
  | cons a l ih =>
    have hnd := linked_nodup hl
    have hne : a ≠ t := by
      rintro rfl
      exact (List.nodup_cons.mp hnd).1 (List.mem_append_right l List.mem_cons_self)
    obtain ⟨rfl, hrest⟩ := linked_cons.mp hl
    cases n with
    | zero => simp at enough
    | succ n =>
      simp only [searchFrom, if_neg hne]
      rw [ih n (some a) hrest (by simpa using enough)]
      rw [lastOr_cons]

theorem searchFrom_missing {h : Option α} {l : List α} {t : α} (n : Nat) (prev : Option α)
    (hl : Linked next h l) (ht : t ∉ l) (enough : l.length ≤ n) :
    (searchFrom next t n h prev).1 = none := by
  induction l generalizing h n prev with
  | nil =>
    rw [linked_nil] at hl
    subst hl
    cases n <;> rfl
  | cons a l ih =>
    obtain ⟨rfl, hrest⟩ := linked_cons.mp hl
    have hne : a ≠ t := fun heq => ht (heq ▸ List.mem_cons_self)
    cases n with
    | zero => simp at enough
    | succ n =>
      simp only [searchFrom, if_neg hne]
      exact ih n (some a) hrest (fun hmem => ht (List.mem_cons_of_mem a hmem))
        (by simpa using enough)

/-- Removing a node: its predecessor, or the head pointer, takes over its link. -/
theorem linked_splice {h : Option α} {l r : List α} {t : α}
    (hl : Linked next h (l ++ t :: r)) :
    (match l.getLast? with
      | some p => Linked (Function.update (Function.update next p (next t)) t none) h (l ++ r)
      | none => Linked (Function.update next t none) (next t) (l ++ r)) := by
  have hnd := linked_nodup hl
  induction l generalizing h with
  | nil =>
    obtain ⟨_, hr⟩ := linked_cons.mp hl
    have htr : t ∉ r := (List.nodup_cons.mp hnd).1
    simpa [linked_update_of_notMem htr] using hr
  | cons a l ih =>
    obtain ⟨rfl, hl'⟩ := linked_cons.mp hl
    have hnd' := (List.nodup_cons.mp hnd).2
    have hat : a ≠ t := by
      rintro rfl
      exact (List.nodup_cons.mp hnd).1 (List.mem_append_right l List.mem_cons_self)
    have htl := ih hl' hnd'
    cases l with
    | nil =>
      obtain ⟨hh, hr⟩ := linked_cons.mp hl'
      have htr : t ∉ r := (List.nodup_cons.mp hnd').1
      have har : a ∉ r := fun hm => (List.nodup_cons.mp hnd).1 (List.mem_cons_of_mem t hm)
      simp only [List.getLast?_singleton, List.cons_append, List.nil_append, linked_cons,
        Function.update_of_ne hat, Function.update_self, true_and]
      rwa [linked_update_of_notMem htr, linked_update_of_notMem har]
    | cons b l =>
      have hlast : (a :: b :: l).getLast? = (b :: l).getLast? := by simp [List.getLast?_cons]
      rw [hlast]
      cases hp : (b :: l).getLast? with
      | none => simp at hp
      | some p =>
        rw [hp] at htl
        have hpm : p ∈ b :: l := List.mem_of_getLast? hp
        have hap : a ≠ p := by
          rintro rfl
          exact (List.nodup_cons.mp hnd).1 (List.mem_append_left _ hpm)
        simp only [List.cons_append, linked_cons, Function.update_of_ne hat,
          Function.update_of_ne hap, true_and] at htl ⊢
        exact htl

end Update

end IntrusiveList
