import CrestRtos.Library.IntrusiveList

/-!
# A linked list read as a ring

Behind the last node comes the head again. `Ring next head start order` says
that `order` is the ring from `start` on: the part of the list that begins with
`start`, and then the part in front of it. A search that goes round the ring and
continues behind its last find gives every node its turn, because the order of
two nodes survives everything but the selection of one of them.
-/

namespace IntrusiveList

universe u
variable {α : Type u} {next : α → Option α} {head start : α} {order : List α}

/-- The node behind `a` on the ring. -/
def ringNext (next : α → Option α) (head a : α) : α := (next a).getD head

def Ring (next : α → Option α) (head start : α) (order : List α) : Prop :=
  ∃ front back, Linked next (some head) (front ++ start :: back) ∧ order = start :: back ++ front

theorem ring_of_linked {l : List α} (hl : Linked next (some head) l) (hstart : start ∈ l) :
    ∃ order, Ring next head start order ∧ order.Perm l := by
  obtain ⟨front, back, rfl⟩ := List.append_of_mem hstart
  exact ⟨start :: back ++ front, ⟨front, back, hl, rfl⟩, List.perm_append_comm⟩

theorem Ring.perm {l : List α} (h : Ring next head start order) (hl : Linked next (some head) l) :
    order.Perm l := by
  obtain ⟨front, back, hlist, rfl⟩ := h
  rw [linked_unique hl hlist]
  exact List.perm_append_comm

theorem Ring.nodup (h : Ring next head start order) : order.Nodup := by
  obtain ⟨front, back, hl, rfl⟩ := h
  exact List.perm_append_comm.nodup_iff.mp (linked_nodup hl)

theorem Ring.cons (h : Ring next head start order) : ∃ rest, order = start :: rest := by
  obtain ⟨front, back, _, rfl⟩ := h
  exact ⟨back ++ front, rfl⟩

/-- One node further: the first node of the order goes to its end. -/
theorem Ring.advance {a : α} {rest : List α} (h : Ring next head start (a :: rest)) :
    Ring next head (ringNext next head a) (rest ++ [a]) := by
  obtain ⟨front, back, hl, heq⟩ := h
  rw [List.cons_append, List.cons.injEq] at heq
  obtain ⟨rfl, rfl⟩ := heq
  obtain ⟨m, hfront, hm⟩ := seg_append.mp hl
  have hrest := (linked_cons.mp hm).2
  cases back with
  | cons b bs =>
    have hb : ringNext next head a = b := by
      rw [ringNext, (linked_cons.mp hrest).1, Option.getD_some]
    rw [hb]
    exact ⟨front ++ [a], bs, by simpa using hl, by simp⟩
  | nil =>
    have hback : ringNext next head a = head := by
      rw [ringNext, linked_nil.mp hrest, Option.getD_none]
    rw [hback]
    cases front with
    | nil =>
      obtain rfl : head = a := Option.some.inj (linked_cons.mp hl).1
      exact ⟨[], [], hl, rfl⟩
    | cons f fs =>
      obtain rfl : head = f := Option.some.inj hfront.1
      exact ⟨[], fs ++ [a], hl, by simp⟩

/-- Behind `a`: everything up to `a` goes to the end of the order. -/
theorem Ring.turn {a : α} {pre post : List α} (h : Ring next head start (pre ++ a :: post)) :
    Ring next head (ringNext next head a) (post ++ pre ++ [a]) := by
  induction pre generalizing start post with
  | nil => simpa using h.advance
  | cons p pre ih =>
    have hstep : Ring next head (ringNext next head p) (pre ++ a :: (post ++ [p])) := by
      simpa using h.advance
    simpa using ih hstep

/-- The node behind `a` on the ring is the one behind it in the order. -/
theorem Ring.next_eq {a b : α} {pre post : List α}
    (h : Ring next head start (pre ++ a :: b :: post)) : ringNext next head a = b := by
  obtain ⟨rest, hrest⟩ := h.turn.cons
  rw [List.cons_append, List.cons_append, List.cons.injEq] at hrest
  exact hrest.1.symm

theorem Ring.next_last {a : α} {pre : List α} (h : Ring next head start (pre ++ [a])) :
    ringNext next head a = start := by
  obtain ⟨rest, hrest⟩ := h.turn.cons
  obtain ⟨rest', hrest'⟩ := h.cons
  rw [List.nil_append, hrest', List.cons.injEq] at hrest
  exact hrest.1.symm

/-- A node linked in front of the list comes somewhere into the order. -/
theorem Ring.push_front [DecidableEq α] {n : α} (h : Ring next head start order)
    (hn : n ∉ order) :
    ∃ order', Ring (Function.update next n (some head)) n start order' ∧
      order.Sublist order' := by
  obtain ⟨front, back, hl, rfl⟩ := h
  have hmem : n ∉ front ++ start :: back := fun hmem => hn (List.perm_append_comm.mem_iff.mp hmem)
  exact ⟨start :: back ++ n :: front, ⟨n :: front, back, linked_push_front hmem hl, rfl⟩,
    (List.Sublist.refl _).append (List.sublist_cons_self n front)⟩

theorem Ring.congr {next' : α → Option α} (h : Ring next head start order)
    (same : ∀ a ∈ order, next a = next' a) : Ring next' head start order := by
  obtain ⟨front, back, hl, rfl⟩ := h
  refine ⟨front, back, (linked_congr fun a ha => same a ?_).mp hl, rfl⟩
  exact List.perm_append_comm.mem_iff.mp ha

theorem Ring.unique {order' : List α} (h : Ring next head start order)
    (h' : Ring next head start order') : order = order' := by
  obtain ⟨front, back, hl, rfl⟩ := h
  obtain ⟨front', back', hl', rfl⟩ := h'
  have hnd := linked_nodup hl
  rw [List.nodup_append] at hnd
  have heq := linked_unique hl hl'
  rw [List.append_cons_inj_of_notMem
    (fun hmem => hnd.2.2 start hmem start List.mem_cons_self rfl)
    (List.nodup_cons.mp hnd.2.1).1] at heq
  obtain ⟨rfl, _, rfl⟩ := heq
  rfl

section Search
variable {t x u : α}

/-- Another node that would have been found comes behind the first find. -/
theorem mem_post_of_find {p : α → Prop} {pre post : List α} (hpre : ∀ a ∈ pre, ¬ p a)
    (ht : t ∈ pre ++ u :: post) (hp : p t) (hne : u ≠ t) : t ∈ post := by
  rcases List.mem_append.mp ht with hmem | hmem
  · exact absurd hp (hpre t hmem)
  · exact (List.mem_cons.mp hmem).resolve_left hne.symm

/-- A pair whose first member is behind the find is there as a whole. -/
theorem pair_post {pre post : List α} (hnd : (pre ++ u :: post).Nodup)
    (hpair : [t, x].Sublist (pre ++ u :: post)) (ht : t ∈ post) : [t, x].Sublist post := by
  rw [List.append_cons, List.nodup_append] at hnd
  have hsplit := hpair
  rw [List.append_cons, List.sublist_append_iff] at hsplit
  obtain ⟨l, r, heq, hl, hr⟩ := hsplit
  cases l with
  | nil => rwa [heq]
  | cons a l =>
    rw [List.cons_append, List.cons.injEq] at heq
    obtain ⟨rfl, _⟩ := heq
    exact absurd rfl (hnd.2.2 t (hl.subset List.mem_cons_self) t ht)

end Search

end IntrusiveList
