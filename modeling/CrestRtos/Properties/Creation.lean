import CrestRtos.Heap.Requests
import CrestRtos.System.Paths

/-!
# Failing creation calls

A call that creates an object asks for the object's memory, a queue's also for
its buffer, and then for a slot of the handle table. When one of the requests
for memory fails, the memory got before is given back. When the table is full
it is not: the object stays allocated and nobody knows it.
-/

namespace Crest
open MachineWord BlockList Alloc

/-- `queue_create`, `sem_create` and `mutex_create` without interruption, as
privileged code calls them and as the worker does in `dispatch`. -/
def createObject (L : Layout) (k : Kernel) (c : Creation) : Option (Kernel × Nat) :=
  (c.alloc L k).bind fun (k, p) =>
    if p = 0 then some (k, kobjInvalid)
    else
      match c with
      | .queue _ _ =>
        (queueInitBuffer L k p).bind fun (k, ok) =>
          if ok then some (kObjAlloc k p .queue)
          else (queueFree L k p).map fun k => (k, kobjInvalid)
      | _ => some (kObjAlloc k p c.type)

/-- The size of the buffer, and 0 when the arguments are rejected. -/
def bufferSize (itemSize size : Nat) : Nat :=
  let slots := wrap (size + 1)
  let total := wrap (itemSize * slots)
  if slots ≠ 0 ∧ total / slots ≠ itemSize then 0 else total

/-- The memory a creation asks for, one request after the other. -/
def Creation.requests (c : Creation) : List Nat :=
  if c.rejected then [0]
  else
    match c with
    | .queue itemSize size => [c.bytes, bufferSize itemSize size]
    | _ => [c.bytes]

/-- The blocks of the heap behind the requests, if all of them can be met. -/
def serve (bs : List Block) : List Nat → Option (List Block)
  | [] => some bs
  | n :: ns => (request n bs).bind fun bs => serve bs ns

/-- The second request, for the buffer of a queue. -/
def Creation.serveBuffer (bs : List Block) : Creation → Option (List Block)
  | .queue itemSize size => request (bufferSize itemSize size) bs
  | _ => some bs

theorem serve_requests {c : Creation} (bs : List Block) (h : c.rejected = false) :
    serve bs c.requests = (request c.bytes bs).bind c.serveBuffer := by
  cases c with
  | queue i n =>
    simp only [Creation.requests, h, Bool.false_eq_true, if_false, serve]
    congr 1
    funext bs'
    simp [Creation.serveBuffer]
  | _ => rfl

def Kernel.TableFull (k : Kernel) : Prop := ∀ i, i < kobjMax → (k.table i).inUse = true

/-- No handle means that the table is full, and leaves everything as it is. -/
theorem kObjAlloc_invalid {k k' : Kernel} {p : Nat} {type : KobjType} (hp : p ≠ 0)
    (h : kObjAlloc k p type = (k', kobjInvalid)) : k' = k ∧ k.TableFull := by
  rw [kObjAlloc, if_neg hp] at h
  cases hfind : (List.range kobjMax).find? (fun i => !(k.table i).inUse) with
  | none =>
    rw [hfind] at h
    refine ⟨(Prod.mk.inj h).1.symm, fun i hi => ?_⟩
    have hused := List.find?_eq_none.mp hfind i (List.mem_range.mpr hi)
    simpa using hused
  | some i =>
    rw [hfind] at h
    have hi := List.mem_range.mp (List.mem_of_find?_eq_some hfind)
    exact absurd (Prod.mk.inj h).2 (packHandle_valid hi)

section Atomic
variable {L : Layout} {k k' : Kernel} {c : Creation} {bs : List Block}

/-- The object's own memory. -/
theorem alloc_tiles (hL : L.heap.Placed) (ht : Tiles L.heap k.heap bs) (hrej : c.rejected = false) :
    (request c.bytes bs = none ∧ ∃ heap, c.alloc L k = some ({ k with heap := heap }, 0) ∧
      Tiles L.heap heap bs) ∨
    ∃ bs' heap heap' p, request c.bytes bs = some bs' ∧ p ≠ 0 ∧
      c.alloc L k = some (c.init { k with heap := heap } p, p) ∧ Tiled L.heap heap bs' ∧
      (liveAddrs L.heap.start bs').length = (liveAddrs L.heap.start bs).length + 1 ∧
      coalescingFree L.heap heap p = some heap' ∧ Tiled L.heap heap' bs := by
  rw [Creation.alloc, hrej, if_neg Bool.false_ne_true]
  cases hreq : request c.bytes bs with
  | none =>
    obtain ⟨heap, hrun, ht', _⟩ := ht.malloc_none hL hreq
    refine Or.inl ⟨rfl, heap, ?_, ht'⟩
    rw [Alloc.malloc, hrun]
    rfl
  | some bs' =>
    obtain ⟨heap, p, hp, hrun, ht', hlen, heap', hfree, hback⟩ := ht.malloc_some hL hreq
    refine Or.inr ⟨bs', heap, heap', p, rfl, hp, ?_, ht', hlen, hfree, hback⟩
    rw [Alloc.malloc, hrun]
    simp [hp]

/-- The buffer of a queue whose own memory is `p`. -/
theorem buffer_tiles {i n p : Nat} (hL : L.heap.Placed) (ht : Tiled L.heap k.heap bs)
    (hitem : (k.queue p).itemSize = i) (hslots : (k.queue p).slots = wrap (n + 1)) :
    (request (bufferSize i n) bs = none ∧ ∃ k', queueInitBuffer L k p = some (k', false) ∧
      k'.heap = k.heap ∧ k'.table = k.table) ∨
    ∃ bs' k', request (bufferSize i n) bs = some bs' ∧
      queueInitBuffer L k p = some (k', true) ∧ k'.table = k.table ∧ Tiled L.heap k'.heap bs' ∧
      (liveAddrs L.heap.start bs').length = (liveAddrs L.heap.start bs).length + 1 := by
  subst hitem
  simp only [queueInitBuffer, bufferSize, ← hslots]
  by_cases hover : (k.queue p).slots ≠ 0 ∧
      wrap ((k.queue p).itemSize * (k.queue p).slots) / (k.queue p).slots ≠ (k.queue p).itemSize
  · rw [if_pos hover, if_pos hover]
    exact Or.inl ⟨rfl, k, rfl, rfl, rfl⟩
  · rw [if_neg hover, if_neg hover]
    cases hreq : request (wrap ((k.queue p).itemSize * (k.queue p).slots)) bs with
    | none =>
      obtain ⟨heap, hrun, _, hsame⟩ := ht.tiles.malloc_none hL hreq
      rw [Alloc.malloc, hrun, hsame ht]
      exact Or.inl ⟨rfl, _, rfl, rfl, rfl⟩
    | some bs' =>
      obtain ⟨heap, b, hb, hrun, ht', hlen, _⟩ := ht.tiles.malloc_some hL hreq
      rw [Alloc.malloc, hrun]
      refine Or.inr ⟨bs', { k with heap := heap }.setQueue p { k.queue p with buffer := b }, rfl,
        ?_, rfl, ht', hlen⟩
      simp [hb]

/-- A creation that yields no handle either met a request that the heap could not
serve, and left the blocks alone, or met a full table, and left more blocks live. -/
theorem createObject_invalid (hL : L.heap.Placed) (ht : Tiles L.heap k.heap bs)
    (hrun : createObject L k c = some (k', kobjInvalid)) :
    k'.table = k.table ∧
    ((serve bs c.requests = none ∧ Tiles L.heap k'.heap bs) ∨
      ∃ bs', serve bs c.requests = some bs' ∧ k.TableFull ∧ Tiles L.heap k'.heap bs' ∧
        (liveAddrs L.heap.start bs).length < (liveAddrs L.heap.start bs').length) := by
  rw [createObject] at hrun
  cases hrej : c.rejected with
  | true =>
    simp only [Creation.alloc, hrej, if_true, Option.bind_some, Option.some.injEq,
      Prod.mk.injEq, and_true] at hrun
    subst hrun
    refine ⟨rfl, Or.inl ⟨?_, ht⟩⟩
    cases c <;> simp [Creation.requests, hrej, serve, request]
  | false =>
    rw [serve_requests bs hrej]
    rcases alloc_tiles hL ht hrej with ⟨hreq, heap, halloc, ht'⟩ |
      ⟨bs₁, heap, heap', p, hreq, hp, halloc, ht₁, hlen, hfree, hback⟩
    · rw [halloc] at hrun
      simp only [Option.bind_some, if_true, Option.some.injEq, Prod.mk.injEq, and_true] at hrun
      subst hrun
      exact ⟨rfl, Or.inl ⟨by rw [hreq, Option.bind_none], ht'⟩⟩
    · rw [halloc] at hrun
      simp only [Option.bind_some, if_neg hp] at hrun
      cases c with
      | queue i n =>
        have hslots : ((Creation.init { k with heap := heap } p (.queue i n)).queue p).slots =
            wrap (n + 1) := by
          simp [Creation.init, Kernel.setQueue]
        have hitem : ((Creation.init { k with heap := heap } p (.queue i n)).queue p).itemSize =
            i := by
          simp [Creation.init, Kernel.setQueue]
        rcases buffer_tiles hL (show Tiled L.heap (Creation.init { k with heap := heap } p
            (.queue i n)).heap bs₁ from ht₁) hitem hslots with
          ⟨hbuf, k₂, hinit, hheap, htable⟩ | ⟨bs₂, k₂, hbuf, hinit, htable, ht₂, hlen₂⟩
        · rw [hinit] at hrun
          simp only [Option.bind_some, Bool.false_eq_true, if_false, queueFree, free] at hrun
          rw [show k₂.heap = heap from hheap, hfree] at hrun
          simp only [Option.map_some, Option.some.injEq, Prod.mk.injEq, and_true] at hrun
          subst hrun
          exact ⟨htable, Or.inl ⟨by rw [hreq, Option.bind_some]; exact hbuf, hback.tiles⟩⟩
        · rw [hinit] at hrun
          simp only [Option.bind_some, if_true, Option.some.injEq] at hrun
          obtain ⟨rfl, hfull⟩ := kObjAlloc_invalid hp hrun
          refine ⟨htable, Or.inr ⟨bs₂, by rw [hreq, Option.bind_some]; exact hbuf, fun a ha => ?_,
            ht₂.tiles, by omega⟩⟩
          rw [← hfull a ha, htable]
          rfl
      | sem initial =>
        obtain ⟨rfl, hfull⟩ := kObjAlloc_invalid hp (Option.some.inj hrun)
        exact ⟨rfl, Or.inr ⟨bs₁, by rw [hreq]; rfl, hfull, ht₁.tiles, by omega⟩⟩
      | mutex =>
        obtain ⟨rfl, hfull⟩ := kObjAlloc_invalid hp (Option.some.inj hrun)
        exact ⟨rfl, Or.inr ⟨bs₁, by rw [hreq]; rfl, hfull, ht₁.tiles, by omega⟩⟩

end Atomic

/-- Table and blocks are as before: the same blocks are live, and the free list
links the same free ones. -/
structure Unchanged (L : Layout) (k k' : Kernel) (bs : List Block) : Prop where
  table : k'.table = k.table
  blocks : Tiles L.heap k'.heap bs

/-- A call that yields `KOBJ_INVALID` leaves heap and table as they were if and
only if the table has a free slot or the heap has no room for the object. -/
theorem create_atomic_iff {L : Layout} {s : Sys} {c : Creation} {k' : Kernel} (hL : L.heap.Placed)
    (h : s.Reached L) (hrun : createObject L s.k c = some (k', kobjInvalid)) :
    ∃ bs, Tiles L.heap s.k.heap bs ∧
      (Unchanged L s.k k' bs ↔ ¬ s.k.TableFull ∨ serve bs c.requests = none) := by
  obtain ⟨g, hg⟩ := h.inv hL
  obtain ⟨bs, ht⟩ : ∃ bs, Tiles L.heap s.k.heap bs := by
    rcases hg.objects.heap with ⟨hin, _⟩ | ⟨bs, hbs⟩
    · exact Alloc.Ready.tiles hL (Or.inl hin)
    · exact ⟨bs, hbs.1.tiles⟩
  refine ⟨bs, ht, ?_⟩
  obtain ⟨htable, hcases⟩ := createObject_invalid hL ht hrun
  rcases hcases with ⟨hnone, ht'⟩ | ⟨bs', hserved, hfull, ht', hmore⟩
  · exact ⟨fun _ => Or.inr hnone, fun _ => ⟨htable, ht'⟩⟩
  · constructor
    · intro hsame
      rw [hsame.blocks.unique ht'] at hmore
      exact absurd hmore (Nat.lt_irrefl _)
    · rintro (hnot | hnone)
      · exact absurd hfull hnot
      · rw [hserved] at hnone
        cases hnone

section Steps
variable {L : Layout} {s : Sys} {u : Tid} {c : Creation} {r : Ret} {k' : Kernel} {p v : Nat}

/-- The code of `u` comes to the end of the call with `v` and leaves `k'` behind. -/
def Sys.Ends (L : Layout) (s : Sys) (u : Tid) (r : Ret) (k' : Kernel) (v : Nat) : Prop :=
  ∃ s', Goes L u s s' ∧ s'.k = k' ∧ s'.pc = Function.update s.pc u (r.next v)

theorem ends_finish {n : List Event} (h : s.go L u = some ((⟨k', s.pc, n⟩ : Sys).finish u r v)) :
    s.Ends L u r k' v := by
  refine ⟨_, .step h (.refl _), ?_, ?_⟩
  · rw [finish_eq]
    rfl
  · rw [finish_eq]
    rfl

theorem ends_step {s' : Sys} {q : Pc} (h : s.go L u = some s')
    (hpc : s'.pc = Function.update s.pc u q) (hends : s'.Ends L u r k' v) : s.Ends L u r k' v := by
  obtain ⟨s'', hgoes, hk, hpc'⟩ := hends
  refine ⟨s'', .step h hgoes, hk, ?_⟩
  rw [hpc', hpc, Function.update_idem]

theorem ends_publish {type : KobjType} (hpc : s.pc u = .publish p type r)
    (hrun : kObjAlloc s.k p type = (k', v)) : s.Ends L u r k' v := by
  refine ends_finish (n := s.log) ?_
  simp only [Sys.go, hpc, hrun]

/-- In both kinds of call, `createObject` is what the code does. -/
theorem createObject_ends (hpc : s.pc u = .create c r)
    (hrun : createObject L s.k c = some (k', v)) : s.Ends L u r k' v := by
  obtain ⟨⟨k, p⟩, halloc, hrest⟩ := Option.bind_eq_some_iff.mp hrun
  have hgo : s.go L u = s.create L u c r := by
    simp only [Sys.go, hpc]
  rw [Sys.create, halloc, Option.map_some] at hgo
  by_cases hp : p = 0
  · simp only [if_pos hp] at hrest hgo
    obtain ⟨rfl, rfl⟩ := Prod.mk.inj (Option.some.inj hrest)
    exact ends_finish (n := s.log) hgo
  · simp only [if_neg hp] at hrest hgo
    cases c with
    | sem initial =>
      exact ends_step hgo rfl (ends_publish (Function.update_self _ _ _) (Option.some.inj hrest))
    | mutex =>
      exact ends_step hgo rfl (ends_publish (Function.update_self _ _ _) (Option.some.inj hrest))
    | queue i n =>
      obtain ⟨⟨k₁, ok⟩, hinit, hlast⟩ := Option.bind_eq_some_iff.mp hrest
      refine ends_step hgo rfl ?_
      have hmid : ({ s with k := k }.note ((Creation.queue i n).note k p)
          |>.setPc u (.queueBuffer p r)).go L u =
          some (⟨k₁, Function.update s.pc u (if ok then .publish p .queue r else .queueFree p r),
            (Creation.queue i n).note k p ++ s.log⟩ : Sys) := by
        simp [Sys.go, Sys.setPc, Sys.note, hinit]
      refine ends_step (q := if ok then .publish p .queue r else .queueFree p r) hmid
        (by simp [Sys.setPc, Sys.note]) ?_
      cases ok with
      | true => exact ends_publish (Function.update_self _ _ _) (Option.some.inj hlast)
      | false =>
        obtain ⟨k₂, hfree, heq⟩ := Option.map_eq_some_iff.mp hlast
        obtain ⟨rfl, rfl⟩ := Prod.mk.inj heq
        refine ends_finish (n := (Creation.queue i n).note k p ++ s.log) ?_
        simp [Sys.go, hfree]

end Steps

/-- One creation after the other, each of which yields no handle. -/
inductive Fails (L : Layout) : Kernel → List Creation → Kernel → Prop
  | nil (k : Kernel) : Fails L k [] k
  | cons {k k' k'' : Kernel} {c : Creation} {cs : List Creation}
      (h : createObject L k c = some (k', kobjInvalid)) (hrest : Fails L k' cs k'') :
      Fails L k (c :: cs) k''

/-- With a free slot in the table, no number of failing calls uses up the heap. -/
theorem Fails.unchanged {L : Layout} {k k' : Kernel} {cs : List Creation} {bs : List Block}
    (hL : L.heap.Placed) (h : Fails L k cs k') (ht : Tiles L.heap k.heap bs)
    (hfree : ¬ k.TableFull) : Unchanged L k k' bs := by
  induction h with
  | nil k => exact ⟨rfl, ht⟩
  | cons hrun hrest ih =>
    obtain ⟨htable, ⟨_, ht'⟩ | ⟨_, _, hfull, _⟩⟩ := createObject_invalid hL ht hrun
    · have hlast := ih ht' fun hfull => hfree fun i hi => by rw [← hfull i hi, htable]
      exact ⟨hlast.table.trans htable, hlast.blocks⟩
    · exact absurd hfull hfree

/-- A queue whose buffer is larger than the heap. -/
theorem create_atomic_board : ∃ (s : Sys) (k' : Kernel), s.Reached boardLayout ∧
    createObject boardLayout s.k (.queue 1 0x100000) = some (k', kobjInvalid) ∧
    ∃ bs, Tiles boardLayout.heap s.k.heap bs ∧ (Unchanged boardLayout s.k k' bs ↔
      ¬ s.k.TableFull ∨ serve bs (Creation.queue 1 0x100000).requests = none) := by
  obtain ⟨s, hs, hrun⟩ := boardRun_at boardReady (P := fun s =>
    (createObject boardLayout s.k (.queue 1 0x100000)).map Prod.snd = some kobjInvalid)
    (by decide +kernel)
  obtain ⟨⟨k', v⟩, hcreate, rfl⟩ := Option.map_eq_some_iff.mp hrun
  exact ⟨s, k', hs, hcreate, create_atomic_iff boardLayout_placed hs hcreate⟩

/-- The calls that fill the handle table with mutexes. -/
def fillTable : List Label :=
  (List.range kobjMax).flatMap fun _ => [.call (.create .mutex), .go, .go]

/-- When the table is full, a call that yields no handle keeps its memory. -/
theorem full_table_leaks :
    ¬ ∀ (s : Sys) (c : Creation) (k' : Kernel), s.Reached boardLayout →
      createObject boardLayout s.k c = some (k', kobjInvalid) →
      ∀ bs, Tiles boardLayout.heap s.k.heap bs → Unchanged boardLayout s.k k' bs := by
  intro h
  obtain ⟨s, hs, hrun, hin⟩ := boardRun_at (boardReady ++ fillTable) (P := fun s =>
    (createObject boardLayout s.k .mutex).any (fun r => decide (r.2 = kobjInvalid ∧
      r.1.heap.heapInited = true ∧ r.1.heap.freeList ≠ s.k.heap.freeList)) = true ∧
      s.k.heap.heapInited = true) (by decide +kernel)
  cases hcreate : createObject boardLayout s.k .mutex with
  | none =>
    rw [hcreate] at hrun
    cases hrun
  | some result =>
    obtain ⟨k', v⟩ := result
    rw [hcreate] at hrun
    obtain ⟨rfl, hin', hmoved⟩ := of_decide_eq_true hrun
    obtain ⟨g, hg⟩ := hs.inv boardLayout_placed
    obtain ⟨bs, hbs⟩ : ∃ bs, Tiled boardLayout.heap s.k.heap bs := by
      rcases hg.objects.heap with ⟨hnot, _⟩ | ⟨bs, hbs⟩
      · rw [hin] at hnot
        cases hnot
      · exact ⟨bs, hbs.1⟩
    have hsame := (h s .mutex k' hs hcreate bs hbs.tiles).blocks
    rw [Tiles, Heap.started, if_pos hin'] at hsame
    exact hmoved (hsame.head.trans hbs.head.symm)

end Crest
