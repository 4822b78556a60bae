import CrestRtos.System.Deeds

/-!
# Queue buffers

A call of `queue_create` fills in the new queue first and then asks for its
buffer; other tasks may run in between. The product of item size and slots is
checked for overflow, but `malloc` rounds the request up and adds a header
without such a check. The buffer is large enough exactly when that sum does not
wrap around either.
-/

namespace Crest
open MachineWord Alloc

variable {L : Layout} {s s' : Sys} {g : Ghost} {u : Tid} {r : Ret} {p : Nat}

/-- Steps during which the code of `u` stays where it is. -/
inductive Meanwhile (L : Layout) (u : Tid) : Sys → Sys → Prop
  | refl (s : Sys) : Meanwhile L u s s
  | step {s s' s'' : Sys} {l : Label} (h : Meanwhile L u s s') (hstep : s'.step L l = some s'')
      (hpc : s''.pc u = s'.pc u) : Meanwhile L u s s''

/-- From `s` to `s'`, `z_impl_queue_create(itemSize, size)` called by `u` makes the
queue `p`, while other tasks may run. -/
structure MakesQueue (L : Layout) (u : Tid) (itemSize size p : Nat) (s s' : Sys) : Prop where
  run : ∃ r s₁ s₂, s.pc u = .create (.queue itemSize size) r ∧
    s.k.currentTask = some u ∧ s.step L .go = some s₁ ∧ s₁.pc u = .queueBuffer p r ∧
    Meanwhile L u s₁ s₂ ∧
    s₂.k.currentTask = some u ∧ s₂.step L .go = some s' ∧ s'.pc u = .publish p .queue r

/-- Every slot of the queue lies inside the payload of its buffer. -/
structure Queue.Held (q : Queue) (h : Heap) : Prop where
  payload : q.itemSize * (q.size + 1) + headerSize ≤ payloadBlock h q.buffer
  slots : ∀ i, i < q.slots →
    q.offset i + q.itemSize + headerSize ≤ payloadBlock h q.buffer

theorem queue_of_core {q q' : Queue} (h : q'.core = q.core) :
    q'.itemSize = q.itemSize ∧ q'.size = q.size ∧ q'.slots = q.slots :=
  ⟨(congrArg Queue.itemSize h :), (congrArg Queue.size h :), (congrArg Queue.slots h :)⟩

/-- Nobody else touches a queue whose buffer is still to be allocated. -/
theorem Inv.draft_kept {l : Label} (hL : L.heap.Placed) (h : Inv L s g)
    (hstep : s.step L l = some s') (hpc : s.pc u = .queueBuffer p r) :
    (s'.k.queue p).core = (s.k.queue p).core := by
  have hb := h.objects.builds u p (by rw [hpc]; rfl)
  cases h.deed hL hstep with
  | other hlog hn hquiet => exact hquiet.queue p
  | enter hcur hpend hfits hobject hpc =>
    rename_i v op op' r' pre
    rw [runOp_k]
    change ((op.enter s.k v).1.queue p).core = _
    have hne : op.object ≠ some (p, .queue) := by
      intro heq
      have hsome := hobject p .queue heq
      rw [hb.2] at hsome
      cases hsome
    have hplain := (enter_touches s.k v op).queue p hne
    have hcore : ∀ k : Kernel, (k.queue p).core = { k.plain.queue p with buffer := 0 } :=
      fun _ => rfl
    rw [hcore, hplain]
    rfl
  | create hfresh hnew hk hquiet hrej hlog =>
    rename_i c p' k
    have hne : p ≠ p' := by
      rintro rfl
      exact hfresh hb.1
    have hsame : (c.init k p').queue p = k.queue p := by
      cases c with
      | queue itemSize size =>
        simp only [Creation.init, Kernel.setQueue]
        exact Function.update_of_ne hne _ _
      | _ => rfl
    rw [hk, hsame]
    exact hquiet.queue p

theorem Meanwhile.draft (hL : L.heap.Placed) (h : Meanwhile L u s s') (hs : s.Reached L)
    (hpc : s.pc u = .queueBuffer p r) :
    s'.Reached L ∧ s'.pc u = .queueBuffer p r ∧ (s'.k.queue p).core = (s.k.queue p).core := by
  induction h with
  | refl => exact ⟨hs, hpc, rfl⟩
  | step _ hstep hsame ih =>
    obtain ⟨hreached, hnow, hcore⟩ := ih
    obtain ⟨g, hg⟩ := hreached.inv hL
    exact ⟨hreached.step hstep, hsame.trans hnow, (hg.draft_kept hL hstep hnow).trans hcore⟩

theorem step_go (hcur : s.k.currentTask = some u) (hstep : s.step L .go = some s') :
    s.go L u = some s' := by
  obtain ⟨hl, _⟩ | ⟨_, _, hl, _⟩ | ⟨u', _, hcur', hthread⟩ := step_cases hstep
  · cases hl
  · cases hl
  · obtain rfl := Option.some.inj (hcur'.symm.trans hcur)
    exact hthread

/-- The first part of the call, up to the request for the buffer. -/
theorem create_queue {i n : Nat} (hgo : s.go L u = some s') (hpc : s.pc u = .create (.queue i n) r)
    (hpc' : s'.pc u = .queueBuffer p r) : (s'.k.queue p).itemSize = i ∧
      (s'.k.queue p).size = n ∧ (s'.k.queue p).slots = wrap (n + 1) ∧ 1 ≤ i ∧ 1 ≤ n := by
  simp only [Sys.go, hpc, Sys.create] at hgo
  obtain ⟨⟨k, q⟩, halloc, rfl⟩ := Option.map_eq_some_iff.mp hgo
  by_cases hq : q = 0
  · simp only [if_pos hq] at hpc'
    cases r <;> simp [Sys.finish, Sys.setPc, Sys.note] at hpc'
  · simp only [if_neg hq] at hpc' ⊢
    obtain ⟨rfl, _⟩ : q = p ∧ r = r := by simpa [Sys.setPc, Sys.note] using hpc'
    rcases alloc_cases halloc with ⟨hzero, _⟩ | ⟨heap, _, hrej, rfl⟩
    · exact absurd hzero hq
    rw [if_neg hq]
    have hargs : 1 ≤ i ∧ 1 ≤ n := by
      simp only [Creation.rejected, Bool.or_eq_false_iff, beq_eq_false_iff_ne] at hrej
      omega
    simp [Sys.setPc, Sys.note, Creation.init, Kernel.setQueue, hargs]

/-- The second part: the buffer is what `malloc` gives for the product, which has
not overflowed. -/
theorem queueBuffer_made (hgo : s.go L u = some s') (hpc : s.pc u = .queueBuffer p r)
    (hpc' : s'.pc u = .publish p .queue r) :
    0 < (s.k.queue p).slots ∧ (s.k.queue p).itemSize * (s.k.queue p).slots < 2 ^ 32 ∧
    (s'.k.queue p).core = (s.k.queue p).core ∧ (s'.k.queue p).buffer ≠ 0 ∧
    firstFitMalloc L.heap s.k.heap ((s.k.queue p).itemSize * (s.k.queue p).slots) =
      some (s'.k.heap, (s'.k.queue p).buffer) := by
  simp only [Sys.go, hpc] at hgo
  obtain ⟨⟨k, ok⟩, hinit, rfl⟩ := Option.map_eq_some_iff.mp hgo
  obtain rfl : ok = true := by
    cases ok with
    | true => rfl
    | false => simp [Sys.setPc] at hpc'
  rw [queueInitBuffer] at hinit
  by_cases hover : (s.k.queue p).slots ≠ 0 ∧
      wrap ((s.k.queue p).itemSize * (s.k.queue p).slots) / (s.k.queue p).slots ≠
        (s.k.queue p).itemSize
  · simp only [if_pos hover] at hinit
    simp at hinit
  simp only [if_neg hover] at hinit
  obtain ⟨⟨heap, buffer⟩, hmalloc, heq⟩ := Option.map_eq_some_iff.mp hinit
  obtain ⟨rfl, hok⟩ := Prod.mk.inj heq
  have hbuffer : buffer ≠ 0 := by simpa using hok
  have hpos : 0 < (s.k.queue p).slots := by
    by_contra hnot
    obtain hzero : (s.k.queue p).slots = 0 := by omega
    rw [hzero, Nat.mul_zero] at hmalloc
    exact hbuffer (Prod.mk.inj (Option.some.inj hmalloc)).2.symm
  have hfits : (s.k.queue p).itemSize * (s.k.queue p).slots < 2 ^ 32 := by
    have hexact : wrap ((s.k.queue p).itemSize * (s.k.queue p).slots) / (s.k.queue p).slots =
        (s.k.queue p).itemSize := by
      by_contra hne
      exact hover ⟨by omega, hne⟩
    exact (Nat.le_div_iff_mul_le hpos).mp hexact.ge |>.trans_lt (wrap_lt _)
  rw [wrap_of_lt hfits] at hmalloc
  refine ⟨hpos, hfits, ?_, ?_, ?_⟩
  · simp [Sys.setPc, Kernel.setQueue, Queue.core]
  · simpa [Sys.setPc, Kernel.setQueue] using hbuffer
  · have hsame : firstFitMalloc L.heap s.k.heap
        ((s.k.queue p).itemSize * (s.k.queue p).slots) = some (heap, buffer) := hmalloc
    simp [hsame, Sys.setPc, Kernel.setQueue]

/-- Where the call leaves the queue and the heap. -/
theorem MakesQueue.made {i n : Nat} (hL : L.heap.Placed) (hn : n < 2 ^ 32) (h : s.Reached L)
    (hmakes : MakesQueue L u i n p s s') :
    (s'.k.queue p).itemSize = i ∧ (s'.k.queue p).size = n ∧ (s'.k.queue p).slots = n + 1 ∧
    1 ≤ i ∧ i * (n + 1) < 2 ^ 32 ∧ (s'.k.queue p).buffer ≠ 0 ∧
    ∃ heap : Heap, Alloc.Ready L.heap heap ∧
      firstFitMalloc L.heap heap (i * (n + 1)) = some (s'.k.heap, (s'.k.queue p).buffer) := by
  obtain ⟨r, s₁, s₂, hpc, hcur, hstep, hpc₁, hmean, hcur₂, hstep₂, hpc'⟩ := hmakes.run
  obtain ⟨hitem, hsize, hslots, hi, _⟩ := create_queue (step_go hcur hstep) hpc hpc₁
  obtain ⟨hreached, hpc₂, hcore⟩ := hmean.draft hL (h.step hstep) hpc₁
  obtain ⟨hitem₂, hsize₂, hslots₂⟩ := queue_of_core hcore
  obtain ⟨hpos, hfits, hcore', hbuffer, hmalloc⟩ :=
    queueBuffer_made (step_go hcur₂ hstep₂) hpc₂ hpc'
  obtain ⟨hitem', hsize', hslots'⟩ := queue_of_core hcore'
  rw [hslots₂, hslots] at hpos
  have hword : wrap (n + 1) = n + 1 := by
    simp only [wrap] at hpos ⊢
    omega
  rw [hitem₂, hitem, hslots₂, hslots, hword] at hfits hmalloc
  obtain ⟨g, hg⟩ := hreached.inv hL
  refine ⟨hitem'.trans (hitem₂.trans hitem), hsize'.trans (hsize₂.trans hsize),
    hslots'.trans (hslots₂.trans (hslots.trans hword)), hi, hfits, hbuffer, _, ?_, hmalloc⟩
  rcases hg.objects.heap with ⟨hin, _⟩ | ⟨bs, hbs⟩
  · exact Or.inl hin
  · exact Or.inr ⟨bs, hbs.1⟩

/-- The buffer of a new queue holds all its slots if and only if the request that
`malloc` makes of the product, rounded up and with a header, does not wrap around. -/
theorem queue_buffer_held_iff {i n : Nat} (hL : L.heap.Placed) (hn : n < 2 ^ 32)
    (h : s.Reached L) (hmakes : MakesQueue L u i n p s s') :
    (s'.k.queue p).Held s'.k.heap ↔ i * (n + 1) + 15 < 2 ^ 32 := by
  obtain ⟨hitem, hsize, hslots, hi, hfits, hbuffer, heap, hready, hmalloc⟩ := hmakes.made hL hn h
  have hne : i * (n + 1) ≠ 0 := Nat.mul_ne_zero (by omega) (by omega)
  obtain ⟨hlo, hhi⟩ := malloc_payload hL hready hne hmalloc hbuffer
  constructor
  · intro hheld
    by_contra hbig
    have hpayload := hheld.payload
    rw [hitem, hsize, headerSize] at hpayload
    rw [blockNeed_wrapped hfits (by omega)] at hhi
    omega
  · intro hsmall
    have hneed := blockNeed_ge hsmall
    have hpayload : i * (n + 1) + headerSize ≤ payloadBlock s'.k.heap (s'.k.queue p).buffer := by
      rw [headerSize]
      omega
    constructor
    · rw [hitem, hsize]
      exact hpayload
    · intro j hj
      rw [hslots] at hj
      have hslot : j * i + i ≤ i * (n + 1) := by
        calc j * i + i = i * (j + 1) := by rw [Nat.mul_comm, Nat.mul_add, Nat.mul_one]
          _ ≤ i * (n + 1) := Nat.mul_le_mul_left i (by omega)
      have hoffset : (s'.k.queue p).offset j = j * i := by
        rw [Queue.offset, hitem]
        exact wrap_of_lt (by omega)
      rw [hoffset, hitem]
      omega

/-- A call that makes a queue of the small system. -/
theorem boardRun_makes {i n p : Nat} {P : Sys → Prop} [DecidablePred P]
    (h : (boardRun (boardReady ++ [.call (.create (.queue i n))])).any (fun s =>
      decide (s.pc 1 = .create (.queue i n) .app ∧ s.k.currentTask = some 1)) = true)
    (h₁ : (boardRun (boardReady ++ [.call (.create (.queue i n))] ++ [.go])).any (fun s =>
      decide (s.pc 1 = .queueBuffer p .app ∧ s.k.currentTask = some 1)) = true)
    (h₂ : (boardRun (boardReady ++ [.call (.create (.queue i n))] ++ [.go] ++ [.go])).any (fun s =>
      decide (s.pc 1 = .publish p .queue .app ∧ P s)) = true) :
    ∃ s s', s.Reached boardLayout ∧ MakesQueue boardLayout 1 i n p s s' ∧ P s' := by
  obtain ⟨s, hs, ⟨hpc, hcur⟩, hreached⟩ := boardRun_comes _ h fun _ hs => hs
  obtain ⟨s₁, hrun₁, hstep₁, hpc₁, hcur₁⟩ := boardRun_snoc hs h₁
  obtain ⟨s', _, hstep₂, hpc', hp⟩ := boardRun_snoc hrun₁ h₂
  exact ⟨s, s', hreached,
    ⟨.app, s₁, s₁, hpc, hcur, hstep₁, hpc₁, .refl s₁, hcur₁, hstep₂, hpc'⟩, hp⟩

/-- A queue of three items of four bytes. -/
theorem queue_buffer_held_board : ∃ s s', s.Reached boardLayout ∧
    MakesQueue boardLayout 1 4 3 0x20006428 s s' ∧
    ((s'.k.queue 0x20006428).Held s'.k.heap ↔ 4 * (3 + 1) + 15 < 2 ^ 32) := by
  obtain ⟨s, s', hs, hmakes, _⟩ := boardRun_makes (P := fun _ => True) (i := 4) (n := 3)
    (p := 0x20006428) (by decide +kernel) (by decide +kernel) (by decide +kernel)
  exact ⟨s, s', hs, hmakes, queue_buffer_held_iff boardLayout_placed (by decide) hs hmakes⟩

/-- A queue of 2^32 - 2 items of one byte gets a buffer of eight bytes. -/
theorem queue_buffer_undersized :
    ¬ ∀ (s s' : Sys) (u : Tid) (i n p : Nat), s.Reached boardLayout → i < 2 ^ 32 → n < 2 ^ 32 →
      MakesQueue boardLayout u i n p s s' → (s'.k.queue p).Held s'.k.heap := by
  intro h
  obtain ⟨s, s', hs, hmakes, hsmall, hitem, hsize⟩ := boardRun_makes (P := fun s =>
      payloadBlock s.k.heap (s.k.queue 0x20006428).buffer = 16 ∧
      (s.k.queue 0x20006428).itemSize = 1 ∧ (s.k.queue 0x20006428).size = 2 ^ 32 - 2)
    (i := 1) (n := 2 ^ 32 - 2) (p := 0x20006428) (by decide +kernel) (by decide +kernel)
    (by decide +kernel)
  have hheld := (h s s' 1 1 (2 ^ 32 - 2) _ hs (by decide) (by decide) hmakes).payload
  rw [hsmall, hitem, hsize] at hheld
  simp [headerSize] at hheld

end Crest
