import CrestRtos.Arch.Confinement
import CrestRtos.Properties.PostedItems
import CrestRtos.System.Accesses

/-!
# What the worker touches for its callers

The worker runs privileged and follows the pointers of its callers. Its other work leaves
the RAM alone, but a send, a receive and a write to the console go wherever the pointer
leads, which is inside the caller's own memory only if the caller has seen to that.
-/

namespace Crest
open ByteMemory MachineWord MemoryAccess Alloc Transition Port

def inFlash (x : Nat) : Prop := 0x08000000 ≤ x ∧ x < 0x08080000

def UserWritable (L : Layout) (tcb : Tcb) (x : Nat) : Prop := inStack tcb x ∨ inUserHeap L x

def UserReadable (L : Layout) (tcb : Tcb) (x : Nat) : Prop := UserWritable L tcb x ∨ inFlash x

/-- The next step of `u`, on behalf of `c`, touches the memory of `c` only. -/
structure Sys.KeepsTo (L : Layout) (s : Sys) (u c : Tid) : Prop where
  writes : ∀ x, Writes (s.action L u) s.k.ram x → UserWritable L (s.k.tcb c) x
  reads : ∀ x, Reads (s.action L u) s.k.ram x → UserReadable L (s.k.tcb c) x

/-- Work for a caller touches the caller's memory only. -/
def Sys.TouchesCaller (L : Layout) (s : Sys) (l : Label) : Prop :=
  l = .go → ∀ u c, s.k.currentTask = some u → (s.pc u).serves = some c → s.KeepsTo L u c

/-- The pointer of an item as the worker is about to follow it: where a send finds room, a
receive finds an item, and a string ends, everything it spans is the caller's to use. -/
structure Sys.PointerFits (L : Layout) (s : Sys) (u : Tid) (item : WorkItem) : Prop where
  send : ∀ q, s.pc u = .enter (.queuePush q item.arg1 0) (.serve item.caller) →
    (s.k.queue q).nextIndex (s.k.queue q).tail ≠ (s.k.queue q).head →
    ∀ x, item.arg1 ≤ x → x < item.arg1 + (s.k.queue q).itemSize →
      UserReadable L (s.k.tcb item.caller) x
  recv : ∀ q, s.pc u = .enter (.queuePop q item.arg1 0) (.serve item.caller) →
    (s.k.queue q).head ≠ (s.k.queue q).tail →
    ∀ x, item.arg1 ≤ x → x < item.arg1 + (s.k.queue q).itemSize →
      UserWritable L (s.k.tcb item.caller) x
  text : s.pc u = .dispatch item → item.id = syscallUartWrite →
    ∀ x, item.arg0 ≤ x → (∀ y, item.arg0 ≤ y → y < x → s.k.ram y ≠ 0) →
      UserReadable L (s.k.tcb item.caller) x

/-- The item in work has a pointer that fits. -/
def Sys.FollowsFit (L : Layout) (s : Sys) (l : Label) : Prop :=
  l = .go → ∀ u item, s.k.currentTask = some u → s.WorksOn u item → s.PointerFits L u item

section Decode
variable {k : Kernel} {item : WorkItem} {op : Op} {a : Nat}

theorem withObject_text {handle : Nat} {type : KobjType} {f : Nat → Op} :
    withObject k handle type (fun p => .call (f p)) ≠ .uart a := by
  rw [withObject]
  cases kObjGet k handle type with
  | none => exact fun heq => by cases heq
  | some p => exact fun heq => by cases heq

/-- The pointer of a copying call is the second argument; calls on a semaphore or a mutex copy
nothing. -/
theorem decode_copies (h : decode k item = .call op) (hop : op.copies = true) :
    ∃ q, op = .queuePush q item.arg1 0 ∨ op = .queuePop q item.arg1 0 := by
  rw [decode] at h
  rcases ite_call h with h | h
  · cases h
  rcases ite_call h with h | h
  · obtain ⟨p, _, hp⟩ := withObject_call h
    exact ⟨p, Or.inl (Work.call.inj hp).symm⟩
  rcases ite_call h with h | h
  · obtain ⟨p, _, hp⟩ := withObject_call h
    exact ⟨p, Or.inr (Work.call.inj hp).symm⟩
  rcases ite_call h with h | h
  · obtain ⟨p, _, hp⟩ := withObject_call h
    cases hp
    cases hop
  rcases ite_call h with h | h
  · obtain ⟨p, _, hp⟩ := withObject_call h
    cases hp
    cases hop
  rcases ite_call h with h | h
  · obtain ⟨p, _, hp⟩ := withObject_call h
    cases hp
    cases hop
  rcases ite_call h with h | h
  · obtain ⟨p, _, hp⟩ := withObject_call h
    cases hp
    cases hop
  rcases ite_call h with h | h
  · cases h
  rcases ite_call h with h | h
  · cases h
  rcases ite_call h with h | h
  · cases h
  rcases ite_call h with h | h
  · cases h
  · cases h

theorem decode_text (h : item.id = syscallUartWrite) : decode k item = .uart item.arg0 := by
  rw [decode, h]
  rfl

theorem decode_uart (h : decode k item = .uart a) :
    item.id = syscallUartWrite ∧ item.arg0 = a := by
  by_cases hid : item.id = syscallUartWrite
  · rw [decode_text hid] at h
    exact ⟨hid, Work.uart.inj h⟩
  rw [decode] at h
  rcases ite_eq_iff.mp h with ⟨_, h⟩ | ⟨_, h⟩
  · cases h
  rcases ite_eq_iff.mp h with ⟨_, h⟩ | ⟨_, h⟩
  · exact (withObject_text h).elim
  rcases ite_eq_iff.mp h with ⟨_, h⟩ | ⟨_, h⟩
  · exact (withObject_text h).elim
  rcases ite_eq_iff.mp h with ⟨_, h⟩ | ⟨_, h⟩
  · exact (withObject_text h).elim
  rcases ite_eq_iff.mp h with ⟨_, h⟩ | ⟨_, h⟩
  · exact (withObject_text h).elim
  rcases ite_eq_iff.mp h with ⟨_, h⟩ | ⟨_, h⟩
  · exact (withObject_text h).elim
  rcases ite_eq_iff.mp h with ⟨_, h⟩ | ⟨_, h⟩
  · exact (withObject_text h).elim
  rcases ite_eq_iff.mp h with ⟨hyes, _⟩ | ⟨_, h⟩
  · exact absurd hyes hid
  rcases ite_eq_iff.mp h with ⟨_, h⟩ | ⟨_, h⟩
  · cases h
  rcases ite_eq_iff.mp h with ⟨_, h⟩ | ⟨_, h⟩
  · cases h
  rcases ite_eq_iff.mp h with ⟨_, h⟩ | ⟨_, h⟩
  · cases h
  · cases h

end Decode

section Confinement
variable {L : Layout} {s : Sys} {g : Ghost} {u c : Tid} {item : WorkItem} {q a : Nat}

theorem keepsTo_of_ignores (h : ∀ x, Ignores (s.action L u) s.k.ram x) : s.KeepsTo L u c :=
  ⟨fun x hx => ((h x).not_writes hx).elim, fun x hx => ((h x).not_reads hx).elim⟩

/-- Work that follows no pointer. -/
theorem keepsTo_still (h : Inv L s g) (hserves : (s.pc u).serves = some c)
    (hop : ∀ op r, s.pc u = .enter op r → op.copies = false)
    (htext : ∀ item a, s.pc u = .dispatch item → decode s.k item ≠ .uart a) :
    s.KeepsTo L u c := by
  refine keepsTo_of_ignores fun x =>
    action_ignores (fun m => go_withRam hserves (h.coded.pcs u) hop) fun m cs => ?_
  have hsame : (s.withRam m).pc u = s.pc u := rfl
  rw [Sys.Sends, hsame]
  cases hpc : s.pc u with
  | dispatch item =>
    have hdecode : decode (s.withRam m).k item = decode s.k item := rfl
    simp only [hdecode]
    cases hdec : decode s.k item with
    | uart a => exact absurd hdec (htext item a hpc)
    | _ => rfl
  | _ => rfl

theorem keepsTo_push {r : Ret} (hpc : s.pc u = .enter (.queuePush q a 0) r) :
    s.KeepsTo L u c ↔ ((s.k.queue q).nextIndex (s.k.queue q).tail ≠ (s.k.queue q).head →
      ∀ x, a ≤ x → x < a + (s.k.queue q).itemSize → UserReadable L (s.k.tcb c) x) := by
  constructor
  · intro h hroom x hlo hhi
    exact h.reads x (push_reads hpc hroom hlo hhi)
  · intro h
    refine ⟨fun x hx => (push_not_writes hpc hx).elim, fun x hx => ?_⟩
    · by_contra hout
      refine (push_ignores (L := L) hpc fun hroom => ?_).not_reads hx
      by_contra hin
      exact hout (h hroom x (by omega) (by omega))

theorem keepsTo_pop {r : Ret} (hpc : s.pc u = .enter (.queuePop q a 0) r) :
    s.KeepsTo L u c ↔ ((s.k.queue q).head ≠ (s.k.queue q).tail →
      ∀ x, a ≤ x → x < a + (s.k.queue q).itemSize → UserWritable L (s.k.tcb c) x) := by
  constructor
  · intro h hitem x hlo hhi
    exact h.writes x (pop_writes hpc hitem hlo hhi)
  · intro h
    refine ⟨fun x hx => ?_, fun x hx => (pop_not_reads hpc hx).elim⟩
    by_contra hout
    refine (pop_ignores (L := L) hpc fun hitem => ?_).not_writes hx
    by_contra hin
    exact hout (h hitem x (by omega) (by omega))

theorem keepsTo_text (hpc : s.pc u = .dispatch item) (hdec : decode s.k item = .uart a) :
    s.KeepsTo L u c ↔ ∀ x, a ≤ x → (∀ y, a ≤ y → y < x → s.k.ram y ≠ 0) →
      UserReadable L (s.k.tcb c) x := by
  constructor
  · intro h x hlo hne
    exact h.reads x (uart_reads hpc hdec hlo hne)
  · intro h
    refine ⟨fun x hx => (uart_not_writes hpc hx).elim, fun x hx => ?_⟩
    by_contra hout
    refine (uart_ignores (L := L) hpc hdec ?_).not_reads hx
    by_contra hin
    refine hout (h x (by omega) fun y hlo hhi hnul => hin (Or.inr ⟨y, hlo, hhi, hnul⟩))

/-- What the worker touches for an item is the caller's if the pointer fits, and only then. -/
theorem keepsTo_iff (h : Inv L s g) (hworks : s.WorksOn u item) :
    s.KeepsTo L u item.caller ↔ s.PointerFits L u item := by
  obtain ⟨_, hpc | ⟨k, op, hdec, hpc⟩⟩ := hworks
  · have hnot : ∀ op r, s.pc u ≠ .enter op r := by
      intro op r hop
      rw [hpc] at hop
      cases hop
    by_cases hid : item.id = syscallUartWrite
    · rw [keepsTo_text hpc (decode_text hid)]
      exact ⟨fun htext => ⟨fun q hq => (hnot _ _ hq).elim, fun q hq => (hnot _ _ hq).elim,
        fun _ _ => htext⟩, fun hfits => hfits.text hpc hid⟩
    · refine iff_of_true (keepsTo_still h (by rw [hpc]; rfl) (fun op r hop => (hnot _ _ hop).elim)
        fun item' a hitem hdec => ?_) ⟨fun q hq => (hnot _ _ hq).elim,
        fun q hq => (hnot _ _ hq).elim, fun _ hyes => absurd hyes hid⟩
      rw [hpc] at hitem
      obtain rfl := Pc.dispatch.inj hitem
      exact hid (decode_uart hdec).1
  · have hnot : ∀ item', s.pc u ≠ .dispatch item' := by
      intro item' hitem
      rw [hpc] at hitem
      cases hitem
    have hinj : ∀ op' r, s.pc u = .enter op' r → op' = op := by
      intro op' r hop
      rw [hpc] at hop
      exact (Pc.enter.inj hop).1.symm
    by_cases hop : op.copies = true
    · obtain ⟨q, rfl | rfl⟩ := decode_copies hdec hop
      · rw [keepsTo_push hpc]
        refine ⟨fun hsend => ⟨fun q' hq => ?_, fun q' hq => (by cases hinj _ _ hq),
          fun hitem => (hnot _ hitem).elim⟩, fun hfits => hfits.send q hpc⟩
        obtain rfl := (Op.queuePush.inj (hinj _ _ hq)).1
        exact hsend
      · rw [keepsTo_pop hpc]
        refine ⟨fun hrecv => ⟨fun q' hq => (by cases hinj _ _ hq), fun q' hq => ?_,
          fun hitem => (hnot _ hitem).elim⟩, fun hfits => hfits.recv q hpc⟩
        obtain rfl := (Op.queuePop.inj (hinj _ _ hq)).1
        exact hrecv
    · have hstill : ∀ op' r, s.pc u = .enter op' r → op'.copies = false := fun op' r hq => by
        rw [hinj op' r hq]
        exact Bool.eq_false_iff.mpr hop
      refine iff_of_true (keepsTo_still h (by rw [hpc]; rfl) hstill
        fun item' _ hitem => (hnot _ hitem).elim) ⟨fun q hq => ?_, fun q hq => ?_,
        fun hitem => (hnot _ hitem).elim⟩
      · cases hstill _ _ hq
      · cases hstill _ _ hq

theorem touchesCaller_iff (hL : L.heap.Placed) (hreach : s.Reached L) (l : Label) :
    s.TouchesCaller L l ↔ s.FollowsFit L l := by
  obtain ⟨g, hg⟩ := hreach.inv hL
  refine imp_congr_right fun _ => ⟨fun h u item hcur hworks => ?_, fun h u c hcur hserves => ?_⟩
  · refine (keepsTo_iff hg hworks).mp (h u item.caller hcur ?_)
    obtain ⟨_, hpc | ⟨k, op, _, hpc⟩⟩ := hworks <;> rw [hpc] <;> rfl
  · by_cases hasks : (s.pc u).asks = true
    · obtain ⟨item, hworks⟩ := hreach.asked hL u hasks
      obtain rfl : item.caller = c := by
        obtain ⟨_, hpc | ⟨k, op, _, hpc⟩⟩ := hworks <;> rw [hpc] at hserves <;>
          exact Option.some.inj hserves
      exact (keepsTo_iff hg hworks).mpr (h u item hcur hworks)
    · refine keepsTo_still hg hserves (fun op r hpc => ?_) fun item a hpc => ?_
      · rw [hpc] at hserves hasks
        cases r with
        | app => cases hserves
        | serve c' => exact absurd rfl hasks
      · rw [hpc] at hasks
        exact absurd rfl hasks

end Confinement

/-- In every run from the start, the work for the callers touches nothing but their memory
if and only if the pointers of the items all fit. -/
theorem deputy_confined_iff {L : Layout} {s₀ : Sys} (hL : L.heap.Placed) (hs₀ : s₀.Started L)
    (labels : List Label) :
    Permitted (Sys.TouchesCaller L) (Sys.step L) s₀ labels ↔
      Permitted (Sys.FollowsFit L) (Sys.step L) s₀ labels :=
  permitted_iff (I := Sys.Reached L) (fun _ _ _ hs hl => hs.step hl)
    (fun _ l hs => touchesCaller_iff hL hs l) hs₀.reached labels

/-- A receive of task 1, unprivileged by now, into the kernel's own memory. -/
def recvIntoKernel : List Label :=
  boardReady ++ [.call (.create (.queue 4 2)), .go, .go, .go, .compute 0 (fun _ => 7),
    .call (.queuePush 0x10000 0x20010000 0), .go, .compute 0 (fun _ => 0),
    .call .setUnprivileged, .svc syscallQueueRecv 0x10000 0x20000100 0 0,
    .pendSV 0x2001F000, .go, .go]

theorem deputy_confined_board : ∃ s₀, s₀.Started boardLayout ∧
    (Permitted (Sys.TouchesCaller boardLayout) (Sys.step boardLayout) s₀ recvIntoKernel ↔
      Permitted (Sys.FollowsFit boardLayout) (Sys.step boardLayout) s₀ recvIntoKernel) := by
  have hstart : (boardRun []).isSome = true := by decide +kernel
  obtain ⟨s₀, hs₀⟩ := Option.isSome_iff_exists.mp hstart
  obtain ⟨s, _, hstarted, _⟩ := boardRun_started hs₀
  exact ⟨s, hstarted, deputy_confined_iff boardLayout_placed hstarted recvIntoKernel⟩

/-- The worker is about to write, and writes, where task 1 may not. -/
theorem recv_into_kernel : ∃ s s' : Sys, s.Reached boardLayout ∧
    .posted ⟨syscallQueueRecv, 0x10000, 0x20000100, 0, 0, 1⟩ ∈ s.log ∧
    s.step boardLayout .go = some s' ∧ s.k.ram 0x20000100 = 0 ∧ s'.k.ram 0x20000100 = 7 ∧
    ¬ UserWritable boardLayout (s.k.tcb 1) 0x20000100 ∧ ¬ s.TouchesCaller boardLayout .go := by
  obtain ⟨s, hs, ⟨hpc, hcur, hitem, hsize, hposted, hzero, hbelow⟩, hreach⟩ :=
    boardRun_comes recvIntoKernel
      (P := fun s => s.pc 0 = .enter (.queuePop 0x20006428 0x20000100 0) (.serve 1) ∧
        s.k.currentTask = some 0 ∧
        (s.k.queue 0x20006428).head ≠ (s.k.queue 0x20006428).tail ∧
        (s.k.queue 0x20006428).itemSize = 4 ∧
        .posted ⟨syscallQueueRecv, 0x10000, 0x20000100, 0, 0, 1⟩ ∈ s.log ∧
        s.k.ram 0x20000100 = 0 ∧ 0x20000100 < (s.k.tcb 1).stackBase)
      (by decide +kernel) fun _ hs => hs
  obtain ⟨s', _, hstep, hseven⟩ := boardRun_snoc (l := .go)
    (P := fun s => s.k.ram 0x20000100 = 7) hs (by decide +kernel)
  have hout : ¬ UserWritable boardLayout (s.k.tcb 1) 0x20000100 := by
    have hheap : 0x20000100 < boardLayout.userHeap.start := by decide
    simp only [UserWritable, inStack, inUserHeap]
    omega
  refine ⟨s, s', hreach, hposted, hstep, hzero, hseven, hout, fun h => hout ?_⟩
  refine (h rfl 0 1 hcur (by rw [hpc]; rfl)).writes _ (pop_writes hpc hitem (le_refl _) ?_)
  rw [hsize]
  decide

end Crest
