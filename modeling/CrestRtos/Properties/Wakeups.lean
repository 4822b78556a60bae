import CrestRtos.Properties.Queues
import Mathlib.Data.Finset.Card
import Mathlib.Data.Fintype.Basic

/-!
# No wake-up of a queue is lost

A push hands a wake-up to one receiver and a pop to one sender, and the woken task
looks at the queue again when it runs. While a receiver waits, the queue holds no
more items than there are receivers on their way; while a sender waits, it has no
more room than there are senders on their way.
-/

namespace Crest
open ByteMemory MachineWord RingBuffer

/-- The tasks taken off `w` by a push or a pop that have not looked again. -/
def handed (log : List Event) (w : WaitList) : Finset Tid :=
  Finset.univ.filter fun t => waitPhase log t = .handed w

/-- While somebody waits on `w`, enough woken tasks are on their way to take `n`. -/
def Covered (log : List Event) (w : WaitList) (n : Nat) : Prop :=
  (∃ t ms, waitPhase log t = .waiting w ms) → n ≤ (handed log w).card

section Covered
variable {log log' : List Event} {w : WaitList} {n m : Nat} {t u : Tid}

theorem mem_handed : t ∈ handed log w ↔ waitPhase log t = .handed w := by
  simp [handed]

theorem covered_zero (log : List Event) (w : WaitList) : Covered log w 0 :=
  fun _ => Nat.zero_le _

theorem covered_of_empty (h : ∀ t ms, waitPhase log t ≠ .waiting w ms) : Covered log w n := by
  rintro ⟨t, ms, hphase⟩
  exact absurd hphase (h t ms)

theorem Covered.mono (h : Covered log w n) (hle : m ≤ n) : Covered log w m :=
  fun hwait => Nat.le_trans hle (h hwait)

/-- Nobody joins the list, and nobody on the way gets lost. -/
theorem Covered.of_phases (h : Covered log w n)
    (hwait : ∀ t ms, waitPhase log' t = .waiting w ms → waitPhase log t = .waiting w ms)
    (hhanded : ∀ t, waitPhase log t = .handed w → waitPhase log' t = .handed w) :
    Covered log' w n := by
  rintro ⟨t, ms, hphase⟩
  refine Nat.le_trans (h ⟨t, ms, hwait t ms hphase⟩) (Finset.card_le_card ?_)
  intro x hx
  exact mem_handed.mpr (hhanded x (mem_handed.mp hx))

/-- A hand-off of a waiter covers one more. -/
theorem Covered.handoff {ms : Nat} (h : Covered log w n)
    (hphase : waitPhase log u = .waiting w ms) :
    Covered (.handoff w u :: log) w (n + 1) := by
  intro _
  have hout : u ∉ handed log w := by
    rw [mem_handed, hphase]
    simp
  have hset : handed (.handoff w u :: log) w = insert u (handed log w) := by
    ext t
    rw [mem_handed, Finset.mem_insert, mem_handed, waitPhase_cons]
    by_cases ht : u = t
    · subst ht
      simp [WaitPhase.next, WaitPhase.leave, hphase]
    · simp [WaitPhase.next, ht, Ne.symm ht]
  rw [hset, Finset.card_insert_of_notMem hout]
  exact Nat.succ_le_succ (h ⟨u, ms, hphase⟩)

/-- A hand-off on another list. -/
theorem Covered.past_handoff {w' : WaitList} {ms : Nat} (h : Covered log w n)
    (hphase : waitPhase log u = .waiting w' ms) : Covered (.handoff w' u :: log) w n := by
  refine h.of_phases ?_ ?_
  · intro t ms' hwait
    rw [waitPhase_cons] at hwait
    by_cases ht : u = t
    · subst ht
      simp [WaitPhase.next, WaitPhase.leave, hphase] at hwait
    · simpa [WaitPhase.next, ht] using hwait
  · intro t hhanded
    rw [waitPhase_cons, hhanded]
    have hne : u ≠ t := by
      rintro rfl
      rw [hphase] at hhanded
      cases hhanded
    simp [WaitPhase.next, hne]

/-- A task goes to sleep on another list. -/
theorem Covered.past_block {w' : WaitList} {ms : Nat} (h : Covered log w n) (hne : w' ≠ w)
    (hidle : waitPhase log u = .idle) : Covered (.block w' u ms :: log) w n := by
  refine h.of_phases ?_ ?_
  · intro t ms' hwait
    rw [waitPhase_cons] at hwait
    by_cases ht : u = t
    · subst ht
      simp [WaitPhase.next, hidle, hne] at hwait
    · simpa [WaitPhase.next, ht] using hwait
  · intro t hhanded
    rw [waitPhase_cons, hhanded]
    have hnt : u ≠ t := by
      rintro rfl
      rw [hidle] at hhanded
      cases hhanded
    simp [WaitPhase.next, hnt]

/-- A woken task that looks again covers one less. -/
theorem Covered.recheck (h : Covered log w n) (hphase : waitPhase log u = .handed w) :
    Covered (.recheck w u :: log) w (n - 1) := by
  rintro ⟨t, ms, hwait⟩
  have hset : handed (.recheck w u :: log) w = (handed log w).erase u := by
    ext t
    rw [mem_handed, Finset.mem_erase, mem_handed, waitPhase_cons]
    by_cases ht : u = t
    · subst ht
      simp only [WaitPhase.next, if_true, hphase, true_and]
      split <;> simp
    · simp [WaitPhase.next, ht, Ne.symm ht]
  have hbefore : waitPhase log t = .waiting w ms :=
    waiting_before (n := [.recheck w u]) (fun e he => by
      rw [List.mem_singleton.mp he]
      simp [Event.object]) hwait
  have hle := h ⟨t, ms, hbefore⟩
  rw [hset, Finset.card_erase_of_mem (mem_handed.mpr hphase)]
  omega

/-- An event that no wait takes notice of. -/
theorem Covered.unnoticed {e : Event} (h : Covered log w n)
    (he : ∀ log x, waitPhase (e :: log) x = waitPhase log x) : Covered (e :: log) w n :=
  h.of_phases (fun t _ hwait => (he log t).symm.trans hwait) fun t hhanded =>
    (he log t).trans hhanded

/-- Events of no object leave a woken task on its way. -/
theorem handed_after {events : List Event} (hqueue : w.isQueue = true)
    (hn : ∀ e ∈ events, e.offObject = true) (hwhole : waitPhase (events ++ log) t ≠ .broken)
    (h : waitPhase log t = .handed w) : waitPhase (events ++ log) t = .handed w := by
  induction events with
  | nil => exact h
  | cons e events ih =>
    have hrest : waitPhase (events ++ log) t = .handed w := by
      refine ih (fun x hx => hn x (List.mem_cons_of_mem e hx)) fun hbroken => hwhole ?_
      rw [List.cons_append, waitPhase_cons, hbroken, next_broken]
    have he := hn e List.mem_cons_self
    rw [List.cons_append, waitPhase_cons, hrest] at hwhole ⊢
    have hconclude : ∀ v, (WaitPhase.handed w).conclude v = .broken := by
      intro v
      simp [WaitPhase.conclude, hqueue]
    cases e with
    | expire w' x =>
      simp only [WaitPhase.next] at hwhole ⊢
      split at hwhole
      · exact absurd rfl hwhole
      · rename_i hx
        rw [if_neg hx]
    | result x v =>
      simp only [WaitPhase.next, hconclude] at hwhole ⊢
      split at hwhole
      · exact absurd rfl hwhole
      · rename_i hx
        rw [if_neg hx]
    | answered x v =>
      simp only [WaitPhase.next, hconclude] at hwhole ⊢
      split at hwhole
      · exact absurd rfl hwhole
      · rename_i hx
        rw [if_neg hx]
    | posted item => rfl
    | taken item => rfl
    | resumed x v => rfl
    | _ => cases he

end Covered

def Queue.stored (q : Queue) : Nat := count q.slots q.head q.tail

/-- The items that fit next to those stored; one slot always stays free. -/
def Queue.room (q : Queue) : Nat := q.slots - 1 - q.stored

/-- Items are covered by receivers on their way, and room by senders. -/
structure Roused (k : Kernel) (log : List Event) (q : Nat) : Prop where
  recv : Covered log (.recv q) (k.queue q).stored
  send : Covered log (.send q) (k.queue q).room

section Roused
variable {k k' : Kernel} {W : WaitMap} {u : Tid} {op : Op} {q : Nat} {log : List Event}

theorem stored_of_core {v v' : Queue} (h : v'.core = v.core) :
    v'.stored = v.stored ∧ v'.room = v.room := by
  have hslots : v'.slots = v.slots := (congrArg Queue.slots h :)
  have hhead : v'.head = v.head := (congrArg Queue.head h :)
  have htail : v'.tail = v.tail := (congrArg Queue.tail h :)
  simp only [Queue.room, Queue.stored, hslots, hhead, htail, and_self]

theorem stored_of_store {v : Queue} (h : k'.store.queue q = v) :
    (k'.queue q).stored = v.stored ∧ (k'.queue q).room = v.room := by
  have hcore : (k'.queue q).core = v.core := by
    rw [← h]
    rfl
  exact stored_of_core hcore

/-- A critical section leaves the woken tasks on their way. -/
theorem Ready.handed_after {t : Tid} {w : WaitList} (h : Ready k log W u op)
    (hphase : waitPhase log t = .handed w) :
    waitPhase (op.note k (op.enter k u).1 u (op.enter k u).2 ++ log) t = .handed w := by
  obtain ⟨W', heff⟩ := enter_effect op h.lists h.apart h.blocker
  generalize op.note k (op.enter k u).1 u (op.enter k u).2 = notes at heff ⊢
  generalize (op.enter k u).1 = k' at heff
  generalize (op.enter k u).2 = out at heff
  cases heff with
  | ret htasks hlists hnotes => rw [hnotes, hphase]
  | pend htasks hlists hnotes => rw [hnotes, hphase]
  | sleep hop hticks hlists hnotes => rw [hnotes, hphase]
  | block hop hms htasks hlists hmem hnotes =>
    rw [hnotes, hphase]
    have hne : op.blocker u ≠ t := by
      rintro rfl
      rw [h.idle] at hphase
      cases hphase
    simp [WaitPhase.next, hne]
  | @wake _ _ w' x r v hop hw htasks hlists hnotes =>
    rw [hnotes, hphase]
    have hne : x ≠ t := by
      rintro rfl
      obtain ⟨ms, hwait⟩ := (h.waiting x w').mp (by rw [hw]; exact List.mem_cons_self)
      rw [hphase] at hwait
      cases hwait
    simp [WaitPhase.next, hne]

theorem pushed_counts (item : Nat) (hq : (k.queue q).Shaped)
    (hroom : (k.queue q).nextIndex (k.queue q).tail ≠ (k.queue q).head) :
    (k.pushedQueue q item).stored = (k.queue q).stored + 1 ∧
      (k.pushedQueue q item).room = (k.queue q).room - 1 := by
  have hnext := hq.nextIndex_eq hq.tail
  rw [hnext] at hroom
  have hcount := count_push hq.head hq.tail hroom
  have hstored : (k.pushedQueue q item).stored = (k.queue q).stored + 1 := by
    rw [← hnext] at hcount
    exact hcount
  refine ⟨hstored, ?_⟩
  have hslots : (k.pushedQueue q item).slots = (k.queue q).slots := rfl
  rw [Queue.room, hstored, hslots, Queue.room]
  omega

theorem popped_counts (hq : (k.queue q).Shaped) (hitem : (k.queue q).head ≠ (k.queue q).tail) :
    (k.poppedQueue q).stored = (k.queue q).stored - 1 ∧
      (k.poppedQueue q).room = (k.queue q).room + 1 := by
  have hnext := hq.nextIndex_eq hq.head
  have hcount := count_pop hq.head hq.tail hitem
  have hlt := count_lt (k.queue q).head hq.tail
  have hstored : (k.poppedQueue q).stored = (k.queue q).stored - 1 := by
    rw [← hnext] at hcount
    have hsame : (k.queue q).stored = (k.poppedQueue q).stored + 1 := hcount
    omega
  refine ⟨hstored, ?_⟩
  have hslots : (k.poppedQueue q).slots = (k.queue q).slots := rfl
  have hsome : (k.queue q).stored = _ := hcount
  have hall : (k.queue q).stored < (k.queue q).slots := hlt
  rw [Queue.room, hstored, hslots, Queue.room]
  omega

theorem full_room (hq : (k.queue q).Shaped)
    (hfull : (k.queue q).nextIndex (k.queue q).tail = (k.queue q).head) :
    (k.queue q).room = 0 := by
  rw [hq.nextIndex_eq hq.tail] at hfull
  have hcount := (full_iff hq.head hq.tail).mp hfull
  rw [Queue.room, Queue.stored, hcount, Nat.sub_self]

theorem empty_stored (hq : (k.queue q).Shaped) (hempty : (k.queue q).head = (k.queue q).tail) :
    (k.queue q).stored = 0 := (count_eq_zero_iff hq.head hq.tail).mpr hempty

/-- The section hands a wake-up to the first task of `w`, or finds `w` empty. -/
theorem wakeFirst_cases {w : WaitList} {k₁ : Kernel} (h : Ready k log W u op)
    (hlists : Lists k₁ W) :
    ((wakeFirst k₁ w).2 = .ret 0 ∧ ∀ t ms, waitPhase log t ≠ .waiting w ms) ∨
      ∃ x ms, (wakeFirst k₁ w).2 = .wake x 0 ∧ waitPhase log x = .waiting w ms := by
  rw [wakeFirst]
  cases hhead : k₁.head w with
  | none =>
    refine Or.inl ⟨rfl, fun t ms hphase => ?_⟩
    have hmem := (h.waiting t w).mpr ⟨ms, hphase⟩
    rw [(head_eq_none_iff hlists w).mp hhead] at hmem
    cases hmem
  | some x =>
    obtain ⟨r, hr⟩ := head_eq_some hlists hhead
    obtain ⟨ms, hphase⟩ := (h.waiting x w).mp (by rw [hr]; exact List.mem_cons_self)
    exact Or.inr ⟨x, ms, rfl, hphase⟩

section Pass
variable {ready : Kernel → Prop} [DecidablePred ready] {copy : Kernel → Kernel}
  {w w' : WaitList} {copied found : Event} {n ms : Nat}

/-- A pass that copies has covered one more on the list that it wakes. -/
theorem Covered.gained (h : Ready k log W u op) (hcopy : Lists (copy k) W) (hready : ready k)
    (hcopied : ∀ log x, waitPhase (copied :: log) x = waitPhase log x) (hw : Covered log w n) :
    Covered (passNote w w' copied found u ms (queuePass ready copy w w' k u ms).2 ++ log) w
      (n + 1) := by
  rw [queuePass, if_pos hready]
  rcases wakeFirst_cases h hcopy with ⟨hret, hnobody⟩ | ⟨x, ms', hwake, hphase⟩
  · rw [hret]
    exact covered_of_empty fun t ms => (hcopied log t).symm ▸ hnobody t ms
  · rw [hwake]
    exact (hw.unnoticed hcopied).handoff ((hcopied log x).trans hphase)

/-- It leaves the other lists as they are. -/
theorem Covered.past_copy {v : WaitList} (h : Ready k log W u op) (hcopy : Lists (copy k) W)
    (hready : ready k) (hcopied : ∀ log x, waitPhase (copied :: log) x = waitPhase log x)
    (hv : Covered log v n) :
    Covered (passNote w w' copied found u ms (queuePass ready copy w w' k u ms).2 ++ log) v n := by
  rw [queuePass, if_pos hready]
  rcases wakeFirst_cases h hcopy with ⟨hret, _⟩ | ⟨x, ms', hwake, hphase⟩
  · rw [hret]
    exact hv.unnoticed hcopied
  · rw [hwake]
    exact (hv.unnoticed hcopied).past_handoff ((hcopied log x).trans hphase)

/-- A pass that cannot copy gives up or waits, on a list that is not `w`. -/
theorem Covered.refused (hready : ¬ ready k) (hne : w' ≠ w) (hidle : waitPhase log u = .idle)
    (hfound : ∀ log x, waitPhase (found :: log) x = waitPhase log x) (hw : Covered log w n) :
    Covered (passNote w w' copied found u ms (queuePass ready copy w w' k u ms).2 ++ log) w n := by
  rw [queuePass, if_neg hready]
  by_cases hms : ms = 0
  · rw [if_pos hms]
    exact hw.unnoticed hfound
  · rw [if_neg hms]
    exact (hw.unnoticed hfound).past_block hne ((hfound log u).trans hidle)

end Pass

theorem Roused.push {item ms : Nat} (hready : Ready k log W u (.queuePush q item ms))
    (hrecv : Covered log (.recv q) (k.queue q).stored)
    (hsend : Covered log (.send q) ((k.queue q).room - 1)) :
    Roused (zImplQueuePush k q u item ms).1
      (pushNote k q u item ms (zImplQueuePush k q u item ms).2 ++ log) q := by
  have hq := hready.shaped q rfl
  have hstore := congrFun (congrArg Store.queue (push_store k u ms q item)) q
  rw [zImplQueuePush_pass] at hstore ⊢
  by_cases hroom : (k.queue q).nextIndex (k.queue q).tail ≠ (k.queue q).head
  · rw [if_pos hroom] at hstore
    obtain ⟨hstored, hfree⟩ := pushed_counts item hq hroom
    have hcounts := stored_of_store (hstore.trans (Function.update_self q _ k.store.queue))
    rw [hstored, hfree] at hcounts
    have hcopy : Lists (copyIn k q item) W := lists_setQueue rfl rfl hready.lists
    constructor
    · rw [hcounts.1]
      exact hrecv.gained hready hcopy hroom fun _ _ => rfl
    · rw [hcounts.2]
      exact hsend.past_copy hready hcopy hroom fun _ _ => rfl
  · rw [if_neg hroom] at hstore
    have hcounts := stored_of_store hstore
    constructor
    · rw [hcounts.1]
      exact hrecv.refused hroom (by simp) hready.idle fun _ _ => rfl
    · rw [hcounts.2.trans (full_room hq (not_not.mp hroom))]
      exact covered_zero _ _

theorem Roused.pop {item ms : Nat} (hready : Ready k log W u (.queuePop q item ms))
    (hrecv : Covered log (.recv q) ((k.queue q).stored - 1))
    (hsend : Covered log (.send q) (k.queue q).room) :
    Roused (zImplQueuePop k q u item ms).1
      (popNote (zImplQueuePop k q u item ms).1 q u item ms (zImplQueuePop k q u item ms).2 ++ log)
      q := by
  have hq := hready.shaped q rfl
  have hstore := congrFun (congrArg Store.queue (pop_store k u ms q item)) q
  rw [zImplQueuePop_pass] at hstore ⊢
  by_cases hitem : (k.queue q).head ≠ (k.queue q).tail
  · rw [if_pos hitem] at hstore
    obtain ⟨hstored, hfree⟩ := popped_counts hq hitem
    have hcounts := stored_of_store (hstore.trans (Function.update_self q _ k.store.queue))
    rw [hstored, hfree] at hcounts
    have hcopy : Lists (copyOut k q item) W := lists_setQueue rfl rfl hready.lists
    constructor
    · rw [hcounts.1]
      exact hrecv.past_copy hready hcopy hitem fun _ _ => rfl
    · rw [hcounts.2]
      exact hsend.gained hready hcopy hitem fun _ _ => rfl
  · rw [if_neg hitem] at hstore
    have hcounts := stored_of_store hstore
    constructor
    · rw [hcounts.1.trans (empty_stored hq (not_not.mp hitem))]
      exact covered_zero _ _
    · rw [hcounts.2]
      exact hsend.refused hitem (by simp) hready.idle fun _ _ => rfl

/-- The second pass of a call gives up the place that its wake-up had. -/
theorem Covered.pass {pre : List Event} {w : WaitList} {n : Nat} (h : Covered log w n)
    (hpass : Pass log u op pre) :
    Covered (pre ++ log) w (if op.waitList = some w then n - 1 else n) := by
  cases hpass with
  | first =>
    split
    · exact h.mono (Nat.sub_le n 1)
    · exact h
  | @second w' hw hqueue hphase =>
    by_cases hww : w' = w
    · subst hww
      rw [if_pos hw]
      exact h.recheck hphase
    · rw [if_neg (by rw [hw]; simp [hww])]
      refine h.of_phases ?_ ?_
      · intro t ms hwait
        refine waiting_before (n := [.recheck w' u]) ?_ hwait
        intro e he
        rw [List.mem_singleton.mp he]
        simp [Event.object]
      · intro t hhanded
        have hne : u ≠ t := by
          rintro rfl
          rw [hphase] at hhanded
          exact hww (WaitPhase.handed.inj hhanded)
        simpa [WaitPhase.next, hne] using hhanded

theorem Roused.enter {pre : List Event} (h : Roused k log q) (hpass : Pass log u op pre)
    (hready : Ready k (pre ++ log) W u op) :
    Roused (op.enter k u).1 (op.note k (op.enter k u).1 u (op.enter k u).2 ++ (pre ++ log)) q := by
  have hrecv := h.recv.pass hpass
  have hsend := h.send.pass hpass
  by_cases hobject : op.object = some (q, .queue)
  · cases op with
    | queuePush a item ms =>
      obtain rfl : a = q := congrArg Prod.fst (Option.some.inj hobject)
      exact Roused.push hready (by simpa [Op.waitList] using hrecv)
        (by simpa [Op.waitList] using hsend)
    | queuePop a item ms =>
      obtain rfl : a = q := congrArg Prod.fst (Option.some.inj hobject)
      exact Roused.pop hready (by simpa [Op.waitList] using hrecv)
        (by simpa [Op.waitList] using hsend)
    | _ => cases hobject
  · have hcounts := stored_of_core (congrArg Queue.core ((enter_touches k u op).queue q hobject))
    have hoff : ∀ w : WaitList, w.addr = q → w.kind = .queue → op.waitList ≠ some w := by
      intro w ha hk hw
      refine hobject ?_
      cases op <;> cases hw <;> simp_all [WaitList.addr, WaitList.kind, Op.object]
    have hwait : ∀ (w : WaitList) (ha : w.addr = q) (hk : w.kind = .queue) t ms,
        waitPhase (op.note k (op.enter k u).1 u (op.enter k u).2 ++ (pre ++ log)) t =
          .waiting w ms → waitPhase (pre ++ log) t = .waiting w ms := by
      intro w ha hk t ms
      exact waiting_before (note_other (by rw [ha, hk]; exact hobject))
    rw [if_neg (hoff _ rfl rfl)] at hrecv hsend
    refine ⟨?_, ?_⟩
    · have hstored : ((op.enter k u).1.queue q).stored = (k.queue q).stored := hcounts.1
      rw [hstored]
      exact hrecv.of_phases (hwait _ rfl rfl) fun t => hready.handed_after
    · have hroom : ((op.enter k u).1.queue q).room = (k.queue q).room := hcounts.2
      rw [hroom]
      exact hsend.of_phases (hwait _ rfl rfl) fun t => hready.handed_after

theorem Roused.quiet {n : List Event} (h : Roused k log q) (hquiet : k.Quiet k')
    (hn : ∀ e ∈ n, e.offObject = true) (hwhole : ∀ t, waitPhase (n ++ log) t ≠ .broken) :
    Roused k' (n ++ log) q := by
  obtain ⟨hstored, hroom⟩ := stored_of_core (hquiet.queue q)
  have hwait : ∀ w t ms, waitPhase (n ++ log) t = .waiting w ms →
      waitPhase log t = .waiting w ms := by
    intro w t ms
    refine waiting_before fun e he => ?_
    rw [object_none (hn e he)]
    simp
  refine ⟨?_, ?_⟩
  · rw [hstored]
    exact h.recv.of_phases (hwait _) fun t => handed_after rfl hn (hwhole t)
  · rw [hroom]
    exact h.send.of_phases (hwait _) fun t => handed_after rfl hn (hwhole t)

theorem Roused.create {c : Creation} {p : Nat} (h : Roused k log q)
    (hnew : ∀ t w ms, waitPhase log t = .waiting w ms → w.addr ≠ p) :
    Roused (c.init k p) (c.note (c.init k p) p ++ log) q := by
  cases c with
  | queue itemSize size =>
    by_cases hp : p = q
    · subst hp
      exact ⟨covered_of_empty fun t ms hphase => hnew t _ ms hphase rfl,
        covered_of_empty fun t ms hphase => hnew t _ ms hphase rfl⟩
    · have hqueue : ((Creation.queue itemSize size).init k p).queue q = k.queue q :=
        Function.update_of_ne (Ne.symm hp) _ k.queue
      refine ⟨?_, ?_⟩
      · rw [hqueue]
        exact h.recv
      · rw [hqueue]
        exact h.send
  | sem initial => exact ⟨h.recv, h.send⟩
  | mutex => exact ⟨h.recv, h.send⟩

end Roused

/-- While a task waits to receive, the stored items are at most the receivers on
their way, and while one waits to send, the free room is at most the senders on
their way. Once nobody is on the way, no receiver sleeps next to an item and no
sender next to room. -/
theorem no_lost_wakeup {L : Alloc.Layout} {s : Sys} (hL : L.heap.Placed) (h : s.Reached L)
    (q : Nat) : ∃ W, Lists s.k W ∧
      (W (.recv q) ≠ [] → (s.k.queue q).stored ≤ (handed s.log (.recv q)).card) ∧
      (W (.send q) ≠ [] → (s.k.queue q).room ≤ (handed s.log (.send q)).card) ∧
      (handed s.log (.recv q) = ∅ → W (.recv q) = [] ∨ (s.k.queue q).stored = 0) ∧
      (handed s.log (.send q) = ∅ → W (.send q) = [] ∨ (s.k.queue q).room = 0) := by
  obtain ⟨g, hg⟩ := h.inv hL
  have hroused : Roused s.k s.log q := by
    refine h.objects (P := fun k log => Roused k log q) hL ?_ ?_ ?_ ?_
    · exact fun k _ => ⟨covered_of_empty (by simp), covered_of_empty (by simp)⟩
    · exact fun k k' n log hp hquiet hn hwhole => hp.quiet hquiet hn hwhole
    · exact fun k W u op pre log hp hpass hready => hp.enter hpass hready
    · exact fun k c p log hp _ hnew => hp.create hnew
  have hwaits : ∀ w, g.lists w ≠ [] → ∃ t ms, waitPhase s.log t = .waiting w ms := by
    intro w hne
    obtain ⟨t, ht⟩ := List.exists_mem_of_ne_nil _ hne
    obtain ⟨ms, hphase⟩ := (hg.placed.waiting_iff t w).mp ht
    exact ⟨t, ms, hphase⟩
  have hrecv := fun hne => hroused.recv (hwaits (.recv q) hne)
  have hsend := fun hne => hroused.send (hwaits (.send q) hne)
  refine ⟨g.lists, hg.placed.lists, hrecv, hsend, ?_, ?_⟩
  · intro hnone
    by_cases hne : g.lists (.recv q) = []
    · exact Or.inl hne
    · have hle := hrecv hne
      rw [hnone, Finset.card_empty] at hle
      exact Or.inr (Nat.le_zero.mp hle)
  · intro hnone
    by_cases hne : g.lists (.send q) = []
    · exact Or.inl hne
    · have hle := hsend hne
      rw [hnone, Finset.card_empty] at hle
      exact Or.inr (Nat.le_zero.mp hle)

/-- Task 2 has been woken for the one item in the queue, and has not run yet. -/
theorem no_lost_wakeup_board :
    ∃ s, boardRun (boardReady ++ [.call (.create (.queue 4 2)), .go, .go, .go,
        .call (.taskDelay 1), .go, .go, .pendSV 0x2001F000,
        .call (.queuePop 0x10000 0x20000200 waitForever), .go, .go, .tick, .pendSV 0x2001F000,
        .call (.queuePush 0x10000 0x20000100 0), .go]) = some s ∧
      ((s.k.queue 0x20006428).stored = 1 ∧ handed s.log (.recv 0x20006428) = {2}) ∧
      ∀ q, ∃ W, Lists s.k W ∧
        (W (.recv q) ≠ [] → (s.k.queue q).stored ≤ (handed s.log (.recv q)).card) ∧
        (W (.send q) ≠ [] → (s.k.queue q).room ≤ (handed s.log (.send q)).card) ∧
        (handed s.log (.recv q) = ∅ → W (.recv q) = [] ∨ (s.k.queue q).stored = 0) ∧
        (handed s.log (.send q) = ∅ → W (.send q) = [] ∨ (s.k.queue q).room = 0) :=
  boardRun_comes _ (by decide +kernel) fun _ hs => no_lost_wakeup boardLayout_placed hs

end Crest
