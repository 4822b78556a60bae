import CrestRtos.System.Deeds

/-!
# Mutexes exclude

`holds` reads off the log which tasks have been granted a mutex and have not
unlocked it since. That is the owner and nobody else, and a mutex is granted to
one task at a time, directly or by the hand-off of an unlock.
-/

namespace Crest
open IntrusiveList

def Holding.next (m : Nat) (t : Tid) (e : Event) (b : Bool) : Bool :=
  match e with
  | .mutexCreated a => if a = m then false else b
  | .locked a x => if a = m ∧ x = t then true else b
  | .unlocked a x => if a = m ∧ x = t then false else b
  | _ => b

/-- `t` has been granted the mutex at `m` and has not unlocked it since. -/
def holds (log : List Event) (m : Nat) (t : Tid) : Bool :=
  log.foldr (Holding.next m t) false

/-- The task may come to own `m`: it waits for nothing, or `m` was handed to it. -/
def WaitPhase.MayLock (m : Nat) (p : WaitPhase) : Prop := p = .idle ∨ p = .handed (.mutex m)

/-- Each grant finds the mutex with nobody, each re-lock and each unlock finds it
with the task itself. -/
def Exclusive (m : Nat) : List Event → Prop
  | [] => True
  | .locked a t :: log =>
    (a = m → (∀ x, holds log m x = false) ∧ (waitPhase log t).MayLock m) ∧ Exclusive m log
  | .relocked a t :: log => (a = m → holds log m t = true) ∧ Exclusive m log
  | .unlocked a t :: log => (a = m → holds log m t = true) ∧ Exclusive m log
  | _ :: log => Exclusive m log

/-- The history of the mutex at `m` and its record agree. -/
structure Mutual (k : Kernel) (log : List Event) (m : Nat) : Prop where
  holders : ∀ t, holds log m t = true ↔ (k.mutex m).owner = some t
  waiters : ∀ t ms, waitPhase log t = .waiting (.mutex m) ms →
    ∃ o, (k.mutex m).owner = some o ∧ o ≠ t
  history : Exclusive m log

section Mutual
variable {k k' : Kernel} {W : WaitMap} {u : Tid} {op : Op} {m : Nat} {log n : List Event}

@[simp] theorem holds_cons (e : Event) (log : List Event) (m : Nat) (t : Tid) :
    holds (e :: log) m t = Holding.next m t e (holds log m t) := rfl

theorem holds_skip (t : Tid) (hn : ∀ e ∈ n, e.object ≠ some (m, .mutex)) :
    holds (n ++ log) m t = holds log m t := by
  refine foldr_skip ?_ hn
  intro e y he
  cases e with
  | mutexCreated a => exact if_neg fun heq => he (by rw [heq]; rfl)
  | locked a x => exact if_neg fun heq => he (by rw [heq.1]; rfl)
  | unlocked a x => exact if_neg fun heq => he (by rw [heq.1]; rfl)
  | _ => rfl

theorem exclusive_skip (hn : ∀ e ∈ n, e.object ≠ some (m, .mutex)) (h : Exclusive m log) :
    Exclusive m (n ++ log) := by
  induction n with
  | nil => exact h
  | cons e n ih =>
    have hrest := ih fun x hx => hn x (List.mem_cons_of_mem e hx)
    have he := hn e List.mem_cons_self
    cases e with
    | locked a t => exact ⟨fun heq => absurd (by rw [heq]; rfl) he, hrest⟩
    | relocked a t => exact ⟨fun heq => absurd (by rw [heq]; rfl) he, hrest⟩
    | unlocked a t => exact ⟨fun heq => absurd (by rw [heq]; rfl) he, hrest⟩
    | _ => exact hrest

/-- A step that is not about the mutex. -/
theorem Mutual.other (h : Mutual k log m) (howner : (k'.mutex m).owner = (k.mutex m).owner)
    (hn : ∀ e ∈ n, e.object ≠ some (m, .mutex)) : Mutual k' (n ++ log) m := by
  constructor
  · intro t
    rw [holds_skip t hn, howner]
    exact h.holders t
  · intro t ms hphase
    rw [howner]
    exact h.waiters t ms (waiting_before hn hphase)
  · exact exclusive_skip hn h.history

/-- Nobody holds a mutex without an owner. -/
theorem Mutual.nobody (h : Mutual k log m) (hfree : (k.mutex m).owner = none) (t : Tid) :
    holds log m t = false := by
  cases hb : holds log m t with
  | false => rfl
  | true =>
    rw [(h.holders t).mp hb] at hfree
    cases hfree

/-- A task waits for a mutex that another task owns. -/
theorem Mutual.blocked {t : Tid} (ms : Nat) (h : Mutual k log m)
    (howner : (k'.mutex m).owner = (k.mutex m).owner) (hown : (k.mutex m).owner ≠ some t)
    (hfree : (k.mutex m).owner ≠ none) : Mutual k' (.block (.mutex m) t ms :: log) m := by
  refine ⟨?_, ?_, h.history⟩
  · intro x
    rw [howner]
    exact h.holders x
  · intro x ms' hphase
    rw [howner]
    by_cases hx : t = x
    · subst hx
      obtain ⟨o, ho⟩ := Option.ne_none_iff_exists'.mp hfree
      exact ⟨o, ho, fun heq => hown (by rw [ho, heq])⟩
    · refine h.waiters x ms' ?_
      simpa [WaitPhase.next, hx] using hphase

theorem Mutual.lock (direct : Bool) {t : Tid} (ms : Nat) (h : Mutual k log m)
    (hidle : waitPhase log t = .idle) :
    Mutual (lockSection direct k m t ms).1
      (lockNote k m t ms (lockSection direct k m t ms).2 ++ log)
      m := by
  have hstore := congrArg Store.owner (lock_store k t ms direct m)
  rw [lockSection] at hstore ⊢
  by_cases hown : (k.mutex m).owner = some t
  · rw [if_pos hown]
    have hnote : lockNote k m t ms (.ret 0) = [.relocked m t] := if_pos hown
    rw [hnote]
    exact ⟨h.holders, h.waiters, fun _ => (h.holders t).mpr hown, h.history⟩
  · rw [if_neg hown] at hstore ⊢
    by_cases hfree : (k.mutex m).owner = none
    · rw [if_pos hfree] at hstore ⊢
      have hnote : lockNote k m t ms (.ret 0) = [.locked m t] := by
        simp [lockNote, hown]
      rw [hnote]
      have howner : ((k.setMutex m { k.mutex m with owner := some t }).mutex m).owner = some t := by
        simp [Kernel.setMutex]
      refine ⟨?_, ?_, fun _ => ⟨h.nobody hfree, Or.inl hidle⟩, h.history⟩
      · intro x
        rw [howner]
        by_cases hx : t = x
        · subst hx
          simp [Holding.next]
        · simp [Holding.next, hx, h.nobody hfree x]
      · intro x ms' hphase
        obtain ⟨o, ho, _⟩ := h.waiters x ms' hphase
        rw [hfree] at ho
        cases ho
    · rw [if_neg hfree] at hstore ⊢
      by_cases hms : ms = 0
      · rw [if_pos hms]
        have hnote : lockNote k m t ms (.ret minusOne) = [] := by
          simp [lockNote, hown, minusOne]
        rw [hnote]
        exact h
      · rw [if_neg hms] at hstore ⊢
        rw [if_neg hfree] at hstore
        exact h.blocked ms (congrFun hstore m) hown hfree

theorem Mutual.unlock {t : Tid} (h : Mutual k log m) (hlists : Lists k W)
    (hwaiting : ∀ x w, x ∈ W w ↔ ∃ ms, waitPhase log x = .waiting w ms) :
    Mutual (unlockSection k m t).1 (unlockNote m t (unlockSection k m t).2 ++ log) m := by
  rw [unlockSection]
  by_cases hown : (k.mutex m).owner = some t
  · rw [if_neg (by simp [hown])]
    have hheld := (h.holders t).mpr hown
    have honly : ∀ x, holds log m x = true → t = x := by
      intro x hx
      have hother := (h.holders x).mp hx
      exact Option.some.inj (hown.symm.trans hother)
    have hfreed : ∀ x, holds (.unlocked m t :: log) m x = false := by
      intro x
      by_cases hx : t = x
      · simp [Holding.next, hx]
      · cases hb : holds log m x with
        | false => simp [Holding.next, hx, hb]
        | true => exact absurd (honly x hb) hx
    cases hlist : (k.mutex m).waitList with
    | none =>
      have howner : ((k.setMutex m { k.mutex m with owner := none }).mutex m).owner = none := by
        simp [Kernel.setMutex]
      refine ⟨?_, ?_, fun _ => hheld, h.history⟩
      · intro x
        rw [howner]
        simp [unlockNote, hfreed x]
      · intro x ms hphase
        have hmem : x ∈ W (.mutex m) := (hwaiting x _).mpr ⟨ms, hphase⟩
        have hnil := (head_eq_none_iff hlists (.mutex m)).mp hlist
        rw [hnil] at hmem
        cases hmem
    | some next =>
      obtain ⟨rest, hrest⟩ := head_eq_some (w := .mutex m) hlists hlist
      obtain ⟨ms, hphase⟩ := (hwaiting next (.mutex m)).mp (by rw [hrest]; exact List.mem_cons_self)
      have hhanded : waitPhase (.handoff (.mutex m) next :: .unlocked m t :: log) next =
          .handed (.mutex m) := by
        simp [WaitPhase.next, hphase, WaitPhase.leave]
      have howner : (((popWaiter k (.mutex m) next).setMutex m
          { (popWaiter k (.mutex m) next).mutex m with owner := some next }).mutex m).owner =
          some next := by
        simp [Kernel.setMutex]
      refine ⟨?_, ?_, fun _ => ⟨hfreed, Or.inr hhanded⟩, fun _ => hheld, h.history⟩
      · intro x
        rw [howner]
        by_cases hx : next = x
        · simp [unlockNote, Holding.next, hx]
        · have hnone := hfreed x
          rw [holds_cons] at hnone
          simp [unlockNote, Holding.next, hx] at hnone ⊢
          exact hnone
      · intro x ms' hwait
        rw [howner]
        refine ⟨next, rfl, ?_⟩
        rintro rfl
        have hbad : waitPhase (.handoff (.mutex m) next :: .unlocked m t :: log) next =
            .waiting (.mutex m) ms' := hwait
        rw [hhanded] at hbad
        cases hbad
  · rw [if_pos hown]
    exact h

theorem Mutual.enter (h : Mutual k log m) (hready : Ready k log W u op) :
    Mutual (op.enter k u).1 (op.note k (op.enter k u).1 u (op.enter k u).2 ++ log) m := by
  by_cases hobject : op.object = some (m, .mutex)
  · cases op with
    | mutexLock a ms =>
      obtain rfl : a = m := congrArg Prod.fst (Option.some.inj hobject)
      exact h.lock true ms hready.idle
    | mutexTryLock a caller ms =>
      obtain rfl : a = m := congrArg Prod.fst (Option.some.inj hobject)
      exact h.lock false ms hready.idle
    | mutexUnlock a =>
      obtain rfl : a = m := congrArg Prod.fst (Option.some.inj hobject)
      exact h.unlock hready.lists hready.waiting
    | mutexUnlockFor a owner =>
      obtain rfl : a = m := congrArg Prod.fst (Option.some.inj hobject)
      exact h.unlock hready.lists hready.waiting
    | _ => cases hobject
  · exact h.other ((enter_touches k u op).owner m hobject) (note_other hobject)

theorem Mutual.create {c : Creation} {p : Nat} (h : Mutual k log m)
    (hnew : ∀ t w ms, waitPhase log t = .waiting w ms → w.addr ≠ p) :
    Mutual (c.init k p) (c.note (c.init k p) p ++ log) m := by
  cases c with
  | mutex =>
    by_cases hp : p = m
    · subst hp
      have hmutex : (Creation.mutex.init k p).mutex p = ⟨none, none⟩ :=
        Function.update_self p _ k.mutex
      refine ⟨?_, ?_, h.history⟩
      · intro t
        rw [hmutex]
        simp [Creation.note, Holding.next]
      · intro t ms hphase
        exact absurd rfl (hnew t _ ms hphase)
    · have hmutex : (Creation.mutex.init k p).mutex m = k.mutex m :=
        Function.update_of_ne (Ne.symm hp) _ k.mutex
      refine h.other (congrArg Mutex.owner hmutex) ?_
      intro e he heq
      rw [List.mem_singleton.mp he] at heq
      exact hp (congrArg Prod.fst (Option.some.inj heq))
  | sem initial =>
    refine h.other rfl ?_
    intro e he heq
    rw [List.mem_singleton.mp he] at heq
    cases heq
  | queue itemSize size =>
    refine h.other rfl ?_
    intro e he heq
    rw [List.mem_singleton.mp he] at heq
    cases heq

end Mutual

theorem Sys.Reached.mutual {L : Alloc.Layout} {s : Sys} (hL : L.heap.Placed) (h : s.Reached L)
    (m : Nat) : Mutual s.k s.log m := by
  have hnone : ∀ {e : Event}, e.object = none → e.object ≠ some (m, .mutex) := by
    intro e he
    rw [he]
    simp
  refine h.objects (P := fun k log => Mutual k log m) hL ?_ ?_ ?_ ?_
  · intro k hk
    have hmutex : k.mutex m = ⟨none, none⟩ := congrFun (congrArg (fun o => o.2.1) hk.symm) m
    refine ⟨?_, ?_, trivial⟩
    · intro t
      rw [hmutex]
      simp [holds]
    · intro t ms hphase
      cases hphase
  · exact fun k k' n log hp hquiet hn _ =>
      hp.other (hquiet.owner m) fun e he => hnone (object_none (hn e he))
  · exact fun k W u op pre log hp hpass hready =>
      (hp.other rfl fun e he => hnone (hpass.object e he)).enter hready
  · exact fun k c p log hp _ hnew => hp.create hnew

/-- A task that does not own a mutex does not unlock it, on either path. -/
theorem unlock_of_not_owner {k : Kernel} {m : Nat} {t : Tid} (h : (k.mutex m).owner ≠ some t) :
    zImplMutexUnlock k m t = (k, .ret 0) ∧ zImplMutexUnlockFor k m t = (k, .ret 0) :=
  ⟨if_pos h, if_pos h⟩

theorem exclusive_split {m : Nat} {post pre : List Event} {e : Event}
    (h : Exclusive m (post ++ e :: pre)) : Exclusive m (e :: pre) := by
  induction post with
  | nil => exact h
  | cons x post ih =>
    refine ih ?_
    cases x with
    | locked a t => exact h.2
    | relocked a t => exact h.2
    | unlocked a t => exact h.2
    | _ => exact h

/-- The mutex at `m` excludes: its holders are its owner, a waiter comes to own it
by a hand-off and not once its time is up, and others cannot unlock it. -/
structure Sys.Excludes (s : Sys) (m : Nat) : Prop where
  holders : ∀ t, holds s.log m t = true ↔ (s.k.mutex m).owner = some t
  free : (s.k.mutex m).owner = none → (s.k.mutex m).waitList = none
  owner : ∃ W, Lists s.k W ∧ ∀ t ∈ W (.mutex m), (s.k.mutex m).owner ≠ some t
  stranger : ∀ t, (s.k.mutex m).owner ≠ some t → zImplMutexUnlock s.k m t = (s.k, .ret 0) ∧
    zImplMutexUnlockFor s.k m t = (s.k, .ret 0)
  granted : ∀ post pre t, s.log = post ++ .locked m t :: pre → (waitPhase pre t).MayLock m
  outcomes : Outcomes s.log

/-- Mutual exclusion with hand-off, for every interleaving. -/
theorem mutex_exclusion {L : Alloc.Layout} {s : Sys} (hL : L.heap.Placed) (h : s.Reached L)
    (m : Nat) : s.Excludes m := by
  obtain ⟨g, hg⟩ := h.inv hL
  have hm := h.mutual hL m
  constructor
  · exact hm.holders
  · intro hfree
    refine (head_eq_none_iff hg.placed.lists (.mutex m)).mpr ?_
    refine List.eq_nil_iff_forall_not_mem.mpr fun t hmem => ?_
    obtain ⟨ms, hphase⟩ := (hg.placed.waiting_iff t _).mp hmem
    obtain ⟨o, ho, _⟩ := hm.waiters t ms hphase
    rw [hfree] at ho
    cases ho
  · refine ⟨g.lists, hg.placed.lists, fun t hmem hown => ?_⟩
    obtain ⟨ms, hphase⟩ := (hg.placed.waiting_iff t _).mp hmem
    obtain ⟨o, ho, hne⟩ := hm.waiters t ms hphase
    exact hne (Option.some.inj (ho.symm.trans hown))
  · exact fun t => unlock_of_not_owner
  · intro post pre t hlog
    have hhistory := hm.history
    rw [hlog] at hhistory
    exact ((exclusive_split hhistory).1 rfl).2
  · exact outcomes_of_unbroken fun t => (hg.placed.task t).unbroken.1

/-- Task 2 waits for the mutex of task 1 and gets it from the unlock of task 1. -/
theorem mutex_exclusion_board :
    ∃ s, boardRun (boardReady ++ [.call (.create .mutex), .go, .go,
        .call (.mutexLock 0x10000 waitForever), .go, .call (.taskDelay 1), .go, .go,
        .pendSV 0x2001F000, .call (.mutexLock 0x10000 9), .go, .go, .tick, .pendSV 0x2001F000,
        .call (.mutexUnlock 0x10000), .go]) = some s ∧
      (s.k.mutex 0x20006428).owner = some 2 ∧ ∀ m, s.Excludes m :=
  boardRun_comes _ (by decide +kernel) fun _ hs => mutex_exclusion boardLayout_placed hs

/-- A task that holds the mutex at `m` owns it, however often it locks it again,
and the mutex is granted when nobody holds it. -/
structure Sys.HeldUntilUnlock (s : Sys) (m : Nat) : Prop where
  owns : ∀ t, holds s.log m t = true → (s.k.mutex m).owner = some t
  again : ∀ t ms, holds s.log m t = true → zImplMutexLockTimeout s.k m t ms = (s.k, .ret 0) ∧
    zImplMutexTryLockTimeout s.k m t ms = (s.k, .ret 0)
  granted : ∀ post pre t, s.log = post ++ .locked m t :: pre → ∀ x, holds pre m x = false
  relocked : ∀ post pre t, s.log = post ++ .relocked m t :: pre → holds pre m t = true

theorem mutex_held_until_unlock {L : Alloc.Layout} {s : Sys} (hL : L.heap.Placed)
    (h : s.Reached L) (m : Nat) : s.HeldUntilUnlock m := by
  have hm := h.mutual hL m
  constructor
  · exact fun t => (hm.holders t).mp
  · intro t ms hheld
    have hown := (hm.holders t).mp hheld
    exact ⟨if_pos hown, if_pos hown⟩
  · intro post pre t hlog
    have hhistory := hm.history
    rw [hlog] at hhistory
    exact ((exclusive_split hhistory).1 rfl).1
  · intro post pre t hlog
    have hhistory := hm.history
    rw [hlog] at hhistory
    exact (exclusive_split hhistory).1 rfl

/-- Two locks and one unlock of task 1 on the small system. -/
def relockLabels : List Label :=
  boardReady ++ [.call (.create .mutex), .go, .go, .call (.mutexLock 0x10000 5), .go,
    .call (.mutexLock 0x10000 5), .go, .call (.mutexUnlock 0x10000), .go]

theorem mutex_held_until_unlock_board :
    ∃ s, boardRun relockLabels = some s ∧ s.log.head? = some (.unlocked 0x20006428 1) ∧
      ∀ m, s.HeldUntilUnlock m :=
  boardRun_comes _ (by decide +kernel) fun _ hs => mutex_held_until_unlock boardLayout_placed hs

/-- Locks that a task repeats are not counted: with more locks than unlocks it can
have lost the mutex. -/
theorem relock_not_balanced :
    ¬ ∀ s : Sys, s.Reached boardLayout → ∀ m t,
      s.log.count (.unlocked m t) < s.log.count (.locked m t) + s.log.count (.relocked m t) →
      (s.k.mutex m).owner = some t := by
  intro h
  obtain ⟨s, hreached, hcount, howner⟩ := boardRun_at relockLabels
    (P := fun s => s.log.count (.unlocked 0x20006428 1) <
      s.log.count (.locked 0x20006428 1) + s.log.count (.relocked 0x20006428 1) ∧
      (s.k.mutex 0x20006428).owner ≠ some 1) (by decide +kernel)
  exact howner (h s hreached _ _ hcount)

end Crest
