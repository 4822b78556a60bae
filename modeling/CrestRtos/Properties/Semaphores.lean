import CrestRtos.System.Deeds

/-!
# Semaphores keep their tokens

`account` counts, for one semaphore, the gives and the granted takes that the log
has seen since the semaphore was created. As long as the tokens fit into an `int`
the counter is what the account says, and no task waits while a token is there.
-/

namespace Crest
open IntrusiveList

def intMax : Int := 2 ^ 31 - 1

structure Account where
  initial : Int
  gives : Nat
  takes : Nat
  deriving DecidableEq, Repr

def Account.next (a : Nat) (h : Option Account) : Event → Option Account
  | .semCreated s count => if s = a then some ⟨count, 0, 0⟩ else h
  | .semGiven s => if s = a then h.map fun x => { x with gives := x.gives + 1 } else h
  | .semTaken s _ => if s = a then h.map fun x => { x with takes := x.takes + 1 } else h
  | _ => h

/-- The account of the semaphore at `a`, once it has been created. -/
def account (log : List Event) (a : Nat) : Option Account :=
  log.foldr (fun e h => Account.next a h e) none

/-- No token is lost or made up, and nobody waits next to one. -/
structure Account.Balanced (x : Account) (k : Kernel) (a : Nat) : Prop where
  nonneg : 0 ≤ (k.sem a).count
  tokens : x.initial + x.gives = (k.sem a).count + x.takes
  empty : 0 < (k.sem a).count → (k.sem a).waitList = none

section Account
variable {k k' : Kernel} {W : WaitMap} {u : Tid} {op : Op} {a : Nat} {log n : List Event}
  {x : Account}

@[simp] theorem account_nil (a : Nat) : account [] a = none := rfl

@[simp] theorem account_cons (e : Event) (log : List Event) (a : Nat) :
    account (e :: log) a = Account.next a (account log a) e := rfl

theorem account_skip (hn : ∀ e ∈ n, e.object ≠ some (a, .sem)) :
    account (n ++ log) a = account log a := by
  refine foldr_skip ?_ hn
  intro e y he
  cases e with
  | semCreated s count => exact if_neg fun heq => he (by rw [heq]; rfl)
  | semGiven s => exact if_neg fun heq => he (by rw [heq]; rfl)
  | semTaken s t => exact if_neg fun heq => he (by rw [heq]; rfl)
  | _ => rfl

theorem Account.Balanced.same (h : x.Balanced k a)
    (hcount : (k'.sem a).count = (k.sem a).count)
    (hempty : 0 < (k.sem a).count → (k.sem a).waitList = none → (k'.sem a).waitList = none) :
    x.Balanced k' a := by
  refine ⟨?_, ?_, ?_⟩
  · rw [hcount]
    exact h.nonneg
  · rw [hcount]
    exact h.tokens
  · rw [hcount]
    exact fun hpos => hempty hpos (h.empty hpos)

/-- While the accounts are in `C` the record of the semaphore at `a` balances them. -/
def TokensWhile (C : Account → Prop) (k : Kernel) (log : List Event) (a : Nat) : Prop :=
  ∀ x, account log a = some x → C x → x.Balanced k a

/-- The log of the semaphore at `a` and its record agree as long as the tokens fit. -/
def Tokens (k : Kernel) (log : List Event) (a : Nat) : Prop :=
  ∀ x, account log a = some x → x.initial + x.gives ≤ intMax → x.Balanced k a

/-- A condition that an account in it has met all along. -/
structure Account.Lasting (C : Account → Prop) : Prop where
  given : ∀ x : Account, C { x with gives := x.gives + 1 } → C x
  taken : ∀ x : Account, C { x with takes := x.takes + 1 } → C x

theorem account_taken {t : Tid} {y : Account} (hy : account (.semTaken a t :: log) a = some y) :
    ∃ x, account log a = some x ∧ y = { x with takes := x.takes + 1 } := by
  rw [account_cons] at hy
  simp only [Account.next, if_true] at hy
  obtain ⟨x, hx, rfl⟩ := Option.map_eq_some_iff.mp hy
  exact ⟨x, hx, rfl⟩

theorem account_given {y : Account} (hy : account (.semGiven a :: log) a = some y) :
    ∃ x, account log a = some x ∧ y = { x with gives := x.gives + 1 } := by
  rw [account_cons] at hy
  simp only [Account.next, if_true] at hy
  obtain ⟨x, hx, rfl⟩ := Option.map_eq_some_iff.mp hy
  exact ⟨x, hx, rfl⟩

variable {C : Account → Prop}

/-- A take is granted from the counter, or leaves the account alone. -/
theorem TokensWhile.take (hC : Account.Lasting C) (direct : Bool) (t : Tid) (ms : Nat)
    (h : TokensWhile C k log a) :
    TokensWhile C (takeSection direct k a t ms).1
      (takeNote a t ms (takeSection direct k a t ms).2 ++ log) a := by
  intro y hy hin
  have hstore := congrArg Store.count (take_store k t ms direct a)
  rw [takeSection] at hstore hy ⊢
  by_cases hpos : 0 < (k.sem a).count
  · rw [if_pos hpos] at hy ⊢
    obtain ⟨x, hx, rfl⟩ := account_taken hy
    have hbal := h x hx (hC.taken x hin)
    have htokens := hbal.tokens
    refine ⟨?_, ?_, ?_⟩
    · simp only [Kernel.setSem, Function.update_self]
      omega
    · simp only [Kernel.setSem, Function.update_self]
      push_cast
      omega
    · intro _
      simp only [Kernel.setSem, Function.update_self]
      exact hbal.empty hpos
  · rw [if_neg hpos] at hstore hy ⊢
    by_cases hms : ms = 0
    · rw [if_pos hms] at hy ⊢
      exact h y hy hin
    · rw [if_neg hms] at hstore hy ⊢
      rw [if_neg hpos] at hstore
      exact (h y hy hin).same (congrFun hstore a) fun hp _ => absurd hp hpos

/-- A give adds a token that fits, or grants the take of the first waiter. -/
theorem TokensWhile.give (hC : Account.Lasting C)
    (hfits : ∀ x, account log a = some x → C { x with gives := x.gives + 1 } →
      x.Balanced k a → (k.sem a).waitList = none → (k.sem a).count < intMax)
    (h : TokensWhile C k log a) :
    TokensWhile C (zImplSemGive k a).1 (giveNote a (zImplSemGive k a).2 ++ log) a := by
  intro y hy hin
  have hstore := congrArg Store.count (give_store k a)
  rw [zImplSemGive] at hstore hy ⊢
  cases hlist : (k.sem a).waitList with
  | none =>
    rw [hlist] at hy
    obtain ⟨x, hx, rfl⟩ := account_given hy
    have hbal := h x hx (hC.given x hin)
    have hroom := hfits x hx hin hbal hlist
    have htokens := hbal.tokens
    have hnonneg := hbal.nonneg
    have hexact : toInt32 ((k.sem a).count + 1) = (k.sem a).count + 1 := by
      simp only [toInt32, intMax] at hroom ⊢
      omega
    refine ⟨?_, ?_, ?_⟩
    · simp only [Kernel.setSem, Function.update_self, hexact]
      omega
    · simp only [Kernel.setSem, Function.update_self, hexact]
      push_cast
      omega
    · intro _
      simp only [Kernel.setSem, Function.update_self]
      exact hlist
  | some waiter =>
    rw [hlist] at hstore hy
    obtain ⟨x', hx', rfl⟩ := account_taken hy
    obtain ⟨x, hx, rfl⟩ := account_given hx'
    have hbal := h x hx (hC.given x (hC.taken _ hin))
    have htokens := hbal.tokens
    have hcount : ((popWaiter k (.sem a) waiter).sem a).count = (k.sem a).count :=
      congrFun hstore a
    have hnot : ¬ 0 < (k.sem a).count := by
      intro hpos
      rw [hbal.empty hpos] at hlist
      cases hlist
    refine ⟨?_, ?_, ?_⟩
    · rw [hcount]
      exact hbal.nonneg
    · rw [hcount]
      push_cast
      omega
    · rw [hcount]
      exact fun hpos => absurd hpos hnot

theorem TokensWhile.enter (hC : Account.Lasting C)
    (hfits : op = .semGive a → ∀ x, account log a = some x → C { x with gives := x.gives + 1 } →
      x.Balanced k a → (k.sem a).waitList = none → (k.sem a).count < intMax)
    (h : TokensWhile C k log a) (hready : Ready k log W u op) :
    TokensWhile C (op.enter k u).1 (op.note k (op.enter k u).1 u (op.enter k u).2 ++ log) a := by
  by_cases hobject : op.object = some (a, .sem)
  · cases op with
    | semTake s ms =>
      obtain rfl : s = a := congrArg Prod.fst (Option.some.inj hobject)
      exact h.take hC true u ms
    | semTryTake s caller ms =>
      obtain rfl : s = a := congrArg Prod.fst (Option.some.inj hobject)
      exact h.take hC false caller ms
    | semGive s =>
      obtain rfl : s = a := congrArg Prod.fst (Option.some.inj hobject)
      exact h.give hC (hfits rfl)
    | _ => cases hobject
  · intro x hx hin
    rw [account_skip (note_other hobject)] at hx
    refine (h x hx hin).same ((enter_touches k u op).count a hobject) fun _ hnone => ?_
    refine hready.head_none (w := .sem a) ?_ hnone
    intro htarget
    exact hobject (target_object htarget)

theorem TokensWhile.quiet (h : TokensWhile C k log a) (hquiet : k.Quiet k')
    (hn : ∀ e ∈ n, e.object = none) : TokensWhile C k' (n ++ log) a := by
  intro x hx hin
  rw [account_skip fun e he => by rw [hn e he]; simp] at hx
  exact (h x hx hin).same (hquiet.count a) fun _ hnone => hquiet.heads (.sem a) hnone

theorem TokensWhile.create {c : Creation} {p : Nat} (h : TokensWhile C k log a) :
    TokensWhile C (c.init k p) (c.note (c.init k p) p ++ log) a := by
  intro x hx hin
  cases c with
  | sem initial =>
    by_cases hp : p = a
    · subst hp
      simp only [Creation.note, List.singleton_append, account_cons, Account.next, if_true,
        Option.some.injEq] at hx
      subst hx
      have hsem : ((Creation.sem initial).init k p).sem p =
          ⟨if 0 ≤ asInt initial then asInt initial else 0, none⟩ := Function.update_self p _ k.sem
      refine ⟨?_, ?_, ?_⟩
      · rw [hsem]
        split <;> simp_all
      · simp
      · rw [hsem]
        exact fun _ => rfl
    · simp only [Creation.note, List.singleton_append, account_cons, Account.next, if_neg hp] at hx
      have hsem : ((Creation.sem initial).init k p).sem a = k.sem a :=
        Function.update_of_ne (Ne.symm hp) _ k.sem
      exact (h x hx hin).same (by rw [hsem]) fun _ hnone => by rw [hsem]; exact hnone
  | mutex => exact (h x hx hin).same rfl fun _ hnone => hnone
  | queue itemSize size => exact (h x hx hin).same rfl fun _ hnone => hnone

theorem lasting_fits : Account.Lasting fun x => x.initial + x.gives ≤ intMax := by
  constructor
  · intro x hx
    push_cast at hx
    omega
  · exact fun x hx => hx

theorem Tokens.enter (h : Tokens k log a) (hready : Ready k log W u op) :
    Tokens (op.enter k u).1 (op.note k (op.enter k u).1 u (op.enter k u).2 ++ log) a := by
  refine TokensWhile.enter lasting_fits (fun _ x _ hin hbal _ => ?_) h hready
  have htokens := hbal.tokens
  push_cast at hin
  omega

end Account

/-- Tokens of every semaphore are conserved while initial count and gives fit into
an `int`, and every blocked take has one outcome: 0 from a give, -1 from its timeout. -/
theorem semaphore_tokens {L : Alloc.Layout} {s : Sys} (hL : L.heap.Placed) (h : s.Reached L) :
    (∀ a x, account s.log a = some x → x.initial + x.gives ≤ intMax → x.Balanced s.k a) ∧
      Outcomes s.log := by
  constructor
  · intro a
    refine h.objects (P := fun k log => Tokens k log a) hL ?_ ?_ ?_ ?_
    · intro k _ x hx
      cases hx
    · exact fun k k' n log hp hquiet hn _ =>
        TokensWhile.quiet hp hquiet fun e he => object_none (hn e he)
    · intro k W u op pre log hp hpass hready
      have hnoted : Tokens k (pre ++ log) a :=
        TokensWhile.quiet hp (Kernel.Quiet.refl k) hpass.object
      exact hnoted.enter hready
    · exact fun k c p log hp _ _ => TokensWhile.create hp
  · obtain ⟨g, hg⟩ := h.inv hL
    exact outcomes_of_unbroken fun t => (hg.placed.task t).unbroken.1

/-- Task 1 takes the only token of a semaphore and waits for another one, task 2
gives, and the take of task 1 ends with 0. -/
theorem semaphore_tokens_board :
    ∃ s, boardRun (boardReady ++ [.call (.create (.sem 1)), .go, .go,
        .call (.semTake 0x10000 5), .go, .call (.semTake 0x10000 5), .go, .go,
        .pendSV 0x2001F000, .call (.semGive 0x10000), .go, .go, .go, .pendSV 0x2001F000,
        .go]) = some s ∧
      (s.log.head? = some (.result 1 0) ∧ account s.log 0x20006428 = some ⟨1, 1, 2⟩) ∧
      (∀ a x, account s.log a = some x → x.initial + x.gives ≤ intMax → x.Balanced s.k a) ∧
      Outcomes s.log :=
  boardRun_comes _ (by decide +kernel) fun _ hs => semaphore_tokens boardLayout_placed hs

end Crest
