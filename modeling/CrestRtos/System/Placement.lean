import CrestRtos.System.Effects

/-!
# Where every task is

A task is at one place at a time: it runs its own code, its syscall waits in the
ring or at the worker, it is on a wait list, or it has been taken off one by a
call that is about to wake it. `occupants` reads each place off the state, and
`View.Ok` says what the control block, the program counter and the log must look
like for a task at that place.
-/

namespace Crest
open IntrusiveList

inductive Place
  /-- The control block does not belong to a task yet. -/
  | fresh
  | own
  | ring
  /-- The worker `u` dispatches the task's item. -/
  | served (u : Tid)
  | listed (w : WaitList)
  /-- A call of `u` is to wake the task. -/
  | waking (u : Tid)
  deriving DecidableEq

/-- The places that some part of the state stores. -/
def Place.tracked : Place → Bool
  | .fresh => false
  | .own => false
  | _ => true

def Ret.caller : Ret → Option Tid
  | .app => none
  | .serve caller => some caller

/-- The caller of the item that the code works for. -/
def Pc.serves : Pc → Option Tid
  | .enter _ r => r.caller
  | .retry _ r => r.caller
  | .block _ r => r.caller
  | .check _ r => r.caller
  | .wake t _ .loop => some t
  | .wake _ _ (.ret r _) => r.caller
  | .pend (.ret r _) => r.caller
  | .dispatch item => some item.caller
  | .create _ r => r.caller
  | .queueBuffer _ r => r.caller
  | .queueFree _ r => r.caller
  | .publish _ _ r => r.caller
  | _ => none

/-- The waiter that a give, an unlock, a push or a pop has unlinked. -/
def Pc.wakes : Pc → Option Tid
  | .wake t _ (.ret _ _) => some t
  | _ => none

/-- The list that a call in the middle of its wait has joined. -/
def Pc.waits : Pc → Option WaitList
  | .block op _ => op.waitList
  | .check op _ => op.waitList
  | _ => none

/-- The phase of a task that is on no list. -/
def Pc.settled (timedOut : Bool) : Pc → WaitPhase
  | .block op _ => match op.waitList with
    | none => .idle
    | some w => if timedOut then .expired w else .handed w
  | .check op _ => match op.waitList with
    | none => .idle
    | some w => if timedOut then .expired w else .handed w
  | .retry op _ => match op.waitList with
    | none => .idle
    | some w => .handed w
  | _ => .idle

/-- What the state says about one task; `reply` is the R0 it goes on with. -/
structure View where
  tcb : Tcb
  pc : Pc
  phase : WaitPhase
  sys : SysPhase
  reply : Nat

def Kernel.reply (k : Kernel) (t : Tid) : Nat :=
  if k.currentTask = some t then k.r0 else (k.tcb t).savedR0

def Sys.view (s : Sys) (t : Tid) : View where
  tcb := s.k.tasks.tcb t
  pc := s.pc t
  phase := waitPhase s.log t
  sys := sysPhase s.log t
  reply := s.k.reply t

structure View.Fresh (v : View) : Prop where
  state : v.tcb.state = .ready
  delay : v.tcb.delayTicks = 0
  list : v.tcb.blockingWaitList = none
  svc : v.tcb.svcBlocked = false
  pc : v.pc = .app
  phase : v.phase = .idle
  sys : v.sys = .idle

structure View.Own (v : View) : Prop where
  list : v.tcb.blockingWaitList = none
  svc : v.tcb.svcBlocked = false
  delay : v.tcb.state ≠ .waiting → v.tcb.delayTicks = 0
  awake : v.pc = .idle → v.tcb.state = .ready ∨ v.tcb.state = .running
  phase : v.phase = v.pc.settled v.tcb.timedOut
  sys : v.sys = if v.pc = .svcRet then .answered v.reply else .idle

/-- In a syscall that has not reached a wait list. -/
structure View.Held (v : View) : Prop where
  state : v.tcb.state = .waiting
  delay : v.tcb.delayTicks = 0
  list : v.tcb.blockingWaitList = none
  svc : v.tcb.svcBlocked = true
  pc : v.pc = .svcRet
  phase : v.phase = .idle
  sys : v.sys = .posted

/-- A task gets to a list through the syscall gate or by a call of its own. -/
def View.Route (v : View) (w : WaitList) : Prop :=
  (v.tcb.svcBlocked = true ∧ v.pc = .svcRet ∧ v.sys = .posted ∧ w.isQueue = false) ∨
  (v.tcb.svcBlocked = false ∧ v.pc.waits = some w ∧ v.sys = .idle ∧ v.tcb.timedOut = false)

/-- The timeout fields of a task that waits on `w` since a call with timeout `ms`. -/
def View.Armed (v : View) (w : WaitList) (ms : Nat) : Prop :=
  (ms ≠ waitForever ∧ 0 < v.tcb.delayTicks ∧ v.tcb.blockingWaitList = some w) ∨
  (ms = waitForever ∧ v.tcb.delayTicks = 0 ∧ v.tcb.blockingWaitList = none)

structure View.Parked (v : View) (w : WaitList) : Prop where
  state : v.tcb.state = .waiting
  route : v.Route w
  phase : ∃ ms, v.phase = .waiting w ms ∧ v.Armed w ms

theorem View.Armed.of_same {v v' : View} {w : WaitList} {ms : Nat} (h : v.Armed w ms)
    (hdelay : v'.tcb.delayTicks = v.tcb.delayTicks)
    (hlist : v'.tcb.blockingWaitList = v.tcb.blockingWaitList) : v'.Armed w ms := by
  rw [View.Armed, hdelay, hlist]
  exact h

theorem View.Parked.timeout {v : View} {w : WaitList} (h : v.Parked w) :
    (0 < v.tcb.delayTicks ∧ v.tcb.blockingWaitList = some w) ∨
      (v.tcb.delayTicks = 0 ∧ v.tcb.blockingWaitList = none) := by
  obtain ⟨ms, _, ⟨_, harmed⟩ | ⟨_, harmed⟩⟩ := h.phase
  · exact Or.inl harmed
  · exact Or.inr harmed

structure View.Unlinked (v : View) (w : WaitList) : Prop where
  state : v.tcb.state = .waiting
  delay : v.tcb.delayTicks = 0
  list : v.tcb.blockingWaitList = none
  route : v.Route w
  phase : v.phase = .handed w

def View.Ok (v : View) : Place → Prop
  | .fresh => v.Fresh
  | .own => v.Own
  | .ring => v.Held
  | .served _ => v.Held
  | .listed w => v.Parked w
  | .waking _ => ∃ w, v.Unlinked w

/-- Only a task behind its `svc` instruction waits for an answer. -/
theorem View.Ok.gate {v : View} {p : Place} (h : v.Ok p) (hpc : v.pc ≠ .svcRet) :
    v.tcb.svcBlocked = false := by
  have hroute : ∀ w, v.Route w → v.tcb.svcBlocked = false := by
    rintro w (⟨_, hbad, _⟩ | ⟨hsvc, _⟩)
    · exact absurd hbad hpc
    · exact hsvc
  cases p with
  | fresh => exact h.svc
  | own => exact h.svc
  | ring => exact absurd h.pc hpc
  | served u => exact absurd h.pc hpc
  | listed w => exact hroute w h.route
  | waking u =>
    obtain ⟨w, hw⟩ := h
    exact hroute w hw.route

theorem settled_ne_broken (b : Bool) (p : Pc) : p.settled b ≠ .broken := by
  cases p with
  | block op r => cases hw : op.waitList <;> cases b <;> simp [Pc.settled, hw]
  | check op r => cases hw : op.waitList <;> cases b <;> simp [Pc.settled, hw]
  | retry op r => cases hw : op.waitList <;> simp [Pc.settled, hw]
  | _ => simp [Pc.settled]

/-- No task is ever in a broken phase. -/
theorem View.Ok.unbroken {v : View} {p : Place} (h : v.Ok p) :
    v.phase ≠ .broken ∧ v.sys ≠ .broken := by
  have hroute : ∀ w, v.Route w → v.sys ≠ .broken := by
    rintro w (⟨_, _, hsys, _⟩ | ⟨_, _, hsys, _⟩) <;> simp [hsys]
  cases p with
  | fresh => simp [h.phase, h.sys]
  | own =>
    refine ⟨?_, ?_⟩
    · rw [h.phase]
      exact settled_ne_broken _ _
    · rw [h.sys]
      split <;> simp
  | ring => simp [h.phase, h.sys]
  | served u => simp [h.phase, h.sys]
  | listed w =>
    obtain ⟨ms, hphase, _⟩ := h.phase
    exact ⟨by simp [hphase], hroute w h.route⟩
  | waking u =>
    obtain ⟨w, hw⟩ := h
    exact ⟨by simp [hw.phase], hroute w hw.route⟩

theorem settled_ne_waiting (b : Bool) (p : Pc) (w : WaitList) (ms : Nat) :
    p.settled b ≠ .waiting w ms := by
  cases p with
  | block op r => cases hw : op.waitList <;> cases b <;> simp [Pc.settled, hw]
  | check op r => cases hw : op.waitList <;> cases b <;> simp [Pc.settled, hw]
  | retry op r => cases hw : op.waitList <;> simp [Pc.settled, hw]
  | _ => simp [Pc.settled]

/-- Only a task on a list is in a waiting phase. -/
theorem View.Ok.listed {v : View} {p : Place} {w : WaitList} {ms : Nat} (h : v.Ok p)
    (hphase : v.phase = .waiting w ms) : p = .listed w := by
  cases p with
  | fresh => exact absurd (h.phase.symm.trans hphase) (by simp)
  | own => exact absurd (h.phase.symm.trans hphase) (settled_ne_waiting _ _ w ms)
  | ring => exact absurd (h.phase.symm.trans hphase) (by simp)
  | served u => exact absurd (h.phase.symm.trans hphase) (by simp)
  | listed w' =>
    obtain ⟨ms', hphase', _⟩ := h.phase
    rw [hphase'] at hphase
    obtain ⟨rfl, _⟩ := WaitPhase.waiting.inj hphase
    rfl
  | waking u =>
    obtain ⟨w', hw⟩ := h
    exact absurd (hw.phase.symm.trans hphase) (by simp)

def Sys.occupants (s : Sys) (W : WaitMap) : Place → List Tid
  | .fresh => []
  | .own => []
  | .ring => s.k.kwork.map WorkItem.caller
  | .served u => (s.pc u).serves.toList
  | .listed w => W w
  | .waking u => (s.pc u).wakes.toList

structure Placed (s : Sys) (W : WaitMap) (place : Tid → Place) : Prop where
  lists : Lists s.k W
  home : ∀ t p, p.tracked = true → (t ∈ s.occupants W p ↔ place t = p)
  once : (s.k.kwork.map WorkItem.caller).Nodup
  task : ∀ t, (s.view t).Ok (place t)

section Readings
variable {s : Sys} {W : WaitMap} {place : Tid → Place}

theorem Placed.mem_list (h : Placed s W place) (t : Tid) (w : WaitList) :
    t ∈ W w ↔ place t = .listed w := h.home t (.listed w) rfl

theorem Placed.waiting_iff (h : Placed s W place) (t : Tid) (w : WaitList) :
    t ∈ W w ↔ ∃ ms, waitPhase s.log t = .waiting w ms := by
  constructor
  · intro ht
    have hview := h.task t
    rw [(h.mem_list t w).mp ht] at hview
    obtain ⟨ms, hphase, _⟩ := hview.phase
    exact ⟨ms, hphase⟩
  · rintro ⟨ms, hphase⟩
    exact (h.mem_list t w).mpr ((h.task t).listed hphase)

theorem Placed.mem_ring (h : Placed s W place) (t : Tid) :
    t ∈ s.k.kwork.map WorkItem.caller ↔ place t = .ring := h.home t .ring rfl

theorem Placed.serves_iff (h : Placed s W place) (u t : Tid) :
    (s.pc u).serves = some t ↔ place t = .served u := by
  rw [← h.home t (.served u) rfl]
  simp [Sys.occupants, Option.mem_toList]

theorem Placed.wakes_iff (h : Placed s W place) (u t : Tid) :
    (s.pc u).wakes = some t ↔ place t = .waking u := by
  rw [← h.home t (.waking u) rfl]
  simp [Sys.occupants, Option.mem_toList]

/-- A task is never on two lists. -/
theorem Placed.apart (h : Placed s W place) : Apart W := by
  intro w w' t hw hw'
  have heq := ((h.mem_list t w).mp hw).symm.trans ((h.mem_list t w').mp hw')
  exact Place.listed.inj heq

theorem Placed.notMem (h : Placed s W place) {t : Tid} (hown : ∀ w, place t ≠ .listed w)
    (w : WaitList) : t ∉ W w := fun hmem => hown w ((h.mem_list t w).mp hmem)

/-- A task that is not in the middle of a wait or a syscall has its own place. -/
theorem Placed.own_of_pc (h : Placed s W place) {t : Tid} (hfresh : place t ≠ .fresh)
    (hsvc : s.pc t ≠ .svcRet) (hwaits : (s.pc t).waits = none) : place t = .own := by
  have ht := h.task t
  have hroute : ∀ w, ¬ (s.view t).Route w := by
    rintro w (⟨_, hpc, _⟩ | ⟨_, hpc, _⟩)
    · exact hsvc hpc
    · exact absurd (hwaits.symm.trans hpc) (Option.some_ne_none w).symm
  cases hp : place t with
  | fresh => exact absurd hp hfresh
  | own => rfl
  | ring =>
    rw [hp] at ht
    exact absurd ht.pc hsvc
  | served u =>
    rw [hp] at ht
    exact absurd ht.pc hsvc
  | listed w =>
    rw [hp] at ht
    exact absurd ht.route (hroute w)
  | waking u =>
    rw [hp] at ht
    obtain ⟨w, hw⟩ := ht
    exact absurd hw.route (hroute w)

/-- A task that does not wait has its own place. -/
theorem Placed.own_of_state (h : Placed s W place) {t : Tid} (hfresh : place t ≠ .fresh)
    (hstate : (s.k.tcb t).state ≠ .waiting) : place t = .own := by
  have ht := h.task t
  cases hp : place t with
  | fresh => exact absurd hp hfresh
  | own => rfl
  | ring =>
    rw [hp] at ht
    exact absurd ht.state hstate
  | served u =>
    rw [hp] at ht
    exact absurd ht.state hstate
  | listed w =>
    rw [hp] at ht
    exact absurd ht.state hstate
  | waking u =>
    rw [hp] at ht
    obtain ⟨w, hw⟩ := ht
    exact absurd hw.state hstate

end Readings

section Moves
variable {s s' : Sys} {W W' : WaitMap} {place : Tid → Place}

/-- One task moves to `q`: it leaves the occupants of its place, joins those of
`q`, and the rest is as before. -/
theorem home_move {occ occ' : Place → List Tid} {x : Tid} {q : Place}
    (h : ∀ t p, p.tracked = true → (t ∈ occ p ↔ place t = p))
    (hout : (place x).tracked = true → place x ≠ q →
      ∀ t, t ∈ occ' (place x) ↔ t ∈ occ (place x) ∧ t ≠ x)
    (hin : q.tracked = true → ∀ t, t ∈ occ' q ↔ t ∈ occ q ∨ t = x)
    (hsame : ∀ p, p.tracked = true → p ≠ place x → p ≠ q → ∀ t, t ∈ occ' p ↔ t ∈ occ p) :
    ∀ t p, p.tracked = true → (t ∈ occ' p ↔ Function.update place x q t = p) := by
  intro t p hp
  by_cases ht : t = x
  · subst ht
    rw [Function.update_self]
    by_cases hpq : p = q
    · subst hpq
      simp [hin hp]
    · have hne : q ≠ p := fun heq => hpq heq.symm
      simp only [hne, iff_false]
      intro hmem
      by_cases hpx : p = place t
      · subst hpx
        exact ((hout hp hpq t).mp hmem).2 rfl
      · have hold := (hsame p hp hpx hpq t).mp hmem
        exact hpx ((h t p hp).mp hold).symm
  · rw [Function.update_of_ne ht]
    by_cases hpq : p = q
    · subst hpq
      rw [hin hp t, h t p hp]
      simp [ht]
    · by_cases hpx : p = place x
      · subst hpx
        rw [hout hp hpq t, h t _ hp]
        simp [ht]
      · rw [hsame p hp hpx hpq t, h t p hp]

theorem Placed.move {x u : Tid} {q : Place} (h : Placed s W place) (hlists : Lists s'.k W')
    (honce : (s'.k.kwork.map WorkItem.caller).Nodup)
    (hout : (place x).tracked = true → place x ≠ q →
      ∀ t, t ∈ s'.occupants W' (place x) ↔ t ∈ s.occupants W (place x) ∧ t ≠ x)
    (hin : q.tracked = true → ∀ t, t ∈ s'.occupants W' q ↔ t ∈ s.occupants W q ∨ t = x)
    (hsame : ∀ p, p.tracked = true → p ≠ place x → p ≠ q →
      s'.occupants W' p = s.occupants W p)
    (hview : ∀ t, t ≠ x → t ≠ u → s'.view t = s.view t) (hx : (s'.view x).Ok q)
    (hu : u ≠ x → (s'.view u).Ok (place u)) : Placed s' W' (Function.update place x q) := by
  constructor
  · exact hlists
  · refine home_move h.home hout hin fun p hp hpx hpq t => ?_
    rw [hsame p hp hpx hpq]
  · exact honce
  · intro t
    by_cases ht : t = x
    · subst ht
      rw [Function.update_self]
      exact hx
    · rw [Function.update_of_ne ht]
      by_cases htu : t = u
      · subst htu
        exact hu ht
      · rw [hview t ht htu]
        exact h.task t

/-- The places that a change at `u` and of some wait lists leaves alone. -/
theorem occupants_same {u : Tid} {p : Place} (hwork : s'.k.kwork = s.k.kwork)
    (hpc : ∀ t, t ≠ u → s'.pc t = s.pc t)
    (hserves : p = .served u → (s'.pc u).serves = (s.pc u).serves)
    (hwakes : p = .waking u → (s'.pc u).wakes = (s.pc u).wakes)
    (hW : ∀ w, p = .listed w → W' w = W w) : s'.occupants W' p = s.occupants W p := by
  cases p with
  | fresh => rfl
  | own => rfl
  | ring => simp only [Sys.occupants, hwork]
  | served v =>
    by_cases hv : v = u
    · subst hv
      simp only [Sys.occupants, hserves rfl]
    · simp only [Sys.occupants, hpc v hv]
  | listed w => exact hW w rfl
  | waking v =>
    by_cases hv : v = u
    · subst hv
      simp only [Sys.occupants, hwakes rfl]
    · simp only [Sys.occupants, hpc v hv]

/-- Only the code and the control block of `u` change, and `u` stays where it is. -/
theorem Placed.stay {u : Tid} (h : Placed s W place) (hlists : Lists s'.k W)
    (hwork : s'.k.kwork = s.k.kwork) (hpc : ∀ t, t ≠ u → s'.pc t = s.pc t)
    (hserves : (s'.pc u).serves = (s.pc u).serves) (hwakes : (s'.pc u).wakes = (s.pc u).wakes)
    (hview : ∀ t, t ≠ u → s'.view t = s.view t) (hu : (s'.view u).Ok (place u)) :
    Placed s' W place := by
  constructor
  · exact hlists
  · intro t p hp
    rw [occupants_same hwork hpc (fun _ => hserves) (fun _ => hwakes) fun _ _ => rfl]
    exact h.home t p hp
  · rw [hwork]
    exact h.once
  · intro t
    by_cases ht : t = u
    · subst ht
      exact hu
    · rw [hview t ht]
      exact h.task t

end Moves

end Crest
