import CrestRtos.System.LocalSteps

/-!
# Beginning and ending a call

The steps of a task between its own code and a critical section: a direct call
is entered or returns, a wait ends, and the worker goes around its loop.
-/

namespace Crest
open IntrusiveList MachineWord Alloc

/-- Where the code goes on when a call has ended with `v`. -/
def Ret.next (v : Nat) : Ret → Pc
  | .app => .app
  | .serve caller => .wake caller v .loop

def Ret.note (u : Tid) (v : Nat) : Ret → List Event
  | .app => [.result u v]
  | .serve _ => []

theorem pc_setPc (s : Sys) (u : Tid) (p : Pc) : (s.setPc u p).pc u = p :=
  Function.update_self _ _ _

/-- The code `p` is inside a call whose result goes to `r`. -/
structure Inside (worker : Prop) (p : Pc) (r : Ret) : Prop where
  ret : r.fits worker
  serves : p.serves = r.caller
  wakes : p.wakes = none
  idle : p ≠ .idle
  begun : p ≠ .workerStart
  svc : p ≠ .svcRet

section Finish
variable {L : Layout} {s s' : Sys} {g : Ghost} {u : Tid} {r : Ret} {v : Nat}

theorem finish_eq (s : Sys) (u : Tid) (r : Ret) (v : Nat) :
    s.finish u r v = (s.setPc u (r.next v)).note (r.note u v) := by
  cases r <;> rfl

theorem Inside.follows {worker : Prop} {p : Pc} (h : Inside worker p r) (v : Nat) :
    Follows worker p (r.next v) := by
  have hret := h.ret
  have hserves := h.serves
  have hwakes := h.wakes
  constructor
  · exact h.idle
  · cases r <;> exact hret
  · rw [hserves]
    cases r <;> rfl
  · rw [hwakes]
    cases r <;> rfl
  · exact h.begun
  · cases r <;> exact fun heq => by cases heq

theorem waitPhase_note (u t : Tid) (r : Ret) (v : Nat) (log : List Event) :
    waitPhase (r.note u v ++ log) t =
      if t = u ∧ r = .app then (waitPhase log t).conclude v else waitPhase log t := by
  cases r with
  | app =>
    simp only [Ret.note, List.singleton_append, waitPhase_cons, WaitPhase.next, and_true,
      eq_comm (a := u)]
  | serve caller =>
    rw [if_neg (by rintro ⟨_, h⟩; cases h)]
    rfl

theorem sysPhase_note (u t : Tid) (r : Ret) (v : Nat) (log : List Event) :
    sysPhase (r.note u v ++ log) t = sysPhase log t := by
  cases r <;> rfl

/-- The end of a call, after a last change of the kernel. -/
theorem Inv.finish_of {k : Kernel} {n : List Event} {l : List Nat} {o : Nat → Option KobjType}
    (h : Inv L s g) (hcur : s.k.currentTask = some u) (hown : g.place u = .own) (hk : s.k.Near k u)
    (hin : Inside (u = g.worker) (s.pc u) r)
    (hwait : ∀ t, waitPhase (n ++ s.log) t = waitPhase s.log t)
    (hsys : ∀ t, sysPhase (n ++ s.log) t = sysPhase s.log t)
    (hend : (if r = .app then (waitPhase s.log u).conclude v else waitPhase s.log u) = .idle)
    (hlists : Lists k g.lists) (hbwl : (k.tcb u).blockingWaitList = none)
    (hsvc : (k.tcb u).svcBlocked = false)
    (hdelay : (k.tcb u).state ≠ .waiting ∨ u = g.worker → (k.tcb u).delayTicks = 0)
    (hnow : (k.tcb u).state = .running ∨ k.pendsv = true)
    (hscheduled : Scheduled ((({ s with k := k } : Sys).note n).finish u r v) g)
    (hobjects : Objects L ((({ s with k := k } : Sys).note n).finish u r v)
      { g with live := l, objs := o }) :
    Inv L ((({ s with k := k } : Sys).note n).finish u r v) { g with live := l, objs := o } := by
  have hself := (h.placed.task u)
  rw [hown] at hself
  have hidle : (s.view u).sys = .idle := by
    rw [hself.sys]
    exact if_neg hin.svc
  have hlog : ∀ t, waitPhase (r.note u v ++ (n ++ s.log)) t =
      if t = u ∧ r = .app then (waitPhase s.log t).conclude v else waitPhase s.log t := by
    intro t
    rw [waitPhase_note, hwait]
  have hnext : r.next v ≠ .idle := by
    cases r <;> exact fun heq => by cases heq
  have hnsvc : r.next v ≠ .svcRet := by
    cases r <;> exact fun heq => by cases heq
  have hsettled : ∀ b, (r.next v).settled b = .idle := by
    intro b
    cases r <;> rfl
  rw [finish_eq] at hobjects hscheduled ⊢
  refine h.local_of (p := r.next v) hcur hk rfl (hin.follows v) ?_ ?_ hnsvc hlists ?_ ?_ ?_
    hscheduled
    hobjects
  · intro t ht
    exact (hlog t).trans (if_neg fun hc => ht hc.1)
  · intro t _
    exact (sysPhase_note u t r v _).trans (hsys t)
  · rw [hown]
    constructor
    · exact hbwl
    · exact hsvc
    · exact fun hne => hdelay (Or.inl hne)
    · intro hpc
      change Function.update s.pc u (r.next v) u = _ at hpc
      rw [Function.update_self] at hpc
      exact absurd hpc hnext
    · have hphase : waitPhase (r.note u v ++ (n ++ s.log)) u = .idle := by
        rw [hlog u]
        simpa using hend
      refine hphase.trans ?_
      change _ = (Function.update s.pc u (r.next v) u).settled _
      rw [Function.update_self, hsettled]
    · have hsp : sysPhase (r.note u v ++ (n ++ s.log)) u = .idle := by
        rw [sysPhase_note, hsys u]
        exact hidle
      refine hsp.trans ?_
      change _ = if Function.update s.pc u (r.next v) u = .svcRet then _ else _
      rw [Function.update_self, if_neg hnsvc]
  · rcases hnow with hs | hp
    · exact Or.inl hs
    · exact Or.inr (Or.inl hp)
  · exact fun hw => hdelay (Or.inr hw)

theorem Inv.finish {k : Kernel} {n : List Event} {l : List Nat} {o : Nat → Option KobjType}
    (h : Inv L s g) (hcur : s.k.currentTask = some u) (hown : g.place u = .own)
    (hk : s.k.Local k u) (hin : Inside (u = g.worker) (s.pc u) r)
    (hspawns : (s.pc u).spawns = none)
    (hwait : ∀ t, waitPhase (n ++ s.log) t = waitPhase s.log t)
    (hsys : ∀ t, sysPhase (n ++ s.log) t = sysPhase s.log t)
    (hend : (if r = .app then (waitPhase s.log u).conclude v else waitPhase s.log u) = .idle)
    (hlists : Lists k g.lists) (hbwl : (k.tcb u).blockingWaitList = none)
    (hsvc : (k.tcb u).svcBlocked = false)
    (hdelay : (k.tcb u).state ≠ .waiting ∨ u = g.worker → (k.tcb u).delayTicks = 0)
    (hnow : (k.tcb u).state = .running ∨ k.pendsv = true)
    (hobjects : Objects L ((({ s with k := k } : Sys).note n).finish u r v)
      { g with live := l, objs := o }) :
    Inv L ((({ s with k := k } : Sys).note n).finish u r v) { g with live := l, objs := o } := by
  refine h.finish_of hcur hown hk.toNear hin hwait hsys hend hlists hbwl hsvc hdelay hnow ?_
    hobjects
  rw [finish_eq]
  refine h.scheduled.local (p := r.next v) hk rfl ?_
  rw [hspawns]
  cases r <;> rfl

/-- The code goes on inside its call, after a change of the kernel. -/
theorem Inv.goto_of {k : Kernel} {n : List Event} {p : Pc} {l : List Nat}
    {o : Nat → Option KobjType} (h : Inv L s g)
    (hcur : s.k.currentTask = some u) (hown : g.place u = .own) (hk : s.k.Near k u)
    (hfollows : Follows (u = g.worker) (s.pc u) p) (hsvc : s.pc u ≠ .svcRet)
    (hsvc' : p ≠ .svcRet) (hidle : p ≠ .idle)
    (hwait : ∀ t, waitPhase (n ++ s.log) t = waitPhase s.log t)
    (hsys : ∀ t, sysPhase (n ++ s.log) t = sysPhase s.log t)
    (hend : waitPhase s.log u = p.settled (k.tcb u).timedOut)
    (hlists : Lists k g.lists) (hbwl : (k.tcb u).blockingWaitList = none)
    (hblocked : (k.tcb u).svcBlocked = false)
    (hdelay : (k.tcb u).state ≠ .waiting ∨ u = g.worker → (k.tcb u).delayTicks = 0)
    (hnow : (k.tcb u).state = .running ∨ k.pendsv = true ∨ p.yields = true)
    (hscheduled : Scheduled ((({ s with k := k } : Sys).note n).setPc u p) g)
    (hobjects : Objects L ((({ s with k := k } : Sys).note n).setPc u p)
      { g with live := l, objs := o }) :
    Inv L ((({ s with k := k } : Sys).note n).setPc u p) { g with live := l, objs := o } := by
  have hself := h.placed.task u
  rw [hown] at hself
  refine h.local_of hcur hk rfl hfollows (fun t _ => hwait t) (fun t _ => hsys t) hsvc' hlists ?_
    hnow (fun hw => hdelay (Or.inr hw)) hscheduled hobjects
  rw [hown]
  constructor
  · exact hbwl
  · exact hblocked
  · exact fun hne => hdelay (Or.inl hne)
  · intro hpc
    change Function.update s.pc u p u = _ at hpc
    rw [Function.update_self] at hpc
    exact absurd hpc hidle
  · refine (hwait u).trans (hend.trans ?_)
    change _ = (Function.update s.pc u p u).settled _
    rw [Function.update_self]
    rfl
  · have hold := hself.sys
    rw [if_neg (show (s.view u).pc ≠ .svcRet from hsvc)] at hold
    refine (hsys u).trans (hold.trans ?_)
    change _ = if Function.update s.pc u p u = .svcRet then _ else _
    rw [Function.update_self, if_neg hsvc']

theorem Inv.goto {k : Kernel} {n : List Event} {p : Pc} {l : List Nat}
    {o : Nat → Option KobjType} (h : Inv L s g)
    (hcur : s.k.currentTask = some u) (hown : g.place u = .own) (hk : s.k.Local k u)
    (hfollows : Follows (u = g.worker) (s.pc u) p) (hspawns : p.spawns = (s.pc u).spawns)
    (hsvc : s.pc u ≠ .svcRet) (hsvc' : p ≠ .svcRet) (hidle : p ≠ .idle)
    (hwait : ∀ t, waitPhase (n ++ s.log) t = waitPhase s.log t)
    (hsys : ∀ t, sysPhase (n ++ s.log) t = sysPhase s.log t)
    (hend : waitPhase s.log u = p.settled (k.tcb u).timedOut)
    (hlists : Lists k g.lists) (hbwl : (k.tcb u).blockingWaitList = none)
    (hblocked : (k.tcb u).svcBlocked = false)
    (hdelay : (k.tcb u).state ≠ .waiting ∨ u = g.worker → (k.tcb u).delayTicks = 0)
    (hnow : (k.tcb u).state = .running ∨ k.pendsv = true ∨ p.yields = true)
    (hobjects : Objects L ((({ s with k := k } : Sys).note n).setPc u p)
      { g with live := l, objs := o }) :
    Inv L ((({ s with k := k } : Sys).note n).setPc u p) { g with live := l, objs := o } :=
  h.goto_of hcur hown hk.toNear hfollows hsvc hsvc' hidle hwait hsys hend hlists hbwl hblocked
    hdelay hnow (h.scheduled.local hk rfl hspawns) hobjects

end Finish

section Own
variable {L : Layout} {s : Sys} {g : Ghost} {u : Tid}

/-- What the invariant says about the control block of a task at its own place. -/
theorem Inv.own_tcb (h : Inv L s g) (hown : g.place u = .own) :
    (s.k.tcb u).blockingWaitList = none ∧ (s.k.tcb u).svcBlocked = false ∧
      ((s.k.tcb u).state ≠ .waiting ∨ u = g.worker → (s.k.tcb u).delayTicks = 0) ∧
      waitPhase s.log u = (s.pc u).settled (s.k.tcb u).timedOut := by
  have hself := h.placed.task u
  rw [hown] at hself
  refine ⟨hself.list, hself.svc, ?_, hself.phase⟩
  rintro (hne | rfl)
  · exact hself.delay hne
  · exact h.coded.rested

/-- A point of the code that is not in the middle of anything. -/
structure Pc.Open (p : Pc) : Prop where
  wakes : p.wakes = none
  spawns : p.spawns = none
  builds : p.builds = none
  settled : ∀ b, p.settled b = .idle
  svc : p ≠ .svcRet
  idle : p ≠ .idle
  begun : p ≠ .workerStart

def Pc.isOpen : Pc → Bool
  | .app => true
  | .enter _ _ => true
  | .pend _ => true
  | .workerPop => true
  | .workerSleep => true
  | .dispatch _ => true
  | .create _ _ => true
  | .spawnTcb _ => true
  | _ => false

theorem open_of {p : Pc} (h : p.isOpen = true) : p.Open := by
  cases p <;> first
    | (constructor <;> first | rfl | exact fun _ => rfl | (simp; done))
    | cases h

/-- The code goes on from one open point to another. -/
theorem Inv.goto_open {p' : Pc} (h : Inv L s g) (hcur : s.k.currentTask = some u)
    (hpend : s.k.pendsv = false) (hyields : (s.pc u).yields = false)
    (hopen : (s.pc u).isOpen = true)
    (hopen' : p'.isOpen = true) (hfits : p'.fits (u = g.worker))
    (hserves : p'.serves = (s.pc u).serves)
    (hrefs : ∀ a type, p'.object = some (a, type) → g.objs a = some type) :
    Inv L (s.setPc u p') g := by
  have hp := open_of hopen
  have hp' := open_of hopen'
  have hown := h.own hcur hpend (Or.inr hyields)
  obtain ⟨hbwl, hsvc, hdelay, hphase⟩ := h.own_tcb hown
  have hwakes := hp'.wakes
  have hspawns := hp'.spawns
  refine h.goto (k := s.k) (n := []) hcur hown (Kernel.Local.refl _ _) ?_
    (hspawns.trans hp.spawns.symm) hp.svc hp'.svc hp'.idle (fun _ => rfl) (fun _ => rfl) ?_
      h.placed.lists hbwl hsvc hdelay
    (Or.inl (h.running_of hcur hpend hyields)) ?_
  · constructor
    · exact hp.idle
    · exact hfits
    · exact hserves
    · rw [hwakes, hp.wakes]
    · exact hp.begun
    · exact hp'.begun
  · rw [hphase, hp.settled, hp'.settled]
  · exact h.objects.local rfl rfl rfl rfl hrefs hp'.builds

/-- The call ends without having touched the kernel. -/
theorem Inv.finish_open {r : Ret} (v : Nat) (h : Inv L s g) (hcur : s.k.currentTask = some u)
    (hpend : s.k.pendsv = false) (hyields : (s.pc u).yields = false)
    (hin : Inside (u = g.worker) (s.pc u) r) (hspawns : (s.pc u).spawns = none)
    (hsettled : ∀ b, (s.pc u).settled b = .idle) : Inv L (s.finish u r v) g := by
  have hown := h.own hcur hpend (Or.inr hyields)
  obtain ⟨hbwl, hsvc, hdelay, hphase⟩ := h.own_tcb hown
  rw [hsettled] at hphase
  refine h.finish (k := s.k) (n := []) hcur hown (Kernel.Local.refl _ _) hin hspawns (fun _ => rfl)
    (fun _ => rfl) ?_ h.placed.lists hbwl hsvc hdelay
    (Or.inl (h.running_of hcur hpend hyields)) ?_
  · rw [hphase]
    cases r <;> rfl
  · rw [finish_eq]
    refine h.objects.local (p := r.next v) rfl rfl rfl rfl ?_ ?_
    · cases r <;> exact fun a type heq => by cases heq
    · cases r <;> rfl

theorem Inv.app_not_worker (h : Inv L s g) (hpc : s.pc u = .app) : ¬ u = g.worker := by
  have hfits := h.coded.pcs u
  rw [hpc] at hfits
  exact hfits

theorem inside_app {worker : Prop} (h : ¬ worker) : Inside worker .app .app := by
  constructor
  · exact h
  · rfl
  · rfl
  · simp
  · simp
  · simp

theorem Objects.get (h : Objects L s g) {handle a : Nat} {type : KobjType}
    (hget : kObjGet s.k handle type = some a) : g.objs a = some type := by
  obtain ⟨i, hi, huse, htype, hptr⟩ := kObjGet_some hget
  have hobj := h.table i hi huse
  rw [htype, hptr] at hobj
  exact hobj

theorem Inv.callObject {f : Nat → Op} {type : KobjType} (handle missing : Nat) (h : Inv L s g)
    (hcur : s.k.currentTask = some u) (hpend : s.k.pendsv = false) (hpc : s.pc u = .app)
    (hfits : ∀ p, (f p).fits .app) (hobject : ∀ p, (f p).object = some (p, type)) :
    Inv L (s.callObject u handle type f missing) g := by
  have hnot := h.app_not_worker hpc
  rw [Sys.callObject]
  cases hget : kObjGet s.k handle type with
  | none =>
    refine h.finish_open missing hcur hpend ?_ ?_ ?_ ?_
    · rw [hpc]
      rfl
    · rw [hpc]
      exact inside_app hnot
    · rw [hpc]
      rfl
    · rw [hpc]
      exact fun _ => rfl
  | some p =>
    refine h.goto_open hcur hpend ?_ ?_ rfl ⟨hfits p, hnot⟩ ?_ ?_
    · rw [hpc]
      rfl
    · rw [hpc]
      rfl
    · rw [hpc]
      rfl
    · intro a type' heq
      have hobj := (hobject p).symm.trans heq
      obtain ⟨rfl, rfl⟩ := Prod.mk.inj (Option.some.inj hobj)
      exact h.objects.get hget

/-- The task's own code changes its registers, client memory or privilege. -/
theorem Inv.adjust {k : Kernel} (h : Inv L s g) (hcur : s.k.currentTask = some u)
    (hpend : s.k.pendsv = false) (hpc : s.pc u = .app) (hk : s.k.Local k u)
    (hlists : Lists k g.lists)
    (htcb : (k.tcb u).blockingWaitList = (s.k.tcb u).blockingWaitList ∧
      (k.tcb u).svcBlocked = (s.k.tcb u).svcBlocked ∧ (k.tcb u).state = (s.k.tcb u).state ∧
      (k.tcb u).delayTicks = (s.k.tcb u).delayTicks)
    (hheap : k.heap = s.k.heap) (htable : k.table = s.k.table) (hqueue : k.queue = s.k.queue) :
    Inv L { s with k := k } g := by
  have hyields : (s.pc u).yields = false := by
    rw [hpc]
    rfl
  have hown := h.own hcur hpend (Or.inr hyields)
  obtain ⟨hbwl, hsvc, hdelay, hphase⟩ := h.own_tcb hown
  have hrun := h.running_of hcur hpend hyields
  obtain ⟨hb, hs, hst, hd⟩ := htcb
  have hgoto := h.goto (k := k) (n := []) (p := .app) (l := g.live) (o := g.objs) hcur hown hk
    ?_ ?_ ?_ ?_ ?_ (fun _ => rfl) (fun _ => rfl) ?_ hlists (hb.trans hbwl) (hs.trans hsvc) ?_
    (Or.inl (hst.trans hrun)) ?_
  · have hsame : Function.update s.pc u .app = s.pc := by
      rw [← hpc, Function.update_eq_self]
    simpa [Sys.note, Sys.setPc, hsame] using hgoto
  · rw [hpc]
    exact (inside_app (h.app_not_worker hpc)).follows 0
  · rw [hpc]
  · simp [hpc]
  · simp
  · simp
  · rw [hphase, hpc]
    rfl
  · rw [hst, hd]
    exact hdelay
  · exact h.objects.local (p := .app) hheap htable hqueue rfl (fun _ _ heq => by cases heq) rfl

/-- The task becomes a user task, whatever CONTROL says. -/
theorem Inv.setUser (p : Bool) (h : Inv L s g) (hcur : s.k.currentTask = some u)
    (hpend : s.k.pendsv = false) (hpc : s.pc u = .app) :
    Inv L { s with k :=
      { s.k.setTcb u (fun tcb => { tcb with user := true }) with nPriv := p } } g := by
  have htasks : (s.k.setTcb u fun tcb => { tcb with user := true }).tasks =
      s.k.tasks.setTcb u fun tcb => { tcb with user := true } := by
    refine tasks_setTcb ?_
    rfl
  have hlocal := Kernel.Local.of_setTcb htasks (fun _ => rfl) fun _ => rfl
  have hlists : Lists (s.k.setTcb u fun tcb => { tcb with user := true }) g.lists :=
    lists_setTcb rfl h.placed.lists
  refine h.adjust hcur hpend hpc ⟨⟨hlocal.frame, hlocal.ring, hlocal.other, hlocal.rank,
    hlocal.kernel⟩, hlocal.used⟩ hlists ?_ rfl rfl rfl
  simp

/-- A direct call, up to its first critical section. -/
theorem Inv.call (c : Call) (h : Inv L s g) (hcur : s.k.currentTask = some u)
    (hpend : s.k.pendsv = false) (hpc : s.pc u = .app) : Inv L (s.call u c) g := by
  have hnot := h.app_not_worker hpc
  have hgoto : ∀ p' : Pc, p'.isOpen = true → p'.fits (u = g.worker) → p'.serves = none →
      p'.object = none → Inv L (s.setPc u p') g := by
    intro p' hopen hfits hserves hobject
    refine h.goto_open hcur hpend ?_ ?_ hopen hfits ?_ ?_
    · rw [hpc]
      rfl
    · rw [hpc]
      rfl
    · rw [hpc, hserves]
      rfl
    · intro a type heq
      rw [hobject] at heq
      cases heq
  cases c with
  | semTake handle ms =>
    exact h.callObject handle minusOne hcur hpend hpc (fun _ => trivial) fun _ => rfl
  | semGive handle => exact h.callObject handle 0 hcur hpend hpc (fun _ => trivial) fun _ => rfl
  | mutexLock handle ms =>
    exact h.callObject handle minusOne hcur hpend hpc (fun _ => trivial) fun _ => rfl
  | mutexUnlock handle =>
    exact h.callObject handle 0 hcur hpend hpc (fun _ => trivial) fun _ => rfl
  | queuePush handle item ms =>
    exact h.callObject handle minusOne hcur hpend hpc (fun _ => trivial) fun _ => rfl
  | queuePop handle item ms =>
    exact h.callObject handle minusOne hcur hpend hpc (fun _ => trivial) fun _ => rfl
  | taskDelay ticks => exact hgoto _ rfl ⟨trivial, hnot⟩ rfl rfl
  | taskYield => exact hgoto _ rfl hnot rfl rfl
  | create c => exact hgoto _ rfl hnot rfl rfl
  | taskCreate args =>
    rw [Sys.call]
    by_cases hacc : args.accepted = true
    · rw [if_pos hacc]
      exact hgoto _ rfl ⟨hnot, hacc⟩ rfl rfl
    · rw [if_neg hacc]
      refine h.finish_open 0 hcur hpend ?_ ?_ ?_ ?_
      · rw [hpc]
        rfl
      · rw [hpc]
        exact inside_app hnot
      · rw [hpc]
        rfl
      · rw [hpc]
        exact fun _ => rfl
  | setUnprivileged => exact h.setUser true hcur hpend hpc

/-- Some instructions of the task's own code. -/
theorem Inv.compute (r0 : Nat) (ram : ByteMemory.Memory) (h : Inv L s g)
    (hcur : s.k.currentTask = some u) (hpend : s.k.pendsv = false) (hpc : s.pc u = .app) :
    Inv L { s with k := { s.k with r0 := r0, ram := ram } } g := by
  refine h.adjust hcur hpend hpc ⟨⟨rfl, rfl, fun _ _ => rfl, rfl, rfl⟩, rfl⟩ h.placed.lists ?_ rfl
    rfl rfl
  exact ⟨rfl, rfl, rfl, rfl⟩

/-- The caller of an answered syscall goes on with the answer in R0. -/
theorem Inv.svcRet (h : Inv L s g) (hcur : s.k.currentTask = some u)
    (hpend : s.k.pendsv = false) (hpc : s.pc u = .svcRet) :
    Inv L ((s.setPc u .app).note [.resumed u s.k.r0]) g := by
  have hyields : (s.pc u).yields = false := by
    rw [hpc]
    rfl
  have hown := h.own hcur hpend (Or.inr hyields)
  obtain ⟨hbwl, hsvc, hdelay, hphase⟩ := h.own_tcb hown
  have hnot : ¬ u = g.worker := by
    have hfits := h.coded.pcs u
    rw [hpc] at hfits
    exact hfits
  refine h.local_of (p := .app) hcur (Kernel.Local.refl _ _).toNear rfl ?_ (fun t _ => rfl) ?_
    (by simp) h.placed.lists ?_ (Or.inl (h.running_of hcur hpend hyields))
      (fun hw => absurd hw hnot)
    (h.scheduled.local (Kernel.Local.refl _ _) rfl (by rw [hpc]; rfl)) ?_
  · rw [hpc]
    constructor <;> first | rfl | simp | exact hnot
  · intro t ht
    have hne : u ≠ t := fun heq => ht heq.symm
    change (sysPhase s.log t).next t (.resumed u s.k.r0) = _
    simp [SysPhase.next, hne]
  · have hself := h.placed.task u
    rw [hown] at hself ⊢
    have hanswered : sysPhase s.log u = .answered s.k.r0 := by
      have hs := hself.sys
      rw [if_pos (show (s.view u).pc = .svcRet from hpc)] at hs
      rw [← reply_current hcur]
      exact hs
    have hpc' : Function.update s.pc u Pc.app u = .app := Function.update_self _ _ _
    constructor
    · exact hbwl
    · exact hsvc
    · exact fun hne => hdelay (Or.inl hne)
    · intro hidle
      exact absurd (hpc'.symm.trans hidle) (by simp)
    · change waitPhase s.log u = (Function.update s.pc u Pc.app u).settled _
      rw [hphase, hpc, hpc']
      rfl
    · change (sysPhase s.log u).next u (.resumed u s.k.r0) =
        if Function.update s.pc u Pc.app u = .svcRet then _ else _
      rw [hpc', hanswered]
      simp [SysPhase.next]
  · refine h.objects.local (p := .app) rfl rfl rfl rfl ?_ rfl
    exact fun _ _ heq => by cases heq

/-- A task on a wait list, or taken off it again, asks for a context switch. -/
theorem Inv.block {op : Op} {r : Ret} (h : Inv L s g) (hcur : s.k.currentTask = some u)
    (hpc : s.pc u = .block op r) :
    Inv L ({ s with k := portTriggerPendsv s.k }.setPc u (.check op r)) g := by
  have hfits := h.coded.pcs u
  rw [hpc] at hfits
  have hpc' : Function.update s.pc u (.check op r) u = .check op r := Function.update_self _ _ _
  have hview : ({ s with k := portTriggerPendsv s.k }.setPc u (.check op r) : Sys).view u =
      { s.view u with pc := .check op r } := by
    simp only [Sys.view, Sys.setPc, hpc']
    rfl
  have hpcv : (s.view u).pc = .block op r := hpc
  have hk : s.k.Local (portTriggerPendsv s.k) u := ⟨⟨rfl, rfl, fun _ _ => rfl, rfl, rfl⟩, rfl⟩
  refine h.local_of (p := .check op r) hcur hk.toNear rfl ?_ (fun _ _ => rfl) (fun _ _ => rfl)
    (by simp) h.placed.lists ?_ (Or.inr (Or.inl rfl)) ?_
      (h.scheduled.local hk rfl (by rw [hpc]; rfl)) ?_
  · rw [hpc]
    constructor <;> first | rfl | simp | exact hfits
  · have hself := h.placed.task u
    rw [hview]
    have hroute : ∀ w, (s.view u).Route w → View.Route { s.view u with pc := .check op r } w := by
      rintro w (⟨_, hbad, _⟩ | ⟨hsvc, hwaits, hrest⟩)
      · rw [hpcv] at hbad
        cases hbad
      · rw [hpcv] at hwaits
        exact Or.inr ⟨hsvc, hwaits, hrest⟩
    cases hplace : g.place u with
    | fresh =>
      rw [hplace] at hself
      have hbad := hself.pc
      rw [hpcv] at hbad
      cases hbad
    | own =>
      rw [hplace] at hself
      have hphase := hself.phase
      have hsys := hself.sys
      rw [hpcv] at hphase hsys
      exact ⟨hself.list, hself.svc, hself.delay, (fun heq => by cases heq), hphase, hsys⟩
    | ring =>
      rw [hplace] at hself
      have hbad := hself.pc
      rw [hpcv] at hbad
      cases hbad
    | served v =>
      rw [hplace] at hself
      have hbad := hself.pc
      rw [hpcv] at hbad
      cases hbad
    | listed w =>
      rw [hplace] at hself
      exact ⟨hself.state, hroute w hself.route, hself.phase⟩
    | waking v =>
      rw [hplace] at hself
      obtain ⟨w, hw⟩ := hself
      exact ⟨w, hw.state, hw.delay, hw.list, hroute w hw.route, hw.phase⟩
  · rintro rfl
    exact h.coded.rested
  · refine h.objects.local (p := .check op r) rfl rfl rfl rfl ?_ rfl
    intro a type heq
    exact h.objects.refs u a type (by rw [hpc]; exact heq)

/-- Behind the PendSV request of a call that ends here. -/
theorem Inv.pend {after : After} (h : Inv L s g) (hcur : s.k.currentTask = some u)
    (hpend : s.k.pendsv = false) (hpc : s.pc u = .pend after) :
    Inv L ({ s with k := portTriggerPendsv s.k }.proceed u after) g := by
  have hown := h.own hcur hpend (Or.inl (by rw [hpc]; rfl))
  obtain ⟨hbwl, hsvc, hdelay, hphase⟩ := h.own_tcb hown
  have hfits := h.coded.pcs u
  rw [hpc] at hphase hfits
  have hk : s.k.Local (portTriggerPendsv s.k) u := ⟨⟨rfl, rfl, fun _ _ => rfl, rfl, rfl⟩, rfl⟩
  cases after with
  | ret r v =>
    refine h.finish (k := portTriggerPendsv s.k) (n := []) hcur hown hk ?_ (by rw [hpc]; rfl)
      (fun _ => rfl) (fun _ => rfl) ?_ h.placed.lists hbwl hsvc hdelay (Or.inr rfl) ?_
    · rw [hpc]
      constructor <;> first | rfl | simp | exact hfits
    · rw [hphase]
      cases r <;> rfl
    · rw [finish_eq]
      refine h.objects.local (p := r.next v) rfl rfl rfl rfl ?_ ?_
      · cases r <;> exact fun a type heq => by cases heq
      · cases r <;> rfl
  | loop =>
    refine h.goto (k := portTriggerPendsv s.k) (n := []) (p := .workerPop) hcur hown hk ?_
      (by rw [hpc]; rfl) ?_ ?_ ?_ (fun _ => rfl) (fun _ => rfl) hphase h.placed.lists hbwl hsvc
        hdelay
      (Or.inr (Or.inl rfl)) ?_
    · rw [hpc]
      constructor <;> first | rfl | simp | exact hfits
    · rw [hpc]
      simp
    · simp
    · simp
    · exact h.objects.local (p := .workerPop) rfl rfl rfl rfl (fun _ _ heq => by cases heq) rfl

/-- The flag that a timeout has set decides how a wait ends. -/
theorem Inv.check {op : Op} {r : Ret} (h : Inv L s g) (hcur : s.k.currentTask = some u)
    (hpend : s.k.pendsv = false) (hpc : s.pc u = .check op r) : Inv L (s.checkWait u op r) g := by
  have hyields : (s.pc u).yields = false := by
    rw [hpc]
    rfl
  have hown := h.own hcur hpend (Or.inr hyields)
  have hrun := h.running_of hcur hpend hyields
  obtain ⟨hbwl, hsvc, hdelay, hphase⟩ := h.own_tcb hown
  have hfits := h.coded.pcs u
  rw [hpc] at hphase hfits
  obtain ⟨hop, rfl, hnot, hwait⟩ := hfits
  obtain ⟨w, hw⟩ := Option.isSome_iff_exists.mp hwait
  simp only [Pc.settled, hw] at hphase
  have hin : Inside (u = g.worker) (s.pc u) .app := by
    rw [hpc]
    constructor <;> first | rfl | simp | exact hnot
  have hspawns : (s.pc u).spawns = none := by
    rw [hpc]
    rfl
  have hobj : ∀ s' : Sys, s'.k.heap = s.k.heap → s'.k.table = s.k.table → s'.k.queue = s.k.queue →
      s'.pc = s.pc → ∀ v, Objects L (s'.finish u .app v) g := by
    intro s' h1 h2 h3 h4 v
    rw [finish_eq]
    refine h.objects.local (u := u) (p := .app) h1 h2 h3 ?_ (fun _ _ heq => by cases heq) rfl
    change Function.update s'.pc u .app = _
    rw [h4]
  have hdone : ∀ v, (waitPhase s.log u).conclude v = .idle → Inv L (s.finish u .app v) g := by
    intro v hv
    exact h.finish (k := s.k) (n := []) hcur hown (Kernel.Local.refl _ _) hin hspawns (fun _ => rfl)
      (fun _ => rfl) hv h.placed.lists hbwl hsvc hdelay (Or.inl hrun)
      (hobj s rfl rfl rfl rfl v)
  rw [Sys.checkWait, hw]
  simp only
  by_cases hto : (s.k.tcb u).timedOut = true
  · rw [hto, if_pos rfl] at hphase
    have hconclude : (waitPhase s.log u).conclude minusOne = .idle := by
      rw [hphase]
      rfl
    by_cases hq : w.isQueue = true
    · rw [if_pos hq, if_pos hto]
      exact hdone minusOne hconclude
    · rw [if_neg hq, if_pos hto]
      have htasks : (s.k.setTcb u fun tcb => { tcb with timedOut := false }).tasks =
          s.k.tasks.setTcb u fun tcb => { tcb with timedOut := false } := by
        refine tasks_setTcb ?_
        rfl
      refine h.finish (k := s.k.setTcb u fun tcb => { tcb with timedOut := false }) (n := [])
        hcur hown (Kernel.Local.of_setTcb htasks (fun _ => rfl) fun _ => rfl) hin hspawns
        (fun _ => rfl) (fun _ => rfl) hconclude (lists_setTcb rfl h.placed.lists) ?_ ?_ ?_ ?_
        (hobj { s with k := s.k.setTcb u fun tcb => { tcb with timedOut := false } }
          rfl rfl rfl rfl minusOne)
      · rw [setTcb_tcb_same]
        exact hbwl
      · rw [setTcb_tcb_same]
        exact hsvc
      · rw [setTcb_tcb_same]
        exact hdelay
      · rw [setTcb_tcb_same]
        exact Or.inl hrun
  · rw [if_neg hto] at hphase
    by_cases hq : w.isQueue = true
    · rw [if_pos hq, if_neg hto]
      refine h.goto (k := s.k) (n := []) (p := .retry op .app) hcur hown
        (Kernel.Local.refl _ _) ?_ (by rw [hpc]; rfl) ?_ ?_ ?_ (fun _ => rfl) (fun _ => rfl) ?_
        h.placed.lists hbwl
        hsvc hdelay (Or.inl hrun) ?_
      · rw [hpc]
        constructor <;> first | rfl | simp | exact ⟨hop, rfl, hnot, w, hw, hq⟩
      · rw [hpc]
        simp
      · simp
      · simp
      · simpa only [Pc.settled, hw] using hphase
      · refine h.objects.local (p := .retry op .app) rfl rfl rfl rfl ?_ rfl
        intro a type heq
        exact h.objects.refs u a type (by rw [hpc]; exact heq)
    · rw [if_neg hq, if_neg hto]
      refine hdone 0 ?_
      rw [hphase]
      simp [WaitPhase.conclude, hq]

end Own

end Crest
