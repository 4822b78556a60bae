import CrestRtos.System.SyncSteps

/-!
# Syscalls and the worker

An `svc` puts the caller's item into the ring, the worker takes it out and
serves the caller, and `scheduler_wake_task` answers it. A caller has at most
one item, so the ring never fills.
-/

namespace Crest
open IntrusiveList MachineWord Alloc

section Answers
variable {k : Kernel} {t x : Tid} {v : Nat} {log : List Event}

theorem waitPhase_answerNote : waitPhase (answerNote k t v ++ log) x =
    if (k.tcb t).svcBlocked = true ∧ t = x then (waitPhase log x).conclude v
    else waitPhase log x := by
  rw [answerNote]
  by_cases hsvc : (k.tcb t).svcBlocked = true
  · rw [if_pos hsvc]
    simp [WaitPhase.next, hsvc]
  · rw [if_neg hsvc, if_neg fun hc => hsvc hc.1]
    rfl

theorem sysPhase_answerNote : sysPhase (answerNote k t v ++ log) x =
    if (k.tcb t).svcBlocked = true ∧ t = x then
      (if sysPhase log x = .posted then .answered v else .broken)
    else sysPhase log x := by
  rw [answerNote]
  by_cases hsvc : (k.tcb t).svcBlocked = true
  · rw [if_pos hsvc]
    simp [SysPhase.next, hsvc]
  · rw [if_neg hsvc, if_neg fun hc => hsvc hc.1]
    rfl

end Answers

section Wake
variable {L : Layout} {s : Sys} {g : Ghost} {u : Tid}

theorem tasks_wakeSection (k : Kernel) (t : Tid) (v : Nat) :
    (wakeSection k t v).tasks = k.tasks.setTcb t fun tcb =>
      { tcb with
        savedR0 := if tcb.svcBlocked then v else tcb.savedR0
        svcBlocked := false
        state := .ready } := by
  refine tasks_setTcb ?_
  rfl

theorem lists_wakeSection {k : Kernel} {W : WaitMap} (t : Tid) (v : Nat) (h : Lists k W) :
    Lists (wakeSection k t v) W := lists_setTcb rfl h

/-- A syscall of `x` has been answered with `v`. -/
theorem View.Own.answered {v v' : View} {n : Nat} (hpc : v.pc = .svcRet) (hpc' : v'.pc = v.pc)
    (hsys : v.sys = .posted) (hlist : v'.tcb.blockingWaitList = none)
    (hsvc : v'.tcb.svcBlocked = false)
    (hdelay : v'.tcb.state ≠ .waiting → v'.tcb.delayTicks = 0)
    (hphase : v'.phase = v.phase.conclude n) (hidle : v.phase.conclude n = .idle)
    (hsys' : v'.sys = if v.sys = .posted then .answered n else .broken) (hreply : v'.reply = n) :
    v'.Own := by
  constructor
  · exact hlist
  · exact hsvc
  · exact hdelay
  · intro heq
    rw [hpc', hpc] at heq
    cases heq
  · rw [hphase, hidle, hpc', hpc]
    rfl
  · rw [hsys', if_pos hsys, if_pos (hpc'.trans hpc), hreply]

theorem wakeSection_self (k : Kernel) (t : Tid) (v : Nat) :
    (wakeSection k t v).tasks.tcb t =
      { (k.tcb t).plain with
        savedR0 := if (k.tcb t).svcBlocked then v else (k.tcb t).savedR0
        svcBlocked := false
        state := .ready } := by
  rw [tasks_wakeSection, setTcb_tcb_same]
  rfl

section Woken
variable {t : Tid} {v : Nat} {after : After}

/-- A task that waits in a syscall has its answer. -/
theorem woken_answered (hcur : s.k.currentTask = some u) (htu : t ≠ u)
    (hsvc : (s.k.tcb t).svcBlocked = true) (hpc : s.pc t = .svcRet)
    (hsys : sysPhase s.log t = .posted) (hdelay : (s.k.tcb t).delayTicks = 0)
    (hlist : (s.k.tcb t).blockingWaitList = none)
    (hidle : (waitPhase s.log t).conclude v = .idle) :
    (((({ s with k := wakeSection s.k t v } : Sys).note (answerNote s.k t v)).setPc u
      (.pend after)).view t).Own := by
  have htcb := wakeSection_self s.k t v
  have hpct : Function.update s.pc u (.pend after) t = s.pc t := Function.update_of_ne htu _ _
  refine View.Own.answered (v := s.view t) (n := v) hpc hpct hsys ?_ ?_ ?_ ?_ hidle ?_ ?_
  · change ((wakeSection s.k t v).tasks.tcb t).blockingWaitList = none
    rw [htcb]
    exact hlist
  · change ((wakeSection s.k t v).tasks.tcb t).svcBlocked = false
    rw [htcb]
  · intro _
    change ((wakeSection s.k t v).tasks.tcb t).delayTicks = 0
    rw [htcb]
    exact hdelay
  · refine waitPhase_answerNote.trans ?_
    rw [if_pos ⟨hsvc, rfl⟩]
    rfl
  · refine sysPhase_answerNote.trans ?_
    rw [if_pos ⟨hsvc, rfl⟩]
    rfl
  · have hcur' : (wakeSection s.k t v).currentTask = some u := hcur
    change (wakeSection s.k t v).reply t = v
    rw [reply_of_ne hcur' htu, htcb]
    exact if_pos hsvc

/-- A task that has called the kernel itself is behind its wait. -/
theorem woken_called {w : WaitList} (hw : (s.view t).Unlinked w) (htu : t ≠ u)
    (hsvc : (s.k.tcb t).svcBlocked = false) (hwaits : (s.pc t).waits = some w)
    (hsys : sysPhase s.log t = .idle) (hto : (s.k.tcb t).timedOut = false) :
    (((({ s with k := wakeSection s.k t v } : Sys).note (answerNote s.k t v)).setPc u
      (.pend after)).view t).Own := by
  have htcb := wakeSection_self s.k t v
  have hpct : Function.update s.pc u (.pend after) t = s.pc t := Function.update_of_ne htu _ _
  have hnote : answerNote s.k t v = [] := by
    rw [answerNote, hsvc]
    rfl
  have hnotsvc : s.pc t ≠ .svcRet := by
    intro heq
    rw [heq] at hwaits
    cases hwaits
  constructor
  · change ((wakeSection s.k t v).tasks.tcb t).blockingWaitList = none
    rw [htcb]
    exact hw.list
  · change ((wakeSection s.k t v).tasks.tcb t).svcBlocked = false
    rw [htcb]
  · intro _
    change ((wakeSection s.k t v).tasks.tcb t).delayTicks = 0
    rw [htcb]
    exact hw.delay
  · intro _
    refine Or.inl ?_
    change ((wakeSection s.k t v).tasks.tcb t).state = .ready
    rw [htcb]
  · change waitPhase (answerNote s.k t v ++ s.log) t =
      (Function.update s.pc u _ t).settled ((wakeSection s.k t v).tasks.tcb t).timedOut
    have hphase : waitPhase s.log t = .handed w := hw.phase
    rw [hnote, hpct, htcb]
    change waitPhase s.log t = (s.pc t).settled (s.k.tcb t).timedOut
    rw [hto, hphase]
    cases hp : s.pc t with
    | block op r => rw [hp] at hwaits; simp [Pc.settled, show op.waitList = some w from hwaits]
    | check op r => rw [hp] at hwaits; simp [Pc.settled, show op.waitList = some w from hwaits]
    | _ => rw [hp] at hwaits; cases hwaits
  · change sysPhase (answerNote s.k t v ++ s.log) t =
      if Function.update s.pc u _ t = .svcRet then _ else _
    rw [hnote, hpct, if_neg hnotsvc]
    exact hsys

theorem Inv.woken_view (h : Inv L s g) (hcur : s.k.currentTask = some u)
    (hpc : s.pc u = .wake t v after) (htu : t ≠ u) :
    (((({ s with k := wakeSection s.k t v } : Sys).note (answerNote s.k t v)).setPc u
      (.pend after)).view t).Own := by
  have hfits := h.coded.pcs u
  have htask := h.placed.task t
  rw [hpc] at hfits
  cases after with
  | loop =>
    rw [(h.placed.serves_iff u t).mp (by rw [hpc]; rfl)] at htask
    have hphase : waitPhase s.log t = .idle := htask.phase
    exact woken_answered hcur htu htask.svc htask.pc htask.sys htask.delay htask.list
      (by rw [hphase]; rfl)
  | ret r v' =>
    obtain rfl : v = 0 := hfits.1
    rw [(h.placed.wakes_iff u t).mp (by rw [hpc]; rfl)] at htask
    obtain ⟨w, hw⟩ := htask
    have hphase : waitPhase s.log t = .handed w := hw.phase
    rcases hw.route with ⟨hsvc, hpcs, hsys, hqueue⟩ | ⟨hsvc, hwaits, hsys, hto⟩
    · refine woken_answered hcur htu hsvc hpcs hsys hw.delay hw.list ?_
      rw [hphase]
      simp [WaitPhase.conclude, hqueue]
    · exact woken_called hw htu hsvc hwaits hsys hto

end Woken

/-- `scheduler_wake_task`, for a waiter that was handed something and for a
caller whose item is done. -/
theorem Inv.wake {t : Tid} {v : Nat} {after : After} (h : Inv L s g)
    (hcur : s.k.currentTask = some u) (hpend : s.k.pendsv = false)
    (hpc : s.pc u = .wake t v after) :
    Inv L ((({ s with k := wakeSection s.k t v } : Sys).note (answerNote s.k t v)).setPc u
      (.pend after)) { g with place := Function.update g.place t .own } := by
  have hfits := h.coded.pcs u
  rw [hpc] at hfits
  have hplace : (g.place t = .served u ∧ (Pc.pend after).serves = none ∧
      (Pc.pend after).wakes = (s.pc u).wakes) ∨
      (g.place t = .waking u ∧ (Pc.pend after).wakes = none ∧
      (Pc.pend after).serves = (s.pc u).serves) := by
    rw [hpc]
    cases after with
    | loop => exact Or.inl ⟨(h.placed.serves_iff u t).mp (by rw [hpc]; rfl), rfl, rfl⟩
    | ret r v' => exact Or.inr ⟨(h.placed.wakes_iff u t).mp (by rw [hpc]; rfl), rfl, rfl⟩
  refine h.release (p := .pend after) hcur hpend ?_ ?_ hplace ?_ ?_ rfl rfl
    (tasks_wakeSection s.k t v) (fun _ => ⟨rfl, rfl⟩) (lists_setTcb rfl h.placed.lists) rfl rfl rfl
    ?_ ?_ ?_ (h.woken_view hcur hpc)
  · rw [hpc]
    simp [Pc.waits, Pc.yields, Pc.settled]
  · simp [Pc.settled]
  · cases after with
    | loop => exact hfits
    | ret r v' => exact hfits.2
  · rw [hpc]
    rfl
  · intro x hx
    rw [waitPhase_answerNote, if_neg fun hc => hx hc.2.symm]
  · intro x hx
    rw [sysPhase_answerNote, if_neg fun hc => hx hc.2.symm]
  · have hself := congrArg Tcb.state (wakeSection_self s.k t v)
    change ((wakeSection s.k t v).tasks.tcb t).state ≠ .running
    rw [hself]
    simp

end Wake

section Decode
variable {k : Kernel} {item : WorkItem} {op : Op}

theorem withObject_call {handle : Nat} {type : KobjType} {f : Nat → Work}
    (h : withObject k handle type f = .call op) :
    ∃ p, kObjGet k handle type = some p ∧ f p = .call op := by
  rw [withObject] at h
  cases hget : kObjGet k handle type with
  | none =>
    rw [hget] at h
    cases h
  | some p =>
    rw [hget] at h
    exact ⟨p, rfl, h⟩

theorem ite_call {c : Prop} [Decidable c] {x y : Work} (h : (if c then x else y) = .call op) :
    x = .call op ∨ y = .call op := by
  by_cases hc : c
  · rw [if_pos hc] at h
    exact Or.inl h
  · rw [if_neg hc] at h
    exact Or.inr h

/-- The worker's calls go to an object of the right type and never block the
worker itself. -/
theorem decode_call (h : decode k item = .call op) : op.fits (.serve item.caller) ∧
    ∃ handle a type, kObjGet k handle type = some a ∧ op.object = some (a, type) := by
  rw [decode] at h
  rcases ite_call h with h | h
  · cases h
  rcases ite_call h with h | h
  · obtain ⟨p, hget, hop⟩ := withObject_call h
    cases hop
    exact ⟨rfl, _, p, _, hget, rfl⟩
  rcases ite_call h with h | h
  · obtain ⟨p, hget, hop⟩ := withObject_call h
    cases hop
    exact ⟨rfl, _, p, _, hget, rfl⟩
  rcases ite_call h with h | h
  · obtain ⟨p, hget, hop⟩ := withObject_call h
    cases hop
    exact ⟨trivial, _, p, _, hget, rfl⟩
  rcases ite_call h with h | h
  · obtain ⟨p, hget, hop⟩ := withObject_call h
    cases hop
    exact ⟨rfl, _, p, _, hget, rfl⟩
  rcases ite_call h with h | h
  · obtain ⟨p, hget, hop⟩ := withObject_call h
    cases hop
    exact ⟨rfl, _, p, _, hget, rfl⟩
  rcases ite_call h with h | h
  · obtain ⟨p, hget, hop⟩ := withObject_call h
    cases hop
    exact ⟨rfl, _, p, _, hget, rfl⟩
  rcases ite_call h with h | h
  · cases h
  rcases ite_call h with h | h
  · cases h
  rcases ite_call h with h | h
  · cases h
  rcases ite_call h with h | h
  · cases h
  · cases h

end Decode

section Ring
variable {k : Kernel}

theorem kworkPop_some {k' : Kernel} {item : WorkItem} (hhead : k.kworkHead < kworkQueueSize)
    (htail : k.kworkTail < kworkQueueSize) (h : kworkPopLocked k = some (k', item)) :
    k' = { k with kworkHead := (k.kworkHead + 1) % kworkQueueSize } ∧
      k.kwork = item :: k'.kwork := by
  rw [kworkPopLocked] at h
  by_cases hempty : k.kworkHead = k.kworkTail
  · rw [if_pos hempty] at h
    cases h
  · rw [if_neg hempty] at h
    obtain ⟨rfl, rfl⟩ := Prod.mk.inj (Option.some.inj h)
    exact ⟨rfl, RingBuffer.contents_pop hhead htail hempty⟩

/-- The ring has room as long as every task has at most one item in it. -/
theorem kwork_room (hhead : k.kworkHead < kworkQueueSize) (htail : k.kworkTail < kworkQueueSize)
    (hnodup : (k.kwork.map WorkItem.caller).Nodup) :
    (k.kworkTail + 1) % kworkQueueSize ≠ k.kworkHead := by
  intro hfull
  have hcount := (RingBuffer.full_iff hhead htail).mp hfull
  have hlen : k.kwork.length = kworkQueueSize - 1 :=
    RingBuffer.length_contents.trans hcount
  have hcard := hnodup.length_le_card
  rw [List.length_map, hlen, Fintype.card_fin] at hcard
  exact absurd hcard (by decide)

/-- The worker is made ready if it sleeps. -/
def rouseWorker (k : Kernel) : Kernel :=
  match k.kernelTcb with
  | none => k
  | some u =>
    if (k.tcb u).state = .waiting then k.setTcb u fun tcb => { tcb with state := .ready } else k

theorem kworkPush_room (item : WorkItem)
    (hroom : (k.kworkTail + 1) % kworkQueueSize ≠ k.kworkHead) :
    kworkPush k item = (rouseWorker { k with
      kworkBuf := Function.update k.kworkBuf k.kworkTail item
      kworkTail := (k.kworkTail + 1) % kworkQueueSize }, 0) := by
  simp only [kworkPush, if_neg hroom, rouseWorker]
  cases k.kernelTcb with
  | none => rfl
  | some v =>
    by_cases hst : (k.tcb v).state = .waiting
    · simp only [if_pos hst]
    · simp only [if_neg hst]

/-- The item behind the last one of the ring, and the caller blocked. -/
def postItem (k : Kernel) (item : WorkItem) : Kernel :=
  { ({ k with r0 := item.arg0 }.setTcb item.caller fun tcb =>
      { tcb with svcBlocked := true, state := .waiting }) with
    kworkBuf := Function.update k.kworkBuf k.kworkTail item
    kworkTail := (k.kworkTail + 1) % kworkQueueSize }

theorem svcHandler_room {item : WorkItem}
    (hroom : (k.kworkTail + 1) % kworkQueueSize ≠ k.kworkHead) :
    svcHandler k item = portTriggerPendsv (rouseWorker (postItem k item)) := by
  have hpush := kworkPush_room (k := { k with r0 := item.arg0 }.setTcb item.caller fun tcb =>
    { tcb with svcBlocked := true, state := .waiting }) item hroom
  rw [svcHandler]
  simp only [hpush]
  rfl

theorem postItem_kwork (item : WorkItem) (hhead : k.kworkHead < kworkQueueSize)
    (htail : k.kworkTail < kworkQueueSize)
    (hroom : (k.kworkTail + 1) % kworkQueueSize ≠ k.kworkHead) :
    (postItem k item).kwork = k.kwork ++ [item] := by
  have hpush : RingBuffer.contents (Function.update k.kworkBuf k.kworkTail item) kworkQueueSize
      k.kworkHead ((k.kworkTail + 1) % kworkQueueSize) =
      k.kwork ++ [Function.update k.kworkBuf k.kworkTail item k.kworkTail] :=
    RingBuffer.contents_push _ hhead htail hroom fun i _ hi => Function.update_of_ne hi _ _
  rw [Function.update_self] at hpush
  exact hpush

end Ring

section Worker
variable {L : Layout} {s : Sys} {g : Ghost} {u : Tid}

/-- The worker finds nothing to do. -/
theorem Inv.popNone (h : Inv L s g) (hcur : s.k.currentTask = some u)
    (hpend : s.k.pendsv = false) (hpc : s.pc u = .workerPop) :
    Inv L (s.setPc u .workerSleep) g := by
  have hfits := h.coded.pcs u
  rw [hpc] at hfits
  refine h.goto_open hcur hpend ?_ ?_ rfl hfits ?_ (fun _ _ heq => by cases heq)
  · rw [hpc]
    rfl
  · rw [hpc]
    rfl
  · rw [hpc]
    rfl

section Taking
variable {k' : Kernel} {item : WorkItem}

theorem popped_tasks (hpop : kworkPopLocked s.k = some (k', item)) (t : Tid) :
    k'.tasks.tcb t = s.k.tasks.tcb t := by
  rw [kworkPopLocked] at hpop
  split at hpop
  · cases hpop
  · obtain ⟨rfl, _⟩ := Prod.mk.inj (Option.some.inj hpop)
    rfl

theorem popped_occupants {W : WaitMap} {p : Place} (hpc : s.pc u = .workerPop) (hp : p ≠ .ring)
    (hserved : p ≠ .served u) :
    ((({ s with k := k' } : Sys).note [.taken item]).setPc u (.dispatch item)).occupants W p =
      s.occupants W p := by
  cases p with
  | fresh => rfl
  | own => rfl
  | ring => exact absurd rfl hp
  | listed w => rfl
  | served v =>
    have hv : v ≠ u := fun heq => hserved (by rw [heq])
    change (Function.update s.pc u (.dispatch item) v).serves.toList = (s.pc v).serves.toList
    rw [Function.update_of_ne hv]
  | waking v =>
    change (Function.update s.pc u (.dispatch item) v).wakes.toList = (s.pc v).wakes.toList
    by_cases hv : v = u
    · rw [hv, Function.update_self, hpc]
      rfl
    · rw [Function.update_of_ne hv]

theorem Inv.popped_placed (h : Inv L s g) (hcur : s.k.currentTask = some u)
    (hpend : s.k.pendsv = false) (hpc : s.pc u = .workerPop)
    (hpop : kworkPopLocked s.k = some (k', item)) :
    Placed ((({ s with k := k' } : Sys).note [.taken item]).setPc u (.dispatch item)) g.lists
      (Function.update g.place item.caller (.served u)) := by
  have hown := h.own hcur hpend (Or.inr (by rw [hpc]; rfl))
  have htasks := popped_tasks hpop
  obtain ⟨hk, hwork⟩ := kworkPop_some h.coded.head h.coded.tail hpop
  have hframe : k'.frame = s.k.frame := by
    rw [hk]
    rfl
  have hring : g.place item.caller = .ring := (h.placed.mem_ring _).mp (by rw [hwork]; simp)
  have hne : item.caller ≠ u := by
    intro heq
    rw [heq, hown] at hring
    cases hring
  have honce := h.placed.once
  rw [hwork, List.map_cons, List.nodup_cons] at honce
  refine h.placed.move (u := u) ?_ honce.2 ?_ ?_ ?_ ?_ ?_ ?_
  · change Lists k' g.lists
    rw [hk]
    exact h.placed.lists
  · intro _ _ t
    rw [hring]
    change t ∈ k'.kwork.map WorkItem.caller ↔
      t ∈ s.k.kwork.map WorkItem.caller ∧ t ≠ item.caller
    rw [hwork, List.map_cons, List.mem_cons]
    constructor
    · intro hmem
      exact ⟨Or.inr hmem, fun heq => honce.1 (heq ▸ hmem)⟩
    · rintro ⟨heq | hmem, hnt⟩
      · exact absurd heq hnt
      · exact hmem
  · intro _ t
    change t ∈ (Function.update s.pc u (.dispatch item) u).serves.toList ↔
      t ∈ (s.pc u).serves.toList ∨ t = item.caller
    rw [Function.update_self, hpc]
    simp [Pc.serves]
  · intro p _ hpx hq
    rw [hring] at hpx
    exact popped_occupants hpc hpx hq
  · intro t _ htu
    exact view_other hcur hframe (htasks t) rfl rfl rfl htu
  · have htask := h.placed.task item.caller
    rw [hring] at htask
    have hview : ((({ s with k := k' } : Sys).note [.taken item]).setPc u
        (.dispatch item)).view item.caller = s.view item.caller :=
      view_other hcur hframe (htasks _) rfl rfl rfl hne
    rw [hview]
    exact htask
  · intro _
    exact h.view_self (p := .dispatch item) hown (by rw [hpc]; simp [Pc.settled]) rfl (htasks u)
      rfl rfl (fun _ => rfl) (by simp) (by simp)

/-- The worker takes the oldest item. -/
theorem Inv.popSome (h : Inv L s g) (hcur : s.k.currentTask = some u)
    (hpend : s.k.pendsv = false) (hpc : s.pc u = .workerPop)
    (hpop : kworkPopLocked s.k = some (k', item)) :
    Inv L ((({ s with k := k' } : Sys).note [.taken item]).setPc u (.dispatch item))
      { g with place := Function.update g.place item.caller (.served u) } := by
  have hfits := h.coded.pcs u
  rw [hpc] at hfits
  have hplaced := h.popped_placed hcur hpend hpc hpop
  obtain ⟨rfl, hwork⟩ := kworkPop_some h.coded.head h.coded.tail hpop
  have hring : g.place item.caller = .ring := (h.placed.mem_ring _).mp (by rw [hwork]; simp)
  refine h.move (W := g.lists) (p := .dispatch item) hcur rfl hplaced (by rw [hring]; simp)
    (by simp) (by simp) ⟨rfl, fun _ => rfl, rfl, rfl⟩ (by rw [hpc]; simp) (by rw [hpc]; simp)
    (by simp) hfits (by rw [hpc]; rfl) (fun _ _ hst => hst) (Or.inl ?_) h.coded.rested
    (Nat.mod_lt _ (by decide)) h.coded.tail ?_
  · exact h.running_of hcur hpend (by rw [hpc]; rfl)
  · exact Objects.move (h.objects.local (p := .dispatch item) rfl rfl rfl rfl
      (fun _ _ heq => by cases heq) rfl)

end Taking

section Delayed
variable {item : WorkItem} {ticks : Nat}

theorem tasks_delaySection (k : Kernel) (t : Tid) (ticks : Nat) :
    (delaySection k t ticks).tasks = k.tasks.setTcb t fun tcb =>
      { tcb with savedR0 := 0, svcBlocked := false, delayTicks := ticks, state := .waiting } := by
  rw [delaySection, schedulerSleep, setTcb_setTcb]
  refine tasks_setTcb ?_
  rfl

theorem lists_delaySection {k : Kernel} {W : WaitMap} (t : Tid) (ticks : Nat) (h : Lists k W) :
    Lists (delaySection k t ticks) W := by
  have hfirst : Lists (k.setTcb t fun tcb => { tcb with savedR0 := 0, svcBlocked := false }) W :=
    lists_setTcb rfl h
  exact lists_setTcb (f := fun tcb => { tcb with delayTicks := ticks, state := .waiting }) rfl
    hfirst

/-- The caller of a delay has its answer, and sleeps. -/
theorem Inv.delayed_view (h : Inv L s g) (hcur : s.k.currentTask = some u)
    (hserved : g.place item.caller = .served u) (hne : item.caller ≠ u) :
    (((({ s with k := delaySection s.k item.caller ticks } : Sys).note
      (answerNote s.k item.caller 0)).setPc u .workerPop).view item.caller).Own := by
  have hheld := h.placed.task item.caller
  rw [hserved] at hheld
  have hphase : waitPhase s.log item.caller = .idle := hheld.phase
  have hsvc : (s.k.tcb item.caller).svcBlocked = true := hheld.svc
  have htcb : (delaySection s.k item.caller ticks).tasks.tcb item.caller =
      { (s.k.tcb item.caller).plain with
        savedR0 := 0, svcBlocked := false, delayTicks := ticks, state := .waiting } := by
    rw [tasks_delaySection, setTcb_tcb_same]
    rfl
  have hpct : Function.update s.pc u .workerPop item.caller = s.pc item.caller :=
    Function.update_of_ne hne _ _
  refine View.Own.answered (v := s.view item.caller) (n := 0) hheld.pc hpct hheld.sys ?_ ?_ ?_
    ?_ ?_ ?_ ?_
  · change ((delaySection s.k item.caller ticks).tasks.tcb item.caller).blockingWaitList = none
    rw [htcb]
    exact hheld.list
  · change ((delaySection s.k item.caller ticks).tasks.tcb item.caller).svcBlocked = false
    rw [htcb]
  · intro hst
    exfalso
    apply hst
    change ((delaySection s.k item.caller ticks).tasks.tcb item.caller).state = .waiting
    rw [htcb]
  · refine waitPhase_answerNote.trans ?_
    rw [if_pos ⟨hsvc, rfl⟩]
    rfl
  · change (waitPhase s.log item.caller).conclude 0 = .idle
    rw [hphase]
    rfl
  · refine sysPhase_answerNote.trans ?_
    rw [if_pos ⟨hsvc, rfl⟩]
    rfl
  · have hcur' : (delaySection s.k item.caller ticks).currentTask = some u := hcur
    change (delaySection s.k item.caller ticks).reply item.caller = 0
    rw [reply_of_ne hcur' hne, htcb]

/-- The worker puts the caller of a delay to sleep. -/
theorem Inv.delayed (h : Inv L s g) (hcur : s.k.currentTask = some u) (hpend : s.k.pendsv = false)
    (hpc : s.pc u = .dispatch item) :
    Inv L ((({ s with k := delaySection s.k item.caller ticks } : Sys).note
      (answerNote s.k item.caller 0)).setPc u .workerPop)
      { g with place := Function.update g.place item.caller .own } := by
  have hfits := h.coded.pcs u
  rw [hpc] at hfits
  have hserved := (h.placed.serves_iff u item.caller).mp (by rw [hpc]; rfl)
  refine h.release (p := .workerPop) hcur hpend ?_ ?_ (Or.inl ⟨hserved, rfl, ?_⟩) hfits ?_ rfl rfl
    (tasks_delaySection s.k item.caller ticks) (fun _ => ⟨rfl, rfl⟩)
    (lists_delaySection _ _ h.placed.lists) rfl rfl rfl ?_ ?_ ?_ (h.delayed_view hcur hserved)
  · rw [hpc]
    simp [Pc.waits, Pc.yields, Pc.settled]
  · simp [Pc.settled]
  · rw [hpc]
    rfl
  · rw [hpc]
    rfl
  · intro x hx
    rw [waitPhase_answerNote, if_neg fun hc => hx hc.2.symm]
  · intro x hx
    rw [sysPhase_answerNote, if_neg fun hc => hx hc.2.symm]
  · simp [delaySection, schedulerSleep]

end Delayed

/-- The worker looks at the item it has taken. -/
theorem Inv.dispatch {item : WorkItem} (h : Inv L s g) (hcur : s.k.currentTask = some u)
    (hpend : s.k.pendsv = false) (hpc : s.pc u = .dispatch item) :
    ∃ g', Inv L (s.dispatch u item) g' ∧ g'.worker = g.worker := by
  have hfits := h.coded.pcs u
  rw [hpc] at hfits
  have hyields : (s.pc u).yields = false := by
    rw [hpc]
    rfl
  have hin : Inside (u = g.worker) (s.pc u) (.serve item.caller) := by
    rw [hpc]
    constructor <;> first | rfl | simp | exact hfits
  have hsettled : ∀ b, (s.pc u).settled b = .idle := by
    rw [hpc]
    exact fun _ => rfl
  have hspawns : (s.pc u).spawns = none := by
    rw [hpc]
    rfl
  have hdone : ∀ v, Inv L (s.setPc u (.wake item.caller v .loop)) g := fun v =>
    h.finish_open (r := .serve item.caller) v hcur hpend hyields hin hspawns hsettled
  have hgoto : ∀ p' : Pc, p'.isOpen = true → p'.fits (u = g.worker) →
      p'.serves = some item.caller →
      (∀ a type, p'.object = some (a, type) → g.objs a = some type) → Inv L (s.setPc u p') g := by
    intro p' hopen hfit hserves hrefs
    refine h.goto_open hcur hpend hyields ?_ hopen hfit ?_ hrefs
    · rw [hpc]
      rfl
    · rw [hpc]
      exact hserves
  rw [Sys.dispatch]
  cases hdec : decode s.k item with
  | complete v => exact ⟨g, hdone v, rfl⟩
  | uart str => exact ⟨g, hdone 0, rfl⟩
  | call op =>
    obtain ⟨hop, handle, a, type, hget, hobj⟩ := decode_call hdec
    refine ⟨g, hgoto _ rfl ⟨hop, hfits⟩ rfl ?_, rfl⟩
    intro a' type' heq
    have hsame := hobj.symm.trans heq
    obtain ⟨rfl, rfl⟩ := Prod.mk.inj (Option.some.inj hsame)
    exact h.objects.get hget
  | create c => exact ⟨g, hgoto _ rfl hfits rfl (fun _ _ heq => by cases heq), rfl⟩
  | sleep ticks => exact ⟨_, h.delayed hcur hpend hpc, rfl⟩

/-- `kernel_tcb` is set once, before the worker's loop. -/
theorem Inv.workerStart (h : Inv L s g) (hcur : s.k.currentTask = some u)
    (hpend : s.k.pendsv = false) (hpc : s.pc u = .workerStart) :
    Inv L ({ s with k := { s.k with kernelTcb := some u } }.setPc u .workerPop) g := by
  have hfits := h.coded.pcs u
  rw [hpc] at hfits
  have hyields : (s.pc u).yields = false := by
    rw [hpc]
    rfl
  have hown := h.own hcur hpend (Or.inr hyields)
  have hself : Function.update s.pc u Pc.workerPop u = .workerPop := Function.update_self _ _ _
  have hother : ∀ t, t ≠ u → Function.update s.pc u Pc.workerPop t = s.pc t :=
    fun t ht => Function.update_of_ne ht _ _
  constructor
  · refine h.placed.stay (u := u) h.placed.lists rfl hother ?_ ?_ ?_ ?_
    · change (Function.update s.pc u Pc.workerPop u).serves = (s.pc u).serves
      rw [hself, hpc]
      rfl
    · change (Function.update s.pc u Pc.workerPop u).wakes = (s.pc u).wakes
      rw [hself, hpc]
      rfl
    · intro t ht
      exact view_other hcur rfl rfl rfl rfl rfl ht
    · exact h.view_self (p := .workerPop) hown (by rw [hpc]; simp [Pc.settled]) rfl rfl rfl rfl
        (fun _ => rfl) (by simp) (by simp)
  · refine h.coded.frame (u := u) rfl h.coded.worker hother ?_ ?_ h.coded.rested h.coded.head
      h.coded.tail
    · change (Function.update s.pc u Pc.workerPop u).fits (u = g.worker)
      rw [hself]
      exact hfits
    · change some u = if Function.update s.pc u Pc.workerPop g.worker = .workerStart then none
        else some g.worker
      rw [show g.worker = u from (show u = g.worker from hfits).symm, hself]
      rfl
  · refine h.running.frame hcur hcur (fun _ ht => ht) hother (by rw [hpc]; simp)
      (fun _ _ hst => hst) (Or.inl (h.running_of hcur hpend hyields)) fun hb => ?_
    obtain ⟨_, hsvc, _⟩ := h.own_tcb hown
    exact absurd (hb.symm.trans hsvc) (by simp)
  · refine h.scheduled.frame rfl (fun _ => Iff.rfl) rfl (fun _ => rfl) rfl fun t => ?_
    change (Function.update s.pc u Pc.workerPop t).spawns = (s.pc t).spawns
    by_cases ht : t = u
    · rw [ht, hself, hpc]
      rfl
    · rw [hother t ht]
  · exact h.objects.local (p := .workerPop) rfl rfl rfl rfl (fun _ _ heq => by cases heq) rfl

/-- The worker marks itself as waiting before it asks for a context switch. -/
theorem Inv.workerSleep (h : Inv L s g) (hcur : s.k.currentTask = some u)
    (hpend : s.k.pendsv = false) (hpc : s.pc u = .workerSleep) :
    Inv L ({ s with k := workerWait s.k }.setPc u (.pend .loop)) g := by
  have hfits := h.coded.pcs u
  rw [hpc] at hfits
  have hyields : (s.pc u).yields = false := by
    rw [hpc]
    rfl
  have hown := h.own hcur hpend (Or.inr hyields)
  obtain ⟨hbwl, hsvc, hdelay, hphase⟩ := h.own_tcb hown
  have hworker : g.worker = u := (show u = g.worker from hfits).symm
  have hkernel := h.coded.kernel
  rw [hworker, hpc, if_neg (by simp)] at hkernel
  have hwait : workerWait s.k = s.k.setTcb u fun tcb => { tcb with state := .waiting } := by
    rw [workerWait, hkernel]
  have htasks : (s.k.setTcb u fun tcb => { tcb with state := .waiting }).tasks =
      s.k.tasks.setTcb u fun tcb => { tcb with state := .waiting } := by
    refine tasks_setTcb ?_
    rfl
  have hself : (s.k.setTcb u fun tcb => { tcb with state := .waiting }).tcb u =
      { s.k.tcb u with state := .waiting } := setTcb_tcb_same _ _ _
  have hlists : Lists (s.k.setTcb u fun tcb => { tcb with state := .waiting }) g.lists :=
    lists_setTcb rfl h.placed.lists
  rw [hwait]
  refine h.goto (k := s.k.setTcb u fun tcb => { tcb with state := .waiting }) (n := [])
    (p := .pend .loop) hcur hown (Kernel.Local.of_setTcb htasks (fun _ => rfl) fun _ => rfl) ?_
      (by rw [hpc]; rfl) ?_ ?_ ?_ (fun _ => rfl)
    (fun _ => rfl) ?_ hlists ?_ ?_ ?_ (Or.inr (Or.inr rfl)) ?_
  · rw [hpc]
    constructor <;> first | rfl | simp | exact hfits
  · rw [hpc]
    simp
  · simp
  · simp
  · rw [hphase, hpc]
    rfl
  · rw [hself]
    exact hbwl
  · rw [hself]
    exact hsvc
  · rw [hself]
    intro _
    exact hdelay (Or.inr hworker.symm)
  · exact h.objects.local (p := .pend .loop) rfl rfl rfl rfl (fun _ _ heq => by cases heq) rfl

/-- What `svc_handler_c` has done when the ring had room; `w` is the worker. -/
structure Posted (k k' : Kernel) (item : WorkItem) (w : Tid) : Prop where
  frame : k'.frame = k.frame
  used : k'.tcbUsed = k.tcbUsed
  kernel : k'.kernelTcb = k.kernelTcb
  kwork : k'.kwork = k.kwork ++ [item]
  head : k'.kworkHead = k.kworkHead
  tail : k'.kworkTail < kworkQueueSize
  pendsv : k'.pendsv = true
  objects : k'.heap = k.heap ∧ k'.table = k.table ∧ k'.queue = k.queue
  caller : k'.tcb item.caller = { k.tcb item.caller with svcBlocked := true, state := .waiting }
  worker : k'.tcb w = k.tcb w ∨ k'.tcb w = { k.tcb w with state := .ready }
  other : ∀ t, t ≠ item.caller → t ≠ w → k'.tcb t = k.tcb t
  lists : ∀ W, Lists k W → Lists k' W

theorem svcHandler_posted {k : Kernel} {item : WorkItem} {w : Tid}
    (hhead : k.kworkHead < kworkQueueSize) (htail : k.kworkTail < kworkQueueSize)
    (hroom : (k.kworkTail + 1) % kworkQueueSize ≠ k.kworkHead)
    (hk : k.kernelTcb = none ∨ k.kernelTcb = some w) (hw : w ≠ item.caller) :
    Posted k (svcHandler k item) item w := by
  have hwork := postItem_kwork item hhead htail hroom
  have hbound : (k.kworkTail + 1) % kworkQueueSize < kworkQueueSize := Nat.mod_lt _ (by decide)
  have hcaller : (postItem k item).tcb item.caller =
      { k.tcb item.caller with svcBlocked := true, state := .waiting } := by
    simp [postItem]
  have hother : ∀ t, t ≠ item.caller → (postItem k item).tcb t = k.tcb t := by
    intro t ht
    exact Function.update_of_ne ht _ k.tcb
  have hfirst : ∀ W, Lists k W → Lists (k.setTcb item.caller fun tcb =>
      { tcb with svcBlocked := true, state := .waiting }) W := fun W h => lists_setTcb rfl h
  have hlists : ∀ W, Lists k W → Lists (postItem k item) W := hfirst
  have hrouse : rouseWorker (postItem k item) = postItem k item ∨
      rouseWorker (postItem k item) =
        (postItem k item).setTcb w fun tcb => { tcb with state := .ready } := by
    rw [rouseWorker]
    have hsame : (postItem k item).kernelTcb = k.kernelTcb := rfl
    rw [hsame]
    rcases hk with hnone | hsome
    · rw [hnone]
      exact Or.inl rfl
    · rw [hsome]
      by_cases hst : ((postItem k item).tcb w).state = .waiting
      · exact Or.inr (if_pos hst)
      · exact Or.inl (if_neg hst)
  rw [svcHandler_room hroom]
  rcases hrouse with hsame | hset
  · rw [hsame]
    exact ⟨rfl, rfl, rfl, hwork, rfl, hbound, rfl, ⟨rfl, rfl, rfl⟩, hcaller,
      Or.inl (hother w hw), fun t ht _ => hother t ht, hlists⟩
  · have hne : ∀ t, t ≠ w → ((postItem k item).setTcb w fun tcb =>
        { tcb with state := .ready }).tcb t = (postItem k item).tcb t :=
      fun t ht => setTcb_tcb_of_ne (postItem k item) _ ht
    rw [hset]
    refine ⟨rfl, rfl, rfl, hwork, rfl, hbound, rfl, ⟨rfl, rfl, rfl⟩, ?_, Or.inr ?_, ?_, ?_⟩
    · exact (hne item.caller hw.symm).trans hcaller
    · have hsame := setTcb_tcb_same (postItem k item) w fun tcb => { tcb with state := .ready }
      rw [hother w hw] at hsame
      exact hsame
    · intro t ht htw
      exact (hne t htw).trans (hother t ht)
    · intro W hW
      have hnext : Lists ((postItem k item).setTcb w fun tcb => { tcb with state := .ready }) W :=
        lists_setTcb rfl (hlists W hW)
      exact hnext

section Posting
variable {k k' : Kernel} {item : WorkItem} {w : Tid}

theorem Posted.keeps (hp : Posted k k' item w) : k.Keeps k' := by
  refine ⟨hp.frame, fun t => ?_, hp.used, hp.kernel⟩
  by_cases htu : t = item.caller
  · rw [htu, Kernel.rank, hp.caller]
    rfl
  · by_cases htw : t = w
    · rw [htw, Kernel.rank]
      rcases hp.worker with heq | heq
      · rw [heq]
        rfl
      · rw [heq]
        rfl
    · rw [Kernel.rank, hp.other t htu htw]
      rfl

theorem Posted.worker_fields (hp : Posted k k' item w) :
    (k'.tcb w).blockingWaitList = (k.tcb w).blockingWaitList ∧
      (k'.tcb w).svcBlocked = (k.tcb w).svcBlocked ∧
      (k'.tcb w).delayTicks = (k.tcb w).delayTicks ∧ (k'.tcb w).timedOut = (k.tcb w).timedOut := by
  rcases hp.worker with heq | heq
  · rw [heq]
    exact ⟨rfl, rfl, rfl, rfl⟩
  · rw [heq]
    exact ⟨rfl, rfl, rfl, rfl⟩

theorem Posted.running {t : Tid} (hp : Posted k k' item w) (ht : t ≠ item.caller)
    (hst : (k'.tcb t).state = .running) : (k.tcb t).state = .running := by
  by_cases htw : t = w
  · rw [htw] at hst ⊢
    rcases hp.worker with heq | heq
    · rw [heq] at hst
      exact hst
    · rw [heq] at hst
      cases hst
  · rw [hp.other t ht htw] at hst
    exact hst

theorem Posted.mem_ring (hp : Posted k k' item w) (t : Tid) :
    t ∈ k'.kwork.map WorkItem.caller ↔ t ∈ k.kwork.map WorkItem.caller ∨ t = item.caller := by
  rw [hp.kwork, List.map_append, List.mem_append]
  simp

theorem Posted.once (hp : Posted k k' item w) (honce : (k.kwork.map WorkItem.caller).Nodup)
    (hout : item.caller ∉ k.kwork.map WorkItem.caller) :
    (k'.kwork.map WorkItem.caller).Nodup := by
  rw [hp.kwork, List.map_append, List.nodup_append]
  refine ⟨honce, List.nodup_singleton _, ?_⟩
  rintro a ha b hb rfl
  obtain rfl := List.mem_singleton.mp hb
  exact hout ha

end Posting

/-- The gate always has room for one item more. -/
theorem Inv.svc_posted {item : WorkItem} (h : Inv L s g) (hpc : s.pc item.caller = .app) :
    Posted s.k (svcHandler s.k item) item g.worker := by
  have hnot := h.app_not_worker hpc
  have hkernel : s.k.kernelTcb = none ∨ s.k.kernelTcb = some g.worker := by
    rw [h.coded.kernel]
    split
    · exact Or.inl rfl
    · exact Or.inr rfl
  exact svcHandler_posted h.coded.head h.coded.tail
    (kwork_room h.coded.head h.coded.tail h.placed.once) hkernel fun heq => hnot heq.symm

section Gate
variable {k' : Kernel} {item : WorkItem}

/-- The caller of the gate is in the ring and waits for its answer. -/
theorem Inv.posted_caller (h : Inv L s g) (hp : Posted s.k k' item g.worker)
    (hcur : s.k.currentTask = some item.caller) (hpend : s.k.pendsv = false)
    (hpc : s.pc item.caller = .app) :
    (((({ s with k := k' } : Sys).setPc item.caller .svcRet).note [.posted item]).view
      item.caller).Held := by
  have hyields : (s.pc item.caller).yields = false := by
    rw [hpc]
    rfl
  have hown := h.own hcur hpend (Or.inr hyields)
  have hrun := h.running_of hcur hpend hyields
  obtain ⟨hbwl, _, hdelay, hphase⟩ := h.own_tcb hown
  have hzero : (s.k.tcb item.caller).delayTicks = 0 := hdelay (Or.inl (by rw [hrun]; simp))
  have htask := h.placed.task item.caller
  rw [hown] at htask
  have hsys : sysPhase s.log item.caller = .idle :=
    htask.sys.trans (if_neg (by simp [Sys.view, hpc]))
  have htcb : k'.tasks.tcb item.caller =
      { (s.k.tcb item.caller).plain with svcBlocked := true, state := .waiting } :=
    congrArg Tcb.plain hp.caller
  constructor
  · change (k'.tasks.tcb item.caller).state = _
    rw [htcb]
  · change (k'.tasks.tcb item.caller).delayTicks = 0
    rw [htcb]
    exact hzero
  · change (k'.tasks.tcb item.caller).blockingWaitList = none
    rw [htcb]
    exact hbwl
  · change (k'.tasks.tcb item.caller).svcBlocked = true
    rw [htcb]
  · exact Function.update_self _ _ _
  · change waitPhase s.log item.caller = .idle
    rw [hphase, hpc]
    rfl
  · change (sysPhase s.log item.caller).next item.caller (.posted item) = .posted
    rw [hsys]
    simp [SysPhase.next]

/-- To the worker the item is news, and it goes on where it was. -/
theorem Inv.posted_worker (h : Inv L s g) (hp : Posted s.k k' item g.worker)
    (hwu : g.worker ≠ item.caller) :
    (((({ s with k := k' } : Sys).setPc item.caller .svcRet).note [.posted item]).view
      g.worker).Own := by
  have htask := h.placed.task g.worker
  rw [h.worker_own] at htask
  have hpcw : Function.update s.pc item.caller Pc.svcRet g.worker = s.pc g.worker :=
    Function.update_of_ne hwu _ _
  have hsysw : (sysPhase s.log g.worker).next g.worker (.posted item) =
      sysPhase s.log g.worker := by
    simp [SysPhase.next, hwu.symm]
  have hfitsw := h.coded.pcs g.worker
  have hnsvc : s.pc g.worker ≠ .svcRet := by
    intro heq
    rw [heq] at hfitsw
    exact hfitsw rfl
  have hnidle : s.pc g.worker ≠ .idle := by
    intro heq
    rw [heq] at hfitsw
    exact hfitsw rfl
  obtain ⟨hlist, hsvc, hdelay, htimed⟩ := hp.worker_fields
  constructor
  · exact hlist.trans htask.list
  · exact hsvc.trans htask.svc
  · exact fun _ => hdelay.trans h.coded.rested
  · exact fun heq => absurd (hpcw.symm.trans heq) hnidle
  · change waitPhase s.log g.worker = (Function.update s.pc _ Pc.svcRet g.worker).settled
      (k'.tcb g.worker).timedOut
    rw [hpcw, htimed]
    exact htask.phase
  · change (sysPhase s.log g.worker).next g.worker (.posted item) =
      if Function.update s.pc _ Pc.svcRet g.worker = .svcRet then _ else _
    rw [hsysw, hpcw, if_neg hnsvc]
    exact htask.sys.trans (if_neg hnsvc)

theorem posted_occupants {W : WaitMap} {p : Place} (hpc : s.pc item.caller = .app)
    (hp : p ≠ .ring) :
    ((({ s with k := k' } : Sys).setPc item.caller .svcRet).note [.posted item]).occupants W p =
      s.occupants W p := by
  have hattr : ∀ v, (Function.update s.pc item.caller Pc.svcRet v).serves = (s.pc v).serves ∧
      (Function.update s.pc item.caller Pc.svcRet v).wakes = (s.pc v).wakes := by
    intro v
    by_cases hv : v = item.caller
    · rw [hv, Function.update_self, hpc]
      exact ⟨rfl, rfl⟩
    · rw [Function.update_of_ne hv]
      exact ⟨rfl, rfl⟩
  cases p with
  | fresh => rfl
  | own => rfl
  | ring => exact absurd rfl hp
  | listed w => rfl
  | served v => exact congrArg Option.toList (hattr v).1
  | waking v => exact congrArg Option.toList (hattr v).2

theorem Inv.posted_placed (h : Inv L s g) (hp : Posted s.k k' item g.worker)
    (hcur : s.k.currentTask = some item.caller) (hpend : s.k.pendsv = false)
    (hpc : s.pc item.caller = .app) :
    Placed ((({ s with k := k' } : Sys).setPc item.caller .svcRet).note [.posted item]) g.lists
      (Function.update g.place item.caller .ring) := by
  have hown := h.own hcur hpend (Or.inr (by rw [hpc]; rfl))
  have hout : item.caller ∉ s.k.kwork.map WorkItem.caller := by
    rw [h.placed.mem_ring, hown]
    simp
  refine h.placed.move (u := g.worker) (hp.lists _ h.placed.lists) ?_ ?_ ?_ ?_ ?_ ?_ ?_
  · exact hp.once h.placed.once hout
  · intro htracked
    rw [hown] at htracked
    cases htracked
  · exact fun _ => hp.mem_ring
  · exact fun p _ _ hq => posted_occupants hpc hq
  · intro t htu htw
    refine view_other hcur hp.frame (congrArg Tcb.plain (hp.other t htu htw)) rfl rfl ?_ htu
    change (sysPhase s.log t).next t (.posted item) = sysPhase s.log t
    simp [SysPhase.next, Ne.symm htu]
  · exact h.posted_caller hp hcur hpend hpc
  · intro hne
    rw [h.worker_own]
    exact h.posted_worker hp hne

end Gate

/-- `svc_handler_c`: the caller's item goes into the ring. -/
theorem Inv.post {item : WorkItem} (h : Inv L s g) (hcur : s.k.currentTask = some item.caller)
    (hpend : s.k.pendsv = false) (hpc : s.pc item.caller = .app) :
    Inv L ((({ s with k := svcHandler s.k item } : Sys).setPc item.caller .svcRet).note
      [.posted item]) { g with place := Function.update g.place item.caller .ring } := by
  have hp := h.svc_posted hpc
  have hown := h.own hcur hpend (Or.inr (by rw [hpc]; rfl))
  obtain ⟨hheap, htable, hqueue⟩ := hp.objects
  refine h.move (u := item.caller) (W := g.lists) (p := .svcRet) hcur rfl
    (h.posted_placed hp hcur hpend hpc) (by rw [hown]; simp) (by simp)
    (fun _ => Function.update_self _ _ _) hp.keeps (by rw [hpc]; simp) (by rw [hpc]; simp)
    (by simp) (h.app_not_worker hpc) (by rw [hpc]; rfl) (fun t ht hst => hp.running ht hst)
    (Or.inr (Or.inl hp.pendsv)) ?_ ?_ hp.tail ?_
  · exact hp.worker_fields.2.2.1.trans h.coded.rested
  · exact hp.head.trans_lt h.coded.head
  · exact Objects.move (h.objects.local (p := .svcRet) hheap htable hqueue rfl
      (fun _ _ heq => by cases heq) rfl)

end Worker

end Crest
