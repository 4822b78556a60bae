import CrestRtos.System.WorkSteps

/-!
# Building objects

A new object is memory that nobody else knows until its handle is published, so
the stores into it meet no waiting task and no object in use. A queue whose
buffer cannot be had goes back to the heap unseen.
-/

namespace Crest
open IntrusiveList MachineWord Alloc

section Heap
variable {L : Layout} {h h' : Heap} {live : List Nat} {size p : Nat}

/-- What a request leaves the clients of the heap with. -/
theorem HeapOwns.malloc (hL : L.heap.Placed) (ho : HeapOwns L h live)
    (hrun : Alloc.malloc L h size = some (h', p)) :
    HeapOwns L h' (if p = 0 then live else p :: live) := by
  by_cases hsize : size = 0
  · obtain ⟨rfl, rfl⟩ : h' = h ∧ p = 0 := by
      simp only [Alloc.malloc, firstFitMalloc, if_pos hsize] at hrun
      obtain ⟨rfl, rfl⟩ := Prod.mk.inj (Option.some.inj hrun)
      exact ⟨rfl, rfl⟩
    exact ho
  · obtain ⟨h₁, hrun₁, bs, hbs⟩ : ∃ h₁, Alloc.malloc L h₁ size = some (h', p) ∧
        ∃ bs, Holds L.heap ⟨h₁, live⟩ bs := by
      rcases ho with ⟨hin, rfl⟩ | hbs
      · refine ⟨heapInit L.heap h, ?_, _, heapInit_tiled hL h, ?_⟩
        swap
        · simp [BlockList.liveAddrs]
        exact (firstFitMalloc_heapInit hL hsize hin).symm.trans hrun
      · exact ⟨h, hrun, hbs⟩
    obtain ⟨c', hstep, hbs'⟩ := malloc_holds (A := kernelHeap L) hL rfl hbs hsize
    have hrun' : (kernelHeap L).malloc h₁ size = some (h', p) := hrun₁
    simp only [Client.step, hrun', Option.map_some, Option.some.injEq] at hstep
    subst hstep
    exact Or.inr hbs'

/-- The search for a free block ends. -/
theorem HeapOwns.malloc_some (hL : L.heap.Placed) (ho : HeapOwns L h live) (size : Nat) :
    ∃ h' p, Alloc.malloc L h size = some (h', p) := by
  by_cases hsize : size = 0
  · exact ⟨h, 0, by simp [Alloc.malloc, firstFitMalloc, hsize]⟩
  · obtain ⟨h₁, hsame, bs, hbs⟩ : ∃ h₁, Alloc.malloc L h size = Alloc.malloc L h₁ size ∧
        ∃ bs, Holds L.heap ⟨h₁, live⟩ bs := by
      rcases ho with ⟨hin, rfl⟩ | hbs
      · refine ⟨heapInit L.heap h, firstFitMalloc_heapInit hL hsize hin, _, heapInit_tiled hL h, ?_⟩
        simp [BlockList.liveAddrs]
      · exact ⟨h, rfl, hbs⟩
    obtain ⟨c', hstep, _⟩ := malloc_holds (A := kernelHeap L) hL rfl hbs hsize
    obtain ⟨⟨h', p⟩, hrun, _⟩ := Option.map_eq_some_iff.mp hstep
    exact ⟨h', p, hsame.trans hrun⟩

theorem HeapOwns.free_some (hL : L.heap.Placed) (ho : HeapOwns L h live) (hp : p ∈ live) :
    ∃ h', Alloc.free L h p = some h' := by
  rcases ho with ⟨_, rfl⟩ | ⟨bs, hbs⟩
  · cases hp
  · obtain ⟨c', hstep, _⟩ := free_holds (A := kernelHeap L) hL rfl hbs (Or.inr hp)
    obtain ⟨h', hrun, _⟩ := Option.map_eq_some_iff.mp hstep
    exact ⟨h', hrun⟩

theorem HeapOwns.nodup (hL : L.heap.Placed) (ho : HeapOwns L h live) : live.Nodup := by
  rcases ho with ⟨_, rfl⟩ | ⟨bs, hbs⟩
  · exact List.nodup_nil
  · exact (hbs.tiling hL).liveOnce

/-- Memory that `malloc` returns is nobody's. -/
theorem HeapOwns.fresh (hL : L.heap.Placed) (ho : HeapOwns L h live)
    (hrun : Alloc.malloc L h size = some (h', p)) (hp : p ≠ 0) : p ∉ live := by
  have hown := ho.malloc hL hrun
  rw [if_neg hp] at hown
  exact (List.nodup_cons.mp (hown.nodup hL)).1

theorem HeapOwns.free (hL : L.heap.Placed) (ho : HeapOwns L h live) (hp : p ∈ live)
    (hrun : Alloc.free L h p = some h') : HeapOwns L h' (live.erase p) := by
  rcases ho with ⟨_, rfl⟩ | ⟨bs, hbs⟩
  · cases hp
  · obtain ⟨c', hstep, hbs'⟩ := free_holds (A := kernelHeap L) hL rfl hbs (Or.inr hp)
    have hrun' : (kernelHeap L).free h p = some h' := hrun
    simp only [Client.step, hrun', Option.map_some, Option.some.injEq] at hstep
    subst hstep
    exact Or.inr hbs'

end Heap

section Retry
variable {L : Layout} {s : Sys} {g : Ghost} {u : Tid} {op : Op} {r : Ret}

theorem runOp_setPc (p : Pc) : (s.setPc u p).runOp u op r = s.runOp u op r := by
  have hsettle : ∀ (s' : Sys) (out : Outcome),
      (s'.setPc u p).settle u op r out = s'.settle u op r out := by
    intro s' out
    have htwice : ∀ q, (s'.setPc u p).setPc u q = s'.setPc u q := by
      intro q
      simp only [Sys.setPc, Function.update_idem]
    cases out with
    | ret v =>
      simp only [Sys.settle, finish_eq, htwice]
    | block => exact htwice _
    | wake t v => exact htwice _
    | pend v => exact htwice _
  exact hsettle ({ s with k := (op.enter s.k u).1 }.note
    (op.note s.k (op.enter s.k u).1 u (op.enter s.k u).2)) (op.enter s.k u).2

theorem again_object (op : Op) : op.again.object = op.object := by
  cases op <;> rfl

theorem again_fits {op : Op} (h : op.fits .app) : op.again.fits .app := by
  cases op <;> exact h

/-- A queue call that was handed a slot or an item goes around its loop. -/
theorem Inv.retry (h : Inv L s g) (hcur : s.k.currentTask = some u)
    (hpend : s.k.pendsv = false) (hpc : s.pc u = .retry op r) :
    ∃ g', Inv L ((s.note (op.waitList.toList.map fun w => .recheck w u)).runOp u op.again r) g' ∧
      g'.worker = g.worker := by
  have hyields : (s.pc u).yields = false := by
    rw [hpc]
    rfl
  have hown := h.own hcur hpend (Or.inr hyields)
  have hrun := h.running_of hcur hpend hyields
  obtain ⟨hbwl, hsvc, hdelay, hphase⟩ := h.own_tcb hown
  have hself := h.placed.task u
  rw [hown] at hself
  have hfits := h.coded.pcs u
  rw [hpc] at hfits hphase
  obtain ⟨hop, rfl, hnot, w, hw, hqueue⟩ := hfits
  simp only [Pc.settled, hw] at hphase
  have hsysu : sysPhase s.log u = .idle := hself.sys.trans (if_neg (by simp [Sys.view, hpc]))
  have hpc' : Function.update s.pc u (.enter op.again .app) u = .enter op.again .app :=
    Function.update_self _ _ _
  rw [hw]
  have hfirst : Inv L ((s.note [.recheck w u]).setPc u (.enter op.again .app)) g := by
    refine h.local_of (p := .enter op.again .app) hcur (Kernel.Local.refl _ _).toNear rfl ?_ ?_
      (fun _ _ => rfl) (by simp) h.placed.lists ?_ (Or.inl hrun) (fun hw => absurd hw hnot)
      (h.scheduled.local (Kernel.Local.refl _ _) rfl (by rw [hpc]; rfl)) ?_
    · rw [hpc]
      constructor <;> first | rfl | simp | exact ⟨again_fits hop, hnot⟩
    · intro t ht
      change (waitPhase s.log t).next t (.recheck w u) = _
      simp [WaitPhase.next, Ne.symm ht]
    · rw [hown]
      constructor
      · exact hbwl
      · exact hsvc
      · exact fun hne => hdelay (Or.inl hne)
      · exact fun heq => absurd (hpc'.symm.trans heq) (by simp)
      · change (waitPhase s.log u).next u (.recheck w u) =
          (Function.update s.pc u (.enter op.again .app) u).settled _
        rw [hphase, hpc']
        simp [WaitPhase.next, Pc.settled, hqueue]
      · change sysPhase s.log u =
          if Function.update s.pc u (.enter op.again .app) u = .svcRet then _ else _
        rw [hpc', if_neg (by simp)]
        exact hsysu
    · refine h.objects.local (p := .enter op.again .app) rfl rfl rfl rfl ?_ rfl
      intro a type heq
      refine h.objects.refs u a type ?_
      rw [hpc, ← heq]
      exact (again_object op).symm
  have hsecond := hfirst.runOp hcur hpend hpc'
  rw [runOp_setPc] at hsecond
  exact hsecond

end Retry

section Build
variable {L : Layout} {s s' : Sys} {g : Ghost} {u : Tid} {r : Ret}

/-- A fresh object of `u` joins the memory in use. -/
theorem Objects.build {q : Nat} {p : Pc} (h : Objects L s g) (hq : q ∉ g.live)
    (hheap : HeapOwns L s'.k.heap (q :: g.live)) (htable : s'.k.table = s.k.table)
    (hqueue : ∀ a, a ≠ q → s'.k.queue a = s.k.queue a) (hpc : s'.pc = Function.update s.pc u p)
    (hobject : p.object = none) (hbuilds : p.builds = some q)
    (hdraft : ∀ r, p = .queueBuffer q r → (s'.k.queue q).Draft)
    (hbuilt : ∀ r, p = .publish q .queue r → (s'.k.queue q).Shaped) :
    Objects L s' { g with live := q :: g.live, objs := g.objs } := by
  have hself : s'.pc u = p := by
    rw [hpc, Function.update_self]
  have hother : ∀ t, t ≠ u → s'.pc t = s.pc t := fun t ht => by
    rw [hpc, Function.update_of_ne ht]
  have hunknown : g.objs q = none := by
    cases hobj : g.objs q with
    | none => rfl
    | some type => exact absurd (h.known q type hobj) hq
  have hold : ∀ t a, t ≠ u → (s'.pc t).builds = some a → (s.pc t).builds = some a ∧ a ≠ q := by
    intro t a ht ha
    rw [hother t ht] at ha
    refine ⟨ha, ?_⟩
    rintro rfl
    exact hq (h.builds t a ha).1
  constructor
  · exact hheap
  · exact fun a type ha => List.mem_cons_of_mem q (h.known a type ha)
  · rw [htable]
    exact h.table
  · exact h.lists
  · intro t a type ha
    by_cases ht : t = u
    · rw [ht, hself, hobject] at ha
      cases ha
    · rw [hother t ht] at ha
      exact h.refs t a type ha
  · intro t a ha
    by_cases ht : t = u
    · rw [ht, hself, hbuilds] at ha
      obtain rfl := Option.some.inj ha
      exact ⟨List.mem_cons_self, hunknown⟩
    · obtain ⟨hb, _⟩ := hold t a ht ha
      exact ⟨List.mem_cons_of_mem q (h.builds t a hb).1, (h.builds t a hb).2⟩
  · intro t t' a ha ha'
    by_cases ht : t = u
    · by_cases ht' : t' = u
      · rw [ht, ht']
      · obtain ⟨_, hne⟩ := hold t' a ht' ha'
        rw [ht, hself, hbuilds] at ha
        exact absurd (Option.some.inj ha).symm hne
    · obtain ⟨hb, hne⟩ := hold t a ht ha
      by_cases ht' : t' = u
      · rw [ht', hself, hbuilds] at ha'
        exact absurd (Option.some.inj ha').symm hne
      · exact h.builder t t' a hb (hold t' a ht' ha').1
  · intro a ha
    have hne : a ≠ q := by
      rintro rfl
      rw [hunknown] at ha
      cases ha
    rw [hqueue a hne]
    exact h.shaped a ha
  · intro t a r ha
    by_cases ht : t = u
    · rw [ht, hself] at ha
      obtain rfl : q = a := by
        rw [ha] at hbuilds
        exact (Option.some.inj hbuilds).symm
      exact hdraft r ha
    · obtain ⟨_, hne⟩ := hold t a ht (by rw [ha]; rfl)
      rw [hother t ht] at ha
      rw [hqueue a hne]
      exact h.drafts t a r ha
  · intro t a r ha
    by_cases ht : t = u
    · rw [ht, hself] at ha
      obtain rfl : q = a := by
        rw [ha] at hbuilds
        exact (Option.some.inj hbuilds).symm
      exact hbuilt r ha
    · obtain ⟨_, hne⟩ := hold t a ht (by rw [ha]; rfl)
      rw [hother t ht] at ha
      rw [hqueue a hne]
      exact h.built t a r ha

theorem init_head (c : Creation) (k : Kernel) (p : Nat) (w : WaitList) :
    (c.init k p).head w = if w.addr = p ∧ w.kind = c.type then none else k.head w := by
  cases c <;> cases w <;>
    simp only [Creation.init, Creation.type, Kernel.head, Kernel.setSem, Kernel.setMutex,
      Kernel.setQueue, WaitList.addr, WaitList.kind, Function.update_apply, reduceCtorEq, and_false,
      and_true, if_false] <;>
    split <;> simp_all

theorem init_queue (c : Creation) (k : Kernel) {a p : Nat} (h : a ≠ p) :
    (c.init k p).queue a = k.queue a := by
  cases c with
  | sem initial => rfl
  | mutex => rfl
  | queue itemSize size => exact Function.update_of_ne h _ _

/-- The stores into a fresh object reach no list that a task waits on. -/
theorem lists_init {W : WaitMap} {k : Kernel} {p : Nat} (c : Creation) (h : Lists k W)
    (hp : ∀ w, w.addr = p → W w = []) : Lists (c.init k p) W := by
  intro w
  have hnext : (c.init k p).waitNext = k.waitNext := by
    cases c <;> rfl
  rw [hnext, init_head]
  by_cases hw : w.addr = p ∧ w.kind = c.type
  · rw [if_pos hw, hp w hw.1]
    rfl
  · rw [if_neg hw]
    exact h w

theorem init_draft {itemSize size p : Nat} {k : Kernel}
    (h : (Creation.queue itemSize size).rejected = false) :
    (((Creation.queue itemSize size).init k p).queue p).Draft := by
  simp only [Creation.rejected, Bool.or_eq_false_iff, beq_eq_false_iff_ne] at h
  constructor <;> simp only [Creation.init, Kernel.setQueue, Function.update_self] <;> omega

/-- What an allocation for an object comes to. -/
theorem alloc_cases {c : Creation} {k k' : Kernel} {p : Nat}
    (h : c.alloc L k = some (k', p)) :
    (p = 0 ∧ k' = k) ∨ ∃ heap, malloc L k.heap c.bytes = some (heap, p) ∧ c.rejected = false ∧
      k' = if p = 0 then { k with heap := heap } else c.init { k with heap := heap } p := by
  rw [Creation.alloc] at h
  cases hrej : c.rejected with
  | true =>
    rw [hrej, if_pos rfl] at h
    obtain ⟨rfl, rfl⟩ := Prod.mk.inj (Option.some.inj h)
    exact Or.inl ⟨rfl, rfl⟩
  | false =>
    rw [hrej, if_neg Bool.false_ne_true] at h
    obtain ⟨⟨heap, q⟩, hmalloc, heq⟩ := Option.map_eq_some_iff.mp h
    refine Or.inr ⟨heap, ?_, rfl, ?_⟩
    · by_cases hq : q = 0
      · simp only [if_pos hq, Prod.mk.injEq] at heq
        rw [← heq.2, ← hq]
        exact hmalloc
      · simp only [if_neg hq, Prod.mk.injEq] at heq
        rw [← heq.2]
        exact hmalloc
    · by_cases hq : q = 0
      · simp only [if_pos hq, Prod.mk.injEq] at heq
        rw [if_pos heq.2.symm]
        exact heq.1.symm
      · simp only [if_neg hq, Prod.mk.injEq] at heq
        rw [if_neg (heq.2 ▸ hq), ← heq.2]
        exact heq.1.symm

/-- The call ends, after stores that no task depends on. -/
theorem Inv.finish_tasks {k : Kernel} {l : List Nat} {o : Nat → Option KobjType} {v : Nat}
    (h : Inv L s g) (hcur : s.k.currentTask = some u) (hpend : s.k.pendsv = false)
    (hyields : (s.pc u).yields = false) (hin : Inside (u = g.worker) (s.pc u) r)
    (hspawns : (s.pc u).spawns = none) (hsettled : ∀ b, (s.pc u).settled b = .idle)
    (htasks : k.tasks = s.k.tasks) (hlists : Lists k g.lists)
    (hobjects : Objects L (({ s with k := k } : Sys).finish u r v)
      { g with live := l, objs := o }) :
    Inv L (({ s with k := k } : Sys).finish u r v) { g with live := l, objs := o } := by
  have hown := h.own hcur hpend (Or.inr hyields)
  obtain ⟨_, _, _, hphase⟩ := h.own_tcb hown
  rw [hsettled] at hphase
  obtain ⟨hbwl, hsvc, hdelay, hst⟩ := own_tcb_of_tasks h hown htasks
  have hrun := h.running_of hcur hpend hyields
  refine h.finish (n := []) hcur hown (Kernel.Local.of_tasks htasks u) hin hspawns (fun _ => rfl)
    (fun _ => rfl) ?_ hlists hbwl hsvc hdelay (Or.inl (hst.trans hrun)) hobjects
  rw [hphase]
  cases r <;> rfl

/-- The code goes on inside its call, after stores that no task depends on. -/
theorem Inv.goto_tasks {k : Kernel} {n : List Event} {p : Pc} {l : List Nat}
    {o : Nat → Option KobjType} (h : Inv L s g) (hcur : s.k.currentTask = some u)
    (hpend : s.k.pendsv = false) (hyields : (s.pc u).yields = false)
    (hin : Inside (u = g.worker) (s.pc u) r) (hin' : Inside (u = g.worker) p r)
    (hfits : p.fits (u = g.worker)) (hspawns : p.spawns = (s.pc u).spawns)
    (hsettled : ∀ b, (s.pc u).settled b = .idle) (hsettled' : ∀ b, p.settled b = .idle)
    (htasks : k.tasks = s.k.tasks) (hlists : Lists k g.lists)
    (hwait : ∀ t, waitPhase (n ++ s.log) t = waitPhase s.log t)
    (hsys : ∀ t, sysPhase (n ++ s.log) t = sysPhase s.log t)
    (hobjects : Objects L ((({ s with k := k } : Sys).note n).setPc u p)
      { g with live := l, objs := o }) :
    Inv L ((({ s with k := k } : Sys).note n).setPc u p) { g with live := l, objs := o } := by
  have hown := h.own hcur hpend (Or.inr hyields)
  obtain ⟨_, _, _, hphase⟩ := h.own_tcb hown
  obtain ⟨hbwl, hsvc, hdelay, hst⟩ := own_tcb_of_tasks h hown htasks
  have hrun := h.running_of hcur hpend hyields
  refine h.goto hcur hown (Kernel.Local.of_tasks htasks u) ?_ hspawns hin.svc hin'.svc hin'.idle
    hwait hsys ?_ hlists hbwl hsvc hdelay (Or.inl (hst.trans hrun)) hobjects
  · exact ⟨hin.idle, hfits, hin'.serves.trans hin.serves.symm, hin'.wakes.trans hin.wakes.symm,
      hin.begun, hin'.begun⟩
  · rw [hphase, hsettled, hsettled']

/-- A step that leaves the objects alone and may take some memory. -/
theorem Objects.keep {p : Pc} {l : List Nat} (h : Objects L s g) (hheap : HeapOwns L s'.k.heap l)
    (hl : ∀ a ∈ g.live, a ∈ l) (htable : s'.k.table = s.k.table)
    (hqueue : s'.k.queue = s.k.queue) (hpc : s'.pc = Function.update s.pc u p)
    (hobject : p.object = none) (hbuilds : p.builds = none) :
    Objects L s' { g with live := l, objs := g.objs } := by
  have hframe : Objects L { s' with k := { s'.k with heap := s.k.heap } } g :=
    h.local rfl htable hqueue hpc (fun a type heq => by rw [hobject] at heq; cases heq) hbuilds
  exact ⟨hheap, fun a type ha => hl a (hframe.known a type ha), hframe.table, hframe.lists,
    hframe.refs, fun t a ha => ⟨hl a (hframe.builds t a ha).1, (hframe.builds t a ha).2⟩,
    hframe.builder, hframe.shaped, hframe.drafts, hframe.built⟩

theorem creation_note_off (c : Creation) (k : Kernel) (p : Nat) :
    ∀ e ∈ c.note k p, e.offWait = true ∧ e.offSys = true := by
  intro e he
  cases c <;> simp only [Creation.note, List.mem_singleton] at he <;> subst he <;> exact ⟨rfl, rfl⟩

/-- The object's own memory is allocated and filled in. -/
theorem Inv.create {c : Creation} (hL : L.heap.Placed) (h : Inv L s g)
    (hcur : s.k.currentTask = some u) (hpend : s.k.pendsv = false) (hpc : s.pc u = .create c r)
    (hstep : s.create L u c r = some s') : ∃ g', Inv L s' g' ∧ g'.worker = g.worker := by
  have hyields : (s.pc u).yields = false := by
    rw [hpc]
    rfl
  have hsettled : ∀ b, (s.pc u).settled b = .idle := by
    rw [hpc]
    exact fun _ => rfl
  have hspawns : (s.pc u).spawns = none := by
    rw [hpc]
    rfl
  have hfits := h.coded.pcs u
  rw [hpc] at hfits
  have hin : Inside (u = g.worker) (s.pc u) r := by
    rw [hpc]
    constructor <;> first | rfl | simp | exact hfits
  obtain ⟨⟨k, p⟩, halloc, rfl⟩ := Option.map_eq_some_iff.mp hstep
  by_cases hp : p = 0
  · -- no object: the heap may have been set up by the failed request
    subst hp
    simp only [if_true]
    obtain ⟨heap, hheap, rfl⟩ : ∃ heap, HeapOwns L heap g.live ∧
        k = { s.k with heap := heap } := by
      rcases alloc_cases halloc with ⟨_, rfl⟩ | ⟨heap, hmalloc, _, rfl⟩
      · exact ⟨_, h.objects.heap, rfl⟩
      · exact ⟨heap, h.objects.heap.malloc hL hmalloc, rfl⟩
    refine ⟨{ g with live := g.live, objs := g.objs }, h.finish_tasks hcur hpend hyields hin
      hspawns hsettled rfl h.placed.lists ?_, rfl⟩
    rw [finish_eq]
    refine h.objects.keep (p := r.next kobjInvalid) hheap (fun _ ha => ha) rfl rfl rfl ?_ ?_ <;>
      cases r <;> rfl
  · simp only [if_neg hp]
    rcases alloc_cases halloc with ⟨hzero, _⟩ | ⟨heap, hmalloc, hrej, hk⟩
    · exact absurd hzero hp
    rw [if_neg hp] at hk
    have hlive := h.objects.heap.fresh hL hmalloc hp
    have hheap := h.objects.heap.malloc hL hmalloc
    rw [if_neg hp] at hheap
    have hempty : ∀ w : WaitList, w.addr = p → g.lists w = [] := by
      rintro w rfl
      by_contra hne
      exact hlive (h.objects.known _ _ (h.objects.lists w hne))
    have hlists : Lists k g.lists := by
      rw [hk]
      refine lists_init c ?_ hempty
      exact h.placed.lists
    have htasks : k.tasks = s.k.tasks := by
      rw [hk]
      cases c <;> rfl
    have hqueue : ∀ a, a ≠ p → k.queue a = s.k.queue a := fun a ha => by
      rw [hk, init_queue c _ ha]
    have hkheap : k.heap = heap := by
      rw [hk]
      cases c <;> rfl
    have hktable : k.table = s.k.table := by
      rw [hk]
      cases c <;> rfl
    have hwait : ∀ t, waitPhase (c.note k p ++ s.log) t = waitPhase s.log t := fun t =>
      waitPhase_append_of_offWait t fun e he => (creation_note_off c k p e he).1
    have hsys : ∀ t, sysPhase (c.note k p ++ s.log) t = sysPhase s.log t := fun t =>
      sysPhase_append_of_offSys t fun e he => (creation_note_off c k p e he).2
    have hgo : ∀ p' : Pc, Inside (u = g.worker) p' r → p'.fits (u = g.worker) →
        p'.spawns = none → (∀ b, p'.settled b = .idle) → p'.object = none →
        p'.builds = some p → (∀ r, p' = .queueBuffer p r → (k.queue p).Draft) →
        (∀ r, p' = .publish p .queue r → (k.queue p).Shaped) →
        ∃ g', Inv L ((({ s with k := k } : Sys).note (c.note k p)).setPc u p') g' ∧
          g'.worker = g.worker := by
      intro p' hin' hfits' hspawns' hsettled' hobject hbuilds hdraft hbuilt
      refine ⟨{ g with live := p :: g.live, objs := g.objs }, h.goto_tasks hcur hpend hyields hin
        hin' hfits' (hspawns'.trans hspawns.symm) hsettled hsettled' htasks hlists hwait hsys ?_,
        rfl⟩
      refine h.objects.build (p := p') hlive ?_ hktable hqueue rfl hobject hbuilds hdraft hbuilt
      exact hkheap ▸ hheap
    cases c with
    | sem initial =>
      refine hgo (.publish p .sem r) ?_ hfits rfl (fun _ => rfl) rfl rfl ?_ ?_
      · constructor <;> first | rfl | simp | exact hfits
      · exact fun _ heq => by cases heq
      · exact fun _ heq => by cases heq
    | mutex =>
      refine hgo (.publish p .mutex r) ?_ hfits rfl (fun _ => rfl) rfl rfl ?_ ?_
      · constructor <;> first | rfl | simp | exact hfits
      · exact fun _ heq => by cases heq
      · exact fun _ heq => by cases heq
    | queue itemSize size =>
      refine hgo (.queueBuffer p r) ?_ hfits rfl (fun _ => rfl) rfl rfl ?_ ?_
      · constructor <;> first | rfl | simp | exact hfits
      · intro _ _
        rw [hk]
        exact init_draft hrej
      · exact fun _ heq => by cases heq

/-- `u` goes on building the object `q`; `l` is the memory in use by then. -/
theorem Objects.rebuild {q : Nat} {p : Pc} {l : List Nat} (h : Objects L s g)
    (hq : (s.pc u).builds = some q) (hheap : HeapOwns L s'.k.heap l) (hl : ∀ a ∈ g.live, a ∈ l)
    (htable : s'.k.table = s.k.table) (hqueue : ∀ a, a ≠ q → s'.k.queue a = s.k.queue a)
    (hpc : s'.pc = Function.update s.pc u p) (hobject : p.object = none)
    (hbuilds : p.builds = some q) (hdraft : ∀ r, p ≠ .queueBuffer q r)
    (hbuilt : ∀ r, p = .publish q .queue r → (s'.k.queue q).Shaped) :
    Objects L s' { g with live := l, objs := g.objs } := by
  have hself : s'.pc u = p := by
    rw [hpc, Function.update_self]
  have hother : ∀ t, t ≠ u → s'.pc t = s.pc t := fun t ht => by
    rw [hpc, Function.update_of_ne ht]
  have hunknown := (h.builds u q hq).2
  have hold : ∀ t, (s'.pc t).builds = (s.pc t).builds := by
    intro t
    by_cases ht : t = u
    · rw [ht, hself, hbuilds, hq]
    · rw [hother t ht]
  have hapart : ∀ t a, t ≠ u → (s.pc t).builds = some a → a ≠ q := by
    rintro t a ht ha rfl
    exact ht (h.builder t u a ha hq)
  constructor
  · exact hheap
  · exact fun a type ha => hl a (h.known a type ha)
  · rw [htable]
    exact h.table
  · exact h.lists
  · intro t a type ha
    by_cases ht : t = u
    · rw [ht, hself, hobject] at ha
      cases ha
    · rw [hother t ht] at ha
      exact h.refs t a type ha
  · intro t a ha
    rw [hold] at ha
    exact ⟨hl a (h.builds t a ha).1, (h.builds t a ha).2⟩
  · intro t t' a ha ha'
    rw [hold] at ha ha'
    exact h.builder t t' a ha ha'
  · intro a ha
    have hne : a ≠ q := by
      rintro rfl
      rw [hunknown] at ha
      cases ha
    rw [hqueue a hne]
    exact h.shaped a ha
  · intro t a r ha
    by_cases ht : t = u
    · rw [ht, hself] at ha
      obtain rfl : q = a := by
        rw [ha] at hbuilds
        exact (Option.some.inj hbuilds).symm
      exact absurd ha (hdraft r)
    · rw [hother t ht] at ha
      rw [hqueue a (hapart t a ht (by rw [ha]; rfl))]
      exact h.drafts t a r ha
  · intro t a r ha
    by_cases ht : t = u
    · rw [ht, hself] at ha
      obtain rfl : q = a := by
        rw [ha] at hbuilds
        exact (Option.some.inj hbuilds).symm
      exact hbuilt r ha
    · rw [hother t ht] at ha
      rw [hqueue a (hapart t a ht (by rw [ha]; rfl))]
      exact h.built t a r ha

/-- `u` is done with the object `q`: `l` and `o` are the memory in use and the
objects in use by then. -/
theorem Objects.deliver {q : Nat} {p : Pc} {l : List Nat} {o : Nat → Option KobjType}
    (h : Objects L s g) (hq : (s.pc u).builds = some q) (hheap : HeapOwns L s'.k.heap l)
    (hl : ∀ a ∈ g.live, a ≠ q → a ∈ l) (ho : ∀ a, a ≠ q → o a = g.objs a)
    (hown : ∀ type, o q = some type → q ∈ l ∧ (type = .queue → (s.k.queue q).Shaped))
    (htable : ∀ i, i < kobjMax → (s'.k.table i).inUse = true →
      o (s'.k.table i).ptr = some (s'.k.table i).type)
    (hqueue : s'.k.queue = s.k.queue) (hpc : s'.pc = Function.update s.pc u p)
    (hobject : p.object = none) (hbuilds : p.builds = none) :
    Objects L s' { g with live := l, objs := o } := by
  have hself : s'.pc u = p := by
    rw [hpc, Function.update_self]
  have hother : ∀ t, t ≠ u → s'.pc t = s.pc t := fun t ht => by
    rw [hpc, Function.update_of_ne ht]
  have hunknown := (h.builds u q hq).2
  have hknown : ∀ a type, g.objs a = some type → o a = some type := by
    intro a type ha
    rw [ho a, ha]
    rintro rfl
    rw [hunknown] at ha
    cases ha
  have hold : ∀ t a, (s'.pc t).builds = some a → t ≠ u ∧ (s.pc t).builds = some a ∧ a ≠ q := by
    intro t a ha
    have ht : t ≠ u := by
      rintro rfl
      rw [hself, hbuilds] at ha
      cases ha
    rw [hother t ht] at ha
    refine ⟨ht, ha, ?_⟩
    rintro rfl
    exact ht (h.builder t u a ha hq)
  constructor
  · exact hheap
  · intro a type ha
    by_cases haq : a = q
    · subst haq
      exact (hown type ha).1
    · have hg : g.objs a = some type := (ho a haq).symm.trans ha
      exact hl a (h.known a type hg) haq
  · exact htable
  · exact fun w hw => hknown _ _ (h.lists w hw)
  · intro t a type ha
    by_cases ht : t = u
    · rw [ht, hself, hobject] at ha
      cases ha
    · rw [hother t ht] at ha
      exact hknown _ _ (h.refs t a type ha)
  · intro t a ha
    obtain ⟨_, hb, hne⟩ := hold t a ha
    obtain ⟨hlive, hnone⟩ := h.builds t a hb
    exact ⟨hl a hlive hne, (ho a hne).trans hnone⟩
  · intro t t' a ha ha'
    exact h.builder t t' a (hold t a ha).2.1 (hold t' a ha').2.1
  · intro a ha
    rw [hqueue]
    by_cases haq : a = q
    · subst haq
      exact (hown .queue ha).2 rfl
    · exact h.shaped a ((ho a haq).symm.trans ha)
  · intro t a r ha
    obtain ⟨ht, _⟩ := hold t a (by rw [ha]; rfl)
    rw [hother t ht] at ha
    rw [hqueue]
    exact h.drafts t a r ha
  · intro t a r ha
    obtain ⟨ht, _⟩ := hold t a (by rw [ha]; rfl)
    rw [hother t ht] at ha
    rw [hqueue]
    exact h.built t a r ha

/-- What `queue_init` comes to once the object's own memory is there. A slot count of 0 asks for
no memory, and gets none. -/
theorem queueInitBuffer_cases {k k' : Kernel} {p : Nat} {ok : Bool}
    (hrun : queueInitBuffer L k p = some (k', ok)) (hdraft : (k.queue p).Draft) :
    (ok = false ∧ k' = k) ∨ ∃ heap buffer size, malloc L k.heap size = some (heap, buffer) ∧
      k' = { k with heap := heap }.setQueue p { k.queue p with buffer := buffer } ∧
      (ok = true → buffer ≠ 0 ∧ (k'.queue p).Shaped) := by
  rw [queueInitBuffer] at hrun
  by_cases hover : (k.queue p).slots ≠ 0 ∧
      wrap ((k.queue p).itemSize * (k.queue p).slots) / (k.queue p).slots ≠ (k.queue p).itemSize
  · simp only [if_pos hover, Option.some.injEq, Prod.mk.injEq] at hrun
    exact Or.inl ⟨hrun.2.symm, hrun.1.symm⟩
  · simp only [if_neg hover] at hrun
    obtain ⟨⟨heap, buffer⟩, hmalloc, heq⟩ := Option.map_eq_some_iff.mp hrun
    obtain ⟨rfl, rfl⟩ := Prod.mk.inj heq
    refine Or.inr ⟨heap, buffer, _, hmalloc, rfl, fun hok => ?_⟩
    have hbuffer : buffer ≠ 0 := by simpa using hok
    refine ⟨hbuffer, ?_⟩
    have hpos : 0 < (k.queue p).slots := by
      by_contra hnot
      have hzero : (k.queue p).slots = 0 := by omega
      rw [hzero, Nat.mul_zero] at hmalloc
      simp only [wrap, Nat.zero_mod, Alloc.malloc, firstFitMalloc, if_true, Option.some.injEq,
        Prod.mk.injEq] at hmalloc
      exact hbuffer hmalloc.2.symm
    have hfits : (k.queue p).itemSize * (k.queue p).slots < 2 ^ 32 := by
      have hexact : wrap ((k.queue p).itemSize * (k.queue p).slots) / (k.queue p).slots =
          (k.queue p).itemSize := by
        by_contra hne
        exact hover ⟨by omega, hne⟩
      calc (k.queue p).itemSize * (k.queue p).slots
          = wrap ((k.queue p).itemSize * (k.queue p).slots) / (k.queue p).slots *
              (k.queue p).slots := by rw [hexact]
        _ ≤ wrap ((k.queue p).itemSize * (k.queue p).slots) := Nat.div_mul_le_self _ _
        _ < 2 ^ 32 := Nat.mod_lt _ (by decide)
    have hq : (({ k with heap := heap }.setQueue p
        { k.queue p with buffer := buffer }).queue p) = { k.queue p with buffer := buffer } :=
      Function.update_self _ _ _
    rw [hq]
    constructor
    · exact hdraft.item
    · exact hdraft.size
    · exact hdraft.slots
    · exact hpos
    · exact hfits
    · change (k.queue p).head < _
      rw [hdraft.head]
      exact hpos
    · change (k.queue p).tail < _
      rw [hdraft.tail]
      exact hpos

/-- The buffer of a queue is allocated. -/
theorem Inv.queueBuffer {p : Nat} {k : Kernel} {ok : Bool} (hL : L.heap.Placed) (h : Inv L s g)
    (hcur : s.k.currentTask = some u) (hpend : s.k.pendsv = false)
    (hpc : s.pc u = .queueBuffer p r) (hrun : queueInitBuffer L s.k p = some (k, ok)) :
    ∃ g', Inv L ({ s with k := k }.setPc u (if ok then .publish p .queue r else .queueFree p r))
      g' ∧ g'.worker = g.worker := by
  have hyields : (s.pc u).yields = false := by
    rw [hpc]
    rfl
  have hfits := h.coded.pcs u
  rw [hpc] at hfits
  have hin : Inside (u = g.worker) (s.pc u) r := by
    rw [hpc]
    constructor <;> first | rfl | simp | exact hfits
  have hbuilds : (s.pc u).builds = some p := by
    rw [hpc]
    rfl
  have hgo : ∀ (p' : Pc) (l : List Nat), (p' = .publish p .queue r ∨ p' = .queueFree p r) →
      k.tasks = s.k.tasks → Lists k g.lists → HeapOwns L k.heap l → (∀ a ∈ g.live, a ∈ l) →
      k.table = s.k.table → (∀ a, a ≠ p → k.queue a = s.k.queue a) →
      (∀ r, p' = .publish p .queue r → (k.queue p).Shaped) →
      ∃ g', Inv L ({ s with k := k }.setPc u p') g' ∧ g'.worker = g.worker := by
    intro p' l hp' htasks hlists hheap hl htable hqueue hbuilt
    refine ⟨{ g with live := l, objs := g.objs }, h.goto_tasks (n := []) (r := r) hcur hpend hyields
      hin ?_ ?_ ?_ ?_ ?_ htasks hlists (fun _ => rfl) (fun _ => rfl) ?_, rfl⟩
    · rcases hp' with rfl | rfl <;> constructor <;> first | rfl | simp | exact hfits
    · rcases hp' with rfl | rfl <;> exact hfits
    · rw [hpc]
      rcases hp' with rfl | rfl <;> rfl
    · rw [hpc]
      exact fun _ => rfl
    · rcases hp' with rfl | rfl <;> exact fun _ => rfl
    · refine h.objects.rebuild (p := p') hbuilds hheap hl htable hqueue rfl ?_ ?_ ?_ hbuilt <;>
        rcases hp' with rfl | rfl <;> first | rfl | simp
  rcases queueInitBuffer_cases hrun (h.objects.drafts u p r hpc) with
    ⟨rfl, rfl⟩ | ⟨heap, buffer, size, hmalloc, hk, hshaped⟩
  · exact hgo _ g.live (Or.inr rfl) rfl h.placed.lists h.objects.heap (fun _ ha => ha) rfl
      (fun _ _ => rfl) fun _ heq => by cases heq
  · have hheap := h.objects.heap.malloc hL hmalloc
    refine hgo _ (if buffer = 0 then g.live else buffer :: g.live) ?_ ?_ ?_ ?_ ?_ ?_ ?_ ?_
    · cases ok with
      | true => exact Or.inl rfl
      | false => exact Or.inr rfl
    · rw [hk]
      rfl
    · rw [hk]
      refine lists_setQueue ?_ ?_ ?_
      · rfl
      · rfl
      · exact h.placed.lists
    · rw [hk]
      exact hheap
    · intro a ha
      by_cases hb : buffer = 0
      · rw [if_pos hb]
        exact ha
      · rw [if_neg hb]
        exact List.mem_cons_of_mem _ ha
    · rw [hk]
      rfl
    · intro a ha
      rw [hk]
      exact Function.update_of_ne ha _ _
    · intro r' heq
      cases ok with
      | true => exact (hshaped rfl).2
      | false => cases heq

/-- The build ends, with nothing changed that a task depends on. -/
theorem Inv.deliver {p v : Nat} {k : Kernel} {l : List Nat} {o : Nat → Option KobjType}
    (h : Inv L s g) (hcur : s.k.currentTask = some u) (hpend : s.k.pendsv = false)
    (hpc : s.pc u = .queueFree p r ∨ ∃ type, s.pc u = .publish p type r)
    (htasks : k.tasks = s.k.tasks) (hlists : Lists k g.lists)
    (hobjects : Objects L (({ s with k := k } : Sys).finish u r v)
      { g with live := l, objs := o }) :
    Inv L (({ s with k := k } : Sys).finish u r v) { g with live := l, objs := o } := by
  have hfits := h.coded.pcs u
  refine h.finish_tasks hcur hpend ?_ ?_ ?_ ?_ htasks hlists hobjects
  · rcases hpc with hpc | ⟨_, hpc⟩ <;> rw [hpc] <;> rfl
  · rcases hpc with hpc | ⟨_, hpc⟩ <;> rw [hpc] at hfits ⊢ <;> constructor <;>
      first | rfl | simp | exact hfits
  · rcases hpc with hpc | ⟨_, hpc⟩ <;> rw [hpc] <;> rfl
  · rcases hpc with hpc | ⟨_, hpc⟩ <;> rw [hpc] <;> exact fun _ => rfl

/-- A queue without a buffer is freed again. -/
theorem Inv.queueFree {p : Nat} {k : Kernel} (hL : L.heap.Placed) (h : Inv L s g)
    (hcur : s.k.currentTask = some u) (hpend : s.k.pendsv = false)
    (hpc : s.pc u = .queueFree p r) (hrun : Crest.queueFree L s.k p = some k) :
    ∃ g', Inv L ({ s with k := k }.finish u r kobjInvalid) g' ∧ g'.worker = g.worker := by
  obtain ⟨heap, hfree, rfl⟩ := Option.map_eq_some_iff.mp hrun
  have hbuilds : (s.pc u).builds = some p := by
    rw [hpc]
    rfl
  obtain ⟨hlive, hunknown⟩ := h.objects.builds u p hbuilds
  refine ⟨{ g with live := g.live.erase p, objs := g.objs },
    h.deliver hcur hpend (Or.inl hpc) rfl h.placed.lists ?_, rfl⟩
  rw [finish_eq]
  refine h.objects.deliver (p := r.next kobjInvalid) hbuilds
    (h.objects.heap.free hL hlive hfree) ?_ (fun _ _ => rfl) ?_ h.objects.table rfl rfl ?_ ?_
  · exact fun a ha hne => (List.mem_erase_of_ne hne).mpr ha
  · intro type htype
    rw [hunknown] at htype
    cases htype
  · cases r <;> rfl
  · cases r <;> rfl

/-- The new object gets a handle, or is lost when the table is full. -/
theorem Inv.publish {p : Nat} {type : KobjType} (h : Inv L s g)
    (hcur : s.k.currentTask = some u) (hpend : s.k.pendsv = false)
    (hpc : s.pc u = .publish p type r) :
    ∃ g', Inv L ({ s with k := (kObjAlloc s.k p type).1 }.finish u r (kObjAlloc s.k p type).2) g' ∧
      g'.worker = g.worker := by
  have hbuilds : (s.pc u).builds = some p := by
    rw [hpc]
    rfl
  obtain ⟨hlive, hunknown⟩ := h.objects.builds u p hbuilds
  have hbuilt : type = .queue → (s.k.queue p).Shaped := by
    rintro rfl
    exact h.objects.built u p r hpc
  have hlost : ∀ v, ∃ g', Inv L (s.finish u r v) g' ∧ g'.worker = g.worker := by
    intro v
    refine ⟨{ g with live := g.live, objs := g.objs },
      h.deliver hcur hpend (Or.inr ⟨type, hpc⟩) rfl h.placed.lists ?_, rfl⟩
    rw [finish_eq]
    refine h.objects.keep (p := r.next v) h.objects.heap (fun _ ha => ha) rfl rfl rfl ?_ ?_ <;>
      cases r <;> rfl
  rw [kObjAlloc]
  by_cases hp : p = 0
  · rw [if_pos hp]
    exact hlost _
  rw [if_neg hp]
  cases hslot : (List.range kobjMax).find? (fun i => !(s.k.table i).inUse) with
  | none => exact hlost _
  | some i =>
    refine ⟨{ g with live := g.live, objs := Function.update g.objs p (some type) },
      h.deliver hcur hpend (Or.inr ⟨type, hpc⟩) rfl h.placed.lists ?_, rfl⟩
    rw [finish_eq]
    refine h.objects.deliver (p := r.next _) hbuilds h.objects.heap (fun _ ha _ => ha)
      (fun _ ha => Function.update_of_ne ha _ _) ?_ ?_ rfl rfl ?_ ?_
    · intro type' htype
      rw [Function.update_self] at htype
      obtain rfl := Option.some.inj htype
      exact ⟨hlive, hbuilt⟩
    · intro j hj huse
      simp only [Sys.note, Sys.setPc] at huse ⊢
      by_cases hji : j = i
      · subst hji
        rw [Function.update_self, Function.update_self]
      · rw [Function.update_of_ne hji] at huse ⊢
        have hobj := h.objects.table j hj huse
        rw [Function.update_of_ne]
        · exact hobj
        · intro heq
          rw [heq, hunknown] at hobj
          cases hobj
    · cases r <;> rfl
    · cases r <;> rfl

end Build

end Crest
