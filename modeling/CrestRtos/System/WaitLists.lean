import CrestRtos.System.Machine
import Mathlib.Data.Fintype.Card

/-!
# Wait lists as lists

`Lists k L` says that the links in the control blocks and the heads in the
objects spell out the list `L w` for every wait list `w`. `plain` forgets both,
so that an operation on a wait list is described by what it does to `L` and by
what it does to the plain kernel.
-/

namespace Crest
open IntrusiveList

def Tcb.plain (tcb : Tcb) : Tcb := { tcb with waitNext := none }

def Kernel.plain (k : Kernel) : Kernel :=
  { k with
    tcb := fun t => (k.tcb t).plain
    sem := fun a => { k.sem a with waitList := none }
    mutex := fun a => { k.mutex a with waitList := none }
    queue := fun a => { k.queue a with sendWait := none, recvWait := none } }

abbrev WaitMap := WaitList → List Tid

def Lists (k : Kernel) (L : WaitMap) : Prop := ∀ w, Linked k.waitNext (k.head w) (L w)

/-- No task is on two lists. -/
def Apart (L : WaitMap) : Prop := ∀ w w' t, t ∈ L w → t ∈ L w' → w = w'

theorem setTcb_waitNext_of_same {k : Kernel} {t : Tid} {f : Tcb → Tcb}
    (hf : (f (k.tcb t)).waitNext = (k.tcb t).waitNext) :
    (k.setTcb t f).waitNext = k.waitNext := by
  funext u
  by_cases hu : u = t
  · subst hu
    simp only [Kernel.waitNext, setTcb_tcb_same, hf]
  · simp only [Kernel.waitNext, setTcb_tcb_of_ne k f hu]

theorem lists_of_same {k k' : Kernel} {L : WaitMap} (hn : k'.waitNext = k.waitNext)
    (hh : ∀ w, k'.head w = k.head w) (h : Lists k L) : Lists k' L := by
  intro w
  rw [hn, hh]
  exact h w

theorem lists_setTcb {k : Kernel} {L : WaitMap} {t : Tid} {f : Tcb → Tcb}
    (hf : (f (k.tcb t)).waitNext = (k.tcb t).waitNext) (h : Lists k L) :
    Lists (k.setTcb t f) L :=
  lists_of_same (setTcb_waitNext_of_same hf) (setTcb_head k t f) h

theorem plain_setTcb {k : Kernel} {t : Tid} {f : Tcb → Tcb}
    (hf : (f (k.tcb t)).plain = f (k.tcb t).plain) :
    (k.setTcb t f).plain = k.plain.setTcb t f := by
  have htcb : (fun u => ((k.setTcb t f).tcb u).plain) = (k.plain.setTcb t f).tcb := by
    funext u
    by_cases hu : u = t
    · subst hu
      rw [setTcb_tcb_same, setTcb_tcb_same, hf]
      rfl
    · rw [setTcb_tcb_of_ne k f hu, setTcb_tcb_of_ne k.plain f hu]
      rfl
  exact congrArg (fun g => { k.plain with tcb := g }) htcb

/-- A change of `waitNext` alone is invisible. -/
theorem plain_setTcb_waitNext (k : Kernel) (t : Tid) (v : Option Tid) :
    (k.setTcb t fun tcb => { tcb with waitNext := v }).plain = k.plain := by
  have htcb : (fun u => ((k.setTcb t fun tcb => { tcb with waitNext := v }).tcb u).plain) =
      k.plain.tcb := by
    funext u
    by_cases hu : u = t
    · subst hu
      rw [setTcb_tcb_same]
      rfl
    · rw [setTcb_tcb_of_ne k _ hu]
      rfl
  exact congrArg (fun g => { k.plain with tcb := g }) htcb

@[simp] theorem plain_setHead (k : Kernel) (w : WaitList) (v : Option Tid) :
    (k.setHead w v).plain = k.plain := by
  cases w with
  | sem a =>
    have h : (fun b => { (k.setHead (.sem a) v).sem b with waitList := none }) =
        k.plain.sem := by
      funext b
      by_cases hb : b = a
      · subst hb
        simp [Kernel.setHead, Kernel.setSem, Kernel.plain]
      · simp [Kernel.setHead, Kernel.setSem, Kernel.plain, hb]
    exact congrArg (fun g => { k.plain with sem := g }) h
  | mutex a =>
    have h : (fun b => { (k.setHead (.mutex a) v).mutex b with waitList := none }) =
        k.plain.mutex := by
      funext b
      by_cases hb : b = a
      · subst hb
        simp [Kernel.setHead, Kernel.setMutex, Kernel.plain]
      · simp [Kernel.setHead, Kernel.setMutex, Kernel.plain, hb]
    exact congrArg (fun g => { k.plain with mutex := g }) h
  | send a =>
    have h : (fun b => { (k.setHead (.send a) v).queue b with
        sendWait := none, recvWait := none }) = k.plain.queue := by
      funext b
      by_cases hb : b = a
      · subst hb
        simp [Kernel.setHead, Kernel.setQueue, Kernel.plain]
      · simp [Kernel.setHead, Kernel.setQueue, Kernel.plain, hb]
    exact congrArg (fun g => { k.plain with queue := g }) h
  | recv a =>
    have h : (fun b => { (k.setHead (.recv a) v).queue b with
        sendWait := none, recvWait := none }) = k.plain.queue := by
      funext b
      by_cases hb : b = a
      · subst hb
        simp [Kernel.setHead, Kernel.setQueue, Kernel.plain]
      · simp [Kernel.setHead, Kernel.setQueue, Kernel.plain, hb]
    exact congrArg (fun g => { k.plain with queue := g }) h

theorem setHead_waitNext (k : Kernel) (w : WaitList) (v : Option Tid) :
    (k.setHead w v).waitNext = k.waitNext := by
  cases w <;> rfl

section Primitives
variable {k : Kernel} {L : WaitMap} {w : WaitList} {t : Tid}

theorem head_eq_none_iff (h : Lists k L) (w : WaitList) : k.head w = none ↔ L w = [] := by
  have hw := h w
  constructor
  · intro hn
    rw [hn] at hw
    exact linked_none_iff.mp hw
  · intro hl
    rw [hl] at hw
    exact hw

theorem head_eq_some (h : Lists k L) (hs : k.head w = some t) : ∃ r, L w = t :: r := by
  have hw := h w
  rw [hs] at hw
  obtain ⟨r, hr, _⟩ := linked_some_iff.mp hw
  exact ⟨r, hr⟩

theorem length_le_tasks (h : Lists k L) (w : WaitList) : (L w).length ≤ maxTasks := by
  have hnd := linked_nodup (h w)
  exact hnd.length_le_card

/-- The links change at `t` only, and `t` is on no list other than `w`. -/
theorem lists_relink {k' : Kernel} {l : List Tid} {v : Option Tid} (h : Lists k L)
    (hn : k'.waitNext = Function.update k.waitNext t v) (hw : Linked k'.waitNext (k'.head w) l)
    (hh : ∀ w', w' ≠ w → k'.head w' = k.head w') (ht : ∀ w', w' ≠ w → t ∉ L w') :
    Lists k' (Function.update L w l) := by
  intro w'
  by_cases hw' : w' = w
  · subst hw'
    rw [Function.update_self]
    exact hw
  · rw [Function.update_of_ne hw', hh w' hw', hn]
    exact (linked_update_of_notMem (ht w' hw')).mpr (h w')

theorem waitNext_setTcb (k : Kernel) (t : Tid) (v : Option Tid) :
    (k.setTcb t fun tcb => { tcb with waitNext := v }).waitNext =
      Function.update k.waitNext t v := by
  funext u
  by_cases hu : u = t
  · subst hu
    simp [Kernel.waitNext]
  · simp [Kernel.waitNext, setTcb_tcb_of_ne k _ hu, hu]

theorem lists_pushWaiter (h : Lists k L) (ht : ∀ w', t ∉ L w') :
    Lists (pushWaiter k w t) (Function.update L w (t :: L w)) := by
  have hn : (pushWaiter k w t).waitNext = Function.update k.waitNext t (k.head w) := by
    rw [pushWaiter, setHead_waitNext, waitNext_setTcb]
  refine lists_relink h hn ?_ ?_ fun w' _ => ht w'
  · rw [hn, pushWaiter, setHead_head_same]
    exact linked_push_front (ht w) (h w)
  · intro w' hw'
    rw [pushWaiter, setHead_head_of_ne _ _ hw', setTcb_head]

@[simp] theorem plain_pushWaiter (k : Kernel) (w : WaitList) (t : Tid) :
    (pushWaiter k w t).plain = k.plain := by
  rw [pushWaiter, plain_setHead, plain_setTcb_waitNext]

theorem lists_appendWaiter (h : Lists k L) (hd : Apart L) (ht : ∀ w', t ∉ L w') :
    Lists (appendWaiter k w t) (Function.update L w (L w ++ [t])) := by
  have hclear : Lists (k.setTcb t fun tcb => { tcb with waitNext := none }) L := by
    intro w'
    rw [waitNext_setTcb, setTcb_head]
    exact (linked_update_of_notMem (ht w')).mpr (h w')
  have hnull : (k.setTcb t fun tcb => { tcb with waitNext := none }).waitNext t = none := by
    rw [waitNext_setTcb, Function.update_self]
  rw [appendWaiter]
  generalize (k.setTcb t fun tcb => { tcb with waitNext := none }) = k₁ at hclear hnull
  cases hhead : k₁.head w with
  | none =>
    have hnil := (head_eq_none_iff hclear w).mp hhead
    intro w'
    by_cases hw' : w' = w
    · subst hw'
      rw [Function.update_self, setHead_head_same, setHead_waitNext, hnil]
      exact ⟨rfl, hnull⟩
    · rw [Function.update_of_ne hw', setHead_head_of_ne _ _ hw', setHead_waitNext]
      exact hclear w'
  | some first =>
    obtain ⟨r, hr⟩ := head_eq_some hclear hhead
    have hlist := hclear w
    rw [hr, hhead] at hlist
    have hlen := length_le_tasks hclear w
    rw [hr, List.length_cons] at hlen
    have hlast : lastFrom k₁.waitNext maxTasks first =
        (first :: r).getLast (List.cons_ne_nil first r) :=
      lastFrom_eq maxTasks hlist.2 (by omega)
    have hnot : t ∉ first :: r := hr ▸ ht w
    have hmem : (first :: r).getLast (List.cons_ne_nil first r) ∈ L w := by
      rw [hr]
      exact List.getLast_mem (List.cons_ne_nil first r)
    have hn := waitNext_setTcb k₁ ((first :: r).getLast (List.cons_ne_nil first r)) (some t)
    simp only [hlast]
    refine lists_relink hclear hn ?_ (fun w' _ => setTcb_head k₁ _ _ w') ?_
    · rw [setTcb_head, hn, hr, hhead]
      exact linked_push_back hnot hlist hnull
    · intro w' hw' hin
      exact hw' (hd w' w _ hin hmem)

@[simp] theorem plain_appendWaiter (k : Kernel) (w : WaitList) (t : Tid) :
    (appendWaiter k w t).plain = k.plain := by
  rw [appendWaiter]
  have hclear := plain_setTcb_waitNext k t none
  generalize (k.setTcb t fun tcb => { tcb with waitNext := none }) = k₁ at hclear
  cases k₁.head w with
  | none => rw [plain_setHead, hclear]
  | some first => rw [plain_setTcb_waitNext, hclear]

theorem lists_popWaiter {r : List Tid} (h : Lists k L) (hd : Apart L) (hw : L w = t :: r) :
    Lists (popWaiter k w t) (Function.update L w r) := by
  have hmem : t ∈ L w := hw ▸ List.mem_cons_self
  have hlist := h w
  rw [hw, linked_cons] at hlist
  have hnd := linked_nodup (h w)
  rw [hw, List.nodup_cons] at hnd
  have hn : (popWaiter k w t).waitNext = Function.update k.waitNext t none := by
    funext u
    by_cases hu : u = t
    · subst hu
      simp [popWaiter, Kernel.waitNext]
    · rw [Function.update_of_ne hu, ← setHead_waitNext k w (k.waitNext t)]
      simp [popWaiter, Kernel.waitNext, setTcb_tcb_of_ne _ _ hu]
  refine lists_relink h hn ?_ ?_ fun w' hw' hin => hw' (hd w' w t hin hmem)
  · rw [hn, popWaiter, setTcb_head, setHead_head_same]
    exact (linked_update_of_notMem hnd.1).mpr hlist.2
  · intro w' hw'
    rw [popWaiter, setTcb_head, setHead_head_of_ne _ _ hw']

theorem plain_popWaiter (k : Kernel) (w : WaitList) (t : Tid) :
    (popWaiter k w t).plain = k.plain.setTcb t fun tcb =>
      { tcb with waitNext := none, delayTicks := 0, blockingWaitList := none } := by
  rw [popWaiter]
  refine (plain_setTcb ?_).trans ?_
  · rfl
  · rw [plain_setHead]

theorem plain_unlinkWaiter (k : Kernel) (w : WaitList) (t : Tid) :
    (unlinkWaiter k w t).plain = k.plain := by
  rw [unlinkWaiter]
  by_cases hfound : (searchFrom k.waitNext t maxTasks (k.head w) none).1 = some t
  · simp only [hfound, if_true, plain_setTcb_waitNext]
    cases (searchFrom k.waitNext t maxTasks (k.head w) none).2 with
    | none => exact plain_setHead k w _
    | some p => exact plain_setTcb_waitNext k p _
  · simp only [if_neg hfound]

/-- The search of a timeout finds its task, wherever it is on the list. -/
theorem lists_unlinkWaiter {l r : List Tid} (h : Lists k L) (hd : Apart L)
    (hw : L w = l ++ t :: r) : Lists (unlinkWaiter k w t) (Function.update L w (l ++ r)) := by
  have hmem : t ∈ L w := hw ▸ List.mem_append_right l List.mem_cons_self
  have hlist := h w
  rw [hw] at hlist
  have hlen := length_le_tasks h w
  rw [hw, List.length_append, List.length_cons] at hlen
  have hsearch := searchFrom_found maxTasks none hlist (by omega)
  have hsplice := linked_splice hlist
  have hother : ∀ w', w' ≠ w → t ∉ L w' := fun w' hw' hin => hw' (hd w' w t hin hmem)
  rw [unlinkWaiter, hsearch]
  simp only [if_true]
  cases hprev : l.getLast? with
  | none =>
    simp only [lastOr, hprev, Option.or_none] at hsplice ⊢
    have hn : ((k.setHead w (k.waitNext t)).setTcb t fun tcb =>
        { tcb with waitNext := none }).waitNext = Function.update k.waitNext t none := by
      rw [waitNext_setTcb, setHead_waitNext]
    refine lists_relink h hn ?_ ?_ hother
    · rw [hn, setTcb_head, setHead_head_same]
      exact hsplice
    · intro w' hw'
      rw [setTcb_head, setHead_head_of_ne _ _ hw']
  | some p =>
    have hp : p ∈ L w := hw ▸ List.mem_append_left _ (List.mem_of_getLast? hprev)
    have hotherp : ∀ w', w' ≠ w → p ∉ L w' := fun w' hw' hin => hw' (hd w' w p hin hp)
    simp only [lastOr, hprev, Option.some_or] at hsplice ⊢
    intro w'
    rw [waitNext_setTcb, waitNext_setTcb, setTcb_head, setTcb_head]
    by_cases hw' : w' = w
    · subst hw'
      rw [Function.update_self]
      exact hsplice
    · rw [Function.update_of_ne hw', linked_update_of_notMem (hother w' hw'),
        linked_update_of_notMem (hotherp w' hw')]
      exact h w'

end Primitives

end Crest
