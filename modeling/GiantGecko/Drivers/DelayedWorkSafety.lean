import Mathlib.Logic.Function.Iterate
import GiantGecko.Foundation.Transition
import GiantGecko.Drivers.DelayedWork

namespace GiantGecko.Drivers.DelayedWork

open Foundation.Transition
open Workqueue (Place)
open Rtos.Timer (halfTickMax)

variable {Plain Delayed : Type} [DecidableEq Plain] [DecidableEq Delayed]
  {s s' : System Plain Delayed} {d e : Delayed} {q i : ℕ} {work work' : Work Plain Delayed}

def Free (s : System Plain Delayed) (d : Delayed) : Prop :=
  s.pending (.delayed d) = false ∧ ∀ q, (s.queue q).place ≠ .run (.delayed d)

def Stage.Clearing : Stage → Prop
  | .submitting | .stop | .detach => True
  | _ => False

/-- No assertion has failed, every call comes to its end in ten turns, no item gets to a queue that
there is not, and the function of an item that has been cancelled is not called. -/
def Kept (s : System Plain Delayed) (e : Event Plain Delayed) : Prop :=
  (step s e).halted = false ∧
    (∀ d, ∀ c ∈ ((step s e).delayed d).call, c.turns < 10) ∧
    (∀ d, ((step s e).delayed d).missing = 0) ∧
    ∀ q d, e = .thread q → (s.queue q).place = .run (.delayed d) → (s.delayed d).cancelled = false

/-- When a call tests whether the item is pending, it is not, no thread is about to call its
function and no handler of its timer is under way; from then on until the item is detached, its
timer does not run out, nor is it submitted by anybody else. Only a pending item is made
critical. -/
def Careful (s : System Plain Delayed) : Event Plain Delayed → Prop
  | .submit _ (.delayed _) ticks => ticks < halfTickMax
  | .call d => ∀ c ∈ (s.delayed d).call, c.stage = .pending →
      Free s d ∧ (s.delayed d).handler = none
  | .dowork _ (.delayed d) => ∀ c ∈ (s.delayed d).call, ¬c.stage.Clearing
  | .critical _ (.delayed d) => s.pending (.delayed d) = true
  | .expire d => (s.delayed d).timer = true → ∀ c ∈ (s.delayed d).call, ¬c.stage.Clearing
  | _ => True

def Call.Fits (x : RtDelayedWork) (free : Prop) (c : Call) : Prop :=
  match c.stage with
  | .belongs => c.turns = 0 ∧ c.submit = true
  | .same => c.turns ≤ 1 ∧ c.submit = true ∧ (x.workqueue ≠ none → x.workqueue = some c.queue)
  | .attached => c.turns ≤ 2
  | .pending => c.turns ≤ 3
  | .submitting => c.turns ≤ 4 ∧ free ∧ x.handler = none
  | .stop => c.turns ≤ 5 ∧ free ∧ x.handler = none ∧ x.submitting = true
  | .detach => c.turns ≤ 6 ∧ free ∧ x.handler = none ∧ x.submitting = false
  | .attach => c.turns ≤ 7 ∧ c.submit = true ∧ x.workqueue = none
  | .put => c.turns ≤ 8 ∧ c.submit = true ∧ x.workqueue ≠ none
  | .arm => c.turns ≤ 8 ∧ c.submit = true ∧ x.workqueue ≠ none ∧ x.handler = none ∧
      x.submitting = false
  | .start => c.turns ≤ 9 ∧ c.submit = true ∧ x.workqueue ≠ none ∧ x.handler = none ∧
      x.submitting = true ∧ x.timer = false

/-- The timer of an item is an object while the item is being submitted, and runs only then. An
item that belongs to no queue has no timer, and one that has been cancelled is free as well. -/
structure Item (x : RtDelayedWork) (free : Prop) : Prop where
  armed : x.timer = true → x.submitting = true
  begun : x.handler = some .begin → x.submitting = true
  object : x.object = x.submitting
  away : x.workqueue = none → x.submitting = false ∧ x.handler = none
  missing : x.missing = 0
  cancelled : x.cancelled = true → x.workqueue = none ∧ free
  call : ∀ c ∈ x.call, c.nested = 0 ∧ (c.submit = true → c.ticks < halfTickMax) ∧ c.Fits x free

structure Linked (s : System Plain Delayed) : Prop where
  pending : ∀ q d, .delayed d ∈ (s.queue q).workList → s.pending (.delayed d) = true
  once : ∀ q work, (s.queue q).workList.count work ≤ 1
  single : ∀ q q' work, work ∈ (s.queue q).workList → work ∈ (s.queue q').workList → q = q'

structure Inv (s : System Plain Delayed) : Prop where
  running : s.halted = false
  linked : Linked s
  item : ∀ d, Item (s.delayed d) (Free s d)

theorem Linked.frame (h : Linked s)
    (hqueue : ∀ q, (s'.queue q).workList.Sublist (s.queue q).workList)
    (hpending : ∀ q d, .delayed d ∈ (s'.queue q).workList →
      s'.pending (.delayed d) = s.pending (.delayed d)) : Linked s' where
  pending q d hd := (hpending q d hd).trans (h.pending q d ((hqueue q).subset hd))
  once q work := Nat.le_trans ((hqueue q).count_le _) (h.once q work)
  single q q' work hw hw' := h.single q q' work ((hqueue q).subset hw) ((hqueue q').subset hw')

theorem Linked.setQueue (h : Linked s) {x : RtWorkqueue Plain Delayed}
    (hx : x.workList.Sublist (s.queue q).workList) : Linked (s.setQueue q x) := by
  refine h.frame (fun i ↦ ?_) fun _ _ _ ↦ rfl
  obtain rfl | hne := eq_or_ne i q
  · rwa [setQueue_self]
  · rw [setQueue_of_ne hne]

theorem Linked.setPending (h : Linked s) (work : Work Plain Delayed) (b : Bool)
    (hb : b = true ∨ ∀ i, work ∉ (s.queue i).workList) : Linked (s.setPending work b) where
  pending i d hd := by
    obtain heq | hne := eq_or_ne (.delayed d) work
    · obtain rfl | hout := hb
      · rw [heq, setPending_self]
      · exact absurd (heq ▸ hd) (hout i)
    · rw [setPending_of_ne hne]
      exact h.pending i d hd
  once := h.once
  single := h.single

theorem Linked.unlink (h : Linked s) (work : Work Plain Delayed) : Linked (unlink work s) :=
  h.frame (fun _ ↦ List.erase_sublist) fun _ _ _ ↦ rfl

theorem Linked.not_mem_unlink (h : Linked s) (work : Work Plain Delayed) (q : ℕ) :
    work ∉ ((DelayedWork.unlink work s).queue q).workList := by
  have hcount : ((s.queue q).workList.erase work).count work = 0 := by
    rw [List.count_erase_self]
    have honce := h.once q work
    omega
  exact List.count_eq_zero.mp hcount

omit [DecidableEq Plain] [DecidableEq Delayed] in
theorem mem_link : work ∈ ((link q work' s).queue i).workList ↔
    work ∈ (s.queue i).workList ∨ i = q ∧ work = work' := by
  obtain rfl | hi := eq_or_ne i q
  · simp [link]
  · simp [link, setQueue_of_ne hi, hi]

theorem Linked.link (h : Linked s) (hout : ∀ i, work ∉ (s.queue i).workList)
    (hpending : ∀ d, work = .delayed d → s.pending (.delayed d) = true) (q : ℕ) :
    Linked (link q work s) where
  pending i d hd := by
    obtain hd | ⟨-, heq⟩ := mem_link.mp hd
    · exact h.pending i d hd
    · exact hpending d heq.symm
  once i work' := by
    obtain rfl | hi := eq_or_ne i q
    · simp only [DelayedWork.link, setQueue_self, List.count_append, List.count_singleton]
      have honce := h.once i work'
      split_ifs with heq
      · have hzero : (s.queue i).workList.count work' = 0 :=
          List.count_eq_zero.mpr (eq_of_beq heq ▸ hout i)
        omega
      · omega
    · simp only [DelayedWork.link, setQueue_of_ne hi]
      exact h.once i work'
  single i i' work' hw hw' := by
    obtain hin | ⟨rfl, rfl⟩ := mem_link.mp hw
    · obtain hin' | ⟨-, rfl⟩ := mem_link.mp hw'
      · exact h.single i i' work' hin hin'
      · exact absurd hin (hout i)
    · obtain hin' | ⟨rfl, -⟩ := mem_link.mp hw'
      · exact absurd hin' (hout i')
      · rfl

theorem Linked.submitWork (h : Linked s) (q : ℕ) (work : Work Plain Delayed) :
    Linked (workqueueSubmitWork q work s).2 := by
  unfold workqueueSubmitWork
  split_ifs
  · exact h
  · exact h
  · have hout := h.not_mem_unlink work
    refine (Linked.setPending (h.unlink work) work true (.inl rfl)).link hout ?_ q
    rintro d rfl
    exact setPending_self true

theorem Linked.not_linked (h : Linked s) (hpending : s.pending (.delayed d) = false) (i : ℕ) :
    .delayed d ∉ (s.queue i).workList := fun hd ↦ by
  rw [h.pending i d hd] at hpending
  cases hpending

variable {x : RtDelayedWork} {c : Call} {free free' : Prop}

theorem Call.Fits.mono (h : c.Fits x free) (himp : free → free') : c.Fits x free' := by
  unfold Call.Fits at h ⊢
  cases hstage : c.stage <;> rw [hstage] at h <;> dsimp only at h ⊢ <;> tauto

theorem Call.Fits.away {y : RtDelayedWork} (h : c.Fits x free) (hclear : ¬c.stage.Clearing)
    (harm : c.stage ≠ .arm) (hstart : c.stage ≠ .start) (hqueue : y.workqueue = x.workqueue) :
    c.Fits y free' := by
  unfold Call.Fits at h ⊢
  rw [hqueue]
  cases hstage : c.stage <;> rw [hstage] at h hclear harm hstart <;>
    simp only [Stage.Clearing] at h hclear ⊢ <;> tauto

theorem Call.Fits.handling (h : c.Fits x free) (hx : x.handler ≠ none) :
    ¬c.stage.Clearing ∧ c.stage ≠ .arm ∧ c.stage ≠ .start := by
  unfold Call.Fits at h
  cases hstage : c.stage <;> rw [hstage] at h <;> simp only [Stage.Clearing] at h ⊢ <;> tauto

theorem Call.Fits.running (h : c.Fits x free) (hsub : x.submitting = true) (hx : x.timer = true) :
    c.stage ≠ .arm ∧ c.stage ≠ .start := by
  unfold Call.Fits at h
  rw [hsub, hx] at h
  cases hstage : c.stage <;> rw [hstage] at h <;> simp at h ⊢

theorem Item.mono (h : Item x free) (himp : free → free') : Item x free' where
  armed := h.armed
  begun := h.begun
  object := h.object
  away := h.away
  missing := h.missing
  cancelled hx := ⟨(h.cancelled hx).1, himp (h.cancelled hx).2⟩
  call c hc := ⟨(h.call c hc).1, (h.call c hc).2.1, (h.call c hc).2.2.mono himp⟩

theorem Item.unfree (h : Item x free) (hx : x.cancelled = false)
    (hcall : ∀ c ∈ x.call, ¬c.stage.Clearing) : Item x False where
  armed := h.armed
  begun := h.begun
  object := h.object
  away := h.away
  missing := h.missing
  cancelled htrue := by
    rw [hx] at htrue
    cases htrue
  call c hc := by
    obtain ⟨hnested, hticks, hfits⟩ := h.call c hc
    have hclear := hcall c hc
    refine ⟨hnested, hticks, ?_⟩
    unfold Call.Fits at hfits ⊢
    cases hstage : c.stage <;> rw [hstage] at hfits hclear <;>
      simp only [Stage.Clearing] at hfits hclear ⊢ <;> tauto

theorem Item.resubmitted (h : Item x free) : Item { x with cancelled := false } free where
  armed := h.armed
  begun := h.begun
  object := h.object
  away := h.away
  missing := h.missing
  cancelled hfalse := by cases hfalse
  call := h.call

theorem Item.expire (h : Item x free) (htimer : x.timer = true)
    (hclear : ∀ c ∈ x.call, ¬c.stage.Clearing) :
    Item { x with timer := false, handler := some .begin } free where
  armed hfalse := by cases hfalse
  begun _ := h.armed htimer
  object := h.object
  away hnone := by
    have hsub := (h.away hnone).1
    rw [h.armed htimer] at hsub
    cases hsub
  missing := h.missing
  cancelled := h.cancelled
  call c hc := by
    obtain ⟨hnested, hticks, hfits⟩ := h.call c hc
    obtain ⟨harm, hstart⟩ := hfits.running (h.armed htimer) htimer
    exact ⟨hnested, hticks, hfits.away (hclear c hc) harm hstart rfl⟩

theorem Item.queue_of_handling (h : Item x free) (hx : x.handler ≠ none) : x.workqueue ≠ none :=
  fun hnone ↦ hx (h.away hnone).2

theorem Item.call_handling (h : Item x free) (hx : x.handler ≠ none) {y : RtDelayedWork}
    (hqueue : y.workqueue = x.workqueue) : ∀ c ∈ x.call,
      c.nested = 0 ∧ (c.submit = true → c.ticks < halfTickMax) ∧ c.Fits y free' := fun c hc ↦ by
  obtain ⟨hnested, hticks, hfits⟩ := h.call c hc
  obtain ⟨hclear, harm, hstart⟩ := hfits.handling hx
  exact ⟨hnested, hticks, hfits.away hclear harm hstart hqueue⟩

theorem Item.handle (h : Item x free) (hx : x.handler = some .begin) :
    Item { x.stopTimer with handler := some .submit } free where
  armed hfalse := by cases hfalse
  begun hfalse := by cases hfalse
  object := rfl
  away hnone := absurd hnone (h.queue_of_handling (by simp [hx]))
  missing := h.missing
  cancelled := h.cancelled
  call := h.call_handling (by simp [hx]) rfl

theorem Item.handled (h : Item x free) (hx : x.handler ≠ none) :
    Item { x with handler := none } free' where
  armed := h.armed
  begun hfalse := by cases hfalse
  object := h.object
  away hnone := absurd hnone (h.queue_of_handling hx)
  missing := h.missing
  cancelled htrue := absurd (h.cancelled htrue).1 (h.queue_of_handling hx)
  call := h.call_handling hx rfl

theorem Item.setCall (h : Item x free) (call : Option Call) (hcall : ∀ c ∈ call,
    c.nested = 0 ∧ (c.submit = true → c.ticks < halfTickMax) ∧ c.Fits x free) :
    Item { x with call := call } free :=
  ⟨h.armed, h.begun, h.object, h.away, h.missing, h.cancelled, hcall⟩

theorem Item.calls (h : Item x free) (hnested : c.nested = 0)
    (hticks : c.submit = true → c.ticks < halfTickMax) (hfits : c.Fits x free) :
    Item { x with call := some c } free := by
  refine h.setCall _ fun c' hc ↦ ?_
  obtain rfl := Option.mem_some_iff.mp hc
  exact ⟨hnested, hticks, hfits⟩

theorem Item.idle (h : Item x free) : Item { x with call := none } free :=
  h.setCall none fun c hc ↦ by cases hc

theorem Item.stopTimer (h : Item x free) (hhandler : x.handler ≠ some .begin) :
    Item { x.stopTimer with call := none } free where
  armed ht := by cases ht
  begun hb := absurd hb hhandler
  object := rfl
  away hq := ⟨rfl, (h.away hq).2⟩
  missing := h.missing
  cancelled := h.cancelled
  call c hc := by cases hc

theorem Item.detach (h : Item x free) (hsub : x.submitting = false) (hhandler : x.handler = none)
    (hfree : free) : Item { x with workqueue := none, call := none } free where
  armed := h.armed
  begun := h.begun
  object := h.object
  away _ := ⟨hsub, hhandler⟩
  missing := h.missing
  cancelled _ := ⟨rfl, hfree⟩
  call c hc := by cases hc

theorem Item.attach (h : Item x free) (q : ℕ) :
    Item { x with workqueue := some q, cancelled := false, call := none } free where
  armed := h.armed
  begun := h.begun
  object := h.object
  away hnone := by cases hnone
  missing := h.missing
  cancelled hfalse := by cases hfalse
  call c hc := by cases hc

theorem Item.arm (h : Item x free) (hqueue : x.workqueue ≠ none) :
    Item { x with submitting := true, object := true, call := none } free where
  armed _ := rfl
  begun _ := rfl
  object := rfl
  away hnone := absurd hnone hqueue
  missing := h.missing
  cancelled := h.cancelled
  call c hc := by cases hc

theorem Item.start (h : Item x free) (hsub : x.submitting = true) :
    Item { x with timer := true, call := none } free where
  armed _ := hsub
  begun := h.begun
  object := h.object
  away := h.away
  missing := h.missing
  cancelled := h.cancelled
  call c hc := by cases hc

theorem Item.goTo (h : Item x free) (hc : c ∈ x.call) {stage : Stage}
    (hfits : Call.Fits x free { c with stage := stage, turns := c.turns + 1 }) :
    Item (x.goTo c stage) free := by
  obtain ⟨hnested, hticks, -⟩ := h.call c hc
  exact h.calls hnested hticks hfits

theorem Item.returns (h : Item x free) {err : RtErr}
    (hok : c.submit = false → err = .eok → x.workqueue = none ∧ free) :
    Item (x.returns c err) free where
  armed := h.armed
  begun := h.begun
  object := h.object
  away := h.away
  missing := h.missing
  cancelled hx := by
    obtain hx | hx := (Bool.or_eq_true _ _).mp hx
    · exact h.cancelled hx
    · obtain ⟨hsubmit, herr⟩ := (Bool.and_eq_true _ _).mp hx
      exact hok (Bool.not_eq_true' _ ▸ hsubmit) (of_decide_eq_true herr)
  call c hc := by cases hc

theorem Inv.frame (h : Inv s) (hrun : s'.halted = false) (hlinked : Linked s')
    (hitem : ∀ d, s'.delayed d = s.delayed d ∧ (Free s d → Free s' d) ∨
      Item (s'.delayed d) (Free s' d)) : Inv s' where
  running := hrun
  linked := hlinked
  item d := by
    obtain ⟨hsame, hfree⟩ | hitem := hitem d
    · rw [hsame]
      exact (h.item d).mono hfree
    · exact hitem

theorem inv_init : Inv (init : System Plain Delayed) where
  running := rfl
  linked := ⟨fun _ d hd ↦ (List.not_mem_nil hd).elim, fun _ _ ↦ Nat.zero_le 1,
    fun _ _ work hw ↦ (List.not_mem_nil hw).elim⟩
  item d :=
    { armed := fun h ↦ by cases h
      begun := fun h ↦ by cases h
      object := rfl
      away := fun _ ↦ ⟨rfl, rfl⟩
      missing := rfl
      cancelled := fun h ↦ by cases h
      call := fun c hc ↦ by cases hc }

theorem Inv.setDelayed (h : Inv s) (hx : Item x (Free s d)) : Inv (s.setDelayed d x) := by
  refine h.frame h.running ⟨h.linked.pending, h.linked.once, h.linked.single⟩ fun e ↦ ?_
  obtain rfl | hne := eq_or_ne e d
  · rw [setDelayed_self]
    exact .inr hx
  · exact .inl ⟨setDelayed_of_ne hne x, id⟩

theorem free_unlink (work : Work Plain Delayed) (h : Free s d) : Free (unlink work s) d := h

omit [DecidableEq Plain] [DecidableEq Delayed] in
theorem free_link (q : ℕ) (work : Work Plain Delayed) (h : Free s d) : Free (link q work s) d := by
  refine ⟨h.1, fun i ↦ ?_⟩
  obtain rfl | hne := eq_or_ne i q
  · simpa only [link, setQueue_self] using h.2 i
  · simpa only [link, setQueue_of_ne hne] using h.2 i

theorem free_setPending (hne : .delayed d ≠ work) (b : Bool) (h : Free s d) :
    Free (s.setPending work b) d :=
  ⟨(setPending_of_ne hne b).trans h.1, h.2⟩

theorem free_submitWork (hne : .delayed d ≠ work) (q : ℕ) (h : Free s d) :
    Free (workqueueSubmitWork q work s).2 d := by
  unfold workqueueSubmitWork
  split_ifs
  · exact h
  · exact h
  · exact free_setPending hne true (free_link q work (free_unlink work h))

theorem submitWork_delayed (q : ℕ) (work : Work Plain Delayed) (s : System Plain Delayed) :
    (workqueueSubmitWork q work s).2.delayed = s.delayed := by
  unfold workqueueSubmitWork
  split_ifs <;> rfl

theorem submitWork_halted (q : ℕ) (work : Work Plain Delayed) (s : System Plain Delayed) :
    (workqueueSubmitWork q work s).2.halted = s.halted := by
  unfold workqueueSubmitWork
  split_ifs <;> rfl

theorem Inv.clearPending (h : Inv s) (work : Work Plain Delayed)
    (hout : ∀ i, work ∉ (s.queue i).workList) : Inv (s.setPending work false) := by
  refine h.frame h.running (h.linked.setPending work false (.inr hout))
    fun e ↦ .inl ⟨rfl, fun hfree ↦ ⟨?_, hfree.2⟩⟩
  obtain rfl | hne := eq_or_ne (.delayed e) work
  · exact setPending_self false
  · exact (setPending_of_ne hne false).trans hfree.1

theorem Inv.unlink (h : Inv s) (work : Work Plain Delayed) : Inv (unlink work s) :=
  h.frame h.running (h.linked.unlink work) fun _ ↦ .inl ⟨rfl, id⟩

theorem Inv.setQueue (h : Inv s) {x : RtWorkqueue Plain Delayed}
    (hlist : x.workList.Sublist (s.queue q).workList)
    (hplace : ∀ d, Free s d → x.place ≠ .run (.delayed d)) : Inv (s.setQueue q x) := by
  refine h.frame h.running (h.linked.setQueue hlist) fun e ↦ .inl ⟨rfl, fun hfree ↦
    ⟨hfree.1, fun i ↦ ?_⟩⟩
  obtain rfl | hne := eq_or_ne i q
  · rw [setQueue_self]
    exact hplace e hfree
  · rw [setQueue_of_ne hne]
    exact hfree.2 i

theorem Inv.submitWork (h : Inv s) (q : ℕ) (work : Work Plain Delayed)
    (hwork : ∀ d, work = .delayed d → Item (s.delayed d) False) :
    Inv (workqueueSubmitWork q work s).2 := by
  refine h.frame ((submitWork_halted q work s).trans h.running) (h.linked.submitWork q work)
    fun e ↦ ?_
  rw [submitWork_delayed]
  by_cases hne : .delayed e = work
  · exact .inr ((hwork e hne.symm).mono False.elim)
  · exact .inl ⟨rfl, free_submitWork hne q⟩

theorem submitWork_busy (q : ℕ) (work : Work Plain Delayed) (s : System Plain Delayed)
    (h : (workqueueSubmitWork q work s).1 ≠ .eok) : (workqueueSubmitWork q work s).2 = s := by
  unfold workqueueSubmitWork at h ⊢
  split_ifs at h ⊢
  · rfl
  · rfl
  · exact absurd rfl h

theorem submitWork_setDelayed (q : ℕ) (work : Work Plain Delayed) (s : System Plain Delayed)
    (d : Delayed) (x : RtDelayedWork) : workqueueSubmitWork q work (s.setDelayed d x) =
      ((workqueueSubmitWork q work s).1, (workqueueSubmitWork q work s).2.setDelayed d x) := by
  unfold workqueueSubmitWork
  change (if s.pending work then _ else if (s.queue q).workCurrent = some work then _ else _) = _
  split_ifs <;> rfl

theorem inv_begin (h : Inv s) (submit : Bool) (q : ℕ) (d : Delayed) (ticks : ℕ)
    (hticks : submit = true → ticks < halfTickMax) : Inv (begin submit q d ticks s) := by
  unfold begin
  by_cases hcall : (s.delayed d).call = none
  · rw [if_pos hcall]
    refine h.setDelayed ((h.item d).calls rfl hticks ?_)
    cases submit with
    | true => exact ⟨rfl, rfl⟩
    | false => exact Nat.zero_le 2
  · rw [if_neg hcall]
    exact h

theorem inv_callTurn (h : Inv s) (d : Delayed) (hcareful : Careful s (.call d)) :
    Inv (callTurn d s) := by
  have hitem := h.item d
  unfold callTurn
  dsimp only
  cases hcall : (s.delayed d).call with
  | none => exact h
  | some c =>
    have hc : c ∈ (s.delayed d).call := hcall
    obtain ⟨hnested, hticks, hfits⟩ := hitem.call c hc
    have htest := hcareful c hc
    unfold Call.Fits at hfits
    obtain ⟨submit, queue, ticks, nested, stage, turns⟩ := c
    dsimp only at hnested hticks hfits htest ⊢
    subst hnested
    cases stage <;> dsimp only at hfits ⊢
    case belongs =>
      obtain ⟨rfl, hsubmit⟩ := hfits
      refine h.setDelayed ?_
      split_ifs with hother
      · exact hitem.returns fun hfalse ↦ by simp [hsubmit] at hfalse
      · refine hitem.goTo hc ⟨Nat.le_refl 1, hsubmit, fun hne ↦ ?_⟩
        by_contra hq
        exact hother ⟨hne, hq⟩
    case same =>
      obtain ⟨hturns, hsubmit, hown⟩ := hfits
      refine h.setDelayed ?_
      split_ifs with hq
      · exact hitem.goTo hc (Nat.succ_le_succ hturns)
      · refine hitem.goTo hc ⟨by simp only; omega, hsubmit, ?_⟩
        by_contra hne
        exact hq (hown hne)
    case attached =>
      refine h.setDelayed ?_
      split_ifs with hq
      · exact hitem.returns fun _ herr ↦ by cases herr
      · exact hitem.goTo hc (Nat.succ_le_succ hfits)
    case pending =>
      obtain ⟨hfree, hhandler⟩ := htest rfl
      refine h.setDelayed ?_
      rw [if_neg (Bool.eq_false_iff.mp hfree.1)]
      exact hitem.goTo hc ⟨Nat.succ_le_succ hfits, hfree, hhandler⟩
    case submitting =>
      obtain ⟨hturns, hfree, hhandler⟩ := hfits
      refine h.setDelayed ?_
      split_ifs with hsub
      · exact hitem.goTo hc ⟨Nat.succ_le_succ hturns, hfree, hhandler, hsub⟩
      · exact hitem.goTo hc ⟨by simp only; omega, hfree, hhandler, Bool.eq_false_iff.mpr hsub⟩
    case stop =>
      obtain ⟨hturns, hfree, hhandler, hsub⟩ := hfits
      rw [if_pos (hitem.object.trans hsub)]
      refine h.setDelayed ((hitem.idle.stopTimer fun hbegin ↦ ?_).calls rfl hticks
        ⟨Nat.succ_le_succ hturns, hfree, hhandler, rfl⟩)
      simp [hhandler] at hbegin
    case detach =>
      obtain ⟨hturns, hfree, hhandler, hsub⟩ := hfits
      have haway := hitem.detach hsub hhandler hfree
      refine Inv.clearPending ?_ (.delayed d) (h.linked.not_linked hfree.1)
      rw [if_neg (by simp)]
      refine h.setDelayed ?_
      split_ifs with hsubmit
      · exact haway.calls rfl hticks ⟨Nat.succ_le_succ hturns, hsubmit, rfl⟩
      · exact haway.returns fun _ _ ↦ ⟨rfl, hfree⟩
    case attach =>
      obtain ⟨hturns, hsubmit, haway⟩ := hfits
      obtain ⟨hsub, hhandler⟩ := hitem.away haway
      refine h.setDelayed ((hitem.attach queue).calls rfl hticks ?_)
      by_cases hzero : ticks = 0
      · rw [if_pos hzero]
        exact ⟨Nat.succ_le_succ hturns, hsubmit, Option.some_ne_none queue⟩
      · rw [if_neg hzero]
        exact ⟨Nat.succ_le_succ hturns, hsubmit, Option.some_ne_none queue, hhandler, hsub⟩
    case put =>
      obtain ⟨hturns, hsubmit, hqueue⟩ := hfits
      have hidle : Item ((s.delayed d).returns ⟨submit, queue, ticks, 0, .put, turns⟩ .eok)
          (Free s d) := hitem.returns fun hfalse ↦ by simp [hsubmit] at hfalse
      refine (h.setDelayed hidle).submitWork queue (.delayed d) fun e he ↦ ?_
      obtain rfl := Work.delayed.inj he
      rw [setDelayed_self]
      refine hidle.unfree ?_ fun c' hc' ↦ by cases hc'
      by_contra htrue
      exact hqueue (hidle.cancelled (Bool.not_eq_false _ ▸ htrue)).1
    case arm =>
      obtain ⟨hturns, hsubmit, hqueue, hhandler, hsub⟩ := hfits
      rw [if_neg (Bool.eq_false_iff.mp (hitem.object.trans hsub))]
      refine h.setDelayed ((hitem.arm hqueue).calls rfl hticks
        ⟨Nat.succ_le_succ hturns, hsubmit, hqueue, hhandler, rfl, ?_⟩)
      by_contra htimer
      rw [hitem.armed (Bool.not_eq_false _ ▸ htimer)] at hsub
      cases hsub
    case start =>
      obtain ⟨hturns, hsubmit, hqueue, hhandler, hsub, htimer⟩ := hfits
      rw [if_pos (hticks hsubmit)]
      exact h.setDelayed ((hitem.start hsub).returns fun hfalse ↦ by simp [hsubmit] at hfalse)

theorem inv_submit (h : Inv s) (q : ℕ) (work : Work Plain Delayed) (ticks : ℕ)
    (hcareful : Careful s (.submit q work ticks)) : Inv (rtWorkqueueSubmitWork q work ticks s) := by
  cases work with
  | plain p => exact h.submitWork q (.plain p) fun d hd ↦ by cases hd
  | delayed d =>
    exact inv_begin h true q d ticks fun _ ↦ hcareful

theorem inv_cancel (h : Inv s) (q : ℕ) (work : Work Plain Delayed) :
    Inv (rtWorkqueueCancelWork q work s) := by
  cases work with
  | plain p =>
    unfold rtWorkqueueCancelWork workqueueCancelWork
    dsimp only
    split_ifs
    · exact h
    · exact (h.unlink (.plain p)).clearPending (.plain p) (h.linked.not_mem_unlink (.plain p))
  | delayed d =>
    exact inv_begin h false q d 0 fun hfalse ↦ by cases hfalse

theorem inv_dowork (h : Inv s) (q : ℕ) (work : Work Plain Delayed)
    (hcareful : Careful s (.dowork q work)) : Inv (rtWorkqueueDowork q work s) := by
  cases work with
  | plain p => exact h.submitWork q (.plain p) fun d hd ↦ by cases hd
  | delayed d =>
    have hclear := (h.item d).resubmitted
    have hput := (h.setDelayed hclear).submitWork q (.delayed d) fun e he ↦ by
      obtain rfl := Work.delayed.inj he
      rw [setDelayed_self]
      exact hclear.unfree rfl hcareful
    rw [submitWork_setDelayed] at hput
    have hsame := submitWork_delayed q (.delayed d) s
    have hbusy := submitWork_busy q (.delayed d) s
    unfold rtWorkqueueDowork
    cases hres : workqueueSubmitWork q (.delayed d) s with
    | mk err s' =>
      rw [hres] at hput hsame hbusy
      cases err with
      | eok =>
        dsimp only at hput hsame ⊢
        rwa [hsame]
      | ebusy =>
        obtain rfl := hbusy (by simp)
        exact h
      | einval =>
        obtain rfl := hbusy (by simp)
        exact h

theorem inv_critical (h : Inv s) (q : ℕ) (work : Work Plain Delayed)
    (hcareful : Careful s (.critical q work)) : Inv (rtWorkqueueCriticalWork q work s).2 := by
  unfold rtWorkqueueCriticalWork
  split_ifs
  · exact h
  · have hlinked := (h.linked.unlink work).link (h.linked.not_mem_unlink work)
      (fun d hd ↦ by subst hd; exact hcareful) q
    exact (h.unlink work).frame h.running hlinked fun e ↦ .inl ⟨rfl, free_link q work⟩

theorem inv_expire (h : Inv s) (d : Delayed) (hcareful : Careful s (.expire d)) :
    Inv (expire d s) := by
  unfold expire
  split_ifs with hdue
  · exact h.setDelayed ((h.item d).expire hdue.1 (hcareful hdue.1))
  · exact h

theorem inv_handler (h : Inv s) (d : Delayed) : Inv (delayedWorkTimeoutHandler d s) := by
  have hitem := h.item d
  unfold delayedWorkTimeoutHandler
  dsimp only
  split
  · exact h
  · rename_i hhandler
    rw [if_pos (hitem.object.trans (hitem.begun hhandler))]
    exact h.setDelayed (hitem.handle hhandler)
  · rename_i hhandler
    have hsome : (s.delayed d).handler ≠ none := by simp [hhandler]
    split
    · rename_i hq
      exact absurd hq (hitem.queue_of_handling hsome)
    · rename_i q hq
      refine (h.setDelayed (hitem.handled hsome)).submitWork q (.delayed d) fun e he ↦ ?_
      obtain rfl := Work.delayed.inj he
      rw [setDelayed_self]
      exact hitem.handled hsome

theorem inv_thread (h : Inv s) (q : ℕ) : Inv (threadStep q s) := by
  have hsame := List.Sublist.refl (s.queue q).workList
  unfold threadStep
  dsimp only
  cases hplace : (s.queue q).place with
  | test =>
    refine h.setQueue hsame fun d _ heq ↦ ?_
    dsimp only at heq
    split_ifs at heq
  | suspend => exact h.setQueue hsame fun d _ heq ↦ by cases heq
  | schedule =>
    dsimp only
    split_ifs
    · exact h
    · exact h.setQueue hsame fun d _ heq ↦ by cases heq
  | dequeue =>
    cases hlist : (s.queue q).workList with
    | nil => exact h.setQueue (List.nil_sublist _) fun d _ heq ↦ by cases heq
    | cons work rest =>
      have hrest : rest.Sublist (s.queue q).workList := by
        rw [hlist]
        exact List.sublist_cons_self work rest
      have hmem : work ∈ (s.queue q).workList := hlist ▸ List.mem_cons_self
      refine (h.setQueue (x := { s.queue q with
        workList := rest, workCurrent := some work, place := .run work }) hrest ?_).clearPending
        work fun i hi ↦ ?_
      · rintro d hfree heq
        obtain rfl := Place.run.inj heq
        exact h.linked.not_linked hfree.1 q hmem
      · obtain rfl | hne := eq_or_ne i q
        · rw [setQueue_self] at hi
          have honce := h.linked.once i work
          have hpos : 0 < rest.count work := List.count_pos_iff.mpr hi
          rw [hlist, List.count_cons_self] at honce
          omega
        · rw [setQueue_of_ne hne] at hi
          exact hne (h.linked.single i q work hi hmem)
  | run work => exact h.setQueue hsame fun d _ heq ↦ by cases heq
  | clean => exact h.setQueue hsame fun d _ heq ↦ by cases heq
  | stray => exact h

theorem inv_step (h : Inv s) (e : Event Plain Delayed) (hcareful : Careful s e) :
    Inv (step s e) := by
  unfold step
  rw [if_neg (Bool.eq_false_iff.mp h.running)]
  cases e with
  | submit q work ticks => exact inv_submit h q work ticks hcareful
  | dowork q work => exact inv_dowork h q work hcareful
  | cancel q work => exact inv_cancel h q work
  | call d => exact inv_callTurn h d hcareful
  | critical q work => exact inv_critical h q work hcareful
  | cancelAll work => exact h.unlink work
  | resume q => exact h.setQueue (List.Sublist.refl _) fun d hfree ↦ hfree.2 q
  | expire d => exact inv_expire h d hcareful
  | handler d => exact inv_handler h d
  | thread q => exact inv_thread h q

theorem Call.Fits.turns (h : c.Fits x free) : c.turns < 10 := by
  unfold Call.Fits at h
  cases hstage : c.stage <;> rw [hstage] at h <;> simp only at h <;> omega

theorem kept_step (h : Inv s) (e : Event Plain Delayed) (hcareful : Careful s e) : Kept s e := by
  have hstep := inv_step h e hcareful
  refine ⟨hstep.running, fun d c hc ↦ ((hstep.item d).call c hc).2.2.turns,
    fun d ↦ (hstep.item d).missing, ?_⟩
  rintro q d - hrun
  by_contra hcancelled
  exact ((h.item d).cancelled (Bool.not_eq_false _ ▸ hcancelled)).2.2 q hrun

/-- The call tests for ever whether the pending item is pending. -/
def Recurring (s : System Plain Delayed) (d : Delayed) : Prop :=
  s.pending (.delayed d) = true ∧ (s.delayed d).workqueue ≠ none ∧
    ∃ c, (s.delayed d).call = some c ∧ (c.stage = .attached ∨ c.stage = .pending)

omit [DecidableEq Plain] in
theorem Recurring.goTo (hpending : s.pending (.delayed d) = true)
    (hqueue : (s.delayed d).workqueue ≠ none) {stage : Stage}
    (hstage : stage = .attached ∨ stage = .pending) (c : Call) :
    Recurring (s.setDelayed d ((s.delayed d).goTo c stage)) d := by
  refine ⟨hpending, ?_, { c with stage := stage, turns := c.turns + 1 }, ?_, hstage⟩
  · rwa [setDelayed_self]
  · rw [setDelayed_self]
    rfl

end GiantGecko.Drivers.DelayedWork
