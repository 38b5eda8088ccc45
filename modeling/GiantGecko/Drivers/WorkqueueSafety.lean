import GiantGecko.Drivers.Workqueue
import Mathlib.Data.List.Perm.Basic
import Mathlib.Data.List.Nodup

namespace GiantGecko.Drivers.WorkqueueSafety

open Workqueue Foundation.Transition

variable {Work : Type} {q : RtWorkqueue Work} {work : Work}

def inHand (q : RtWorkqueue Work) : List Work :=
  match q.place with
  | .run work => [work]
  | _ => []

/-- The thread has taken no item off an empty list, the flags say what is
linked, each accepted submission is executed, cancelled or still there, once,
and no item waits for a suspended thread that nobody is about to resume. -/
structure Safe (q : RtWorkqueue Work) : Prop where
  linked : q.place ≠ .stray
  pending : ∀ work, q.pending work = true ↔ work ∈ q.workList
  accounted : q.accepted.Perm (q.executed ++ inHand q ++ (q.cancelled ++ q.workList))
  awake : q.workList ≠ [] → q.suspended = true → q.workCurrent = none → 0 < q.resuming
  settled : q.suspended = true → q.workList = [] ∨ q.resuming = 0 →
    q.accepted.Perm (q.executed ++ q.cancelled)

/-- The thread will take an item without another look at the list. -/
def Committed (q : RtWorkqueue Work) : Prop :=
  q.place = .dequeue ∨ q.place = .schedule ∧ q.suspended = false

/-- No call of `rt_thread_resume` falls between the test for an empty list and
the suspension, unless there is nothing to do or another call comes, or wakes
the thread for an empty list; no cancel takes the last item from a thread that
will not look again; only a linked item is made critical; and all work is
cancelled only where there is none. -/
def Orderly (q : RtWorkqueue Work) : Event Work → Prop
  | .resume =>
    (q.place = .suspend → q.workList ≠ [] → 1 < q.resuming) ∧
    (q.suspended = true → 0 < q.resuming → q.workList ≠ [])
  | .cancel work => Committed q → q.workList ≠ [work]
  | .critical work => work ∈ q.workList ∨ q.workCurrent = some work
  | .cancelAll => q.workList = []
  | _ => True

def busy : Place Work → Bool
  | .run _ => true
  | .clean => true
  | _ => false

structure Inv (q : RtWorkqueue Work) : Prop where
  linked : q.place ≠ .stray
  pending : ∀ work, q.pending work = true ↔ work ∈ q.workList
  nodup : q.workList.Nodup
  accounted : q.accepted.Perm (q.executed ++ inHand q ++ (q.cancelled ++ q.workList))
  current : q.workCurrent.isSome = busy q.place
  absent : ∀ work, q.workCurrent = some work → work ∉ q.workList
  committed : Committed q → q.workList ≠ []
  asleep : q.suspended = true → q.place = .schedule
  called : q.place = .suspend ∨ q.suspended = true → q.workList ≠ [] → 0 < q.resuming
  node : q.node = none ∨ q.node = some none

theorem inv_create : Inv (rtWorkqueueCreate : RtWorkqueue Work) where
  linked := by simp [rtWorkqueueCreate]
  pending := by simp [rtWorkqueueCreate]
  nodup := List.nodup_nil
  accounted := by simp [rtWorkqueueCreate, inHand]
  current := rfl
  absent := by simp [rtWorkqueueCreate]
  committed := by simp [rtWorkqueueCreate, Committed]
  asleep := by simp [rtWorkqueueCreate]
  called := by simp [rtWorkqueueCreate]
  node := .inl rfl

theorem Inv.safe (h : Inv q) : Safe q where
  linked := h.linked
  pending := h.pending
  accounted := h.accounted
  awake := fun hne hsus _ ↦ h.called (.inr hsus) hne
  settled := by
    intro hsus hdone
    have hnil : q.workList = [] := by
      by_contra hne
      have hcall := h.called (.inr hsus) hne
      exact absurd (hdone.resolve_left hne) (Nat.ne_of_gt hcall)
    have hnone : inHand q = [] := by simp [inHand, h.asleep hsus]
    simpa [hnil, hnone] using h.accounted

theorem idle_current (h : Inv q) (hbusy : busy q.place = false) : q.workCurrent = none := by
  have hcurrent := h.current
  rw [hbusy] at hcurrent
  simpa using hcurrent

theorem inv_resume (h : Inv q) (hord : Orderly q .resume) : Inv (resume q) := by
  rw [resume]
  split_ifs with hzero
  · exact h
  · refine ⟨h.linked, h.pending, h.nodup, h.accounted, h.current, h.absent, ?_, ?_, ?_, h.node⟩
    · rintro (hdequeue | ⟨hschedule, -⟩)
      · exact h.committed (.inl hdequeue)
      · obtain hsus | hready := Bool.eq_false_or_eq_true q.suspended
        · exact hord.2 hsus (Nat.pos_of_ne_zero hzero)
        · exact h.committed (.inr ⟨hschedule, hready⟩)
    · intro hsus
      exact absurd hsus Bool.false_ne_true
    · rintro (hsuspend | hsus) hne
      · have hmore := hord.1 hsuspend hne
        show 0 < q.resuming - 1
        omega
      · exact absurd hsus Bool.false_ne_true

theorem inv_cancelAll (h : Inv q) (hord : Orderly q .cancelAll) : Inv (cancelAllBegin q) := by
  rw [cancelAllBegin]
  split_ifs
  · have hhead : q.workList.head? = none := by
      rw [show q.workList = [] from hord, List.head?_nil]
    exact ⟨h.linked, h.pending, h.nodup, h.accounted, h.current, h.absent, h.committed, h.asleep,
      h.called, .inr (congrArg some hhead)⟩
  · exact h

theorem Inv.goOn (h : Inv q) (hready : q.suspended = false) {place : Place Work}
    (hplace : place ≠ .stray) (hhand : inHand { q with place } = inHand q)
    (hbusy : busy place = busy q.place) (hcommitted : Committed { q with place } → q.workList ≠ [])
    (hcalled : place = .suspend → q.workList ≠ [] → 0 < q.resuming) : Inv { q with place } := by
  refine ⟨hplace, h.pending, h.nodup, ?_, h.current.trans hbusy.symm, h.absent, hcommitted, ?_, ?_,
    h.node⟩
  · rw [hhand]
    exact h.accounted
  · intro hsus
    exact absurd (hready.symm.trans hsus) Bool.false_ne_true
  · rintro (hsuspend | hsus) hne
    · exact hcalled hsuspend hne
    · exact absurd (hready.symm.trans hsus) Bool.false_ne_true

variable [DecidableEq Work]

theorem inv_requeue (h : Inv q) (hcurrent : q.workCurrent ≠ some work) {accepted : List Work}
    (haccepted : accepted.Perm
      (q.executed ++ inHand q ++ (q.cancelled ++ (q.workList.erase work ++ [work])))) :
    Inv (wake { requeue q work with
      pending := Function.update q.pending work true
      accepted := accepted }) := by
  have hne : q.workList.erase work ++ [work] ≠ [] := by simp
  have hpending (w : Work) : Function.update q.pending work true w = true ↔
      w ∈ q.workList.erase work ++ [work] := by
    by_cases hw : w = work
    · simp [hw]
    · simp [hw, h.pending w, List.mem_erase_of_ne]
  have hnodup : (q.workList.erase work ++ [work]).Nodup := by
    refine List.nodup_append.mpr ⟨h.nodup.erase work, List.nodup_singleton work, ?_⟩
    intro a ha b hb hab
    rw [List.mem_singleton.mp hb] at hab
    exact (h.nodup.mem_erase_iff.mp ha).1 hab
  have habsent (w : Work) (hw : q.workCurrent = some w) :
      w ∉ q.workList.erase work ++ [work] := by
    intro hmem
    obtain hold | hnew := List.mem_append.mp hmem
    · exact h.absent w hw (List.mem_of_mem_erase hold)
    · exact hcurrent (List.mem_singleton.mp hnew ▸ hw)
  rw [wake]
  split_ifs with hnone
  · exact ⟨h.linked, hpending, hnodup, haccepted, h.current, habsent, fun _ ↦ hne, h.asleep,
      fun _ _ ↦ Nat.succ_pos _, h.node⟩
  · refine ⟨h.linked, hpending, hnodup, haccepted, h.current, habsent, fun _ ↦ hne, h.asleep,
      ?_, h.node⟩
    intro hplace
    have hbusy : busy q.place = false := by
      obtain hsuspend | hsus := hplace
      · exact congrArg busy hsuspend
      · exact congrArg busy (h.asleep hsus)
    exact absurd (idle_current h hbusy) hnone

theorem inv_submit (h : Inv q) (work : Work) : Inv (submitWork work q).2 := by
  rw [submitWork]
  split_ifs with hpending hcurrent
  · exact h
  · exact h
  · have hout : work ∉ q.workList := mt (h.pending work).mpr hpending
    have haccepted : (q.accepted ++ [work]).Perm
        (q.executed ++ inHand q ++ (q.cancelled ++ (q.workList.erase work ++ [work]))) := by
      rw [List.erase_of_not_mem hout, ← List.append_assoc, ← List.append_assoc]
      refine List.Perm.append_right [work] ?_
      rw [List.append_assoc]
      exact h.accounted
    exact inv_requeue h hcurrent haccepted

theorem inv_critical (h : Inv q) (hwork : work ∈ q.workList ∨ q.workCurrent = some work) :
    Inv (criticalWork work q).2 := by
  rw [criticalWork]
  split_ifs with hcurrent hmem
  · exact h
  · have hflag : q.pending = Function.update q.pending work true :=
      (Function.update_eq_self_iff.mpr ((h.pending work).mpr hmem).symm).symm
    have hrotate : q.workList.Perm (q.workList.erase work ++ [work]) :=
      (List.perm_cons_erase hmem).trans (List.perm_append_singleton work _).symm
    have hinv := inv_requeue h hcurrent
      (h.accounted.trans ((hrotate.append_left q.cancelled).append_left _))
    rw [← hflag] at hinv
    exact hinv
  · exact absurd (hwork.resolve_right hcurrent) hmem

theorem inv_cancel (h : Inv q) (hord : Orderly q (.cancel work)) :
    Inv (cancelWork work q).2 := by
  rw [cancelWork, unlink]
  split_ifs with hcurrent hmem
  · exact h
  · have hpending (w : Work) : Function.update q.pending work false w = true ↔
        w ∈ q.workList.erase work := by
      rw [h.nodup.mem_erase_iff]
      by_cases hw : w = work
      · simp [hw]
      · simp [hw, h.pending w]
    have haccounted : q.accepted.Perm
        (q.executed ++ inHand q ++ (q.cancelled ++ [work] ++ q.workList.erase work)) := by
      refine h.accounted.trans (List.Perm.append_left _ ?_)
      rw [List.append_assoc]
      exact List.Perm.append_left _ (List.perm_cons_erase hmem)
    refine ⟨h.linked, hpending, h.nodup.erase work, haccounted, h.current, ?_, ?_, h.asleep, ?_,
      h.node⟩
    · exact fun w hw hin ↦ h.absent w hw (List.mem_of_mem_erase hin)
    · intro hcommitted hnil
      apply hord hcommitted
      have hperm := List.perm_cons_erase hmem
      rw [show q.workList.erase work = [] from hnil] at hperm
      exact List.perm_singleton.mp hperm
    · intro hplace hne
      exact h.called hplace fun hnil ↦ hne (by simp [hnil])
  · have hflag : Function.update q.pending work false = q.pending := by
      refine Function.update_eq_self_iff.mpr ?_
      simpa using mt (h.pending work).mp hmem
    show Inv { q with pending := Function.update q.pending work false }
    rw [hflag]
    exact h

theorem inv_cancelAllTurn (h : Inv q) : Inv (cancelAllTurn q) := by
  obtain hnode | hnode := h.node
  · rw [cancelAllTurn, hnode]
    exact h
  · rw [cancelAllTurn, hnode]
    exact ⟨h.linked, h.pending, h.nodup, h.accounted, h.current, h.absent, h.committed, h.asleep,
      h.called, .inl rfl⟩

theorem inv_thread (h : Inv q) : Inv (threadStep q) := by
  have hinv := h
  obtain ⟨hlinked, hpending, hnodup, haccounted, hcurrent, habsent, hcommitted, hasleep, hcalled,
    hnode⟩ := h
  have hawake (hplace : q.place ≠ .schedule) : q.suspended = false := by
    by_contra hsus
    exact hplace (hasleep (by simpa using hsus))
  cases hplace : q.place with
  | test =>
    have hready := hawake (by simp [hplace])
    have hhand : inHand q = [] := by simp [inHand, hplace]
    have hbusy : false = busy q.place := by rw [hplace]; rfl
    simp only [threadStep, hplace]
    split_ifs with hnil
    · exact hinv.goOn hready (by simp) hhand.symm hbusy (by simp [Committed])
        fun _ hne ↦ absurd hnil hne
    · exact hinv.goOn hready (by simp) hhand.symm hbusy (fun _ ↦ hnil) (by simp)
  | suspend =>
    have hidle := idle_current hinv (by rw [hplace]; rfl)
    have hhand : inHand q = [] := by simp [inHand, hplace]
    rw [hhand] at haccounted
    simp only [threadStep, hplace]
    refine ⟨by simp, hpending, hnodup, haccounted, by simp [hidle, busy], habsent, ?_,
      fun _ ↦ rfl, fun _ hne ↦ hcalled (.inl hplace) hne, hnode⟩
    simp [Committed]
  | schedule =>
    simp only [threadStep, hplace]
    split_ifs with hsus
    · exact hinv
    · have hready : q.suspended = false := by simpa using hsus
      have hhand : inHand q = [] := by simp [inHand, hplace]
      have hbusy : false = busy q.place := by rw [hplace]; rfl
      exact hinv.goOn hready (by simp) hhand.symm hbusy
        (fun _ ↦ hcommitted (.inr ⟨hplace, hready⟩)) (by simp)
  | dequeue =>
    have hready := hawake (by simp [hplace])
    have hhand : inHand q = [] := by simp [inHand, hplace]
    obtain ⟨work, rest, hlist⟩ := List.exists_cons_of_ne_nil (hcommitted (.inl hplace))
    rw [hlist] at hnodup hpending
    rw [hhand, hlist] at haccounted
    obtain ⟨hout, hnodup⟩ := List.nodup_cons.mp hnodup
    have hpending' (w : Work) :
        Function.update q.pending work false w = true ↔ w ∈ rest := by
      by_cases hw : w = work
      · simp [hw, hout]
      · simp [hw, hpending w]
    have htaken : q.accepted.Perm (q.executed ++ [work] ++ (q.cancelled ++ rest)) := by
      refine haccounted.trans ?_
      rw [List.append_nil, List.append_assoc]
      exact List.Perm.append_left _ List.perm_middle
    simp only [threadStep, hplace, hlist]
    refine ⟨by simp, hpending', hnodup, htaken, rfl, ?_, ?_, ?_, ?_, hnode⟩
    · intro w hw
      rw [← Option.some.inj hw]
      exact hout
    · simp [Committed]
    · simp [hready]
    · simp [hready]
  | run work =>
    have hready := hawake (by simp [hplace])
    have hhand : inHand q = [work] := by simp [inHand, hplace]
    rw [hhand] at haccounted
    rw [hplace] at hcurrent
    simp only [threadStep, hplace]
    refine ⟨by simp, hpending, hnodup, ?_, by simp [hcurrent, busy], habsent, ?_, ?_, ?_, hnode⟩
    · simpa [inHand] using haccounted
    · simp [Committed]
    · simp [hready]
    · simp [hready]
  | clean =>
    have hready := hawake (by simp [hplace])
    have hhand : inHand q = [] := by simp [inHand, hplace]
    rw [hhand] at haccounted
    simp only [threadStep, hplace]
    refine ⟨by simp, hpending, hnodup, haccounted, rfl, by simp, ?_, ?_, ?_, hnode⟩
    · simp [Committed]
    · simp [hready]
    · simp [hready]
  | stray => exact absurd hplace hlinked

theorem inv_step (q : RtWorkqueue Work) (e : Event Work) (h : Inv q) (hord : Orderly q e) :
    Inv (step q e) := by
  cases e with
  | submit work => exact inv_submit h work
  | critical work => exact inv_critical h hord
  | cancel work => exact inv_cancel h hord
  | cancelAll => exact inv_cancelAll h hord
  | cancelAllTurn => exact inv_cancelAllTurn h
  | resume => exact inv_resume h hord
  | thread =>
    rw [step]
    split_ifs
    · exact inv_thread h
    · exact h

/-- What is left to do once no more calls are made. -/
def Active (q : RtWorkqueue Work) : Event Work → Prop
  | .resume => 0 < q.resuming
  | .cancelAllTurn => q.node ≠ none
  | .thread => q.node = none ∧ q.suspended = false
  | _ => False

def rank : Place Work → ℕ
  | .run _ => 6
  | .clean => 5
  | .test => 4
  | .suspend => 3
  | .schedule => 2
  | .dequeue => 1
  | .stray => 0

def variant (q : RtWorkqueue Work) : ℕ :=
  10 * q.workList.length + q.resuming + rank q.place + q.node.toList.length

theorem variant_step {e : Event Work} (h : Inv q) (hact : Active q e) :
    variant (step q e) < variant q := by
  cases e with
  | submit work => cases hact
  | critical work => cases hact
  | cancel work => cases hact
  | cancelAll => cases hact
  | cancelAllTurn =>
    have hnode := h.node.resolve_left hact
    simp only [step, cancelAllTurn, hnode, variant, Option.toList_none, Option.toList_some,
      List.length_nil, List.length_singleton]
    omega
  | resume =>
    have hpos : 0 < q.resuming := hact
    simp only [step, resume, variant]
    split_ifs with hzero
    · omega
    · dsimp only
      omega
  | thread =>
    obtain ⟨hnode, hready⟩ := hact
    simp only [step, hnode, if_true, variant]
    cases hplace : q.place with
    | test =>
      simp only [threadStep, hplace]
      split_ifs <;> simp [rank, hnode]
    | schedule => simp [threadStep, hplace, hready, rank, hnode]
    | dequeue =>
      obtain ⟨work, rest, hlist⟩ := List.exists_cons_of_ne_nil (h.committed (.inl hplace))
      simp only [threadStep, hplace, hlist, rank, List.length_cons, hnode]
      omega
    | stray => exact absurd hplace h.linked
    | _ => simp [threadStep, hplace, rank, hnode]

theorem drains (h : Inv q) {fs : List (Event Work)}
    (hfs : Along step (fun q e ↦ Orderly q e ∧ Active q e) q fs) : fs.length ≤ variant q := by
  induction fs generalizing q with
  | nil => exact Nat.zero_le _
  | cons e fs ih =>
    have hlt := variant_step h hfs.1.2
    have hle := ih (inv_step q e h hfs.1.1) hfs.2
    rw [List.length_cons]
    omega

/-- After any run the queue is safe, and what is left to do ends. -/
theorem safe_run {es : List (Event Work)} (hes : Along step Orderly rtWorkqueueCreate es) :
    let q := es.foldl step rtWorkqueueCreate
    Safe q ∧ ∀ fs, Along step (fun q e ↦ Orderly q e ∧ Active q e) q fs →
      fs.length ≤ variant q := by
  have hinv := run_invariant inv_step inv_create hes
  exact ⟨hinv.safe, fun _ hfs ↦ drains hinv hfs⟩

def orderlyRun : List (Event ℕ) :=
  [.thread, .thread, .submit 0, .submit 1, .resume, .thread, .thread, .submit 0, .cancel 1,
    .resume, .thread, .thread]

theorem safe_orderlyRun :
    Safe (orderlyRun.foldl step (rtWorkqueueCreate : RtWorkqueue ℕ)) := by
  refine (safe_run ?_).1
  simp only [orderlyRun, along_cons, along_nil, and_true, Orderly, Committed]
  decide

/-- The call to resume the thread comes before its suspension. -/
def lostWakeUp : List (Event ℕ) := [.thread, .submit 0, .resume, .thread]

def lateWakeUp : List (Event ℕ) :=
  [.submit 0, .thread, .thread, .thread, .thread, .thread, .thread, .resume, .thread, .thread]

def emptied : List (Event ℕ) :=
  [.thread, .thread, .submit 0, .resume, .cancel 0, .thread, .thread]

theorem not_safe :
    ¬ Safe (lostWakeUp.foldl step rtWorkqueueCreate) ∧
    ¬ Safe (lateWakeUp.foldl step rtWorkqueueCreate) ∧
    ¬ Safe (emptied.foldl step rtWorkqueueCreate) ∧
    ¬ Safe (step (rtWorkqueueCreate : RtWorkqueue ℕ) (.critical 0)) ∧
    ¬ Safe ([Event.submit 0, .cancelAll, .cancelAllTurn].foldl step
      (rtWorkqueueCreate : RtWorkqueue ℕ)) := by
  refine ⟨?_, ?_, ?_, ?_, ?_⟩
  · intro h
    exact absurd (h.awake (by decide) (by decide) (by decide)) (by decide)
  · intro h
    exact absurd h.linked (by decide)
  · intro h
    exact absurd h.linked (by decide)
  · intro h
    exact absurd (h.pending 0) (by decide)
  · intro h
    exact absurd (h.pending 0) (by decide)

end GiantGecko.Drivers.WorkqueueSafety
