import GiantGecko.Rtos.Scheduler

namespace GiantGecko.Rtos.Waiting

open Foundation.Intrusive
open Scheduler (Err IpcFlag timed waitersWith waitersWith_perm)

/-- What the kernel's calls use of a thread: its error, whether it is suspended, whether
its timer is active, and the call that it has not come back from since it was
suspended. -/
structure Waiter (Call : Type) where
  error : Err
  suspended : Bool
  timer : Bool
  call : Option Call

/-- The threads, and the lists on which they wait. A thread that is not suspended goes
on at any time: which of them does is left to the scheduler. -/
structure Threads (ι Call : Type) where
  queue : ι → List ℕ
  thread : ℕ → Waiter Call

/-- A call that takes something has come back with a result, or waits. `granted` is not
in the source: whether it has got what it takes. -/
structure Taken (σ ι Call : Type) where
  result : Option Err
  granted : Bool
  object : σ
  threads : Threads ι Call

/-- `given` is not in the source: to whom that went which has been released, if to
anybody. -/
structure Released (σ ι Call : Type) where
  result : Err
  given : Option ℕ
  object : σ
  threads : Threads ι Call

variable {ι Call : Type} {x : Threads ι Call} {w : Waiter Call} {t u : ℕ} {h : ι} {c : Call}

def noneWaits : Threads ι Call := ⟨fun _ ↦ [], fun _ ↦ ⟨.eok, false, false, none⟩⟩

def Threads.set (t : ℕ) (w : Waiter Call) (x : Threads ι Call) : Threads ι Call :=
  { x with thread := Function.update x.thread t w }

def setError (t : ℕ) (e : Err) (x : Threads ι Call) : Threads ι Call :=
  x.set t { x.thread t with error := e }

def setCall (t : ℕ) (call : Option Call) (x : Threads ι Call) : Threads ι Call :=
  x.set t { x.thread t with call := call }

def callable (caller : Option ℕ) (x : Threads ι Call) : Bool :=
  match caller with
  | some t => (x.thread t).call.isNone
  | none => true

def rtThreadSuspend (t : ℕ) (x : Threads ι Call) : Threads ι Call :=
  if (x.thread t).suspended then x
  else x.set t { x.thread t with suspended := true, timer := false }

def rtThreadResume (t : ℕ) (x : Threads ι Call) : Threads ι Call :=
  if (x.thread t).suspended then
    ⟨unlink t x.queue,
      Function.update x.thread t { x.thread t with suspended := false, timer := false }⟩
  else x

def rtThreadTimeout (t : ℕ) (x : Threads ι Call) : Threads ι Call :=
  ⟨unlink t x.queue,
    Function.update x.thread t
      { x.thread t with error := .etimeout, suspended := false, timer := false }⟩

def timerEnds (t : ℕ) (x : Threads ι Call) : Threads ι Call :=
  if (x.thread t).timer then rtThreadTimeout t x else x

def rtIpcListResume (h : ι) (x : Threads ι Call) : Threads ι Call :=
  match x.queue h with
  | [] => x
  | t :: _ => rtThreadResume t x

def rtIpcListResumeAll (h : ι) (x : Threads ι Call) : Threads ι Call :=
  (x.queue h).foldl (fun x t ↦ rtThreadResume t (setError t .error x)) x

def startThreadTimer (t : ℕ) (time : BitVec 32) (x : Threads ι Call) : Threads ι Call :=
  if timed time then x.set t { x.thread t with timer := true } else x

def suspendSelf (t : ℕ) (c : Call) (x : Threads ι Call) : Threads ι Call :=
  setCall t (some c) (rtThreadSuspend t x)

def rtThreadSleep (t : ℕ) (c : Call) (x : Threads ι Call) : Threads ι Call :=
  let x := suspendSelf t c x
  x.set t { x.thread t with timer := true }

section Lists

variable [DecidableEq ι]

def rtIpcListSuspend (h : ι) (flag : IpcFlag) (priority : ℕ → ℕ) (t : ℕ) (x : Threads ι Call) :
    Threads ι Call :=
  let x := rtThreadSuspend t x
  { x with queue := Function.update x.queue h (waitersWith flag priority t (x.queue h)) }

def waitOn (h : ι) (flag : IpcFlag) (priority : ℕ → ℕ) (t : ℕ) (time : BitVec 32) (c : Call)
    (x : Threads ι Call) : Threads ι Call :=
  setCall t (some c) (startThreadTimer t time (rtIpcListSuspend h flag priority t x))

end Lists

section Fields

variable {e : Err} {call : Option Call}

@[simp] theorem set_queue : (x.set t w).queue = x.queue := rfl

@[simp] theorem set_thread : (x.set t w).thread = Function.update x.thread t w := rfl

@[simp] theorem setError_queue : (setError t e x).queue = x.queue := rfl

@[simp] theorem setCall_queue : (setCall t call x).queue = x.queue := rfl

@[simp] theorem setError_suspended :
    ((setError t e x).thread u).suspended = (x.thread u).suspended := by
  obtain rfl | hne := eq_or_ne u t
  · simp [setError]
  · simp [setError, hne]

@[simp] theorem setCall_suspended :
    ((setCall t call x).thread u).suspended = (x.thread u).suspended := by
  obtain rfl | hne := eq_or_ne u t
  · simp [setCall]
  · simp [setCall, hne]

theorem resume_of_not_suspended (ht : (x.thread t).suspended = false) : rtThreadResume t x = x := by
  rw [rtThreadResume, ht, if_neg Bool.false_ne_true]

theorem resume_of_suspended (ht : (x.thread t).suspended = true) :
    rtThreadResume t x =
      ⟨unlink t x.queue,
        Function.update x.thread t { x.thread t with suspended := false, timer := false }⟩ := by
  rw [rtThreadResume, if_pos ht]

@[simp] theorem rtThreadResume_error :
    ((rtThreadResume t x).thread u).error = (x.thread u).error := by
  rw [rtThreadResume]
  split_ifs
  · obtain rfl | hne := eq_or_ne u t
    · simp
    · simp [hne]
  · rfl

theorem suspended_of_timerEnds (hu : ((timerEnds t x).thread u).suspended = true) :
    (x.thread u).suspended = true := by
  rw [timerEnds] at hu
  split_ifs at hu
  · obtain rfl | hne := eq_or_ne u t
    · simp [rtThreadTimeout] at hu
    · simpa [rtThreadTimeout, hne] using hu
  · exact hu

theorem waitOn_eq [DecidableEq ι] {flag : IpcFlag} {priority : ℕ → ℕ} {time : BitVec 32}
    (ht : (x.thread t).suspended = false) :
    waitOn h flag priority t time c x =
      ⟨Function.update x.queue h (waitersWith flag priority t (x.queue h)),
        Function.update x.thread t
          ⟨(x.thread t).error, true, timed time, some c⟩⟩ := by
  simp only [waitOn, rtIpcListSuspend, rtThreadSuspend, ht, Bool.false_eq_true, if_false,
    startThreadTimer]
  split_ifs with htime
  · simp [setCall, Threads.set, htime]
  · simp [setCall, Threads.set, htime]

end Fields

/-- The lists hold threads that are suspended in a call which waits there, as do all
that are suspended in such a call, and have no error; a timer is active only then. `on`
tells where a call waits, if anywhere. -/
structure Parked (on : Call → Option ι) (x : Threads ι Call) : Prop where
  linked : Linked x.queue
  waiting : ∀ h, ∀ t ∈ x.queue h, (x.thread t).suspended = true ∧ (x.thread t).error = .eok ∧
    ∃ c, (x.thread t).call = some c ∧ on c = some h
  suspended : ∀ t, (x.thread t).suspended = true →
    ∃ c, (x.thread t).call = some c ∧ ∀ h, on c = some h → t ∈ x.queue h
  timer : ∀ t, (x.thread t).timer = true → (x.thread t).suspended = true

variable {on : Call → Option ι}

theorem parked_noneWaits : Parked on (noneWaits : Threads ι Call) where
  linked := ⟨fun _ ↦ List.nodup_nil, fun _ _ _ ht ↦ absurd ht List.not_mem_nil⟩
  waiting _ _ ht := absurd ht List.not_mem_nil
  suspended _ ht := absurd ht Bool.false_ne_true
  timer _ ht := absurd ht Bool.false_ne_true

theorem Parked.not_mem (hx : Parked on x) (ht : (x.thread t).suspended = false) (h : ι) :
    t ∉ x.queue h := by
  intro hmem
  rw [(hx.waiting h t hmem).1] at ht
  exact Bool.noConfusion ht

theorem Parked.idle (hx : Parked on x) (ht : (x.thread t).call = none) :
    (x.thread t).suspended = false := by
  by_contra hsuspended
  obtain ⟨c, hc, -⟩ := hx.suspended t (by simpa using hsuspended)
  rw [ht] at hc
  cases hc

theorem Parked.callable (hx : Parked on x) (ht : callable (some t) x = true) :
    (x.thread t).suspended = false :=
  hx.idle (Option.isNone_iff_eq_none.mp ht)

theorem Parked.set (hx : Parked on x) (ht : (x.thread t).suspended = false)
    (hw : w.suspended = false) (htimer : w.timer = false) : Parked on (x.set t w) := by
  refine ⟨hx.linked, ?_, ?_, ?_⟩
  · intro h u hu
    have hne : u ≠ t := fun heq ↦ hx.not_mem ht h (heq ▸ hu)
    simpa [hne] using hx.waiting h u hu
  · intro u hu
    obtain rfl | hne := eq_or_ne u t
    · simp [hw] at hu
    · simp only [set_thread, Function.update_of_ne hne] at hu ⊢
      exact hx.suspended u hu
  · intro u hu
    obtain rfl | hne := eq_or_ne u t
    · simp [htimer] at hu
    · simp only [set_thread, Function.update_of_ne hne] at hu ⊢
      exact hx.timer u hu

theorem Parked.timer_eq (hx : Parked on x) (ht : (x.thread t).suspended = false) :
    (x.thread t).timer = false := by
  by_contra htimer
  rw [hx.timer t (by simpa using htimer)] at ht
  exact Bool.noConfusion ht

theorem Parked.setError (hx : Parked on x) (ht : (x.thread t).suspended = false) (e : Err) :
    Parked on (setError t e x) :=
  hx.set ht ht (hx.timer_eq ht)

theorem Parked.setCall (hx : Parked on x) (ht : (x.thread t).suspended = false)
    (call : Option Call) : Parked on (setCall t call x) :=
  hx.set ht ht (hx.timer_eq ht)

theorem Parked.leave (hx : Parked on x) (hw : w.suspended = false) (htimer : w.timer = false) :
    Parked on ⟨unlink t x.queue, Function.update x.thread t w⟩ := by
  refine ⟨hx.linked.unlink t, ?_, ?_, ?_⟩
  · intro h u hu
    obtain ⟨hu, hne⟩ := mem_unlink.mp hu
    simpa [hne] using hx.waiting h u hu
  · intro u hu
    obtain rfl | hne := eq_or_ne u t
    · simp [hw] at hu
    · simp only [Function.update_of_ne hne] at hu ⊢
      obtain ⟨c, hc, hon⟩ := hx.suspended u hu
      exact ⟨c, hc, fun h hh ↦ mem_unlink.mpr ⟨hon h hh, hne⟩⟩
  · intro u hu
    obtain rfl | hne := eq_or_ne u t
    · simp [htimer] at hu
    · simp only [Function.update_of_ne hne] at hu ⊢
      exact hx.timer u hu

theorem Parked.asleep (hx : Parked on x) (ht : (x.thread t).suspended = false)
    (hsuspended : w.suspended = true) (hw : w.call = some c) (hc : on c = none) :
    Parked on (x.set t w) := by
  refine ⟨hx.linked, ?_, ?_, ?_⟩
  · intro h u hu
    have hne : u ≠ t := fun heq ↦ hx.not_mem ht h (heq ▸ hu)
    simpa [hne] using hx.waiting h u hu
  · intro u hu
    obtain rfl | hne := eq_or_ne u t
    · exact ⟨c, by simpa using hw, fun h hh ↦ by simp [hc] at hh⟩
    · simp only [set_thread, Function.update_of_ne hne] at hu ⊢
      exact hx.suspended u hu
  · intro u hu
    obtain rfl | hne := eq_or_ne u t
    · simpa using hsuspended
    · simp only [set_thread, Function.update_of_ne hne] at hu ⊢
      exact hx.timer u hu

theorem Parked.suspendSelf (hx : Parked on x) (ht : (x.thread t).suspended = false)
    (hc : on c = none) : Parked on (suspendSelf t c x) := by
  simp only [Waiting.suspendSelf, rtThreadSuspend, ht, Bool.false_eq_true, if_false,
    Waiting.setCall, Threads.set, Function.update_idem, Function.update_self]
  exact hx.asleep ht rfl rfl hc

theorem Parked.sleep (hx : Parked on x) (ht : (x.thread t).suspended = false)
    (hc : on c = none) : Parked on (rtThreadSleep t c x) := by
  simp only [rtThreadSleep, Waiting.suspendSelf, rtThreadSuspend, ht, Bool.false_eq_true, if_false,
    Waiting.setCall, Threads.set, Function.update_idem, Function.update_self]
  exact hx.asleep ht rfl rfl hc

theorem Parked.resume (hx : Parked on x) (t : ℕ) : Parked on (rtThreadResume t x) := by
  rw [rtThreadResume]
  split_ifs
  · exact hx.leave rfl rfl
  · exact hx

theorem Parked.resumeError (hx : Parked on x) (t : ℕ) (e : Err) :
    Parked on (rtThreadResume t (Waiting.setError t e x)) := by
  by_cases ht : (x.thread t).suspended = true
  · rw [resume_of_suspended (by simpa using ht)]
    simp only [Waiting.setError, Threads.set, Function.update_idem]
    exact hx.leave rfl rfl
  · have ht' : (x.thread t).suspended = false := by simpa using ht
    rw [resume_of_not_suspended (by simpa using ht')]
    exact hx.setError ht' e

theorem Parked.listResumeAll (hx : Parked on x) (h : ι) : Parked on (rtIpcListResumeAll h x) := by
  rw [rtIpcListResumeAll]
  generalize x.queue h = l
  induction l generalizing x with
  | nil => exact hx
  | cons t l ih => exact ih (hx.resumeError t .error)

theorem Parked.timeout (hx : Parked on x) (t : ℕ) : Parked on (rtThreadTimeout t x) :=
  hx.leave rfl rfl

theorem Parked.timerEnds (hx : Parked on x) (t : ℕ) : Parked on (timerEnds t x) := by
  rw [Waiting.timerEnds]
  split_ifs
  · exact hx.timeout t
  · exact hx

theorem Parked.listResume (hx : Parked on x) (h : ι) : Parked on (rtIpcListResume h x) := by
  rw [rtIpcListResume]
  split
  · exact hx
  · exact hx.resume _

theorem Parked.listResume_eq (hx : Parked on x) {l : List ℕ} (hl : x.queue h = t :: l) :
    rtIpcListResume h x =
      ⟨unlink t x.queue,
        Function.update x.thread t { x.thread t with suspended := false, timer := false }⟩ := by
  have hmem : t ∈ x.queue h := by
    rw [hl]
    exact List.mem_cons_self
  simp only [rtIpcListResume, hl]
  exact resume_of_suspended (hx.waiting h t hmem).1

theorem Parked.wait [DecidableEq ι] (hx : Parked on x) (ht : (x.thread t).suspended = false)
    (herror : (x.thread t).error = .eok) (hc : on c = some h) {flag : IpcFlag}
    {priority : ℕ → ℕ} {time : BitVec 32} : Parked on (waitOn h flag priority t time c x) := by
  have hperm : (waitersWith flag priority t (x.queue h)).Perm (t :: x.queue h) := waitersWith_perm
  rw [waitOn_eq ht]
  refine ⟨hx.linked.update (hx.not_mem ht) hperm, ?_, ?_, ?_⟩
  · intro i u hu
    obtain hu | ⟨rfl, rfl⟩ := (mem_update_perm hperm).mp hu
    · have hne : u ≠ t := fun heq ↦ hx.not_mem ht i (heq ▸ hu)
      simpa [hne] using hx.waiting i u hu
    · simp [herror, hc]
  · intro u hu
    obtain rfl | hne := eq_or_ne u t
    · refine ⟨c, by simp, ?_⟩
      intro i hi
      exact (mem_update_perm hperm).mpr (.inr ⟨rfl, Option.some.inj (hi.symm.trans hc)⟩)
    · simp only [Function.update_of_ne hne] at hu ⊢
      obtain ⟨d, hd, hon⟩ := hx.suspended u hu
      exact ⟨d, hd, fun i hi ↦ (mem_update_perm hperm).mpr (.inl (hon i hi))⟩
  · intro u hu
    obtain rfl | hne := eq_or_ne u t
    · simp
    · simp only [Function.update_of_ne hne] at hu ⊢
      exact hx.timer u hu

/-- A thread that is to return well from its call has got what it called for. -/
def Earned (got : Call → Bool) (x : Threads ι Call) : Prop :=
  ∀ t c, (x.thread t).call = some c → (x.thread t).suspended = false →
    (x.thread t).error = .eok → got c = true

variable {got : Call → Bool}

theorem earned_noneWaits : Earned got (noneWaits : Threads ι Call) := by
  intro t c hc
  cases hc

theorem Earned.update (hx : Earned got x) (queue : ι → List ℕ)
    (hw : ∀ c, w.call = some c → w.suspended = false → w.error = .eok → got c = true) :
    Earned got ⟨queue, Function.update x.thread t w⟩ := by
  intro u c
  obtain rfl | hne := eq_or_ne u t
  · simpa using hw c
  · simpa [hne] using hx u c

theorem Earned.setError (hx : Earned got x) (ht : (x.thread t).call = none) (e : Err) :
    Earned got (setError t e x) := by
  refine hx.update _ ?_
  intro c hc
  rw [ht] at hc
  cases hc

theorem Earned.wait [DecidableEq ι] (hx : Earned got x) (ht : (x.thread t).suspended = false)
    {flag : IpcFlag} {priority : ℕ → ℕ} {time : BitVec 32} :
    Earned got (waitOn h flag priority t time c x) := by
  rw [waitOn_eq ht]
  exact hx.update _ fun _ _ hw ↦ Bool.noConfusion hw

theorem Earned.back (hx : Earned got x) (t : ℕ) : Earned got (setCall t none x) := by
  refine hx.update _ ?_
  intro c hc
  cases hc

theorem Earned.timerEnds (hx : Earned got x) (t : ℕ) : Earned got (timerEnds t x) := by
  rw [Waiting.timerEnds]
  split_ifs
  · refine hx.update _ ?_
    intro c _ _ herror
    cases herror
  · exact hx

theorem Earned.listResume (hx : Earned got x) (hp : Parked on x) {l : List ℕ}
    (hl : x.queue h = t :: l) (hc : got c = true) :
    Earned got (setCall t (some c) (rtIpcListResume h x)) := by
  rw [hp.listResume_eq hl]
  simp only [Waiting.setCall, Threads.set, Function.update_idem]
  refine hx.update _ ?_
  intro d hd _ _
  cases hd
  exact hc

theorem Earned.resumeError (hx : Earned got x) (t : ℕ) {e : Err} (he : e ≠ .eok) :
    Earned got (rtThreadResume t (Waiting.setError t e x)) := by
  have hset : Earned got (Waiting.setError t e x) := hx.update _ fun _ _ _ herror ↦ absurd herror he
  rw [rtThreadResume]
  split_ifs
  · refine hset.update _ ?_
    intro c _ _ herror
    simp only [Waiting.setError, set_thread, Function.update_self] at herror
    exact absurd herror he
  · exact hset

theorem Earned.listResumeAll (hx : Earned got x) (h : ι) : Earned got (rtIpcListResumeAll h x) := by
  rw [rtIpcListResumeAll]
  generalize x.queue h = l
  induction l generalizing x with
  | nil => exact hx
  | cons t l ih => exact ih (hx.resumeError t (by decide))

end GiantGecko.Rtos.Waiting
