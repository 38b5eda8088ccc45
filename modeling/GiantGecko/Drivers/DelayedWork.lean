import GiantGecko.Drivers.Workqueue
import GiantGecko.Rtos.Timer

namespace GiantGecko.Drivers.DelayedWork

open Workqueue (Place)
open Rtos.Timer (halfTickMax)

inductive Work (Plain Delayed : Type)
  | plain (p : Plain)
  | delayed (d : Delayed)
  deriving DecidableEq

inductive RtErr
  | eok
  | ebusy
  | einval
  deriving DecidableEq

/-- `_delayed_work_timeout_handler` before its critical section, and before it
submits the item. -/
inductive Handler
  | begin
  | submit
  deriving DecidableEq

/-- The tests and critical sections of a call, between which interrupts are enabled: the first
two and the last four are those of `_workqueue_submit_delayed_work`, the others those of
`_workqueue_cancel_delayed_work`. -/
inductive Stage
  | belongs
  | same
  | attached
  | pending
  | submitting
  | stop
  | detach
  | attach
  | put
  | arm
  | start
  deriving DecidableEq

/-- A call of `rt_workqueue_submit_work` or, where `submit` is not set, of
`rt_workqueue_cancel_work`, and the stage that it has got to in so many turns; `nested` counts
the calls of `rt_workqueue_cancel_work` that it is inside of. -/
structure Call where
  submit : Bool
  queue : ℕ
  ticks : ℕ
  nested : ℕ
  stage : Stage
  turns : ℕ
  deriving DecidableEq

/-- What a delayed item has besides its work. `object` tells whether its timer has the type of a
timer and `timer` whether it is linked. `missing` counts the submissions to a queue at
`RT_NULL`, and `cancelled` tells whether a cancellation has returned `RT_EOK` since the item was
submitted. -/
structure RtDelayedWork where
  submitting : Bool
  workqueue : Option ℕ
  object : Bool
  timer : Bool
  handler : Option Handler
  call : Option Call
  missing : ℕ
  cancelled : Bool

structure RtWorkqueue (Plain Delayed : Type) where
  workList : List (Work Plain Delayed)
  workCurrent : Option (Work Plain Delayed)
  place : Place (Work Plain Delayed)
  suspended : Bool

/-- The queues and the items. `halted` is the endless loop of an assertion that has failed with
interrupts disabled. -/
structure System (Plain Delayed : Type) where
  queue : ℕ → RtWorkqueue Plain Delayed
  pending : Work Plain Delayed → Bool
  delayed : Delayed → RtDelayedWork
  halted : Bool

variable {Plain Delayed : Type} {s : System Plain Delayed} {d e : Delayed} {q i : ℕ}
  {work work' : Work Plain Delayed}

def System.setQueue (s : System Plain Delayed) (q : ℕ) (x : RtWorkqueue Plain Delayed) :
    System Plain Delayed :=
  { s with queue := Function.update s.queue q x }

@[simp] theorem setQueue_self (x : RtWorkqueue Plain Delayed) : (s.setQueue q x).queue q = x :=
  Function.update_self _ _ _

theorem setQueue_of_ne (h : i ≠ q) (x : RtWorkqueue Plain Delayed) :
    (s.setQueue q x).queue i = s.queue i := Function.update_of_ne h _ _

variable [DecidableEq Delayed]

def System.setDelayed (s : System Plain Delayed) (d : Delayed) (x : RtDelayedWork) :
    System Plain Delayed :=
  { s with delayed := Function.update s.delayed d x }

@[simp] theorem setDelayed_self (x : RtDelayedWork) : (s.setDelayed d x).delayed d = x :=
  Function.update_self _ _ _

theorem setDelayed_of_ne (h : e ≠ d) (x : RtDelayedWork) :
    (s.setDelayed d x).delayed e = s.delayed e := Function.update_of_ne h _ _

variable [DecidableEq Plain]

def System.setPending (s : System Plain Delayed) (work : Work Plain Delayed) (b : Bool) :
    System Plain Delayed :=
  { s with pending := Function.update s.pending work b }

@[simp] theorem setPending_self (b : Bool) : (s.setPending work b).pending work = b :=
  Function.update_self _ _ _

theorem setPending_of_ne (h : work' ≠ work) (b : Bool) :
    (s.setPending work b).pending work' = s.pending work' := Function.update_of_ne h _ _

def unlink (work : Work Plain Delayed) (s : System Plain Delayed) : System Plain Delayed :=
  { s with queue := fun q ↦ { s.queue q with workList := (s.queue q).workList.erase work } }

/-- The item becomes the last one. The caller goes on to resume the thread, which is a step of
its own. -/
def link (q : ℕ) (work : Work Plain Delayed) (s : System Plain Delayed) : System Plain Delayed :=
  s.setQueue q { s.queue q with workList := (s.queue q).workList ++ [work] }

def resume (q : ℕ) (s : System Plain Delayed) : System Plain Delayed :=
  s.setQueue q { s.queue q with suspended := false }

def workqueueSubmitWork (q : ℕ) (work : Work Plain Delayed) (s : System Plain Delayed) :
    RtErr × System Plain Delayed :=
  if s.pending work then (.ebusy, s)
  else if (s.queue q).workCurrent = some work then (.ebusy, s)
  else (.eok, (link q work (unlink work s)).setPending work true)

def workqueueCancelWork (q : ℕ) (work : Work Plain Delayed) (s : System Plain Delayed) :
    RtErr × System Plain Delayed :=
  if (s.queue q).workCurrent = some work then (.ebusy, s)
  else (.eok, (unlink work s).setPending work false)

/-- `rt_timer_stop` and `rt_timer_detach`, which asserts the type of the timer and clears it. -/
def RtDelayedWork.stopTimer (x : RtDelayedWork) : RtDelayedWork :=
  { x with timer := false, object := false, submitting := false }

def RtDelayedWork.goTo (x : RtDelayedWork) (c : Call) (stage : Stage) : RtDelayedWork :=
  { x with call := some { c with stage := stage, turns := c.turns + 1 } }

def RtDelayedWork.returns (x : RtDelayedWork) (c : Call) (err : RtErr) : RtDelayedWork :=
  { x with call := none, cancelled := x.cancelled || !c.submit && err = .eok }

def begin (submit : Bool) (q : ℕ) (d : Delayed) (ticks : ℕ) (s : System Plain Delayed) :
    System Plain Delayed :=
  if (s.delayed d).call = none then
    s.setDelayed d { s.delayed d with
      call := some ⟨submit, q, ticks, 0, if submit then .belongs else .attached, 0⟩ }
  else s

/-- The next turn of the call. An error of a nested call is the result of the outer ones; where
it returns `RT_EOK`, the outer ones go on to detach the item once more. `rt_timer_init` asserts
that the timer is no object yet, and `rt_timer_start` that the ticks are less than
`RT_TICK_MAX / 2`. -/
def callTurn (d : Delayed) (s : System Plain Delayed) : System Plain Delayed :=
  let x := s.delayed d
  match x.call with
  | none => s
  | some c =>
    match c.stage with
    | .belongs =>
      s.setDelayed d (if x.workqueue ≠ none ∧ x.workqueue ≠ some c.queue then x.returns c .einval
        else x.goTo c .same)
    | .same =>
      s.setDelayed d (x.goTo c (if x.workqueue = some c.queue then .attached else .attach))
    | .attached =>
      s.setDelayed d (if x.workqueue = none then x.returns c .einval else x.goTo c .pending)
    | .pending =>
      s.setDelayed d (if s.pending (.delayed d) then
          x.goTo { c with nested := c.nested + 1 } .attached
        else x.goTo c .submitting)
    | .submitting => s.setDelayed d (x.goTo c (if x.submitting then .stop else .detach))
    | .stop =>
      if x.object then s.setDelayed d (x.stopTimer.goTo c .detach) else { s with halted := true }
    | .detach =>
      let x := { x with workqueue := none }
      (s.setDelayed d (if c.nested ≠ 0 then x.goTo { c with nested := c.nested - 1 } .detach
        else if c.submit then x.goTo c .attach else x.returns c .eok)).setPending (.delayed d) false
    | .attach =>
      let x := { x with workqueue := some c.queue, cancelled := false }
      s.setDelayed d (x.goTo c (if c.ticks = 0 then .put else .arm))
    | .put => (workqueueSubmitWork c.queue (.delayed d) (s.setDelayed d (x.returns c .eok))).2
    | .arm =>
      if x.object then { s with halted := true }
      else s.setDelayed d ({ x with submitting := true, object := true }.goTo c .start)
    | .start =>
      s.setDelayed d (if c.ticks < halfTickMax then { x with timer := true }.returns c .eok
        else x.goTo c .start)

def rtWorkqueueSubmitWork (q : ℕ) (work : Work Plain Delayed) (ticks : ℕ)
    (s : System Plain Delayed) : System Plain Delayed :=
  match work with
  | .plain p => (workqueueSubmitWork q (.plain p) s).2
  | .delayed d => begin true q d ticks s

def rtWorkqueueCancelWork (q : ℕ) (work : Work Plain Delayed) (s : System Plain Delayed) :
    System Plain Delayed :=
  match work with
  | .plain p => (workqueueCancelWork q (.plain p) s).2
  | .delayed d => begin false q d 0 s

/-- `rt_workqueue_dowork`, which takes a delayed item for any other. -/
def rtWorkqueueDowork (q : ℕ) (work : Work Plain Delayed) (s : System Plain Delayed) :
    System Plain Delayed :=
  match work, workqueueSubmitWork q work s with
  | .delayed d, (.eok, s) => s.setDelayed d { s.delayed d with cancelled := false }
  | _, (_, s) => s

def rtWorkqueueCriticalWork (q : ℕ) (work : Work Plain Delayed) (s : System Plain Delayed) :
    RtErr × System Plain Delayed :=
  if (s.queue q).workCurrent = some work then (.ebusy, s) else (.eok, link q work (unlink work s))

def expire (d : Delayed) (s : System Plain Delayed) : System Plain Delayed :=
  if (s.delayed d).timer ∧ (s.delayed d).handler = none then
    s.setDelayed d { s.delayed d with timer := false, handler := some .begin }
  else s

def delayedWorkTimeoutHandler (d : Delayed) (s : System Plain Delayed) : System Plain Delayed :=
  let x := s.delayed d
  match x.handler with
  | none => s
  | some .begin =>
    if x.object then s.setDelayed d { x.stopTimer with handler := some .submit }
    else { s with halted := true }
  | some .submit =>
    let s := s.setDelayed d { x with handler := none }
    match x.workqueue with
    | none =>
      if s.pending (.delayed d) then s
      else s.setDelayed d { x with handler := none, missing := x.missing + 1 }
    | some q => (workqueueSubmitWork q (.delayed d) s).2

def threadStep (q : ℕ) (s : System Plain Delayed) : System Plain Delayed :=
  let x := s.queue q
  match x.place with
  | .test => s.setQueue q { x with place := if x.workList = [] then .suspend else .dequeue }
  | .suspend => s.setQueue q { x with place := .schedule, suspended := true }
  | .schedule => if x.suspended then s else s.setQueue q { x with place := .dequeue }
  | .dequeue =>
    match x.workList with
    | [] => s.setQueue q { x with place := .stray }
    | work :: rest =>
      (s.setQueue q { x with workList := rest, workCurrent := some work, place := .run work }).setPending
        work false
  | .run _ => s.setQueue q { x with place := .clean }
  | .clean => s.setQueue q { x with place := .test, workCurrent := none }
  | .stray => s

/-- All work is cancelled an item at a time, with interrupts enabled, and the thread of a queue is
resumed when a caller gets to it. -/
inductive Event (Plain Delayed : Type)
  | submit (q : ℕ) (work : Work Plain Delayed) (ticks : ℕ)
  | dowork (q : ℕ) (work : Work Plain Delayed)
  | cancel (q : ℕ) (work : Work Plain Delayed)
  | call (d : Delayed)
  | critical (q : ℕ) (work : Work Plain Delayed)
  | cancelAll (work : Work Plain Delayed)
  | resume (q : ℕ)
  | expire (d : Delayed)
  | handler (d : Delayed)
  | thread (q : ℕ)

def act (s : System Plain Delayed) : Event Plain Delayed → System Plain Delayed
  | .submit q work ticks => rtWorkqueueSubmitWork q work ticks s
  | .dowork q work => rtWorkqueueDowork q work s
  | .cancel q work => rtWorkqueueCancelWork q work s
  | .call d => callTurn d s
  | .critical q work => (rtWorkqueueCriticalWork q work s).2
  | .cancelAll work => unlink work s
  | .resume q => resume q s
  | .expire d => expire d s
  | .handler d => delayedWorkTimeoutHandler d s
  | .thread q => threadStep q s

def step (s : System Plain Delayed) (e : Event Plain Delayed) : System Plain Delayed :=
  if s.halted then s else act s e

def init : System Plain Delayed where
  queue _ := ⟨[], none, .test, false⟩
  pending _ := false
  delayed _ := ⟨false, none, false, false, none, none, 0, false⟩
  halted := false

end GiantGecko.Drivers.DelayedWork
