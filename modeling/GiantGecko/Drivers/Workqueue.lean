import GiantGecko.Foundation.Transition
import Mathlib.Logic.Function.Basic

namespace GiantGecko.Drivers.Workqueue

variable {Work : Type} [DecidableEq Work]

inductive RtErr
  | eok
  | ebusy
  deriving DecidableEq

/-- Where `_workqueue_thread_entry` is. Each place is before one of its
critical sections or calls: the test for an empty list, `rt_thread_suspend`,
`rt_schedule`, the removal from the list, `work_func`, the clearing of
`work_current`. `stray` is the call of `work_func` through the head of the
list, which is no work item. -/
inductive Place (Work : Type)
  | test
  | suspend
  | schedule
  | dequeue
  | run (work : Work)
  | clean
  | stray
  deriving DecidableEq

/-- The work queue with its thread. `resuming` counts the callers that have
put an item on the list and are about to call `rt_thread_resume`; `node` is
the next node of a call of `rt_workqueue_cancel_all_work`, which keeps the
scheduler locked. The last three fields record which submissions were
accepted, which items were executed and which were taken off the list. -/
structure RtWorkqueue (Work : Type) where
  workList : List Work
  workCurrent : Option Work
  pending : Work → Bool
  place : Place Work
  suspended : Bool
  resuming : ℕ
  node : Option (Option Work)
  accepted : List Work
  executed : List Work
  cancelled : List Work

def rtWorkqueueCreate : RtWorkqueue Work where
  workList := []
  workCurrent := none
  pending := fun _ ↦ false
  place := .test
  suspended := false
  resuming := 0
  node := none
  accepted := []
  executed := []
  cancelled := []

def requeue (q : RtWorkqueue Work) (work : Work) : RtWorkqueue Work :=
  { q with workList := q.workList.erase work ++ [work] }

def wake (q : RtWorkqueue Work) : RtWorkqueue Work :=
  if q.workCurrent = none then { q with resuming := q.resuming + 1 } else q

def submitWork (work : Work) (q : RtWorkqueue Work) : RtErr × RtWorkqueue Work :=
  if q.pending work then (.ebusy, q)
  else if q.workCurrent = some work then (.ebusy, q)
  else
    let q := requeue q work
    let q := { q with
      pending := Function.update q.pending work true
      accepted := q.accepted ++ [work] }
    (.eok, wake q)

def criticalWork (work : Work) (q : RtWorkqueue Work) : RtErr × RtWorkqueue Work :=
  if q.workCurrent = some work then (.ebusy, q)
  else
    let accepted := if work ∈ q.workList then q.accepted else q.accepted ++ [work]
    (.eok, wake { requeue q work with accepted := accepted })

def unlink (work : Work) (q : RtWorkqueue Work) : RtWorkqueue Work :=
  if work ∈ q.workList then
    { q with workList := q.workList.erase work, cancelled := q.cancelled ++ [work] }
  else q

def cancelWork (work : Work) (q : RtWorkqueue Work) : RtErr × RtWorkqueue Work :=
  if q.workCurrent = some work then (.ebusy, q)
  else
    let q := unlink work q
    (.eok, { q with pending := Function.update q.pending work false })

/-- The node behind an item, `none` for the head of the list. An item that is
not linked points to itself. -/
def nextNode (work : Work) (l : List Work) : Option Work :=
  if work ∈ l then (l.dropWhile (· ≠ work)).tail.head? else some work

def cancelAllBegin (q : RtWorkqueue Work) : RtWorkqueue Work :=
  if q.node = none then { q with node := some q.workList.head? } else q

def cancelAllTurn (q : RtWorkqueue Work) : RtWorkqueue Work :=
  match q.node with
  | none => q
  | some none => { q with node := none }
  | some (some work) =>
    { unlink work q with node := some (nextNode work q.workList) }

def resume (q : RtWorkqueue Work) : RtWorkqueue Work :=
  if q.resuming = 0 then q
  else { q with resuming := q.resuming - 1, suspended := false }

/-- The next step of the thread. The semaphore of `_workqueue_work_completion`
is 0 before and after it while no call waits for an item. -/
def threadStep (q : RtWorkqueue Work) : RtWorkqueue Work :=
  match q.place with
  | .test => { q with place := if q.workList = [] then .suspend else .dequeue }
  | .suspend => { q with place := .schedule, suspended := true }
  | .schedule => if q.suspended then q else { q with place := .dequeue }
  | .dequeue =>
    match q.workList with
    | [] => { q with place := .stray }
    | work :: rest =>
      { q with
        workList := rest
        workCurrent := some work
        pending := Function.update q.pending work false
        place := .run work }
  | .run work => { q with place := .clean, executed := q.executed ++ [work] }
  | .clean => { q with place := .test, workCurrent := none }
  | .stray => q

inductive Event (Work : Type)
  | submit (work : Work)
  | critical (work : Work)
  | cancel (work : Work)
  | cancelAll
  | cancelAllTurn
  | resume
  | thread

/-- The thread does not run while the scheduler is locked. -/
def step (q : RtWorkqueue Work) : Event Work → RtWorkqueue Work
  | .submit work => (submitWork work q).2
  | .critical work => (criticalWork work q).2
  | .cancel work => (cancelWork work q).2
  | .cancelAll => cancelAllBegin q
  | .cancelAllTurn => cancelAllTurn q
  | .resume => resume q
  | .thread => if q.node = none then threadStep q else q

end GiantGecko.Drivers.Workqueue
