import Mathlib.Data.Nat.Notation
import GiantGecko.Foundation.Intrusive
import GiantGecko.Foundation.OrderedQueue

namespace GiantGecko.Rtos.Scheduler

open Foundation.OrderedQueue Foundation.Intrusive

def rtThreadPriorityMax : ℕ := 32

inductive Stat
  | init
  | ready
  | running
  | suspend
  deriving DecidableEq

inductive Err
  | eok
  | error
  | etimeout
  | efull
  | eintr
  deriving DecidableEq

/-- The lists that the `tlist` of a thread may be linked into: the ready lists and
those on which threads wait for an object. -/
inductive Head
  | ready (priority : ℕ)
  | sem (i : ℕ)
  | mutex (i : ℕ)
  | event (i : ℕ)
  | mb (i : ℕ)
  | mbSender (i : ℕ)
  | mq (i : ℕ)
  deriving DecidableEq

inductive IpcFlag
  | fifo
  | prio
  deriving DecidableEq

/-- What the scheduler reads and writes. Threads are numbers; `queue` is what each
list links, first to last; `threadTimer` tells whose timer is active. -/
structure Sched where
  initPriority : ℕ → ℕ
  currentPriority : ℕ → ℕ
  numberMask : ℕ → BitVec 32
  stat : ℕ → Stat
  error : ℕ → Err
  threadTimer : ℕ → Bool
  queue : Head → List ℕ
  readyPriorityGroup : BitVec 32
  currentThread : ℕ
  lockNest : ℕ

def lowestBitBitmap : List ℕ :=
  [0, 0, 1, 0, 2, 0, 1, 0, 3, 0, 1, 0, 2, 0, 1, 0,
    4, 0, 1, 0, 2, 0, 1, 0, 3, 0, 1, 0, 2, 0, 1, 0,
    5, 0, 1, 0, 2, 0, 1, 0, 3, 0, 1, 0, 2, 0, 1, 0,
    4, 0, 1, 0, 2, 0, 1, 0, 3, 0, 1, 0, 2, 0, 1, 0,
    6, 0, 1, 0, 2, 0, 1, 0, 3, 0, 1, 0, 2, 0, 1, 0,
    4, 0, 1, 0, 2, 0, 1, 0, 3, 0, 1, 0, 2, 0, 1, 0,
    5, 0, 1, 0, 2, 0, 1, 0, 3, 0, 1, 0, 2, 0, 1, 0,
    4, 0, 1, 0, 2, 0, 1, 0, 3, 0, 1, 0, 2, 0, 1, 0,
    7, 0, 1, 0, 2, 0, 1, 0, 3, 0, 1, 0, 2, 0, 1, 0,
    4, 0, 1, 0, 2, 0, 1, 0, 3, 0, 1, 0, 2, 0, 1, 0,
    5, 0, 1, 0, 2, 0, 1, 0, 3, 0, 1, 0, 2, 0, 1, 0,
    4, 0, 1, 0, 2, 0, 1, 0, 3, 0, 1, 0, 2, 0, 1, 0,
    6, 0, 1, 0, 2, 0, 1, 0, 3, 0, 1, 0, 2, 0, 1, 0,
    4, 0, 1, 0, 2, 0, 1, 0, 3, 0, 1, 0, 2, 0, 1, 0,
    5, 0, 1, 0, 2, 0, 1, 0, 3, 0, 1, 0, 2, 0, 1, 0,
    4, 0, 1, 0, 2, 0, 1, 0, 3, 0, 1, 0, 2, 0, 1, 0]

def rtFfs (value : BitVec 32) : ℕ :=
  if value = 0 then 0
  else if value &&& 0xff ≠ 0 then lowestBitBitmap.getD (value &&& 0xff).toNat 0 + 1
  else if value &&& 0xff00 ≠ 0 then
    lowestBitBitmap.getD ((value &&& 0xff00) >>> 8).toNat 0 + 9
  else if value &&& 0xff0000 ≠ 0 then
    lowestBitBitmap.getD ((value &&& 0xff0000) >>> 16).toNat 0 + 17
  else lowestBitBitmap.getD ((value &&& 0xff000000) >>> 24).toNat 0 + 25

/-- The current thread is made RUNNING and is linked nowhere. -/
def rtScheduleInsertThread (t : ℕ) (s : Sched) : Sched :=
  if t = s.currentThread then { s with stat := Function.update s.stat t .running }
  else
    { s with
      stat := Function.update s.stat t .ready
      queue := Function.update s.queue (.ready (s.currentPriority t))
        (s.queue (.ready (s.currentPriority t)) ++ [t])
      readyPriorityGroup := s.readyPriorityGroup ||| s.numberMask t }

def rtScheduleRemoveThread (t : ℕ) (s : Sched) : Sched :=
  if unlink t s.queue (.ready (s.currentPriority t)) = [] then
    { s with
      queue := unlink t s.queue
      readyPriorityGroup := s.readyPriorityGroup &&& ~~~s.numberMask t }
  else { s with queue := unlink t s.queue }

def highestReadyPriority (s : Sched) : ℕ := rtFfs s.readyPriorityGroup - 1

/-- The first thread of the most urgent list that links one; the current thread stands
for what is read off a list without any. -/
def getHighestPriorityThread (s : Sched) : ℕ :=
  (s.queue (.ready (highestReadyPriority s))).headD s.currentThread

def switchThread (s : Sched) : Sched :=
  let toThread := getHighestPriorityThread s
  let fromThread := s.currentThread
  let s := { s with currentThread := toThread }
  let s := if s.stat fromThread = .running then rtScheduleInsertThread fromThread s else s
  let s := rtScheduleRemoveThread toThread s
  { s with stat := Function.update s.stat toThread .running }

def rtSchedule (s : Sched) : Sched :=
  if s.lockNest = 0 ∧ s.readyPriorityGroup ≠ 0 then
    if s.stat s.currentThread = .running ∧ s.currentPriority s.currentThread < highestReadyPriority s ∨
        getHighestPriorityThread s = s.currentThread then
      let s := rtScheduleRemoveThread s.currentThread s
      { s with stat := Function.update s.stat s.currentThread .running }
    else switchThread s
  else s

def rtThreadSuspend (t : ℕ) (s : Sched) : Sched :=
  if s.stat t = .ready ∨ s.stat t = .running then
    let s := rtScheduleRemoveThread t s
    { s with
      stat := Function.update s.stat t .suspend
      threadTimer := Function.update s.threadTimer t false }
  else s

def rtThreadResume (t : ℕ) (s : Sched) : Sched :=
  if s.stat t = .suspend then
    rtScheduleInsertThread t
      { s with
        queue := unlink t s.queue
        threadTimer := Function.update s.threadTimer t false }
  else s

def setError (t : ℕ) (e : Err) (s : Sched) : Sched := { s with error := Function.update s.error t e }

/-- `rt_thread_timeout` called by the timer of the thread, which is active no more. -/
def rtThreadTimeout (t : ℕ) (s : Sched) : Sched :=
  rtSchedule (rtScheduleInsertThread t
    { setError t .etimeout s with
      queue := unlink t s.queue
      threadTimer := Function.update s.threadTimer t false })

def setPriority (t priority : ℕ) (s : Sched) : Sched :=
  { s with
    currentPriority := Function.update s.currentPriority t priority
    numberMask := Function.update s.numberMask t (1#32 <<< priority) }

def rtThreadChangePriority (t priority : ℕ) (s : Sched) : Sched :=
  if s.stat t = .ready then
    rtScheduleInsertThread t (setPriority t priority (rtScheduleRemoveThread t s))
  else setPriority t priority s

def rtThreadStartup (t : ℕ) (s : Sched) : Option Sched :=
  if s.stat t = .init then
    let s := setPriority t (s.initPriority t) s
    some (rtThreadResume t { s with stat := Function.update s.stat t .suspend })
  else none

def waitersWith (flag : IpcFlag) (priority : ℕ → ℕ) (t : ℕ) (l : List ℕ) : List ℕ :=
  match flag with
  | .fifo => l ++ [t]
  | .prio => insertBehind (fun u ↦ ¬priority t < priority u) t l

theorem waitersWith_perm {flag : IpcFlag} {priority : ℕ → ℕ} {t : ℕ} {l : List ℕ} :
    (waitersWith flag priority t l).Perm (t :: l) := by
  cases flag with
  | fifo => exact List.perm_append_singleton t l
  | prio => exact insertBehind_perm

def rtIpcListSuspend (h : Head) (t : ℕ) (flag : IpcFlag) (s : Sched) : Sched :=
  let s := rtThreadSuspend t s
  { s with queue := Function.update s.queue h (waitersWith flag s.currentPriority t (s.queue h)) }

def rtIpcListResume (h : Head) (s : Sched) : Sched :=
  match s.queue h with
  | [] => s
  | t :: _ => rtThreadResume t s

/-- A wait starts the timer of the thread if the time is positive and less than half of
`RT_TICK_MAX`, as `rt_timer_start` asserts. -/
def timed (time : BitVec 32) : Bool := 0 < time.toInt ∧ time.toInt < 0xFFFFFFFF / 2

/-- `rt_timer_control` and `rt_timer_start` on the timer of a thread that waits. Where the
assertion fails, the thread is left waiting. -/
def startThreadTimer (t : ℕ) (time : BitVec 32) (s : Sched) : Sched :=
  if timed time then { s with threadTimer := Function.update s.threadTimer t true } else s

def timeLeft (timeout elapsed : BitVec 32) : BitVec 32 :=
  if 0 < timeout.toInt then
    if (timeout - elapsed).toInt < 0 then 0 else timeout - elapsed
  else timeout

end GiantGecko.Rtos.Scheduler
