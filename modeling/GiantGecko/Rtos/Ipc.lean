import GiantGecko.Rtos.Scheduler
import Mathlib.Algebra.Group.Nat.Defs

namespace GiantGecko.Rtos.Ipc

open Scheduler

structure Semaphore where
  value : ℕ
  flag : IpcFlag

/-- `depth` is not in the source: how often each thread has been given the mutex, less
how often it has given it back. -/
structure Mutex where
  value : ℕ
  originalPriority : ℕ
  hold : ℕ
  owner : Option ℕ
  flag : IpcFlag
  depth : ℕ → ℕ

structure EventGroup where
  set : BitVec 32
  flag : IpcFlag

structure Mailbox where
  msgPool : ℕ → BitVec 32
  size : ℕ
  entry : ℕ
  inOffset : ℕ
  outOffset : ℕ
  flag : IpcFlag

/-- The slots of the pool are numbers: `next` is the link at the start of each, `data`
what follows it. -/
structure MessageQueue where
  msgSize : ℕ
  entry : ℕ
  head : Option ℕ
  tail : Option ℕ
  free : Option ℕ
  next : ℕ → Option ℕ
  data : ℕ → List UInt8
  flag : IpcFlag

structure EventOption where
  conj : Bool
  disj : Bool
  clear : Bool

/-- Where a call goes on once `rt_schedule` has returned to its thread, with its
variables. -/
inductive Cont
  | done
  | semTake
  | mutexTake (m : ℕ) (time : BitVec 32)
  | eventRecv
  | sleep
  | mbSendWait (mb : ℕ) (value timeout tickDelta : BitVec 32)
  | mbRecv (mb : ℕ) (timeout tickDelta : BitVec 32)
  | mqRecv (mq size : ℕ) (timeout tickDelta : BitVec 32)
  deriving DecidableEq

/-- Where a thread is: in its own code, before a call of `rt_schedule`, behind it, or
where a slot of a message queue is in its hands. -/
inductive Pc
  | user
  | schedule (c : Cont)
  | resumed (c : Cont)
  | mqLink (urgent : Bool) (mq slot : ℕ) (buffer : List UInt8)
  | mqFree (mq slot size : ℕ)
  deriving DecidableEq

/-- `result` is what the last call of each thread returned, `recved` and `buffer` what
it has stored through its pointer. -/
structure Kernel where
  sched : Sched
  sem : ℕ → Semaphore
  mutex : ℕ → Mutex
  event : ℕ → EventGroup
  mb : ℕ → Mailbox
  mq : ℕ → MessageQueue
  eventSet : ℕ → BitVec 32
  eventInfo : ℕ → EventOption
  tick : BitVec 32
  initTick : ℕ → BitVec 32
  remainingTick : ℕ → BitVec 32
  pc : ℕ → Pc
  result : ℕ → Err
  recved : ℕ → BitVec 32
  buffer : ℕ → List UInt8

def rtThreadSelf (k : Kernel) : ℕ := k.sched.currentThread

def finish (e : Err) (k : Kernel) : Kernel :=
  { k with
    pc := Function.update k.pc (rtThreadSelf k) .user
    result := Function.update k.result (rtThreadSelf k) e }

def thenSchedule (c : Cont) (k : Kernel) : Kernel :=
  { k with pc := Function.update k.pc (rtThreadSelf k) (.schedule c) }

def onSched (f : Sched → Sched) (k : Kernel) : Kernel := { k with sched := f k.sched }

def setSelfError (e : Err) (k : Kernel) : Kernel := onSched (setError (rtThreadSelf k) e) k

def waitOn (h : Head) (flag : IpcFlag) (time : BitVec 32) (c : Cont) (k : Kernel) : Kernel :=
  thenSchedule c (onSched
    (fun s ↦ startThreadTimer (rtThreadSelf k) time (rtIpcListSuspend h (rtThreadSelf k) flag s)) k)

def resumeFirst (h : Head) (k : Kernel) : Kernel :=
  if k.sched.queue h = [] then finish .eok k
  else thenSchedule .done (onSched (rtIpcListResume h) k)

section Semaphores

def setSem (i : ℕ) (x : Semaphore) (k : Kernel) : Kernel :=
  { k with sem := Function.update k.sem i x }

def rtSemTake (i : ℕ) (time : BitVec 32) (k : Kernel) : Kernel :=
  if 0 < (k.sem i).value then
    finish .eok (setSem i { k.sem i with value := (k.sem i).value - 1 } k)
  else if time = 0 then finish .etimeout k
  else waitOn (.sem i) (k.sem i).flag time .semTake (setSelfError .eok k)

def rtSemRelease (i : ℕ) (k : Kernel) : Kernel :=
  if k.sched.queue (.sem i) = [] then
    finish .eok (setSem i { k.sem i with value := ((k.sem i).value + 1) % 2 ^ 16 } k)
  else thenSchedule .done (onSched (rtIpcListResume (.sem i)) k)

end Semaphores

section Mutexes

def setMutex (m : ℕ) (x : Mutex) (k : Kernel) : Kernel :=
  { k with mutex := Function.update k.mutex m x }

def Mutex.held (t : ℕ) (x : Mutex) : Mutex :=
  { x with
    hold := (x.hold + 1) % 2 ^ 8
    depth := Function.update x.depth t (x.depth t + 1) }

def Mutex.giveTo (t priority : ℕ) (x : Mutex) : Mutex :=
  { x with owner := some t, originalPriority := priority }.held t

def Mutex.unheld (t : ℕ) (x : Mutex) : Mutex :=
  { x with
    hold := (x.hold + (2 ^ 8 - 1)) % 2 ^ 8
    depth := Function.update x.depth t (x.depth t - 1) }

def inherit (m : ℕ) (k : Kernel) : Kernel :=
  match (k.mutex m).owner with
  | some o =>
    if k.sched.currentPriority (rtThreadSelf k) < k.sched.currentPriority o then
      onSched (rtThreadChangePriority o (k.sched.currentPriority (rtThreadSelf k))) k
    else k
  | none => k

/-- From the label `__again` of `rt_mutex_take`. -/
def takeAgain (m : ℕ) (time : BitVec 32) (k : Kernel) : Kernel :=
  if 0 < (k.mutex m).value then
    finish .eok (setMutex m
      ({ k.mutex m with value := (k.mutex m).value - 1 }.giveTo (rtThreadSelf k)
        (k.sched.currentPriority (rtThreadSelf k))) k)
  else if time = 0 then finish .etimeout (setSelfError .etimeout k)
  else waitOn (.mutex m) (k.mutex m).flag time (.mutexTake m time) (inherit m k)

def rtMutexTake (m : ℕ) (time : BitVec 32) (k : Kernel) : Kernel :=
  let k := setSelfError .eok k
  if (k.mutex m).owner = some (rtThreadSelf k) then
    finish .eok (setMutex m ((k.mutex m).held (rtThreadSelf k)) k)
  else takeAgain m time k

def restore (m : ℕ) (k : Kernel) : Kernel :=
  if (k.mutex m).originalPriority ≠ k.sched.currentPriority (rtThreadSelf k) then
    onSched (rtThreadChangePriority (rtThreadSelf k) (k.mutex m).originalPriority) k
  else k

def passOn (m : ℕ) (k : Kernel) : Kernel :=
  match k.sched.queue (.mutex m) with
  | w :: _ =>
    thenSchedule .done (onSched (rtIpcListResume (.mutex m))
      (setMutex m ((k.mutex m).giveTo w (k.sched.currentPriority w)) k))
  | [] =>
    finish .eok (setMutex m
      { k.mutex m with
        value := ((k.mutex m).value + 1) % 2 ^ 16, owner := none, originalPriority := 0xFF } k)

def rtMutexRelease (m : ℕ) (k : Kernel) : Kernel :=
  if (k.mutex m).owner ≠ some (rtThreadSelf k) then finish .error (setSelfError .error k)
  else
    let k := setMutex m ((k.mutex m).unheld (rtThreadSelf k)) k
    if (k.mutex m).hold = 0 then passOn m (restore m k) else finish .eok k

end Mutexes

section Events

def setEvent (e : ℕ) (set : BitVec 32) (k : Kernel) : Kernel :=
  { k with event := Function.update k.event e { k.event e with set := set } }

def setEventSet (t : ℕ) (set : BitVec 32) (k : Kernel) : Kernel :=
  { k with eventSet := Function.update k.eventSet t set }

def grantEvent (e t : ℕ) (k : Kernel) : Kernel :=
  onSched (rtThreadResume t)
    (if (k.eventInfo t).clear then setEvent e ((k.event e).set &&& ~~~k.eventSet t) k else k)

/-- One turn of the walk along the waiters, which remembers whether it has resumed
one. -/
def eventTurn (e : ℕ) (r : Kernel × Bool) (t : ℕ) : Kernel × Bool :=
  let k := r.1
  if (k.eventInfo t).conj then
    if k.eventSet t &&& (k.event e).set = k.eventSet t then (grantEvent e t k, true) else r
  else if (k.eventInfo t).disj then
    if k.eventSet t &&& (k.event e).set ≠ 0 then
      (grantEvent e t (setEventSet t (k.eventSet t &&& (k.event e).set) k), true)
    else r
  else r

def rtEventSend (e : ℕ) (set : BitVec 32) (k : Kernel) : Kernel :=
  if set = 0 then finish .error k
  else
    let k := setEvent e ((k.event e).set ||| set) k
    let r := (k.sched.queue (.event e)).foldl (eventTurn e) (k, false)
    if r.2 then thenSchedule .done r.1 else finish .eok r.1

def setRecved (value : BitVec 32) (k : Kernel) : Kernel :=
  { k with recved := Function.update k.recved (rtThreadSelf k) value }

def EventOption.met (option : EventOption) (set wanted : BitVec 32) : Bool :=
  if option.conj then set &&& wanted == wanted else set &&& wanted != 0

def rtEventRecv (e : ℕ) (set : BitVec 32) (option : EventOption) (timeout : BitVec 32)
    (k : Kernel) : Kernel :=
  if set = 0 then finish .error k
  else if option.conj ∨ option.disj then
    let t := rtThreadSelf k
    let k := setSelfError .eok k
    if option.met (k.event e).set set then
      let k := setRecved ((k.event e).set &&& set) k
      finish .eok (if option.clear then setEvent e ((k.event e).set &&& ~~~set) k else k)
    else if timeout = 0 then finish .etimeout (setSelfError .etimeout k)
    else
      waitOn (.event e) (k.event e).flag timeout .eventRecv
        { setEventSet t set k with eventInfo := Function.update k.eventInfo t option }
  else k

end Events

section Mailboxes

def setMb (i : ℕ) (x : Mailbox) (k : Kernel) : Kernel :=
  { k with mb := Function.update k.mb i x }

def advance (size offset : ℕ) : ℕ := if (offset + 1) % 2 ^ 16 ≥ size then 0 else (offset + 1) % 2 ^ 16

def Mailbox.store (value : BitVec 32) (x : Mailbox) : Mailbox :=
  { x with
    msgPool := Function.update x.msgPool x.inOffset value
    inOffset := advance x.size x.inOffset
    entry := (x.entry + 1) % 2 ^ 16 }

def Mailbox.fetch (x : Mailbox) : Mailbox :=
  { x with outOffset := advance x.size x.outOffset, entry := x.entry - 1 }

def mbSendLoop (i : ℕ) (value timeout tickDelta : BitVec 32) (k : Kernel) : Kernel :=
  if (k.mb i).entry = (k.mb i).size then
    let k := setSelfError .eok k
    if timeout = 0 then finish .efull k
    else
      waitOn (.mbSender i) (k.mb i).flag timeout
        (.mbSendWait i value timeout (if 0 < timeout.toInt then k.tick else tickDelta)) k
  else resumeFirst (.mb i) (setMb i ((k.mb i).store value) k)

def rtMbSendWait (i : ℕ) (value timeout : BitVec 32) (k : Kernel) : Kernel :=
  if (k.mb i).entry = (k.mb i).size ∧ timeout = 0 then finish .efull k
  else mbSendLoop i value timeout 0 k

def mbRecvLoop (i : ℕ) (timeout tickDelta : BitVec 32) (k : Kernel) : Kernel :=
  if (k.mb i).entry = 0 then
    let k := setSelfError .eok k
    if timeout = 0 then finish .etimeout (setSelfError .etimeout k)
    else
      waitOn (.mb i) (k.mb i).flag timeout
        (.mbRecv i timeout (if 0 < timeout.toInt then k.tick else tickDelta)) k
  else
    resumeFirst (.mbSender i)
      (setMb i (k.mb i).fetch (setRecved ((k.mb i).msgPool (k.mb i).outOffset) k))

def rtMbRecv (i : ℕ) (timeout : BitVec 32) (k : Kernel) : Kernel :=
  if (k.mb i).entry = 0 ∧ timeout = 0 then finish .etimeout k
  else mbRecvLoop i timeout 0 k

end Mailboxes

section MessageQueues

def setMq (i : ℕ) (x : MessageQueue) (k : Kernel) : Kernel :=
  { k with mq := Function.update k.mq i x }

def goTo (pc : Pc) (k : Kernel) : Kernel :=
  { k with pc := Function.update k.pc (rtThreadSelf k) pc }

/-- `rt_mq_send`, or `rt_mq_urgent`, until it has a slot in hands. Nothing to send fails
an assertion. -/
def rtMqSend (urgent : Bool) (i : ℕ) (buffer : List UInt8) (k : Kernel) : Kernel :=
  if buffer = [] then k
  else if (k.mq i).msgSize < buffer.length then finish .error k
  else
    match (k.mq i).free with
    | none => finish .efull k
    | some slot =>
      goTo (.mqLink urgent i slot buffer) (setMq i { k.mq i with free := (k.mq i).next slot } k)

def MessageQueue.write (slot : ℕ) (buffer : List UInt8) (x : MessageQueue) : MessageQueue :=
  { x with data := Function.update x.data slot (buffer ++ (x.data slot).drop buffer.length) }

def MessageQueue.setNext (slot : ℕ) (next : Option ℕ) (x : MessageQueue) : MessageQueue :=
  { x with next := Function.update x.next slot next }

def MessageQueue.linkLast (slot : ℕ) (x : MessageQueue) : MessageQueue :=
  let x := x.setNext slot none
  let x := match x.tail with
    | some last => x.setNext last (some slot)
    | none => x
  { x with tail := some slot, head := x.head.or (some slot), entry := (x.entry + 1) % 2 ^ 16 }

def MessageQueue.linkFirst (slot : ℕ) (x : MessageQueue) : MessageQueue :=
  let x := x.setNext slot x.head
  { x with head := some slot, tail := x.tail.or (some slot), entry := (x.entry + 1) % 2 ^ 16 }

def mqLink (urgent : Bool) (i slot : ℕ) (buffer : List UInt8) (k : Kernel) : Kernel :=
  let x := (k.mq i).write slot buffer
  resumeFirst (.mq i) (setMq i (if urgent then x.linkFirst slot else x.linkLast slot) k)

/-- From the head of the loop of `rt_mq_recv`. A queue that counts messages and has no
first one would have the code follow a null pointer. -/
def mqRecvLoop (i size : ℕ) (timeout tickDelta : BitVec 32) (k : Kernel) : Kernel :=
  if (k.mq i).entry = 0 then
    let k := setSelfError .eok k
    if timeout = 0 then finish .etimeout (setSelfError .etimeout k)
    else
      waitOn (.mq i) (k.mq i).flag timeout
        (.mqRecv i size timeout (if 0 < timeout.toInt then k.tick else tickDelta)) k
  else
    match (k.mq i).head with
    | none => k
    | some slot =>
      goTo (.mqFree i slot size)
        (setMq i
          { k.mq i with
            head := (k.mq i).next slot
            tail := if (k.mq i).tail = some slot then none else (k.mq i).tail
            entry := (k.mq i).entry - 1 } k)

def rtMqRecv (i size : ℕ) (timeout : BitVec 32) (k : Kernel) : Kernel :=
  if size = 0 then k
  else if (k.mq i).entry = 0 ∧ timeout = 0 then finish .etimeout k
  else mqRecvLoop i size timeout 0 k

def mqFree (i slot size : ℕ) (k : Kernel) : Kernel :=
  let x := k.mq i
  finish .eok (setMq i { x.setNext slot x.free with free := some slot }
    { k with
      buffer := Function.update k.buffer (rtThreadSelf k)
        ((x.data slot).take (if size > x.msgSize then x.msgSize else size)) })

end MessageQueues

section Threads

def rtThreadSleep (k : Kernel) : Kernel :=
  thenSchedule .sleep (onSched (fun s ↦
    let s := rtThreadSuspend (rtThreadSelf k) s
    { s with threadTimer := Function.update s.threadTimer (rtThreadSelf k) true }) k)

def threadStartup (t : ℕ) (k : Kernel) : Kernel :=
  match rtThreadStartup t k.sched with
  | some s => thenSchedule .done { k with sched := s }
  | none => k

end Threads

def continueWith (c : Cont) (k : Kernel) : Kernel :=
  let err := k.sched.error (rtThreadSelf k)
  match c with
  | .done => finish .eok k
  | .semTake => finish err k
  | .mutexTake m time => if err = .eintr then takeAgain m time k else finish err k
  | .eventRecv =>
    if err ≠ .eok then finish err k
    else finish .eok (setRecved (k.eventSet (rtThreadSelf k)) k)
  | .sleep => finish .eok (if err = .etimeout then setSelfError .eok k else k)
  | .mbSendWait i value timeout tickDelta =>
    if err ≠ .eok then finish err k
    else mbSendLoop i value (timeLeft timeout (k.tick - tickDelta)) tickDelta k
  | .mbRecv i timeout tickDelta =>
    if err ≠ .eok then finish err k
    else mbRecvLoop i (timeLeft timeout (k.tick - tickDelta)) tickDelta k
  | .mqRecv i size timeout tickDelta =>
    if err ≠ .eok then finish err k
    else mqRecvLoop i size (timeLeft timeout (k.tick - tickDelta)) tickDelta k

end GiantGecko.Rtos.Ipc
