import GiantGecko.Rtos.Ipc

namespace GiantGecko.Rtos.Interleaving

open Scheduler Ipc

inductive Call
  | semTake (i : ℕ) (time : BitVec 32)
  | semRelease (i : ℕ)
  | mutexTake (m : ℕ) (time : BitVec 32)
  | mutexRelease (m : ℕ)
  | eventSend (e : ℕ) (set : BitVec 32)
  | eventRecv (e : ℕ) (set : BitVec 32) (option : EventOption) (timeout : BitVec 32)
  | mbSendWait (i : ℕ) (value timeout : BitVec 32)
  | mbRecv (i : ℕ) (timeout : BitVec 32)
  | mqSend (i : ℕ) (buffer : List UInt8)
  | mqUrgent (i : ℕ) (buffer : List UInt8)
  | mqRecv (i size : ℕ) (timeout : BitVec 32)
  | sleep
  | startup (t : ℕ)

def invoke (c : Call) : Kernel → Kernel :=
  match c with
  | .semTake i time => rtSemTake i time
  | .semRelease i => rtSemRelease i
  | .mutexTake m time => rtMutexTake m time
  | .mutexRelease m => rtMutexRelease m
  | .eventSend e set => rtEventSend e set
  | .eventRecv e set option timeout => rtEventRecv e set option timeout
  | .mbSendWait i value timeout => rtMbSendWait i value timeout
  | .mbRecv i timeout => rtMbRecv i timeout
  | .mqSend i buffer => rtMqSend false i buffer
  | .mqUrgent i buffer => rtMqSend true i buffer
  | .mqRecv i size timeout => rtMqRecv i size timeout
  | .sleep => rtThreadSleep
  | .startup t => threadStartup t

/-- The current thread calls the kernel, or goes on in a call; or an interrupt comes,
for the timer of a thread or for the tick. -/
inductive Input
  | call (c : Call)
  | go
  | timeout (t : ℕ)
  | tick

def idleThread : ℕ := 0

def proceed (k : Kernel) : Kernel :=
  match k.pc (rtThreadSelf k) with
  | .user => k
  | .schedule c => onSched rtSchedule (goTo (.resumed c) k)
  | .resumed c => continueWith c k
  | .mqLink urgent i slot buffer => mqLink urgent i slot buffer k
  | .mqFree i slot size => mqFree i slot size k

/-- `rt_tick_increase` but for `rt_timer_check`. -/
def rtTickIncrease (k : Kernel) : Kernel :=
  let t := rtThreadSelf k
  let k := { k with tick := k.tick + 1 }
  if k.remainingTick t - 1 = 0 then
    onSched rtSchedule { k with remainingTick := Function.update k.remainingTick t (k.initTick t) }
  else { k with remainingTick := Function.update k.remainingTick t (k.remainingTick t - 1) }

def step (k : Kernel) : Input → Kernel
  | .call c =>
    match k.pc (rtThreadSelf k) with
    | .user => if rtThreadSelf k = idleThread then k else invoke c k
    | _ => k
  | .go => proceed k
  | .timeout t => if k.sched.threadTimer t then onSched (rtThreadTimeout t) k else k
  | .tick => rtTickIncrease k

def rtMqInit (msgSize maxMsgs : ℕ) (pool : ℕ → List UInt8) (flag : IpcFlag) : MessageQueue :=
  (List.range maxMsgs).foldl (fun x slot ↦ { x.setNext slot x.free with free := some slot })
    ⟨msgSize, 0, none, none, none, fun _ ↦ none, pool, flag⟩

structure Setup where
  priority : ℕ → ℕ
  priority_lt : ∀ t, priority t < rtThreadPriorityMax
  priority_idle : priority idleThread = rtThreadPriorityMax - 1
  initTick : ℕ → BitVec 32
  sem : ℕ → Semaphore
  mutexFlag : ℕ → IpcFlag
  eventFlag : ℕ → IpcFlag
  mbSize : ℕ → ℕ
  mbFlag : ℕ → IpcFlag
  mqMsgSize : ℕ → ℕ
  mqMaxMsgs : ℕ → ℕ
  mqPool : ℕ → ℕ → List UInt8
  mqFlag : ℕ → IpcFlag

def mainThread : ℕ := 1

/-- The main thread runs, the idle thread is READY and no other is started. -/
def boot (c : Setup) : Kernel where
  sched :=
    { initPriority := c.priority
      currentPriority := c.priority
      numberMask := fun t ↦
        if t = idleThread ∨ t = mainThread then 1#32 <<< c.priority t else 0
      stat := fun t ↦ if t = idleThread then .ready else if t = mainThread then .running else .init
      error := fun _ ↦ .eok
      threadTimer := fun _ ↦ false
      queue := fun h ↦ if h = .ready (c.priority idleThread) then [idleThread] else []
      readyPriorityGroup := 1#32 <<< c.priority idleThread
      currentThread := mainThread
      lockNest := 0 }
  sem := c.sem
  mutex m := ⟨1, 0xFF, 0, none, c.mutexFlag m, fun _ ↦ 0⟩
  event e := ⟨0, c.eventFlag e⟩
  mb i := ⟨fun _ ↦ 0, c.mbSize i, 0, 0, 0, c.mbFlag i⟩
  mq i := rtMqInit (c.mqMsgSize i) (c.mqMaxMsgs i) (c.mqPool i) (c.mqFlag i)
  eventSet _ := 0
  eventInfo _ := ⟨false, false, false⟩
  tick := 0
  initTick := c.initTick
  remainingTick := c.initTick
  pc _ := .user
  result _ := .eok
  recved _ := 0
  buffer _ := []

def threeThreads : Setup where
  priority t := if t = 0 then 31 else if t = 1 then 20 else if t = 2 then 10 else 15
  priority_lt t := by
    dsimp only [rtThreadPriorityMax]
    split_ifs <;> omega
  priority_idle := rfl
  initTick _ := 10
  sem _ := ⟨0, .fifo⟩
  mutexFlag _ := .prio
  eventFlag _ := .prio
  mbSize _ := 4
  mbFlag _ := .prio
  mqMsgSize _ := 4
  mqMaxMsgs _ := 4
  mqPool _ _ := []
  mqFlag _ := .prio

end GiantGecko.Rtos.Interleaving
