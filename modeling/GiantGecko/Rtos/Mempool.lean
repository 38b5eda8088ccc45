import GiantGecko.Foundation.Transition
import GiantGecko.Rtos.Scheduler
import Mathlib.Data.BitVec
import Mathlib.Logic.Function.Basic

namespace GiantGecko.Rtos.Mempool

open Scheduler (timeLeft)

def word (n : ℕ) : ℕ := n % 2 ^ 32

def rtAlignSize : ℕ := 4

def rtAlign (n : ℕ) : ℕ := word (n + (rtAlignSize - 1)) / rtAlignSize * rtAlignSize

def rtAlignDown (n : ℕ) : ℕ := n / rtAlignSize * rtAlignSize

def pointerSize : ℕ := 4

structure Area where
  start : ℕ
  size : ℕ
  pos : 0 < start
  fits : start + size ≤ 2 ^ 32

variable {Thread : Type} [DecidableEq Thread]

/-- `struct rt_mempool`; `self` is where the structure itself is. -/
structure RtMempool (Thread : Type) where
  self : ℕ
  startAddress : ℕ
  size : ℕ
  blockSize : ℕ
  blockList : ℕ
  blockTotalCount : ℕ
  blockFreeCount : ℕ
  suspendThread : List Thread
  suspendThreadCount : ℕ

def stride (blockSize : ℕ) : ℕ := word (blockSize + pointerSize)

inductive RtErr
  | eok
  | etimeout
  deriving DecidableEq

structure RtThread where
  error : RtErr
  suspended : Bool
  timer : Bool
  call : Option (BitVec 32)

/-- The pool with the memory, of which only the first word of each block
matters, the threads, and the blocks that calls have returned and that have
not been freed. `halted` is the endless loop of a failed assertion, and `stray`
says that a thread has been resumed that is none. -/
structure System (Thread : Type) where
  mp : RtMempool Thread
  mem : ℕ → ℕ
  threads : Thread → RtThread
  allocated : List ℕ
  stray : Bool
  halted : Bool

def linkBlock (start stride : ℕ) (mem : ℕ → ℕ) (offset : ℕ) : ℕ → ℕ :=
  Function.update mem (start + offset * stride) (start + (offset + 1) * stride)

/-- The free list of `rt_mp_init`. The last word is written for the offset
before the end of the loop, whatever that is. -/
def linkBlocks (start stride total : ℕ) (mem : ℕ → ℕ) : ℕ → ℕ :=
  let mem := (List.range total).foldl (linkBlock start stride) mem
  Function.update mem (word (start + word (total + (2 ^ 32 - 1)) * stride)) 0

def rtMpInit (self : ℕ) (area : Area) (blockSize : ℕ) (mem : ℕ → ℕ) : System Thread :=
  let size := rtAlignDown area.size
  let blockSize := rtAlign blockSize
  let total := size / stride blockSize
  { mp := {
      self := self
      startAddress := area.start
      size := size
      blockSize := blockSize
      blockList := area.start
      blockTotalCount := total
      blockFreeCount := total
      suspendThread := []
      suspendThreadCount := 0 }
    mem := linkBlocks area.start (stride blockSize) total mem
    threads := fun _ ↦ ⟨.eok, false, false, none⟩
    allocated := []
    stray := false
    halted := false }

def setThread (t : Thread) (th : RtThread) (s : System Thread) : System Thread :=
  { s with threads := Function.update s.threads t th }

def takeBlock (s : System Thread) : System Thread :=
  let block := s.mp.blockList
  if block = 0 then { s with
    mp := { s.mp with blockFreeCount := s.mp.blockFreeCount - 1 }
    halted := true }
  else { s with
    mp := { s.mp with
      blockFreeCount := s.mp.blockFreeCount - 1
      blockList := s.mem block }
    mem := Function.update s.mem block s.mp.self
    allocated := block :: s.allocated }

/-- The thread gets onto `suspend_thread`, before those that are there. The
assertion of `rt_timer_start` does not let it wait for the longest time. -/
def suspendSelf (t : Thread) (time : BitVec 32) (s : System Thread) : System Thread :=
  { setThread t ⟨.eok, true, BitVec.slt 0 time, some time⟩ s with
    mp := { s.mp with
      suspendThread := t :: s.mp.suspendThread
      suspendThreadCount := s.mp.suspendThreadCount + 1 }
    halted := time = 0x7fffffff }

def rtMpAlloc (t : Thread) (time : BitVec 32) (s : System Thread) : System Thread :=
  if s.mp.blockFreeCount = 0 then
    if time = 0 then s else suspendSelf t time s
  else takeBlock s

def afterSchedule (t : Thread) (elapsed : BitVec 32) (s : System Thread) : System Thread :=
  match (s.threads t).call with
  | none => s
  | some time =>
    if (s.threads t).suspended then s
    else
      let s' := setThread t { s.threads t with call := none } s
      if (s.threads t).error ≠ .eok then s'
      else rtMpAlloc t (timeLeft time elapsed) s'

def rtThreadResume (t : Thread) (s : System Thread) : System Thread :=
  if (s.threads t).suspended then
    { setThread t { s.threads t with suspended := false, timer := false } s with
      mp := { s.mp with suspendThread := s.mp.suspendThread.erase t } }
  else s

def giveBlock (block : ℕ) (s : System Thread) : System Thread :=
  { s with
    mp := { s.mp with
      blockFreeCount := s.mp.blockFreeCount + 1
      blockList := block }
    mem := Function.update s.mem block s.mp.blockList
    allocated := s.allocated.erase block }

/-- Where the count of waiters is not 0, the first node of their list is taken
for a thread, the head of an empty list too. -/
def resumeWaiter (s : System Thread) : System Thread :=
  if 0 < s.mp.suspendThreadCount then
    let count := s.mp.suspendThreadCount - 1
    match s.mp.suspendThread with
    | [] => { s with mp := { s.mp with suspendThreadCount := count }, stray := true }
    | t :: _ =>
      let s := rtThreadResume t (setThread t { s.threads t with error := .eok } s)
      { s with mp := { s.mp with suspendThreadCount := count } }
  else s

def rtMpFree (block : ℕ) (s : System Thread) : System Thread :=
  if s.mem block ≠ s.mp.self then s else resumeWaiter (giveBlock block s)

/-- The thread timer, with the assertion that the thread is suspended. -/
def rtThreadTimeout (t : Thread) (s : System Thread) : System Thread :=
  if (s.threads t).suspended then
    { setThread t { s.threads t with error := .etimeout, suspended := false, timer := false } s with
      mp := { s.mp with suspendThread := s.mp.suspendThread.erase t } }
  else { s with halted := true }

inductive Event (Thread : Type)
  | alloc (t : Thread) (time : BitVec 32)
  | goOn (t : Thread) (elapsed : BitVec 32)
  | free (block : ℕ)
  | timeout (t : Thread)

def turn (s : System Thread) : Event Thread → System Thread
  | .alloc t time =>
    if (s.threads t).call = none ∨ time = 0 then rtMpAlloc t time s else s
  | .goOn t elapsed => afterSchedule t elapsed s
  | .free block => if block ∈ s.allocated then rtMpFree block s else s
  | .timeout t => if (s.threads t).timer then rtThreadTimeout t s else s

def step (s : System Thread) (e : Event Thread) : System Thread :=
  if s.halted then s else turn s e

end GiantGecko.Rtos.Mempool
