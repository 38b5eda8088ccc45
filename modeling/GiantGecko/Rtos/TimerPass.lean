import GiantGecko.Foundation.Transition
import GiantGecko.Rtos.Timer

namespace GiantGecko.Rtos.TimerPass

open Timer (halfTickMax rowInsert Control)

structure RtTimer where
  initTick : BitVec 32
  timeoutTick : BitVec 32
  activated : Bool
  periodic : Bool
  soft : Bool

/-- `rt_timer_check`, which has interrupts disabled: about to look at the first
timer, or in the function of one. -/
inductive HardPass
  | look
  | calls (t : ℕ)
  deriving DecidableEq

/-- `rt_soft_timer_check` with the node that it comes to next, `none` for the
head of the list: about to look at it, with the tick it goes by, or in the
function of a timer. -/
inductive SoftPass
  | look (n : Option ℕ) (currentTick : BitVec 32)
  | calls (t : ℕ) (n : Option ℕ)
  deriving DecidableEq

inductive RtErr
  | eok
  | error
  deriving DecidableEq

/-- Both timer lists have one level. `fired` records the calls of timeout
functions, and `halted` is the endless loop of a failed assertion. -/
structure TimerSystem where
  tick : BitVec 32
  timer : ℕ → RtTimer
  rtTimerList : List ℕ
  rtSoftTimerList : List ℕ
  hard : Option HardPass
  soft : Option SoftPass
  fired : List ℕ
  halted : Bool

def TimerSystem.set (s : TimerSystem) (t : ℕ) (x : RtTimer) : TimerSystem :=
  { s with timer := Function.update s.timer t x }

def rtTimerRemove (t : ℕ) (s : TimerSystem) : TimerSystem :=
  { s with
    rtTimerList := s.rtTimerList.erase t
    rtSoftTimerList := s.rtSoftTimerList.erase t }

def deactivate (t : ℕ) (s : TimerSystem) : TimerSystem :=
  s.set t { s.timer t with activated := false }

def insert (t : ℕ) (s : TimerSystem) : TimerSystem :=
  if (s.timer t).soft then
    { s with
      rtSoftTimerList := rowInsert (fun p ↦ (s.timer p).timeoutTick) t s.rtSoftTimerList }
  else { s with rtTimerList := rowInsert (fun p ↦ (s.timer p).timeoutTick) t s.rtTimerList }

def rtTimerStart (t : ℕ) (s : TimerSystem) : TimerSystem :=
  let s := deactivate t (rtTimerRemove t s)
  if (s.timer t).initTick.toNat < halfTickMax then
    let s := insert t (s.set t
      { s.timer t with timeoutTick := s.tick + (s.timer t).initTick })
    s.set t { s.timer t with activated := true }
  else { s with halted := true }

def rtTimerStop (t : ℕ) (s : TimerSystem) : RtErr × TimerSystem :=
  if (s.timer t).activated then (.eok, deactivate t (rtTimerRemove t s)) else (.error, s)

def rtTimerControl (t : ℕ) (cmd : Control) (s : TimerSystem) : TimerSystem :=
  match cmd with
  | .getTime => s
  | .setTime time => s.set t { s.timer t with initTick := time }
  | .setOneshot => s.set t { s.timer t with periodic := false }
  | .setPeriodic => s.set t { s.timer t with periodic := true }

/-- The tick is not before the timeout, by half the range of the counter. -/
def due (currentTick : BitVec 32) (x : RtTimer) : Prop :=
  (currentTick - x.timeoutTick).toNat < halfTickMax

instance (currentTick : BitVec 32) (x : RtTimer) : Decidable (due currentTick x) :=
  inferInstanceAs (Decidable (_ < _))

def restart (t : ℕ) (s : TimerSystem) : TimerSystem :=
  if (s.timer t).periodic ∧ (s.timer t).activated then rtTimerStart t (deactivate t s)
  else deactivate t s

def hardTurn (s : TimerSystem) : TimerSystem :=
  match s.rtTimerList with
  | [] => { s with hard := none }
  | t :: _ =>
    if due s.tick (s.timer t) then
      { rtTimerRemove t s with hard := some (.calls t), fired := s.fired ++ [t] }
    else { s with hard := none }

/-- The node behind a timer, which is its own neighbour where it is in no list. -/
def nextNode (t : ℕ) (l : List ℕ) : Option ℕ :=
  if t ∈ l then (l.dropWhile (· ≠ t)).tail.head? else some t

def softTurn (n : Option ℕ) (currentTick : BitVec 32) (s : TimerSystem) : TimerSystem :=
  match n with
  | none => { s with soft := none }
  | some t =>
    if due currentTick (s.timer t) then
      { rtTimerRemove t s with
        soft := some (.calls t (nextNode t s.rtSoftTimerList))
        fired := s.fired ++ [t] }
    else { s with soft := none }

inductive Event
  | start (t : ℕ)
  | stop (t : ℕ)
  | control (t : ℕ) (cmd : Control)
  | tickIncrease
  | hardCheck
  | hardTurn
  | hardReturn
  | softCheck
  | softTurn
  | softReturn

def call (s : TimerSystem) : Event → TimerSystem
  | .start t => rtTimerStart t s
  | .stop t => (rtTimerStop t s).2
  | .control t cmd => rtTimerControl t cmd s
  | _ => s

def inHard (t : ℕ) (s : TimerSystem) : Event → TimerSystem
  | .hardReturn => { restart t s with hard := some .look }
  | e => call s e

def outside (s : TimerSystem) : Event → TimerSystem
  | .tickIncrease => { s with tick := s.tick + 1 }
  | .hardCheck => { s with hard := some .look }
  | .softCheck =>
    match s.soft with
    | none => { s with soft := some (.look s.rtSoftTimerList.head? s.tick) }
    | some _ => s
  | .softTurn =>
    match s.soft with
    | some (.look n currentTick) => softTurn n currentTick s
    | _ => s
  | .softReturn =>
    match s.soft with
    | some (.calls t n) => { restart t s with soft := some (.look n s.tick) }
    | _ => s
  | e => call s e

def turn (s : TimerSystem) (e : Event) : TimerSystem :=
  match s.hard with
  | none => outside s e
  | some (.calls t) => inHard t s e
  | some .look =>
    match e with
    | .hardTurn => hardTurn s
    | _ => s

def step (s : TimerSystem) (e : Event) : TimerSystem := if s.halted then s else turn s e

def rtTimerInit (initTick : ℕ → BitVec 32) (periodic soft : ℕ → Bool) : TimerSystem where
  tick := 0
  timer t := ⟨initTick t, 0, false, periodic t, soft t⟩
  rtTimerList := []
  rtSoftTimerList := []
  hard := none
  soft := none
  fired := []
  halted := false

end GiantGecko.Rtos.TimerPass
