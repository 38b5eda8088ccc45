import Mathlib.Data.Nat.Notation
import Mathlib.Logic.Function.Basic

namespace GiantGecko.Rtos.Timer

def halfTickMax : ℕ := 0x7FFFFFFF

/-- A hard timer; `stamp` tells its last start from earlier and later ones. -/
structure RtTimer where
  initTick : BitVec 32
  timeoutTick : BitVec 32
  activated : Bool
  periodic : Bool
  stamp : ℕ

/-- The tick, the timers and `rt_timer_list`, which has one level; `randomNr` counts
the starts. -/
structure TimerSystem where
  tick : BitVec 32
  timer : ℕ → RtTimer
  list : List ℕ
  randomNr : ℕ

def TimerSystem.set (s : TimerSystem) (t : ℕ) (x : RtTimer) : TimerSystem :=
  { s with timer := Function.update s.timer t x }

@[simp] theorem TimerSystem.set_tick (s : TimerSystem) (t : ℕ) (x : RtTimer) :
    (s.set t x).tick = s.tick := rfl

@[simp] theorem TimerSystem.set_list (s : TimerSystem) (t : ℕ) (x : RtTimer) :
    (s.set t x).list = s.list := rfl

@[simp] theorem TimerSystem.set_randomNr (s : TimerSystem) (t : ℕ) (x : RtTimer) :
    (s.set t x).randomNr = s.randomNr := rfl

def rowInsert (timeout : ℕ → BitVec 32) (t : ℕ) : List ℕ → List ℕ
  | [] => [t]
  | p :: ps =>
    if (timeout p - timeout t).toNat = 0 then p :: rowInsert timeout t ps
    else if (timeout p - timeout t).toNat < halfTickMax then t :: p :: ps
    else p :: rowInsert timeout t ps

def armed (t : ℕ) (s : TimerSystem) : RtTimer :=
  { s.timer t with
    timeoutTick := s.tick + (s.timer t).initTick, activated := true, stamp := s.randomNr }

def rtTimerStart (t : ℕ) (s : TimerSystem) : Option TimerSystem :=
  if (s.timer t).initTick.toNat < halfTickMax then
    let s := s.set t (armed t s)
    some { s with
      list := rowInsert (fun p ↦ (s.timer p).timeoutTick) t (s.list.erase t)
      randomNr := s.randomNr + 1 }
  else none

def rtTimerStop (t : ℕ) (s : TimerSystem) : TimerSystem :=
  if (s.timer t).activated then
    { s.set t { s.timer t with activated := false } with list := s.list.erase t }
  else s

inductive Control
  | getTime
  | setTime (time : BitVec 32)
  | setOneshot
  | setPeriodic

def rtTimerControl (t : ℕ) (cmd : Control) (s : TimerSystem) : TimerSystem :=
  match cmd with
  | .getTime => s
  | .setTime time => s.set t { s.timer t with initTick := time }
  | .setOneshot => s.set t { s.timer t with periodic := false }
  | .setPeriodic => s.set t { s.timer t with periodic := true }

/-- The first timer of the list has run out: it is taken from the list and, having
called its function, starts again if it is periodic. -/
def expire (t : ℕ) (s : TimerSystem) : Option TimerSystem :=
  let s := { s with list := s.list.erase t }
  if (s.timer t).periodic && (s.timer t).activated then
    rtTimerStart t (s.set t { s.timer t with activated := false })
  else some (s.set t { s.timer t with activated := false })

/-- So many turns of the loop: the timers once it has ended, and those whose function it
has called, in order. -/
def rtTimerCheck : ℕ → TimerSystem → Option TimerSystem × List ℕ
  | 0, _ => (none, [])
  | turns + 1, s =>
    match s.list with
    | [] => (some s, [])
    | t :: _ =>
      if (s.tick - (s.timer t).timeoutTick).toNat < halfTickMax then
        match expire t s with
        | some s' => ((rtTimerCheck turns s').1, t :: (rtTimerCheck turns s').2)
        | none => (none, [t])
      else (some s, [])

def rtTickIncrease (s : TimerSystem) : TimerSystem := { s with tick := s.tick + 1 }

def rtTimerInit (initTick : ℕ → BitVec 32) (periodic : ℕ → Bool) : TimerSystem where
  tick := 0
  timer t := ⟨initTick t, 0, false, periodic t, 0⟩
  list := []
  randomNr := 0

end GiantGecko.Rtos.Timer
