import Mathlib.Data.Nat.Notation

namespace GiantGecko.Timers.HwTimer

inductive Mode
  | oneshot | period
  deriving DecidableEq

def Mode.ofWord : ℕ → Option Mode
  | 1 => some .oneshot
  | 2 => some .period
  | _ => none

def Mode.word : Mode → ℕ
  | .oneshot => 1
  | .period => 2

@[simp] theorem Mode.ofWord_word (mode : Mode) : Mode.ofWord mode.word = some mode := by
  cases mode <;> rfl

structure Info where
  maxfreq : ℕ
  minfreq : ℕ
  maxcnt : ℕ
  countsDown : Bool

structure Ops (η : Type) where
  init : η → η
  start : ℕ → Mode → η → η
  stop : η → η
  countGet : η → ℕ
  /-- Whether the frequency is one that the driver can set. -/
  setsFreq : ℕ → Bool
  freqSet : ℕ → η → η

structure Timer where
  freq : ℕ
  cycles : ℕ
  reload : ℕ
  mode : Mode
  deriving DecidableEq

structure Device (η : Type) where
  timer : Timer
  hw : η

section Operations

variable {η : Type} (ops : Ops η) (info : Info)

def rtHwtimerInit (d : Device η) : Device η where
  timer :=
    { d.timer with
      freq := if 1000000 ≤ info.maxfreq ∧ info.minfreq ≤ 1000000 then 1000000 else info.minfreq
      mode := .oneshot
      cycles := 0 }
  hw := ops.init d.hw

/-- The answer of the driver is not looked at. -/
def rtHwtimerOpen (d : Device η) : Device η :=
  if ops.setsFreq d.timer.freq then { d with hw := ops.freqSet d.timer.freq d.hw } else d

/-- A write whose timeout comes out as `n` cycles up to `top`. -/
def rtHwtimerWrite (n top : ℕ) (d : Device η) : Device η :=
  let timer := { d.timer with cycles := n, reload := n }
  let opm := if timer.cycles ≤ 1 ∧ timer.mode = .oneshot then .oneshot else .period
  ⟨timer, ops.start top opm (ops.stop d.hw)⟩

def hwtimerStop (d : Device η) : Device η := { d with hw := ops.stop d.hw }

def hwtimerFreqSet (f : ℕ) (d : Device η) : Device η :=
  if info.maxfreq < f ∨ f < info.minfreq then d
  else if ops.setsFreq f then ⟨{ d.timer with freq := f }, ops.freqSet f d.hw⟩
  else d

def hwtimerModeSet (m : ℕ) (d : Device η) : Device η :=
  match Mode.ofWord m with
  | some mode => { d with timer := { d.timer with mode := mode } }
  | none => d

/-- The command falls through to `HWTIMER_CTRL_MODE_SET` with the information it
has just written, whose first word is `maxfreq`. -/
def hwtimerInfoGet (d : Device η) : Device η := hwtimerModeSet info.maxfreq d

def rtDeviceHwtimerIsr (d : Device η) : Device η × Bool :=
  let timer := { d.timer with cycles := d.timer.cycles - 1 }
  if timer.cycles = 0 then
    (⟨{ timer with cycles := timer.reload },
      if timer.mode = .oneshot then ops.stop d.hw else d.hw⟩, true)
  else ({ d with timer := timer }, false)

end Operations

end GiantGecko.Timers.HwTimer
