import GiantGecko.Foundation.Transition

namespace GiantGecko.Pm.PowerManager

inductive Source
  | hfxo | hfrco
  deriving DecidableEq

inductive Band
  | mhz1 | mhz7 | mhz11 | mhz14 | mhz21 | mhz28
  deriving DecidableEq

structure Cmu where
  source : Source
  band : Band
  deriving DecidableEq

/-- What the power manager's calls reach of the chip; `on` until it enters EM4. -/
structure Chip where
  cmu : Cmu
  reload : ℕ
  on : Bool

def rtTickPerSecond : ℕ := 1000

section Emodes

variable (prodRev : ℕ)

def hfrcoFreq : Band → ℕ
  | .mhz28 => 28000000
  | .mhz21 => 21000000
  | .mhz14 => 14000000
  | .mhz11 => 11000000
  | .mhz7 => if 19 ≤ prodRev then 6600000 else 7000000
  | .mhz1 => if 19 ≤ prodRev then 1200000 else 1000000

def systemCoreClockGet (c : Cmu) : ℕ :=
  match c.source with
  | .hfxo => 48000000
  | .hfrco => hfrcoFreq prodRev c.band

def sysTickConfiguration (c : Chip) : Chip :=
  { c with reload := systemCoreClockGet prodRev c.cmu / rtTickPerSecond }

def emEM0Hfxo (c : Chip) : Chip :=
  sysTickConfiguration prodRev { c with cmu := { c.cmu with source := .hfxo } }

def emEM1Hfrco (band : Band) (c : Chip) : Chip :=
  sysTickConfiguration prodRev { c with cmu := ⟨.hfrco, band⟩ }

/-- `EMU_EnterEM2(true)` restores the clock that was selected. -/
def emEM2Lfxo (c : Chip) : Chip := sysTickConfiguration prodRev c

/-- `EMU_EnterEM3(false)` wakes up on the HFRCO, in the band it is set to. -/
def emEM3 (c : Chip) : Chip := { c with cmu := { c.cmu with source := .hfrco } }

def emEM4 (c : Chip) : Chip := { c with on := false }

/-- The sleep modes are `PM_SLEEP_MODE_NONE` (0), `IDLE`, `LIGHT`, `DEEP`, `STANDBY`
and `SHUTDOWN` (5); any other mode is stopped by an assertion. -/
def sleep (mode : ℕ) (c : Chip) : Chip :=
  match mode with
  | 0 | 1 => c
  | 2 => emEM1Hfrco prodRev .mhz1 c
  | 3 => emEM2Lfxo prodRev c
  | 4 => emEM3 c
  | 5 => emEM4 c
  | _ => { c with on := false }

end Emodes

structure RtPm where
  modes : ℕ → ℕ
  sleepMode : ℕ
  runMode : ℕ
  frequencyPending : Bool

structure System where
  pm : RtPm
  lastMode : ℕ
  chip : Chip

section Manager

variable (prodRev : ℕ)

/-- The run modes are `PM_RUN_MODE_HIGH_SPEED` (0), `NORMAL_SPEED`, `MEDIUM_SPEED`
and `LOW_SPEED` (3). -/
def run (mode : ℕ) (s : System) : System :=
  if mode = s.lastMode then s
  else
    { s with
      lastMode := mode
      chip := match mode with
        | 0 => emEM0Hfxo prodRev s.chip
        | 1 => emEM1Hfrco prodRev .mhz28 s.chip
        | 2 => emEM1Hfrco prodRev .mhz11 s.chip
        | 3 => emEM1Hfrco prodRev .mhz1 s.chip
        | _ => { s.chip with on := false } }

def pmFrequencyScaling (s : System) : System :=
  if s.pm.frequencyPending then
    let s := run prodRev s.pm.runMode s
    { s with pm := { s.pm with frequencyPending := false } }
  else s

def pmDefaultSleep : ℕ := 1

def pmSelectSleepMode (pm : RtPm) : ℕ :=
  ((List.range 6).find? fun mode ↦ pm.modes mode ≠ 0).getD pmDefaultSleep

/-- The devices may refuse to suspend, unless the mode is `PM_SLEEP_MODE_NONE`. -/
def pmChangeSleepMode (mode : ℕ) (suspended : Bool) (s : System) : System :=
  if mode = 0 ∨ suspended then { s with chip := sleep prodRev mode s.chip } else s

def rtSystemPowerManager (suspended : Bool) (s : System) : System :=
  let s := pmFrequencyScaling prodRev s
  let mode := pmSelectSleepMode s.pm
  pmChangeSleepMode prodRev mode suspended { s with pm := { s.pm with sleepMode := mode } }

def rtPmRequest (mode : ℕ) (s : System) : System :=
  if mode ≤ 5 ∧ s.pm.modes mode < 255 then
    { s with pm := { s.pm with modes := Function.update s.pm.modes mode (s.pm.modes mode + 1) } }
  else s

def rtPmRelease (mode : ℕ) (s : System) : System :=
  if mode ≤ 5 ∧ 0 < s.pm.modes mode then
    { s with pm := { s.pm with modes := Function.update s.pm.modes mode (s.pm.modes mode - 1) } }
  else s

/-- `PM_RUN_MODE_MAX` (4), which is no mode, passes the check. -/
def rtPmRunEnter (mode : ℕ) (s : System) : System :=
  if 4 < mode then s
  else
    let s :=
      if mode < s.pm.runMode then run prodRev mode s
      else { s with pm := { s.pm with frequencyPending := true } }
    { s with pm := { s.pm with runMode := mode } }

end Manager

/-- As the board's initialisation leaves it: on the HFXO, the HFRCO in its reset
band, and the manager in `PM_RUN_MODE_NORMAL_SPEED`. -/
def rtHwPmInit : System where
  pm := ⟨fun _ ↦ 0, pmDefaultSleep, 1, false⟩
  lastMode := 0
  chip := ⟨⟨.hfxo, .mhz14⟩, 48000, true⟩

end GiantGecko.Pm.PowerManager
