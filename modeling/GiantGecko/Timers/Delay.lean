import GiantGecko.Foundation.Transition
import GiantGecko.Timers.HwTimer
import Mathlib.Logic.Function.Basic
import Mathlib.Data.Fintype.Basic
import Mathlib.Tactic.FinCases

namespace GiantGecko.Timers.Delay

open Foundation.Transition HwTimer

structure TimerRegs where
  top : ℕ
  cnt : ℕ
  running : Bool
  interrupts : Bool
  prescale : ℕ

abbrev Regs := Fin 3 → TimerRegs

def timerPrescale (freq : ℕ) : Option ℕ :=
  match freq with
  | 48000000 => some 1
  | 24000000 => some 2
  | 12000000 => some 4
  | 6000000 => some 8
  | 3000000 => some 16
  | 1500000 => some 32
  | 750000 => some 64
  | 375000 => some 128
  | 187500 => some 256
  | 93750 => some 512
  | _ => none

def timerInit (i : Fin 3) (prescale : ℕ) (r : Regs) : Regs :=
  Function.update r i { r i with cnt := 0, running := false, prescale := prescale }

/-- The counter read is that of `TIMER0`, whatever the timer. -/
def timerOps (i : Fin 3) : Ops Regs where
  init := timerInit i 32
  start t _ r := Function.update r i { r i with top := t, running := true, interrupts := true }
  stop r := Function.update r i { r i with running := false, interrupts := false }
  countGet r := (r 0).cnt
  setsFreq f := (timerPrescale f).isSome
  freqSet f := timerInit i ((timerPrescale f).getD 32)

def timerInfo : Info where
  maxfreq := 48000000
  minfreq := 93750
  maxcnt := 0xFFFF
  countsDown := false

/-- The three timers, the semaphore that the callback of each releases, and the
service routine in each entry of `timerCbTable`. -/
structure System where
  timers : Fin 3 → Timer
  regs : Regs
  rxIndicate : Fin 3 → Option (Fin 3)
  timerCbTable : Fin 3 → Option (Fin 3)

def System.device (s : System) (i : Fin 3) : Device Regs := ⟨s.timers i, s.regs⟩

def System.put (s : System) (i : Fin 3) (d : Device Regs) : System :=
  { s with timers := Function.update s.timers i d.timer, regs := d.hw }

/-- The frequency of `timer_init` replaces the one that the device has chosen. -/
def timerOpen (i : Fin 3) (s : System) : System :=
  let d := rtHwtimerInit (timerOps i) timerInfo (s.device i)
  let d := { d with timer := { d.timer with freq := 1500000 } }
  { s.put i (rtHwtimerOpen (timerOps i) d) with
    timerCbTable := Function.update s.timerCbTable i (some i) }

def timer0Callback : Fin 3 := 0

/-- All three devices get `timer0_callback`; the mode is read from the address that
`HWTIMER_MODE_ONESHOT` is taken for, where the word `word` stands. -/
def dlfHwDelayInit (word : ℕ) (s : System) : System :=
  [0, 1, 2].foldl (fun s i ↦
    let s := { s with rxIndicate := Function.update s.rxIndicate i (some timer0Callback) }
    let s := timerOpen i s
    let s := s.put i (hwtimerFreqSet (timerOps i) timerInfo 1500000 (s.device i))
    s.put i (hwtimerModeSet word (s.device i))) s

inductive Event
  | write (i : Fin 3) (n top : ℕ)
  | stop (i : Fin 3)
  | count (i : Fin 3) (cnt : ℕ)
  | overflow (i : Fin 3)
  | read (i : Fin 3)

def timerIsr (i : Fin 3) (s : System) : System × List (Fin 3) :=
  match s.timerCbTable i with
  | some j =>
    let (d, called) := rtDeviceHwtimerIsr (timerOps j) (s.device j)
    (s.put j d, if called then (s.rxIndicate j).toList else [])
  | none => (s, [])

def apply (s : System) : Event → System × List (Fin 3)
  | .write i n top => (s.put i (rtHwtimerWrite (timerOps i) n top (s.device i)), [])
  | .stop i => (s.put i (hwtimerStop (timerOps i) (s.device i)), [])
  | .count i cnt => ({ s with regs := Function.update s.regs i { s.regs i with cnt := cnt } }, [])
  | .overflow i =>
    if (s.regs i).running && (s.regs i).interrupts then timerIsr i s else (s, [])
  | .read _ => (s, [])

def step (s : System) (e : Event) : System := (apply s e).1

def TimesOut (s : System) (i : Fin 3) : Prop :=
  (s.regs i).running = true ∧ (s.regs i).interrupts = true ∧ (s.timers i).cycles ≤ 1

instance (s : System) (i : Fin 3) : Decidable (TimesOut s i) :=
  inferInstanceAs (Decidable (_ = true ∧ _ = true ∧ _ ≤ _))

/-- A timeout releases the semaphore of its timer, nothing else releases any, and
a timer reads its own counter. -/
def Independent (s : System) (e : Event) : Prop :=
  (∀ i, e = .overflow i → TimesOut s i → (apply s e).2 = [i]) ∧
    ((∀ i, e = .overflow i → ¬TimesOut s i) → (apply s e).2 = []) ∧
    ∀ i, e = .read i → (timerOps i).countGet s.regs = (s.regs i).cnt

/-- Only the timer 0 times out, and another is read only where its counter agrees
with that of the timer 0. -/
def OnlyFirst (s : System) (e : Event) : Prop :=
  (∀ i, e = .overflow i → TimesOut s i → i = 0) ∧ ∀ i, e = .read i → (s.regs 0).cnt = (s.regs i).cnt

structure Wired (s : System) : Prop where
  table : ∀ i, s.timerCbTable i = some i
  indicate : ∀ i, s.rxIndicate i = some timer0Callback

variable {s : System}

theorem Wired.put (h : Wired s) (i : Fin 3) (d : Device Regs) : Wired (s.put i d) :=
  ⟨h.table, h.indicate⟩

theorem Wired.timerIsr_eq (h : Wired s) (i : Fin 3) :
    timerIsr i s = (s.put i (rtDeviceHwtimerIsr (timerOps i) (s.device i)).1,
      if (rtDeviceHwtimerIsr (timerOps i) (s.device i)).2 then [0] else []) := by
  simp only [timerIsr, h.table, h.indicate]
  rfl

theorem wired_step (s : System) (e : Event) (h : Wired s) : Wired (step s e) := by
  cases e with
  | write i n top => exact h.put i _
  | stop i => exact h.put i _
  | count i cnt => exact ⟨h.table, h.indicate⟩
  | overflow i =>
    simp only [step, apply]
    split_ifs
    · rw [h.timerIsr_eq]
      exact h.put i _
    · exact h
  | read i => exact h

theorem wired_dlfHwDelayInit (word : ℕ) (s : System) : Wired (dlfHwDelayInit word s) := by
  constructor <;> intro i <;> fin_cases i <;> rfl

theorem isr_called (d : Device Regs) (i : Fin 3) :
    (rtDeviceHwtimerIsr (timerOps i) d).2 = true ↔ d.timer.cycles ≤ 1 := by
  simp only [rtDeviceHwtimerIsr, Nat.sub_eq_zero_iff_le]
  by_cases hlast : d.timer.cycles ≤ 1 <;> simp [hlast]

theorem Wired.releases (h : Wired s) (i : Fin 3) :
    (apply s (.overflow i)).2 = if TimesOut s i then [0] else [] := by
  have hcalled := isr_called (s.device i) i
  rw [apply]
  by_cases hserved : ((s.regs i).running && (s.regs i).interrupts) = true
  · rw [if_pos hserved, h.timerIsr_eq]
    rw [Bool.and_eq_true] at hserved
    by_cases hlast : (s.timers i).cycles ≤ 1
    · rw [if_pos (hcalled.mpr hlast), if_pos ⟨hserved.1, hserved.2, hlast⟩]
    · rw [if_neg fun htrue ↦ hlast (hcalled.mp htrue), if_neg fun hout ↦ hlast hout.2.2]
  · rw [if_neg hserved, if_neg]
    intro hout
    exact hserved (by rw [hout.1, hout.2.1, Bool.and_self])

theorem Wired.independent_step_iff (h : Wired s) (e : Event) : Independent s e ↔ OnlyFirst s e := by
  cases e with
  | overflow i =>
    have hreleases := h.releases i
    by_cases hout : TimesOut s i
    · rw [if_pos hout] at hreleases
      have hne : ¬∀ j, Event.overflow i = .overflow j → ¬TimesOut s j := fun hall ↦ hall i rfl hout
      simp only [Independent, OnlyFirst, hreleases, hne, false_implies, reduceCtorEq, implies_true,
        and_true]
      constructor
      · rintro hall j ⟨⟩ -
        exact (List.cons.inj (hall i rfl hout)).1.symm
      · rintro hall j ⟨⟩ -
        rw [hall i rfl hout]
    · rw [if_neg hout] at hreleases
      simp only [Independent, OnlyFirst, hreleases, implies_true, reduceCtorEq, false_implies, and_true]
      constructor <;> rintro - j ⟨⟩ hout' <;> exact absurd hout' hout
  | read i =>
    simp only [Independent, OnlyFirst, apply, timerOps, implies_true, reduceCtorEq, false_implies,
      true_and]
  | write i n top => simp [Independent, OnlyFirst, apply]
  | stop i => simp [Independent, OnlyFirst, apply]
  | count i cnt => simp [Independent, OnlyFirst, apply]

/-- All timers are wired to the semaphore and the counter of the timer 0. -/
theorem independent_iff (word : ℕ) (s : System) (es : List Event) :
    Along step Independent (dlfHwDelayInit word s) es ↔
      Along step OnlyFirst (dlfHwDelayInit word s) es :=
  along_congr (fun s e h _ ↦ wired_step s e h) (fun _ e h ↦ h.independent_step_iff e)
    (wired_dlfHwDelayInit word s) es

theorem not_independent : ¬ Along step Independent
    (dlfHwDelayInit 0 ⟨fun _ ↦ ⟨0, 0, 0, .oneshot⟩, fun _ ↦ ⟨0, 0, false, false, 1⟩,
      fun _ ↦ none, fun _ ↦ none⟩)
    [.write 1 1 1500, .overflow 1] := by
  intro h
  have hreleases : [(0 : Fin 3)] = [1] := h.2.1.1 1 rfl ⟨rfl, rfl, Nat.le_refl 1⟩
  cases hreleases

end GiantGecko.Timers.Delay
