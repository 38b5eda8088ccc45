import GiantGecko.Timers.Letimer
import Mathlib.Algebra.Order.Ring.Nat
import Mathlib.Data.Nat.Log
import Mathlib.Data.Nat.Prime.Basic

namespace GiantGecko.Timers.LetimerFreq

open HwTimer Letimer

def lfaClock : ℕ := 32768

def cmuDivToLog2 (div : ℕ) : ℕ := Nat.log2 div

/-- The decrements a second, after `CMU_ClockDivSet` has rounded the divider down
to a power of two. -/
def countingRate (r : LetimerRegs) : ℕ := lfaClock / 2 ^ cmuDivToLog2 r.div

def Accepted (f : ℕ) : Prop := letimerInfo.minfreq ≤ f ∧ f ≤ letimerInfo.maxfreq

/-- Until the frequency is set again, whatever is done with the timer, it counts
at the rate that is recorded for it, the one requested. -/
def Honest (s : State) (f : ℕ) : Prop :=
  ∀ es : List Event, (∀ e ∈ es, ∀ g, e ≠ .freqSet g) →
    (es.foldl step (step s (.freqSet f))).device.timer.freq = f ∧
      countingRate (es.foldl step (step s (.freqSet f))).device.hw = f

theorem step_freqSet (s : State) {f : ℕ} (h : Accepted f) :
    (step s (.freqSet f)).device.timer.freq = f ∧ (step s (.freqSet f)).device.hw.div = 32768 / f := by
  have hrange : ¬ (letimerInfo.maxfreq < f ∨ f < letimerInfo.minfreq) := by
    rw [not_or, not_lt, not_lt]
    exact h.symm
  simp only [step, apply, hwtimerFreqSet, if_neg hrange, letimerOps, if_true, and_self]

theorem underflow_frame (d : Device LetimerRegs) :
    (underflow d).1.timer.freq = d.timer.freq ∧ (underflow d).1.hw.div = d.hw.div := by
  simp only [underflow, rtDeviceHwtimerIsr, letimerOps]
  split_ifs <;> exact ⟨rfl, rfl⟩

theorem step_frame (s : State) {e : Event} (he : ∀ g, e ≠ .freqSet g) :
    (step s e).device.timer.freq = s.device.timer.freq ∧
      (step s e).device.hw.div = s.device.hw.div := by
  cases e with
  | modeSet mode => simp [step, apply, hwtimerModeSet]
  | infoGet => exact ⟨rfl, rfl⟩
  | freqSet f => exact absurd rfl (he f)
  | write n top =>
    simp only [step, apply, rtHwtimerWrite, letimerOps, letimerStart]
    split <;> exact ⟨trivial, rfl⟩
  | stop => exact ⟨rfl, rfl⟩
  | count cnt => exact ⟨rfl, rfl⟩
  | underflow => exact underflow_frame s.device

theorem run_frame (s : State) {es : List Event} (hes : ∀ e ∈ es, ∀ g, e ≠ .freqSet g) :
    (es.foldl step s).device.timer.freq = s.device.timer.freq ∧
      (es.foldl step s).device.hw.div = s.device.hw.div := by
  induction es generalizing s with
  | nil => exact ⟨rfl, rfl⟩
  | cons e es ih =>
    obtain ⟨hfreq, hdiv⟩ := step_frame s (hes e List.mem_cons_self)
    obtain ⟨hfreq', hdiv'⟩ := ih (step s e) fun e' he' ↦ hes e' (List.mem_cons_of_mem _ he')
    exact ⟨hfreq'.trans hfreq, hdiv'.trans hdiv⟩

/-- The quotient rounded down to a power of two gives the frequency back just
when the frequency is a power of two itself. -/
theorem rate_eq_iff (n : ℕ) {f : ℕ} (hf : f ≠ 0) (hle : f ≤ 2 ^ n) :
    2 ^ n / 2 ^ Nat.log2 (2 ^ n / f) = f ↔ f ∣ 2 ^ n := by
  constructor
  · intro h
    have hlog : Nat.log2 (2 ^ n / f) ≤ n := by
      refine Nat.le_of_lt_succ ((Nat.log2_lt ?_).mpr ?_)
      · exact (Nat.div_pos hle (Nat.pos_of_ne_zero hf)).ne'
      · have := Nat.div_le_self (2 ^ n) f
        have := Nat.pow_lt_pow_right (a := 2) (by decide) (Nat.lt_succ_self n)
        omega
    rw [← h, Nat.pow_div hlog (by decide)]
    exact Nat.pow_dvd_pow 2 (Nat.sub_le n _)
  · intro h
    obtain ⟨k, hk, rfl⟩ := (Nat.dvd_prime_pow Nat.prime_two).mp h
    rw [Nat.pow_div hk (by decide), Nat.log2_two_pow, Nat.pow_div (Nat.sub_le n k) (by decide)]
    congr 1
    omega

theorem honest_iff (s : State) (f : ℕ) (h : Accepted f) : Honest s f ↔ f ∣ 32768 := by
  obtain ⟨hfreq, hdiv⟩ := step_freqSet s h
  have hrate := rate_eq_iff 15 (f := f) (by have := h.1; simp only [letimerInfo] at this; omega) h.2
  constructor
  · intro hhonest
    have hnow := (hhonest [] (by simp)).2
    simp only [List.foldl_nil, countingRate, hdiv] at hnow
    exact hrate.mp hnow
  · intro hdvd es hes
    obtain ⟨hfreq', hdiv'⟩ := run_frame (step s (.freqSet f)) hes
    refine ⟨hfreq'.trans hfreq, ?_⟩
    rw [countingRate, hdiv', hdiv]
    exact hrate.mpr hdvd

theorem honest_kilohertz : Honest opened 1024 ↔ 1024 ∣ 32768 :=
  honest_iff opened 1024 ⟨by decide, by decide⟩

theorem thousand_hertz_off : ¬ ∀ s f, Accepted f → Honest s f := by
  intro h
  have hrate := (h opened 1000 ⟨by decide, by decide⟩ [] (by simp)).2
  exact absurd hrate (by decide)

end GiantGecko.Timers.LetimerFreq
