import GiantGecko.Foundation.Transition
import Mathlib.Data.Nat.ModEq
import Mathlib.Tactic.Ring

namespace GiantGecko.Timers.Rtc

open Foundation.Transition

def rtcCntMask : BitVec 32 := 0x00FFFFFF

structure Clock where
  cnt : BitVec 24
  overflow : Bool
  rtcTime : BitVec 32

def Clock.tick (r : Clock) : Clock :=
  { r with cnt := r.cnt + 1, overflow := r.overflow || r.cnt + 1 == 0 }

def rtHwRtcIsr (r : Clock) : Clock :=
  { r with
    rtcTime := if r.overflow then r.rtcTime + rtcCntMask else r.rtcTime
    overflow := false }

def rtcIrqHandler (r : Clock) : Clock := if r.overflow then rtHwRtcIsr r else r

def getTime (r : Clock) : BitVec 32 := r.rtcTime + r.cnt.setWidth 32

/-- `RT_DEVICE_CTRL_RTC_SET_TIME`: the counter starts again, a pending overflow
stays pending. -/
def setTime (time : BitVec 32) (r : Clock) : Clock := { r with rtcTime := time, cnt := 0 }

inductive Event
  | tick
  | interrupt
  | setTime (time : BitVec 32)
  | getTime

/-- The clock, with the time of the last `SET_TIME`, the ticks since and the
overflows served since. -/
structure State where
  rtc : Clock
  time : BitVec 32
  ticks : ℕ
  served : ℕ

def step (s : State) : Event → State
  | .tick => { s with rtc := s.rtc.tick, ticks := s.ticks + 1 }
  | .interrupt =>
    { s with
      rtc := rtcIrqHandler s.rtc
      served := if s.rtc.overflow then s.served + 1 else s.served }
  | .setTime time => ⟨setTime time s.rtc, time, 0, 0⟩
  | .getTime => s

def reset : State := ⟨⟨0, false, 0⟩, 0, 0, 0⟩

/-- A reading, made with no overflow pending, has not drifted. -/
def Exact (s : State) (e : Event) : Prop :=
  e = .getTime → s.rtc.overflow = false → getTime s.rtc = s.time + BitVec.ofNat 32 s.ticks

/-- What the interrupts have added is what the counter has lost in its wraps. -/
def Compensated (s : State) (e : Event) : Prop :=
  e = .getTime → s.rtc.overflow = false →
    s.served * (2 ^ 24 - 1) ≡ s.ticks / 2 ^ 24 * 2 ^ 24 [MOD 2 ^ 32]

structure Inv (s : State) : Prop where
  cnt : s.rtc.cnt = BitVec.ofNat 24 s.ticks
  rtcTime : s.rtc.rtcTime = s.time + BitVec.ofNat 32 (s.served * (2 ^ 24 - 1))

theorem inv_step (s : State) (e : Event) (h : Inv s) : Inv (step s e) := by
  cases e with
  | tick =>
    refine ⟨?_, h.rtcTime⟩
    change s.rtc.cnt + 1 = BitVec.ofNat 24 (s.ticks + 1)
    rw [h.cnt, BitVec.ofNat_add]
    rfl
  | interrupt =>
    cases hof : s.rtc.overflow with
    | false =>
      have hsame : step s .interrupt = s := by
        simp only [step, rtcIrqHandler, hof, Bool.false_eq_true, if_false]
      rw [hsame]
      exact h
    | true =>
      simp only [step, rtcIrqHandler, rtHwRtcIsr, hof, if_true]
      refine ⟨h.cnt, ?_⟩
      rw [h.rtcTime, Nat.succ_mul, BitVec.ofNat_add, BitVec.add_assoc]
      rfl
  | setTime time =>
    refine ⟨rfl, ?_⟩
    simp only [step, setTime, Nat.zero_mul, BitVec.ofNat_eq_ofNat, BitVec.add_zero]
  | getTime => exact h

theorem Inv.exact_iff {s : State} (h : Inv s) (e : Event) : Exact s e ↔ Compensated s e := by
  refine forall_congr' fun _ ↦ forall_congr' fun _ ↦ ?_
  have hcnt : s.rtc.cnt.setWidth 32 = BitVec.ofNat 32 (s.ticks % 2 ^ 24) := by
    apply BitVec.eq_of_toNat_eq
    rw [h.cnt, BitVec.toNat_setWidth, BitVec.toNat_ofNat, BitVec.toNat_ofNat]
  have hticks : s.ticks = s.ticks / 2 ^ 24 * 2 ^ 24 + s.ticks % 2 ^ 24 := by
    rw [Nat.mul_comm, Nat.div_add_mod]
  have hreading : getTime s.rtc = s.time + BitVec.ofNat 32 (s.served * (2 ^ 24 - 1)) +
      BitVec.ofNat 32 (s.ticks % 2 ^ 24) := by
    rw [getTime, h.rtcTime, hcnt]
  have hdue : s.time + BitVec.ofNat 32 s.ticks = s.time +
      BitVec.ofNat 32 (s.ticks / 2 ^ 24 * 2 ^ 24) + BitVec.ofNat 32 (s.ticks % 2 ^ 24) := by
    rw [BitVec.add_assoc, ← BitVec.ofNat_add, ← hticks]
  rw [hreading, hdue, BitVec.add_left_inj, BitVec.add_right_inj, ← BitVec.toNat_inj,
    BitVec.toNat_ofNat, BitVec.toNat_ofNat]
  exact Iff.rfl

/-- The interrupt adds one tick too little at each wrap. -/
theorem exact_iff_compensated (es : List Event) :
    Along step Exact reset es ↔ Along step Compensated reset es :=
  along_congr (fun s e h _ ↦ inv_step s e h) (fun _ e h ↦ h.exact_iff e) ⟨rfl, rfl⟩ es

theorem ticks_run {n : ℕ} (hn : n < 2 ^ 24) :
    (List.replicate n Event.tick).foldl step reset = ⟨⟨BitVec.ofNat 24 n, false, 0⟩, 0, n, 0⟩ := by
  induction n with
  | zero => rfl
  | succ n ih =>
    have hcnt : BitVec.ofNat 24 n + 1 = BitVec.ofNat 24 (n + 1) := (BitVec.ofNat_add n 1).symm
    have hne : (BitVec.ofNat 24 (n + 1) == 0) = false := by
      rw [beq_eq_false_iff_ne]
      intro hzero
      have hnat := congrArg BitVec.toNat hzero
      rw [BitVec.toNat_ofNat, Nat.mod_eq_of_lt hn] at hnat
      exact Nat.succ_ne_zero n hnat
    rw [List.replicate_succ', List.foldl_append, ih (by omega), List.foldl_cons, List.foldl_nil]
    simp only [step, Clock.tick, hcnt, hne, Bool.or_self]

/-- After the first wrap, some 194 days after the start, the clock is a tick
behind. -/
theorem not_exact : ¬ Along step Exact reset
    (List.replicate (2 ^ 24) .tick ++ [.interrupt, .getTime]) := by
  have hrun : (List.replicate (2 ^ 24) Event.tick).foldl step reset =
      ⟨⟨0, true, 0⟩, 0, 2 ^ 24, 0⟩ := by
    rw [show 2 ^ 24 = (2 ^ 24 - 1) + 1 from rfl, List.replicate_succ', List.foldl_append,
      ticks_run (by omega)]
    rfl
  rw [along_append, hrun]
  intro h
  have hread := h.2.2.1 rfl rfl
  revert hread
  decide

def Prompt (s : State) : Event → Prop
  | .tick => s.rtc.cnt + 1 = 0 → s.rtc.overflow = false
  | .setTime _ => s.rtc.overflow = false
  | _ => True

theorem served_step (s : State) (e : Event)
    (h : Inv s ∧ s.served + s.rtc.overflow.toNat = s.ticks / 2 ^ 24) (he : Prompt s e) :
    Inv (step s e) ∧
      (step s e).served + (step s e).rtc.overflow.toNat = (step s e).ticks / 2 ^ 24 := by
  refine ⟨inv_step s e h.1, ?_⟩
  obtain ⟨hinv, hcount⟩ := h
  cases e with
  | tick =>
    have hcnt : s.rtc.cnt + 1 = BitVec.ofNat 24 (s.ticks + 1) := (inv_step s .tick hinv).cnt
    have hzero : s.rtc.cnt + 1 = 0 ↔ (s.ticks + 1) % 2 ^ 24 = 0 := by
      rw [hcnt, ← BitVec.toNat_inj, BitVec.toNat_ofNat]
      exact Iff.rfl
    simp only [step, Clock.tick]
    by_cases hwrap : s.rtc.cnt + 1 = 0
    · rw [he hwrap, Bool.toNat_false] at hcount
      rw [hwrap, beq_self_eq_true, Bool.or_true, Bool.toNat_true]
      have hmod := hzero.mp hwrap
      omega
    · rw [beq_eq_false_iff_ne.mpr hwrap, Bool.or_false, hcount]
      have hmod : (s.ticks + 1) % 2 ^ 24 ≠ 0 := fun hmod ↦ hwrap (hzero.mpr hmod)
      omega
  | interrupt =>
    cases hof : s.rtc.overflow with
    | false =>
      simp only [step, rtcIrqHandler, hof, Bool.false_eq_true, if_false]
      rwa [hof] at hcount
    | true =>
      simp only [step, rtcIrqHandler, rtHwRtcIsr, hof, if_true]
      rwa [hof] at hcount
  | setTime time =>
    have hof : s.rtc.overflow = false := he
    simp only [step, setTime, hof]
    rfl
  | getTime => exact hcount

/-- With prompt interrupts a reading is exact if and only if the counter has
wrapped a multiple of 2³² times since the clock was set. -/
theorem exact_iff_wraps {es : List Event} (hes : Along step Prompt reset es)
    (hread : (es.foldl step reset).rtc.overflow = false) :
    Exact (es.foldl step reset) .getTime ↔
      2 ^ 32 ∣ (es.foldl step reset).ticks / 2 ^ 24 := by
  obtain ⟨hinv, hcount⟩ := run_invariant served_step ⟨⟨rfl, rfl⟩, rfl⟩ hes
  rw [hread, Bool.toNat_false, Nat.add_zero] at hcount
  have hone : 2 ^ 24 - (2 ^ 24 - 1) = 1 := rfl
  rw [hinv.exact_iff, Compensated, hcount]
  constructor
  · intro h
    have hmod := (Nat.modEq_iff_dvd' (Nat.mul_le_mul_left _ (by omega))).mp (h rfl hread)
    rwa [← Nat.mul_sub, hone, Nat.mul_one] at hmod
  · intro h _ _
    apply (Nat.modEq_iff_dvd' (Nat.mul_le_mul_left _ (by omega))).mpr
    rwa [← Nat.mul_sub, hone, Nat.mul_one]

end GiantGecko.Timers.Rtc
