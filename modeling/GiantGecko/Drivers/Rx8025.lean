import GiantGecko.Foundation.Gregorian

namespace GiantGecko.Drivers.Rx8025

open Foundation.Gregorian

def rtEok : ℤ := 0
def rtError : ℤ := 1
def rtDeviceCtrlRtcGetTime : UInt8 := 0x10
def rtDeviceCtrlRtcSetTime : UInt8 := 0x11

structure Tm where
  tmSec : ℤ
  tmMin : ℤ
  tmHour : ℤ
  tmMday : ℤ
  tmMon : ℤ
  tmYear : ℤ
  tmWday : ℤ

structure Tm.InRange (t : Tm) : Prop where
  sec : 0 ≤ t.tmSec ∧ t.tmSec ≤ 59
  min : 0 ≤ t.tmMin ∧ t.tmMin ≤ 59
  hour : 0 ≤ t.tmHour ∧ t.tmHour ≤ 23
  mday : 1 ≤ t.tmMday ∧ t.tmMday ≤ 31
  mon : 0 ≤ t.tmMon ∧ t.tmMon ≤ 11
  wday : 0 ≤ t.tmWday ∧ t.tmWday ≤ 6

/-- `localtime_r` and `mktime` of the C library, for times of type `τ`: inverse
to each other, with every field in its range, and from 2000 to 2099 no carry into
the year from fields that are in range. -/
structure Calendar (τ : Type) where
  localtime : τ → Tm
  mktime : Tm → τ
  mktime_localtime : ∀ t, mktime (localtime t) = t
  localtime_inRange : ∀ t, (localtime t).InRange
  year_mktime : ∀ t, t.InRange → 100 ≤ t.tmYear → t.tmYear ≤ 199 →
    (localtime (mktime t)).tmYear = t.tmYear

def u8 (i : ℤ) : UInt8 := UInt8.ofNat (i % 256).toNat

def decToBcd (x : UInt8) : UInt8 := UInt8.ofNat ((x.toNat / 10) <<< 4 + x.toNat % 10)

def bcdToDec (x : UInt8) : UInt8 := UInt8.ofNat ((x.toNat >>> 4) * 10 + (x.toNat &&& 0x0F))

/-- The registers of the chip, by the upper half of their address. -/
abbrev Registers := ℕ → UInt8

def rx8025saRead (done : Bool) (chip : Registers) (reg : UInt8) (size : ℕ) : Option (List UInt8) :=
  if done then some ((List.range size).map fun i ↦ chip (reg.toNat / 16 + i)) else none

def rx8025saWrite (done : Bool) (chip : Registers) (reg : UInt8) (data : List UInt8) :
    Option Registers :=
  if done then
    some fun i ↦ if reg.toNat / 16 ≤ i ∧ i < reg.toNat / 16 + data.length then
      data.getD (i - reg.toNat / 16) 0 else chip i
  else none

section

variable {τ : Type} (cal : Calendar τ)

def timeData (t : Tm) : List UInt8 :=
  [decToBcd (u8 t.tmSec), decToBcd (u8 t.tmMin), decToBcd (u8 t.tmHour), decToBcd (u8 t.tmWday),
    decToBcd (u8 t.tmMday), decToBcd (u8 (t.tmMon + 1)), decToBcd (u8 (t.tmYear - 100))]

def dataTime (data : List UInt8) : Tm where
  tmSec := (bcdToDec (data.getD 0 0 &&& 0x7F)).toNat
  tmMin := (bcdToDec (data.getD 1 0)).toNat
  tmHour := (bcdToDec (data.getD 2 0)).toNat
  tmWday := (bcdToDec (data.getD 3 0)).toNat
  tmMday := (bcdToDec (data.getD 4 0)).toNat
  tmMon := (bcdToDec (data.getD 5 0 &&& 0x1F)).toNat - 1
  tmYear := 100 + (bcdToDec (data.getD 6 0)).toNat

def rtRtcControl (done : Bool) (cmd : UInt8) (args : τ) (chip : Registers) : ℤ × τ × Registers :=
  if cmd = rtDeviceCtrlRtcGetTime then
    match rx8025saRead done chip 0 7 with
    | none => (-rtError, args, chip)
    | some data => (rtEok, cal.mktime (dataTime data), chip)
  else if cmd = rtDeviceCtrlRtcSetTime then
    let t := cal.localtime args
    if t.tmYear < 100 then (-rtError, args, chip)
    else match rx8025saWrite done chip 0 (timeData t) with
      | none => (-rtError, args, chip)
      | some chip => (rtEok, args, chip)
  else (-rtError, args, chip)

def registerRange : List (ℕ × ℕ) := [(0, 59), (0, 59), (0, 23), (0, 6), (1, 31), (1, 12), (0, 99)]

def ValidBcd (range : ℕ × ℕ) (b : UInt8) : Prop :=
  b.toNat % 16 ≤ 9 ∧ b.toNat / 16 ≤ 9 ∧
    range.1 ≤ b.toNat / 16 * 10 + b.toNat % 16 ∧ b.toNat / 16 * 10 + b.toNat % 16 ≤ range.2

instance (range : ℕ × ℕ) (b : UInt8) : Decidable (ValidBcd range b) :=
  inferInstanceAs (Decidable (_ ∧ _))

/-- If the time is set, it is read back as it was, and each time register holds
a number it may hold. -/
structure RoundTrips (chip : Registers) (t : τ) : Prop where
  readBack : (rtRtcControl cal true rtDeviceCtrlRtcSetTime t chip).1 = rtEok → ∀ args,
    (rtRtcControl cal true rtDeviceCtrlRtcGetTime args
      (rtRtcControl cal true rtDeviceCtrlRtcSetTime t chip).2.2).2.1 = t
  valid : (rtRtcControl cal true rtDeviceCtrlRtcSetTime t chip).1 = rtEok →
    ∀ i < 7, ValidBcd (registerRange.getD i (0, 0))
      ((rtRtcControl cal true rtDeviceCtrlRtcSetTime t chip).2.2 i)

theorem toNat_u8 {i : ℤ} (h : 0 ≤ i) (hlt : i < 256) : u8 i = UInt8.ofNat i.toNat := by
  rw [u8, Int.emod_eq_of_lt h hlt]

theorem decToBcd_spec : ∀ n < 100, bcdToDec (decToBcd (UInt8.ofNat n)) = UInt8.ofNat n ∧
    (decToBcd (UInt8.ofNat n)).toNat % 16 ≤ 9 ∧ (decToBcd (UInt8.ofNat n)).toNat / 16 ≤ 9 ∧
      (decToBcd (UInt8.ofNat n)).toNat / 16 * 10 + (decToBcd (UInt8.ofNat n)).toNat % 16 = n := by
  decide +kernel

theorem bcdToDec_ofNat : ∀ n < 256, (bcdToDec (UInt8.ofNat n)).toNat = n / 16 * 10 + n % 16 := by
  decide +kernel

theorem toNat_bcdToDec (b : UInt8) : (bcdToDec b).toNat = b.toNat / 16 * 10 + b.toNat % 16 := by
  rw [← bcdToDec_ofNat b.toNat b.toNat_lt, UInt8.ofNat_toNat]

/-- The flag bits masked out on reading are clear in what is written. -/
theorem decToBcd_masks : (∀ n < 80, decToBcd (UInt8.ofNat n) &&& 0x7F = decToBcd (UInt8.ofNat n)) ∧
    ∀ n < 20, decToBcd (UInt8.ofNat n) &&& 0x1F = decToBcd (UInt8.ofNat n) := by
  decide +kernel

theorem field_round_trip {i : ℤ} (h : 0 ≤ i) (hlt : i < 100) :
    ((bcdToDec (decToBcd (u8 i))).toNat : ℤ) = i := by
  rw [toNat_u8 h (by omega), (decToBcd_spec i.toNat (by omega)).1, UInt8.toNat_ofNat']
  omega

theorem field_valid {i : ℤ} {lo hi : ℕ} (hlo : lo ≤ i) (hhi : i ≤ hi) (hlt : hi < 100) :
    ValidBcd (lo, hi) (decToBcd (u8 i)) := by
  obtain ⟨-, hones, htens, hvalue⟩ := decToBcd_spec i.toNat (by omega)
  rw [toNat_u8 (by omega) (by omega), ValidBcd, hvalue]
  omega

theorem dataTime_timeData {t : Tm} (h : t.InRange) : dataTime (timeData t) =
    { t with tmYear := 100 + (bcdToDec (decToBcd (u8 (t.tmYear - 100)))).toNat } := by
  obtain ⟨⟨hs, hs'⟩, ⟨hm, hm'⟩, ⟨hh, hh'⟩, ⟨hd, hd'⟩, ⟨hn, hn'⟩, ⟨hw, hw'⟩⟩ := h
  have hsec : decToBcd (u8 t.tmSec) &&& 0x7F = decToBcd (u8 t.tmSec) := by
    rw [toNat_u8 hs (by omega)]
    exact decToBcd_masks.1 _ (by omega)
  have hmon : decToBcd (u8 (t.tmMon + 1)) &&& 0x1F = decToBcd (u8 (t.tmMon + 1)) := by
    rw [toNat_u8 (by omega) (by omega)]
    exact decToBcd_masks.2 _ (by omega)
  simp only [dataTime, timeData, List.getD_cons_zero, List.getD_cons_succ, hsec, hmon,
    field_round_trip hs (by omega), field_round_trip hm (by omega), field_round_trip hh (by omega),
    field_round_trip hw (by omega), field_round_trip (show 0 ≤ t.tmMday by omega) (by omega),
    field_round_trip (show 0 ≤ t.tmMon + 1 by omega) (by omega), Int.add_sub_cancel]

theorem set_refused (chip : Registers) {t : τ} (h : (cal.localtime t).tmYear < 100) :
    (rtRtcControl cal true rtDeviceCtrlRtcSetTime t chip).1 = -rtError := by
  simp [rtRtcControl, rtDeviceCtrlRtcSetTime, rtDeviceCtrlRtcGetTime, h]

theorem set_get (chip : Registers) {t : τ} (h : ¬ (cal.localtime t).tmYear < 100) :
    (rtRtcControl cal true rtDeviceCtrlRtcSetTime t chip).1 = rtEok ∧
      (∀ i < 7, (rtRtcControl cal true rtDeviceCtrlRtcSetTime t chip).2.2 i =
        (timeData (cal.localtime t)).getD i 0) ∧
      ∀ args, (rtRtcControl cal true rtDeviceCtrlRtcGetTime args
        (rtRtcControl cal true rtDeviceCtrlRtcSetTime t chip).2.2).2.1 =
          cal.mktime (dataTime (timeData (cal.localtime t))) := by
  have hne : ¬ rtDeviceCtrlRtcSetTime = rtDeviceCtrlRtcGetTime := by decide
  have hset : rtRtcControl cal true rtDeviceCtrlRtcSetTime t chip = (rtEok, t, fun i ↦
      if i < 7 then (timeData (cal.localtime t)).getD i 0 else chip i) := by
    simp only [rtRtcControl, if_neg hne, if_pos, if_neg h, rx8025saWrite]
    simp [timeData]
  rw [hset]
  refine ⟨rfl, fun i hi ↦ if_pos hi, fun args ↦ ?_⟩
  rfl

theorem round_trip_iff (chip : Registers) (t : τ) :
    RoundTrips cal chip t ↔ (cal.localtime t).tmYear ≤ 199 := by
  have hrange := cal.localtime_inRange t
  by_cases hyear : (cal.localtime t).tmYear < 100
  · have hset := set_refused cal chip hyear
    have hne : -rtError ≠ rtEok := by decide
    refine iff_of_true ⟨fun h ↦ absurd (hset.symm.trans h) hne, fun h ↦ absurd (hset.symm.trans h) hne⟩ ?_
    omega
  · obtain ⟨hset, hregs, hget⟩ := set_get cal chip hyear
    constructor
    · rintro ⟨hback, hvalid⟩
      have hlast := hvalid hset 6 (by omega)
      rw [hregs 6 (by omega)] at hlast
      have htime := hback hset t
      rw [hget, dataTime_timeData hrange] at htime
      obtain ⟨-, -, -, hle⟩ := hlast
      simp only [timeData, registerRange, List.getD_cons_zero, List.getD_cons_succ] at hle
      rw [← toNat_bcdToDec] at hle
      -- the register holds a year of the century, so that is the year read back
      have hkept := cal.year_mktime
        { cal.localtime t with
          tmYear := 100 + (bcdToDec (decToBcd (u8 ((cal.localtime t).tmYear - 100)))).toNat }
        ⟨hrange.sec, hrange.min, hrange.hour, hrange.mday, hrange.mon, hrange.wday⟩
        (Int.le_add_of_nonneg_right (Int.natCast_nonneg _)) (by dsimp only; omega)
      rw [htime] at hkept
      dsimp only at hkept
      omega
    · intro hlast
      refine ⟨fun _ args ↦ ?_, fun _ i hi ↦ ?_⟩
      · have hsame : dataTime (timeData (cal.localtime t)) = cal.localtime t := by
          rw [dataTime_timeData hrange, field_round_trip (by omega) (by omega), add_sub_cancel]
        rw [hget, hsame, cal.mktime_localtime]
      · rw [hregs i hi]
        obtain ⟨hsec, hmin, hhour, hmday, hmon, hwday⟩ := hrange
        match i, hi with
        | 0, _ => exact field_valid hsec.1 hsec.2 (by omega)
        | 1, _ => exact field_valid hmin.1 hmin.2 (by omega)
        | 2, _ => exact field_valid hhour.1 hhour.2 (by omega)
        | 3, _ => exact field_valid hwday.1 hwday.2 (by omega)
        | 4, _ => exact field_valid hmday.1 hmday.2 (by omega)
        | 5, _ => exact field_valid (by omega) (by omega) (by omega)
        | 6, _ => exact field_valid (by omega) (by omega) (by omega)

end

def secondsPerDay : ℤ := 86400

def epoch : ℤ := daysBeforeYear 1970

def utcLocaltime (t : ℤ) : Tm :=
  let date := ofDays (t / secondsPerDay + epoch)
  let s := t % secondsPerDay
  ⟨s % 60, s / 60 % 60, s / 3600, date.day, date.month, date.year - 1900,
    (t / secondsPerDay + 4) % 7⟩

def utcMktime (t : Tm) : ℤ :=
  (toDays ⟨t.tmYear + 1900, t.tmMon.toNat, t.tmMday.toNat⟩ - epoch) * secondsPerDay +
    t.tmHour * 3600 + t.tmMin * 60 + t.tmSec

theorem utcMktime_localtime (t : ℤ) : utcMktime (utcLocaltime t) = t := by
  have hdate := toDays_ofDays (t / secondsPerDay + epoch)
  simp only [utcMktime, utcLocaltime, Int.sub_add_cancel, Int.toNat_natCast]
  rw [hdate]
  simp only [secondsPerDay]
  omega

theorem utcLocaltime_inRange (t : ℤ) : (utcLocaltime t).InRange := by
  obtain ⟨hmonth, hday, hday'⟩ := ofDays_inRange (t / secondsPerDay + epoch)
  constructor <;> simp only [utcLocaltime, secondsPerDay] at * <;> omega

theorem utc_year_mktime (t : Tm) (h : t.InRange) :
    (utcLocaltime (utcMktime t)).tmYear = t.tmYear := by
  obtain ⟨⟨hs, hs'⟩, ⟨hm, hm'⟩, ⟨hh, hh'⟩, ⟨hd, hd'⟩, ⟨hn, hn'⟩, -⟩ := h
  have hyear := yearOf_toDays (c := ⟨t.tmYear + 1900, t.tmMon.toNat, t.tmMday.toNat⟩)
    (by simp only [Date.InRange]; omega)
  have hdays : utcMktime t / secondsPerDay + epoch =
      toDays ⟨t.tmYear + 1900, t.tmMon.toNat, t.tmMday.toNat⟩ := by
    simp only [utcMktime, secondsPerDay]
    omega
  simp only [utcLocaltime, hdays, ofDays, hyear]
  omega

def utc : Calendar ℤ where
  localtime := utcLocaltime
  mktime := utcMktime
  mktime_localtime := utcMktime_localtime
  localtime_inRange := utcLocaltime_inRange
  year_mktime t h _ _ := utc_year_mktime t h

theorem round_trip_2099 : RoundTrips utc (fun _ ↦ 0) 4102444799 :=
  (round_trip_iff utc (fun _ ↦ 0) 4102444799).mpr (by decide)

/-- The first second of the year 2100: the year register gets 0xA0. -/
theorem year_2100_not_bcd : ¬ ∀ chip t, RoundTrips utc chip t := by
  intro h
  have hvalid := (h (fun _ ↦ 0) 4102444800).valid (by decide) 6 (by decide)
  exact absurd hvalid (by decide)

end GiantGecko.Drivers.Rx8025
