import Mathlib.Algebra.Order.Ring.Int

namespace GiantGecko.Foundation.Gregorian

def isLeap (y : ℤ) : Bool := y % 4 = 0 ∧ (y % 100 ≠ 0 ∨ y % 400 = 0)

def daysBeforeYear (y : ℤ) : ℤ := 365 * y + (y + 3) / 4 - (y + 99) / 100 + (y + 399) / 400

def daysBeforeMonth (leap : Bool) (m : ℕ) : ℕ :=
  [0, 31, 59, 90, 120, 151, 181, 212, 243, 273, 304, 334].getD m 0 +
    if leap ∧ 2 ≤ m then 1 else 0

/-- The quotient by the mean length of a year is at most one year off. -/
def yearOf (d : ℤ) : ℤ :=
  let y := 400 * d / 146097
  if daysBeforeYear (y + 1) ≤ d then y + 1 else if daysBeforeYear y ≤ d then y else y - 1

def monthOf (leap : Bool) (doy : ℕ) : ℕ :=
  (List.range 11).countP fun m ↦ daysBeforeMonth leap (m + 1) ≤ doy

/-- A day as year, month from 0 and day of the month from 1. -/
structure Date where
  year : ℤ
  month : ℕ
  day : ℕ
  deriving DecidableEq

def Date.InRange (c : Date) : Prop := c.month < 12 ∧ 1 ≤ c.day ∧ c.day ≤ 31

def ofDays (d : ℤ) : Date :=
  let y := yearOf d
  let doy := (d - daysBeforeYear y).toNat
  let m := monthOf (isLeap y) doy
  ⟨y, m, doy - daysBeforeMonth (isLeap y) m + 1⟩

def toDays (c : Date) : ℤ :=
  daysBeforeYear c.year + daysBeforeMonth (isLeap c.year) c.month + (c.day - 1)

theorem daysBeforeYear_succ (y : ℤ) :
    daysBeforeYear (y + 1) = daysBeforeYear y + 365 + (isLeap y).toNat := by
  have hleap : ((isLeap y).toNat : ℤ) = if y % 4 = 0 ∧ (y % 100 ≠ 0 ∨ y % 400 = 0) then 1 else 0 := by
    split_ifs with h
    · rw [isLeap, decide_eq_true h]
      rfl
    · rw [isLeap, decide_eq_false h]
      rfl
  rw [hleap, daysBeforeYear, daysBeforeYear]
  split_ifs <;> omega

theorem daysBeforeYear_mono {y z : ℤ} (h : y ≤ z) : daysBeforeYear y ≤ daysBeforeYear z := by
  simp only [daysBeforeYear]
  omega

theorem yearOf_spec (d : ℤ) : daysBeforeYear (yearOf d) ≤ d ∧ d < daysBeforeYear (yearOf d + 1) := by
  have hlow : daysBeforeYear (400 * d / 146097 - 1) ≤ d := by
    simp only [daysBeforeYear]
    omega
  have hhigh : d < daysBeforeYear (400 * d / 146097 + 1 + 1) := by
    simp only [daysBeforeYear]
    omega
  simp only [yearOf]
  split_ifs with hnext hsame
  · exact ⟨hnext, hhigh⟩
  · exact ⟨hsame, not_le.mp hnext⟩
  · exact ⟨hlow, by rw [Int.sub_add_cancel]; exact not_le.mp hsame⟩

theorem yearOf_unique {d y : ℤ} (h : daysBeforeYear y ≤ d) (h' : d < daysBeforeYear (y + 1)) :
    yearOf d = y := by
  obtain ⟨hlow, hhigh⟩ := yearOf_spec d
  by_contra hne
  rcases lt_or_gt_of_ne hne with hlt | hgt
  · have := daysBeforeYear_mono (show yearOf d + 1 ≤ y by omega)
    omega
  · have := daysBeforeYear_mono (show y + 1 ≤ yearOf d by omega)
    omega

theorem countP_range_spec {p : ℕ → Bool} {n : ℕ} (hp : ∀ m, m + 1 < n → p (m + 1) → p m) :
    (∀ m < (List.range n).countP p, p m) ∧
      ((List.range n).countP p < n → ¬ p ((List.range n).countP p)) := by
  induction n with
  | zero => simp
  | succ n ih =>
    obtain ⟨hbefore, hafter⟩ := ih fun m hm ↦ hp m (by omega)
    rw [List.range_succ, List.countP_append, List.countP_singleton]
    by_cases hn : p n
    · have hall : ∀ i ≤ n, p (n - i) := by
        intro i
        induction i with
        | zero => exact fun _ ↦ hn
        | succ i ih =>
          intro hi
          refine hp _ (by omega) ?_
          rw [show n - (i + 1) + 1 = n - i by omega]
          exact ih (by omega)
      have hcount : (List.range n).countP p = n := by
        by_contra hne
        have hle := List.countP_le_length (p := p) (l := List.range n)
        rw [List.length_range] at hle
        refine hafter (by omega) ?_
        have hlast := hall (n - (List.range n).countP p) (by omega)
        rwa [Nat.sub_sub_self hle] at hlast
      rw [if_pos hn, hcount]
      refine ⟨fun m hm ↦ ?_, fun h ↦ absurd h (lt_irrefl _)⟩
      have hm' := hall (n - m) (by omega)
      rwa [Nat.sub_sub_self (by omega)] at hm'
    · rw [if_neg hn, Nat.add_zero]
      refine ⟨hbefore, fun h ↦ ?_⟩
      obtain heq | hlt := Nat.eq_or_lt_of_le (Nat.le_of_lt_succ h)
      · rwa [heq]
      · exact hafter hlt

theorem month_starts : ∀ leap, ∀ m < 11, daysBeforeMonth leap m ≤ daysBeforeMonth leap (m + 1) ∧
    daysBeforeMonth leap (m + 1) ≤ daysBeforeMonth leap m + 31 := by
  decide

theorem monthOf_spec (leap : Bool) (doy : ℕ) (hdoy : doy < 365 + leap.toNat) :
    monthOf leap doy < 12 ∧ daysBeforeMonth leap (monthOf leap doy) ≤ doy ∧
      doy < daysBeforeMonth leap (monthOf leap doy) + 31 := by
  obtain ⟨hbefore, hafter⟩ := countP_range_spec (n := 11)
    (p := fun m ↦ daysBeforeMonth leap (m + 1) ≤ doy) fun m hm h ↦ by
      have hstart := (month_starts leap (m + 1) hm).1
      simp only [decide_eq_true_eq] at h ⊢
      omega
  have hle : monthOf leap doy ≤ 11 := List.countP_le_length.trans_eq List.length_range
  rw [← monthOf] at hbefore hafter
  simp only [decide_eq_true_eq] at hbefore hafter
  refine ⟨Nat.lt_succ_of_le hle, ?_, ?_⟩
  · cases hm : monthOf leap doy with
    | zero =>
      cases leap
      all_goals exact Nat.zero_le doy
    | succ m => exact hbefore m (by omega)
  · obtain hlast | hlt := Nat.eq_or_lt_of_le hle
    · have hend : daysBeforeMonth leap 11 + 31 = 365 + leap.toNat := by
        cases leap <;> rfl
      rw [hlast, hend]
      exact hdoy
    · have hnext := (month_starts leap _ hlt).2
      have hmiss := hafter hlt
      omega

theorem month_fits : ∀ leap, ∀ m < 12, daysBeforeMonth leap m + 31 ≤ 365 + leap.toNat := by
  decide

theorem ofDays_inRange (d : ℤ) : (ofDays d).InRange := by
  obtain ⟨hlow, hhigh⟩ := yearOf_spec d
  rw [daysBeforeYear_succ] at hhigh
  obtain ⟨hmonth, hstart, hend⟩ :=
    monthOf_spec (isLeap (yearOf d)) (d - daysBeforeYear (yearOf d)).toNat (by omega)
  simp only [ofDays, Date.InRange]
  omega

theorem toDays_ofDays (d : ℤ) : toDays (ofDays d) = d := by
  obtain ⟨hlow, hhigh⟩ := yearOf_spec d
  rw [daysBeforeYear_succ] at hhigh
  obtain ⟨hmonth, hstart, hend⟩ :=
    monthOf_spec (isLeap (yearOf d)) (d - daysBeforeYear (yearOf d)).toNat (by omega)
  simp only [ofDays, toDays]
  omega

/-- A day past the end of its month still falls in its year. -/
theorem yearOf_toDays {c : Date} (h : c.InRange) : yearOf (toDays c) = c.year := by
  obtain ⟨hmonth, hday, hday'⟩ := h
  have hfits := month_fits (isLeap c.year) c.month hmonth
  refine yearOf_unique ?_ ?_
  · simp only [toDays]
    omega
  · rw [daysBeforeYear_succ]
    simp only [toDays]
    omega

end GiantGecko.Foundation.Gregorian
