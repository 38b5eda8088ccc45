import GiantGecko.Rtos.FormatText
import Mathlib.Data.Nat.Digits.Lemmas

namespace GiantGecko.Rtos.Format

open Foundation.BoundedStore

variable {σ : Type} {put : UInt8 → σ → σ} {c : UInt8} {bound n : ℤ} {o : σ}

theorem int_eq {x : ℤ} (hlow : -2 ^ 31 ≤ x) (hhigh : x < 2 ^ 31) : int x = x := by
  rw [int, Int.bmod_def]
  split_ifs <;> omega

theorem int_lt (x : ℤ) : -2 ^ 31 ≤ int x ∧ int x < 2 ^ 31 := by
  rw [int, Int.bmod_def]
  split_ifs <;> omega

theorem putWhile_eq (hbound : -2 ^ 31 ≤ bound) (k : ℕ) (hk : bound + k < 2 ^ 31) :
    putWhile put c bound (k + 1) (bound + k) o =
      (int (bound - 1), emit put (List.replicate k c) o) := by
  induction k generalizing o with
  | zero =>
    rw [putWhile, if_neg (by omega), Nat.cast_zero, add_zero]
    rfl
  | succ k ih =>
    have hdown : int (bound + ((k + 1 : ℕ) : ℤ) - 1) = bound + k := by
      rw [int_eq (by omega) (by omega)]
      omega
    rw [putWhile, if_pos (by omega), hdown, ih (by omega), List.replicate_succ, emit_cons]

/-- A padding loop puts out what `n` is above its bound, and goes one step further down. -/
theorem padWhile_eq (hbound : -2 ^ 31 ≤ bound) (hn : n < 2 ^ 31) : padWhile put c bound n o =
    (int (min n bound - 1), emit put (List.replicate (n - bound).toNat c) o) := by
  obtain hle | hlt := le_or_gt n bound
  · have hzero : (n - bound).toNat = 0 := by omega
    rw [padWhile, hzero, putWhile, if_neg (by omega), min_eq_left hle]
    rfl
  · obtain ⟨k, rfl⟩ : ∃ k : ℕ, n = bound + k := ⟨(n - bound).toNat, by omega⟩
    have hk : (bound + (k : ℤ) - bound).toNat = k := by omega
    rw [padWhile, hk, putWhile_eq hbound k hn, min_eq_right (by omega)]

theorem putWhileDown_eq (k : ℕ) (hk : (k : ℤ) < 2 ^ 31 - 1) :
    putWhileDown put c (k + 1) (k + 1) o = (0, emit put (List.replicate k c) o) := by
  induction k generalizing o with
  | zero =>
    rw [putWhileDown, int_eq (by omega) (by omega), if_neg (by omega)]
    rfl
  | succ k ih =>
    have hdown : int (((k + 1 : ℕ) : ℤ) + 1 - 1) = k + 1 := by
      rw [int_eq (by omega) (by omega)]
      omega
    rw [putWhileDown, hdown, if_pos (by omega), ih (by omega), List.replicate_succ, emit_cons]

theorem padWhileDown_eq (hlow : -2 ^ 31 < n) (hn : n < 2 ^ 31) : padWhileDown put c n o =
    (min (n - 1) 0, emit put (List.replicate (n - 1).toNat c) o) := by
  have hint : int (n - 1) = n - 1 := int_eq (by omega) (by omega)
  rw [padWhileDown, hint]
  obtain hle | hlt := le_or_gt n 1
  · have hzero : (n - 1).toNat = 0 := by omega
    rw [hzero, putWhileDown, hint, if_neg (by omega), min_eq_left (by omega)]
    rfl
  · obtain ⟨k, rfl⟩ : ∃ k : ℕ, n = k + 1 := ⟨(n - 1).toNat, by omega⟩
    have hk : ((k : ℤ) + 1 - 1).toNat = k := by omega
    rw [hk, putWhileDown_eq k (by omega), min_eq_right (by omega)]

def signLength (sign : Option UInt8) : ℤ := sign.toList.length

theorem putSign_eq (sign : Option UInt8) {size : ℤ} (h : -2 ^ 31 ≤ size - signLength sign)
    (hsize : size < 2 ^ 31) :
    putSign put sign size o = (size - signLength sign, emit put sign.toList o) := by
  cases sign with
  | none => simp [putSign, signLength]
  | some c =>
    have hone : signLength (some c) = 1 := rfl
    rw [hone] at h
    rw [putSign, int_eq h (by omega), hone]
    rfl

variable {sign : Option UInt8} {tmp : List UInt8} {type : Flags} {w p pb : ℤ}

theorem signLength_cases (sign : Option UInt8) :
    sign.isSome = false ∧ signLength sign = 0 ∨ sign.isSome = true ∧ signLength sign = 1 := by
  cases sign with
  | none => exact .inl ⟨rfl, rfl⟩
  | some c => exact .inr ⟨rfl, rfl⟩

theorem emit_digits (hpb : pb ≠ 0) (hhigh : p < 2 ^ 31) :
    (if pb ≠ 0 then emit put tmp.reverse (padWhile put (ch '0') tmp.length p o).2
      else (padWhile put (ch '0') tmp.length p o).2) =
      emit put (List.replicate (p - tmp.length).toNat (ch '0') ++ tmp.reverse) o := by
  rw [if_pos hpb, padWhile_eq (by omega) hhigh, emit_append]

section Write

variable (hpb : pb ≠ 0) (hp : tmp.length ≤ p) (hw : -1 ≤ w) (hhigh : w < 2 ^ 31)

include hpb hp hw hhigh

theorem writeNumber_left (hleft : type.left = true) (hlen : p + signLength sign < 2 ^ 31) :
    writeNumber put sign tmp type (int (w - p)) p pb o = emit put (sign.toList ++
      (List.replicate (p - tmp.length).toNat (ch '0') ++ tmp.reverse) ++
      List.replicate (w - p - signLength sign).toNat (ch ' ')) o := by
  have hsign := signLength_cases sign
  have hsize : int (w - p) = w - p := int_eq (by omega) (by omega)
  have hput (o : σ) : putSign put sign (w - p) o = (w - p - signLength sign, emit put sign.toList o) :=
    putSign_eq sign (by omega) (by omega)
  simp only [writeNumber, hleft, hsize, hput, or_true, not_true_eq_false, if_false]
  rw [emit_digits hpb (by omega), padWhile_eq (by omega) (by omega), sub_zero]
  simp only [emit_append]

theorem writeNumber_zero (hleft : type.left = false) (hzero : type.zeropad = true)
    (htop : p + signLength sign + 2 ≤ 2 ^ 31 + w) (hlen : p + signLength sign < 2 ^ 31) :
    writeNumber put sign tmp type (int (w - p)) p pb o = emit put (sign.toList ++
      List.replicate (w - p - signLength sign).toNat (ch '0') ++
      (List.replicate (p - tmp.length).toNat (ch '0') ++ tmp.reverse)) o := by
  have hsign := signLength_cases sign
  have hsize : int (w - p) = w - p := int_eq (by omega) (by omega)
  have hput (o : σ) : putSign put sign (w - p) o = (w - p - signLength sign, emit put sign.toList o) :=
    putSign_eq sign (by omega) (by omega)
  have hlast : int (min (w - p - signLength sign) 0 - 1) ≤ 0 := by
    rw [int_eq (by omega) (by omega)]
    omega
  simp only [writeNumber, hleft, hzero, hsize, hput, true_or, not_true_eq_false, if_false, if_true,
    Bool.false_eq_true, not_false_eq_true]
  rw [padWhile_eq (n := w - p - signLength sign) (by omega) (by omega)]
  simp only [emit_digits hpb (show p < 2 ^ 31 by omega)]
  rw [padWhile_eq (by omega) (by omega), sub_zero, sub_zero, Int.toNat_of_nonpos hlast]
  simp only [emit_append, List.replicate_zero, emit_nil]

theorem writeNumber_right (hleft : type.left = false) (hzero : type.zeropad = false)
    (htop : p + signLength sign + 2 ≤ 2 ^ 31 + w) (hlen : p + signLength sign < 2 ^ 31) :
    writeNumber put sign tmp type (int (w - p)) p pb o = emit put (
      List.replicate (w - p - signLength sign).toNat (ch ' ') ++ sign.toList ++
      (List.replicate (p - tmp.length).toNat (ch '0') ++ tmp.reverse)) o := by
  have hsign := signLength_cases sign
  have hsize : int (w - p) = w - p := int_eq (by omega) (by omega)
  have hone : int (w - p - 1) = w - p - 1 := int_eq (by omega) (by omega)
  -- a sign takes one space, where there is room for one
  have hroom : (if sign.isSome = true ∧ 0 < w - p then w - p - 1 else w - p) =
      if 0 < w - p then w - p - signLength sign else w - p := by
    obtain ⟨hnone, hlength⟩ | ⟨hsome, hlength⟩ := hsign
    · simp [hnone, hlength]
    · simp [hsome, hlength]
  set first := if 0 < w - p then w - p - signLength sign else w - p with hfirst
  have hcount : first.toNat = (w - p - signLength sign).toNat := by
    rw [hfirst]
    split_ifs <;> omega
  have hbelow : -2 ^ 31 ≤ min first 0 - 1 - signLength sign - 1 := by
    rw [hfirst]
    split_ifs <;> omega
  have hdown : int (min first 0 - 1) = min first 0 - 1 := int_eq (by omega) (by omega)
  have hput (o : σ) : putSign put sign (min first 0 - 1) o =
      (min first 0 - 1 - signLength sign, emit put sign.toList o) :=
    putSign_eq sign (by omega) (by omega)
  have hnone : (min first 0 - 1 - signLength sign).toNat = 0 := by omega
  have hlast : int (min (min first 0 - 1 - signLength sign) 0 - 1) ≤ 0 := by
    rw [int_eq (by omega) (by omega)]
    omega
  have hlow : first < 2 ^ 31 := by
    rw [hfirst]
    split_ifs <;> omega
  simp only [writeNumber, hleft, hzero, hsize, hone, hroom, or_self, not_false_eq_true, if_true,
    Bool.false_eq_true]
  rw [padWhile_eq (by omega) hlow, hdown]
  simp only [hput]
  rw [padWhile_eq (n := min first 0 - 1 - signLength sign) (by omega) (by omega)]
  simp only [emit_digits hpb (show p < 2 ^ 31 by omega)]
  rw [padWhile_eq (by omega) (by omega), sub_zero, sub_zero, sub_zero, hnone,
    Int.toNat_of_nonpos hlast, hcount]
  simp only [emit_append, List.replicate_zero, emit_nil]

end Write

theorem int_below : int (-2 ^ 31 - 1) = 2 ^ 31 - 1 := by decide

theorem putSign_fst (sign : Option UInt8) (size : ℤ) : putSign put sign size o =
    (if sign.isSome then int (size - 1) else size, emit put sign.toList o) := by
  cases sign <;> rfl

/-- A counter that goes down below the range comes out at its top, and one of the padding
loops takes its turns from there. -/
theorem writeNumber_overflow (hpb : pb ≠ 0) (hp : tmp.length ≤ p) (hw : -1 ≤ w)
    (hhigh : w < 2 ^ 31) (hleft : type.left = false) (hzero : type.zeropad = false)
    (htop : 2 ^ 31 + w < p + signLength sign + 2) (hlen : p + signLength sign < 2 ^ 31) :
    ((writeNumber push sign tmp type (int (w - p)) p pb []).length : ℤ) =
      p + signLength sign + (2 ^ 31 - 1) := by
  have hsign := signLength_cases sign
  have hsize : int (w - p) = w - p := int_eq (by omega) (by omega)
  have hfirst : (if sign.isSome = true ∧ 0 < w - p then int (w - p - 1) else w - p) = w - p :=
    if_neg fun h ↦ by omega
  have hmin : min (w - p) 0 = w - p := by omega
  simp only [writeNumber, hleft, hzero, hsize, hfirst, or_self, not_false_eq_true, if_true,
    Bool.false_eq_true]
  rw [padWhile_eq (n := w - p) (by omega) (by omega), hmin]
  simp only [putSign_fst]
  set n := if sign.isSome then int (int (w - p - 1) - 1) else int (w - p - 1) with hn
  have hrange : n < 2 ^ 31 := by
    rw [hn]
    split_ifs <;> exact (int_lt _).2
  rw [padWhile_eq (n := n) (by omega) hrange]
  simp only [emit_digits hpb (show p < 2 ^ 31 by omega)]
  rw [padWhile_eq (by omega) (int_lt _).2]
  simp only [emit_push, List.length_append, List.length_replicate]
  have hfrom (htopn : n = 2 ^ 31 - 1) : int (min n 0 - 1) = -1 := by
    rw [htopn]
    decide
  have hmost : (n - 0).toNat + (int (min n 0 - 1) - 0).toNat = 2 ^ 31 - 1 := by
    by_cases hbottom : w - p = -2 ^ 31
    · have hnone : sign.isSome = false := by
        obtain ⟨hnone, -⟩ | ⟨-, hlength⟩ := hsign
        · exact hnone
        · omega
      have htopn : n = 2 ^ 31 - 1 := by
        rw [hn, hnone, hbottom, int_below]
        rfl
      have hrest := hfrom htopn
      omega
    · have hdown : int (w - p - 1) = w - p - 1 := int_eq (by omega) (by omega)
      rw [hdown] at hn
      by_cases hlow : -2 ^ 31 ≤ w - p - 1 - signLength sign
      · have heq : n = -2 ^ 31 := by
          obtain ⟨hnone, hlength⟩ | ⟨hsome, hlength⟩ := hsign
          · rw [hn, hnone]
            simp only [Bool.false_eq_true, if_false]
            omega
          · rw [hn, hsome, if_pos rfl, int_eq (by omega) (by omega)]
            omega
        have hwrap : int (min n 0 - 1) = 2 ^ 31 - 1 := by
          rw [heq]
          decide
        omega
      · have htopn : n = 2 ^ 31 - 1 := by
          obtain ⟨hnone, hlength⟩ | ⟨hsome, hlength⟩ := hsign
          · omega
          · have hbelow : w - p - 1 - 1 = -2 ^ 31 - 1 := by omega
            rw [hn, hsome, if_pos rfl, hbelow, int_below]
        have hrest := hfrom htopn
        omega
  have hdigits : (p - tmp.length).toNat + tmp.reverse.length = p.toNat := by
    rw [List.length_reverse]
    omega
  have hk : (sign.toList.length : ℤ) = signLength sign := rfl
  rw [List.length_nil]
  omega

def divisor (base : ℕ) : ℕ := if base = 10 then 10 else 16

theorem divisor_cases (base : ℕ) : divisor base = 10 ∨ divisor base = 16 := by
  rw [divisor]
  split_ifs
  · exact .inl rfl
  · exact .inr rfl

theorem divide_eq (n : BitVec 32) (base : ℕ) : (divide n base).1 = n.toNat % divisor base ∧
    (divide n base).2.toNat = n.toNat / divisor base := by
  rw [divide, divisor]
  split_ifs
  · exact ⟨BitVec.toNat_umod, BitVec.toNat_udiv⟩
  · exact ⟨BitVec.toNat_umod, BitVec.toNat_udiv⟩

theorem digitLoop_eq (digits : List UInt8) (base turns : ℕ) (num : BitVec 32) (tmp : List UInt8)
    (h : num.toNat < divisor base ^ turns) : digitLoop digits base turns num tmp =
      tmp ++ (Nat.digits (divisor base) num.toNat).map fun d ↦ digits.getD d 0 := by
  have hbase : 1 < divisor base := by
    obtain h | h := divisor_cases base <;> omega
  induction turns generalizing num tmp with
  | zero =>
    have hzero : num.toNat = 0 := by
      rw [Nat.pow_zero] at h
      omega
    rw [digitLoop, hzero, Nat.digits_zero, List.map_nil, List.append_nil]
  | succ turns ih =>
    obtain ⟨hres, hnum⟩ := divide_eq num base
    rw [digitLoop]
    split_ifs with hne
    · have hpos : 0 < num.toNat := by
        refine Nat.pos_of_ne_zero fun hzero ↦ hne ?_
        exact BitVec.eq_of_toNat_eq hzero
      simp only [ih _ _ (by rw [hnum]; exact Nat.div_lt_of_lt_mul (by rwa [Nat.pow_succ'] at h)), hres,
        hnum, Nat.digits_def' hbase hpos, List.map_cons, List.append_assoc, List.singleton_append]
    · have hzero : num = 0 := not_not.mp hne
      rw [hzero]
      simp

def numberDigits (digits : List UInt8) (base : ℕ) (num : BitVec 32) : List UInt8 :=
  if num = 0 then [ch '0'] else digitLoop digits base 32 num []

theorem numberDigits_eq (digits : List UInt8) (base : ℕ) (num : BitVec 32) :
    (num = 0 → numberDigits digits base num = [ch '0']) ∧
      (num ≠ 0 → (numberDigits digits base num).reverse = numeral digits (divisor base) num.toNat) ∧
      1 ≤ (numberDigits digits base num).length ∧ (numberDigits digits base num).length ≤ 32 := by
  have hbase : 1 < divisor base := by
    obtain h | h := divisor_cases base <;> omega
  have hpow : num.toNat < divisor base ^ 32 :=
    Nat.lt_of_lt_of_le num.isLt (Nat.pow_le_pow_left hbase 32)
  refine ⟨fun hzero ↦ if_pos hzero, fun hne ↦ ?_, ?_⟩
  · rw [numberDigits, if_neg hne, digitLoop_eq _ _ _ _ _ hpow, List.nil_append, numeral]
  · rw [numberDigits]
    split_ifs with hzero
    · exact ⟨Nat.le_refl _, by decide⟩
    · rw [digitLoop_eq _ _ _ _ _ hpow, List.nil_append, List.length_map]
      refine ⟨List.length_pos_of_ne_nil fun hnil ↦ hzero ?_, ?_⟩
      · exact BitVec.eq_of_toNat_eq (Nat.digits_eq_nil_iff_eq_zero.mp hnil)
      · exact (Nat.digits_length_le_iff hbase _).mpr hpow

theorem printNumber_eq (num : BitVec 32) (base : ℕ) (s precision : ℤ) (type : Flags) (o : σ) :
    printNumber put num base s precision type o =
      let tmp := numberDigits (if type.large then largeDigits else smallDigits) base
        (getSign type num).2
      writeNumber put (getSign type num).1 tmp
        (if type.left then { type with zeropad := false } else type)
        (int (s - max (tmp.length : ℤ) precision)) (max (tmp.length : ℤ) precision) precision o := by
  have hmax (a b : ℤ) : (if b < a then a else b) = max a b := by
    split_ifs <;> omega
  cases hleft : type.left with
  | true =>
    simp only [printNumber, hleft, if_true, hmax]
    rfl
  | false =>
    simp only [printNumber, hleft, Bool.false_eq_true, if_false, hmax]
    rfl

def Conversion.fieldWidth (r : Conversion) : ℤ :=
  match r.width with
  | none => -1
  | some width => width

def Conversion.minDigits (r : Conversion) : ℤ := r.precision.getD (-1)

def Conversion.flags (r : Conversion) : Flags where
  zeropad := r.zero
  sign := r.conv.signed
  plus := r.plus
  left := r.left
  large := r.conv = .X

variable {r : Conversion} {v : BitVec 32} {base : ℕ}

theorem getSign_eq (r : Conversion) (v : BitVec 32) :
    (getSign r.flags v).1.toList = r.sign v ∧ (getSign r.flags v).2.toNat = r.magnitude v := by
  have hv := v.isLt
  have hint := BitVec.toInt_eq_toNat_cond v
  simp only [getSign, Conversion.flags, Conversion.sign, Conversion.magnitude]
  split_ifs with hsigned hneg hplus hspace
  · refine ⟨rfl, ?_⟩
    rw [BitVec.toNat_neg]
    split_ifs at hint <;> omega
  · refine ⟨rfl, ?_⟩
    change v.toNat = _
    split_ifs at hint <;> omega
  · cases hspace
  · refine ⟨rfl, ?_⟩
    change v.toNat = _
    split_ifs at hint <;> omega
  · exact ⟨rfl, rfl⟩

theorem body_eq (base : ℕ) (hprecision : ∀ p ∈ r.precision, 1 ≤ p) {num : BitVec 32}
    (hnum : num.toNat = r.magnitude v) {tmp : List UInt8}
    (htmp : tmp = numberDigits r.conv.digits base num) :
    List.replicate (max (tmp.length : ℤ) r.minDigits - tmp.length).toNat (ch '0') ++ tmp.reverse =
      r.body (divisor base) v ∧
    ((r.body (divisor base) v).length : ℤ) = max (tmp.length : ℤ) r.minDigits := by
  obtain ⟨hzero, hother, hone, -⟩ := numberDigits_eq r.conv.digits base num
  rw [← htmp] at hzero hother hone
  have hleast : max (tmp.length : ℤ) r.minDigits = max tmp.length (r.precision.getD 1).toNat := by
    rw [Conversion.minDigits]
    cases hp : r.precision with
    | none =>
      simp only [Option.getD_none]
      omega
    | some p =>
      have hp := hprecision p hp
      simp only [Option.getD_some]
      omega
  have hq : 1 ≤ (r.precision.getD 1).toNat := by
    cases hp : r.precision with
    | none => exact Nat.le_refl _
    | some p =>
      have hp := hprecision p hp
      simp only [Option.getD_some]
      omega
  rw [hleast, Conversion.body, ← hnum]
  set q := (r.precision.getD 1).toNat
  by_cases hnil : num = 0
  · have hempty : numeral r.conv.digits (divisor base) num.toNat = [] := by
      rw [hnil]
      simp [numeral]
    rw [hempty, hzero hnil]
    have hcount : (((max [ch '0'].length q : ℕ) : ℤ) - ([ch '0'].length : ℕ)).toNat = q - 1 := by
      simp only [List.length_singleton]
      omega
    refine ⟨?_, ?_⟩
    · rw [hcount, List.reverse_singleton, ← List.replicate_succ', Nat.sub_add_cancel hq]
      simp [List.leftpad]
    · rw [List.length_leftpad]
      simp
      omega
  · rw [← hother hnil]
    refine ⟨?_, ?_⟩
    · rw [List.leftpad, List.length_reverse]
      congr 2
      omega
    · rw [List.length_leftpad, List.length_reverse]
      omega

theorem length_pad (r : Conversion) (text : List UInt8) :
    (r.pad text).length = max (r.width.getD 0) text.length := by
  rw [Conversion.pad]
  split_ifs
  · exact List.length_rightpad
  · exact List.length_leftpad

theorem length_number (r : Conversion) (base : ℕ) (v : BitVec 32) : (r.number base v).length =
    max (r.width.getD 0) ((r.sign v).length + (r.body base v).length) := by
  rw [Conversion.number]
  split_ifs
  · rw [List.length_append, List.length_leftpad]
    omega
  · rw [length_pad, List.length_append]

theorem fieldWidth_cases (r : Conversion) : r.fieldWidth = -1 ∧ r.width.getD 0 = 0 ∨
    r.fieldWidth = r.width.getD 0 := by
  rw [Conversion.fieldWidth]
  split
  · rename_i h
    rw [h]
    exact .inl ⟨rfl, rfl⟩
  · rename_i h
    rw [h]
    exact .inr rfl

/-- The counters of a number that is not left justified stay in range, as they go down by one
in each of the loops that are not taken. -/
def Conversion.Roomy (r : Conversion) (v : BitVec 32) : Prop :=
  r.left = false → ∀ p ∈ r.precision, p + (r.sign v).length + 2 ≤ 2 ^ 31 + r.fieldWidth

theorem printNumber_write (base : ℕ) (v : BitVec 32) (hprecision : ∀ p ∈ r.precision, 1 ≤ p) :
    ∃ sign tmp, sign.toList = r.sign v ∧ tmp.length ≤ 32 ∧
      List.replicate (((r.body (divisor base) v).length : ℤ) - tmp.length).toNat (ch '0') ++
        tmp.reverse = r.body (divisor base) v ∧
      ((r.body (divisor base) v).length : ℤ) = max (tmp.length : ℤ) r.minDigits ∧
      1 ≤ tmp.length ∧ r.minDigits ≠ 0 ∧
      ∀ {σ : Type} (put : UInt8 → σ → σ) (o : σ),
        printNumber put v base r.fieldWidth r.minDigits r.flags o =
          writeNumber put sign tmp (if r.left then { r.flags with zeropad := false } else r.flags)
            (int (r.fieldWidth - (r.body (divisor base) v).length))
            (r.body (divisor base) v).length r.minDigits o := by
  obtain ⟨hsign, hnum⟩ := getSign_eq r v
  have hdigits : (if r.flags.large then largeDigits else smallDigits) = r.conv.digits := by
    cases r with
    | mk conv => cases conv <;> rfl
  obtain ⟨-, -, hone, hmost⟩ := numberDigits_eq r.conv.digits base (getSign r.flags v).2
  obtain ⟨hbody, hleast⟩ := body_eq base hprecision hnum rfl
  have hnot : r.minDigits ≠ 0 := by
    rw [Conversion.minDigits]
    cases hp : r.precision with
    | none => decide
    | some q =>
      have hq := hprecision q hp
      simp only [Option.getD_some]
      omega
  refine ⟨(getSign r.flags v).1, numberDigits r.conv.digits base (getSign r.flags v).2, hsign,
    hmost, ?_, hleast, hone, hnot, fun put o ↦ ?_⟩
  · rw [hleast]
    exact hbody
  · rw [printNumber_eq]
    simp only [hdigits, hleast]
    rfl

theorem printNumber_conversion (put : UInt8 → σ → σ) (o : σ)
    (hprecision : ∀ p ∈ r.precision, 1 ≤ p) (hlen : (r.number (divisor base) v).length < 2 ^ 31)
    (hroomy : r.Roomy v) :
    printNumber put v base r.fieldWidth r.minDigits r.flags o =
      emit put (r.number (divisor base) v) o := by
  obtain ⟨sign, tmp, hsign, hmost, hbody, hleast, hone, hnot, hwrite⟩ :=
    printNumber_write base v hprecision
  have hk : signLength sign = (r.sign v).length := by
    rw [signLength, hsign]
  have hcases := signLength_cases sign
  have hwidth := fieldWidth_cases r
  rw [length_number] at hlen
  have htop (hleft : r.left = false) :
      ((r.body (divisor base) v).length : ℤ) + signLength sign + 2 ≤ 2 ^ 31 + r.fieldWidth := by
    rw [hk]
    have hroomy := hroomy hleft
    cases hp : r.precision with
    | none =>
      have hmin : r.minDigits = -1 := by
        rw [Conversion.minDigits, hp]
        rfl
      omega
    | some q =>
      have hq := hroomy q hp
      have hmin : r.minDigits = q := by
        rw [Conversion.minDigits, hp]
        rfl
      omega
  have hfill : (r.fieldWidth - (r.body (divisor base) v).length - signLength sign).toNat =
      r.width.getD 0 - ((r.sign v).length + (r.body (divisor base) v).length) := by omega
  rw [hwrite]
  cases hleft : r.left with
  | true =>
    rw [if_pos rfl, writeNumber_left hnot (by omega) (by omega) (by omega) hleft (by omega), hsign,
      hbody, hfill, Conversion.number, if_neg fun h ↦ by simp [hleft] at h, Conversion.pad,
      if_pos hleft, List.rightpad, List.length_append]
  | false =>
    have htop := htop hleft
    rw [if_neg Bool.false_ne_true]
    cases hpad : r.zero with
    | true =>
      rw [writeNumber_zero hnot (by omega) (by omega) (by omega) hleft hpad htop (by omega), hsign,
        hbody, hfill, Conversion.number, if_pos ⟨hpad, hleft⟩, List.leftpad, List.append_assoc,
        Nat.sub_sub]
    | false =>
      rw [writeNumber_right hnot (by omega) (by omega) (by omega) hleft hpad htop (by omega), hsign,
        hbody, hfill, Conversion.number, if_neg fun h ↦ by simp [hpad] at h, Conversion.pad,
        if_neg (Bool.eq_false_iff.mp hleft), List.leftpad, List.length_append,
        List.append_assoc]

/-- Where a counter does not stay in range, the number comes out far too long. -/
theorem printNumber_overflow (hprecision : ∀ p ∈ r.precision, 1 ≤ p)
    (hzero : r.zero → r.precision = none) (hlen : (r.number (divisor base) v).length < 2 ^ 31)
    (hroomy : ¬r.Roomy v) : 2 ^ 31 - 3 ≤ (r.number (divisor base) v).length ∧
    (printNumber push v base r.fieldWidth r.minDigits r.flags []).length =
      (r.number (divisor base) v).length + (2 ^ 31 - 1) := by
  simp only [Conversion.Roomy, not_forall, not_le] at hroomy
  obtain ⟨hleft, p, hp, hover⟩ := hroomy
  obtain ⟨sign, tmp, hsign, hmost, -, hleast, hone, hnot, hwrite⟩ :=
    printNumber_write base v hprecision
  have hk : signLength sign = (r.sign v).length := by
    rw [signLength, hsign]
  have hcases := signLength_cases sign
  have hwidth := fieldWidth_cases r
  have hpad : r.zero = false := by
    refine Bool.eq_false_iff.mpr fun hpad ↦ ?_
    rw [hzero hpad] at hp
    cases hp
  have hmin : r.minDigits = p := by
    rw [Conversion.minDigits, Option.mem_def.mp hp]
    rfl
  rw [length_number] at hlen ⊢
  have hwrite := hwrite push []
  rw [if_neg (Bool.eq_false_iff.mp hleft)] at hwrite
  have hcount : ((writeNumber push sign tmp r.flags
      (int (r.fieldWidth - (r.body (divisor base) v).length)) (r.body (divisor base) v).length
      r.minDigits []).length : ℤ) =
        (r.body (divisor base) v).length + signLength sign + (2 ^ 31 - 1) :=
    writeNumber_overflow hnot (by omega) (by omega) (by omega) hleft hpad (by omega) (by omega)
  rw [← hwrite] at hcount
  omega

end GiantGecko.Rtos.Format
