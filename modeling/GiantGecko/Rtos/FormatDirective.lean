import GiantGecko.Rtos.FormatNumber

namespace GiantGecko.Rtos.Format

open Foundation.BoundedStore

variable {σ : Type} {o : σ} {r : Conversion} {d : Directive} {c : UInt8} {rest : List UInt8}
  {args args' : List Arg} {size : Option Size} {x : Option ℤ}

def IsFlag (c : UInt8) : Prop := c = ch '-' ∨ c = ch '+' ∨ c = ch ' ' ∨ c = ch '#' ∨ c = ch '0'

instance (c : UInt8) : Decidable (IsFlag c) :=
  inferInstanceAs (Decidable (_ ∨ _ ∨ _ ∨ _ ∨ _))

theorem flagLoop_flags (type : Flags) (flags : List Flag) (h : ¬IsFlag c) :
    flagLoop type (flags.map Flag.char ++ c :: rest) = (
      { type with
        left := type.left || decide (Flag.minus ∈ flags)
        zeropad := type.zeropad || decide (Flag.zero ∈ flags)
        plus := type.plus || decide (Flag.plus ∈ flags) }, c :: rest) := by
  induction flags generalizing type with
  | nil =>
    simp only [IsFlag, not_or] at h
    obtain ⟨hminus, hplus, hspace, hspecial, hzero⟩ := h
    simp [flagLoop, hminus, hplus, hspace, hspecial, hzero]
  | cons flag flags ih =>
    cases flag with
    | minus =>
      rw [List.map_cons, List.cons_append, flagLoop, if_pos (by decide), ih]
      simp
    | zero =>
      rw [List.map_cons, List.cons_append, flagLoop, if_neg (by decide), if_neg (by decide),
        if_neg (by decide), if_neg (by decide), if_pos (by decide), ih]
      simp
    | plus =>
      rw [List.map_cons, List.cons_append, flagLoop, if_neg (by decide), if_pos (by decide), ih]
      simp

theorem digitChar_eq (d : Fin 10) : isdigit (digitChar d) = true ∧
    ((digitChar d).toNat : ℤ) - (ch '0').toNat = d := by
  revert d
  decide

theorem skipAtoi_digits (n : ℕ) (ds : List (Fin 10)) (hrest : isdigit (peek rest) = false)
    (hlarge : ds.foldl (fun n d ↦ n * 10 + d.val) n < 2 ^ 31) :
    skipAtoi n (ds.map digitChar ++ rest) =
      (((ds.foldl (fun n d ↦ n * 10 + d.val) n : ℕ) : ℤ), rest) := by
  induction ds generalizing n with
  | nil =>
    rw [List.map_nil, List.nil_append, List.foldl_nil]
    cases rest with
    | nil => rfl
    | cons c rest =>
      rw [skipAtoi, if_neg (by rw [show isdigit c = false from hrest]; exact Bool.false_ne_true)]
  | cons d ds ih =>
    have hgrow (m : ℕ) : m ≤ ds.foldl (fun n d ↦ n * 10 + d.val) m := by
      clear ih hlarge
      induction ds generalizing m with
      | nil => exact Nat.le_refl _
      | cons d ds ih => exact Nat.le_trans (show m ≤ m * 10 + d.val by omega) (ih _)
    rw [List.foldl_cons] at hlarge ⊢
    have hnext := hgrow (n * 10 + d.val)
    obtain ⟨hdigit, hvalue⟩ := digitChar_eq d
    rw [List.map_cons, List.cons_append, skipAtoi, if_pos hdigit]
    have hint : int ((n : ℤ) * 10 + (digitChar d).toNat - (ch '0').toNat) =
        ((n * 10 + d.val : ℕ) : ℤ) := by
      rw [int_eq (by omega) (by omega)]
      push_cast
      omega
    rw [hint]
    exact ih _ hlarge

theorem isdigit_star : isdigit (ch '*') = false := by decide

theorem isdigit_peek {ds : List (Fin 10)} {d : Fin 10} :
    isdigit (peek ((d :: ds).map digitChar ++ rest)) = true :=
  (digitChar_eq d).1

def codeWidth : Option ℤ → ℤ
  | none => -1
  | some w => w.natAbs

def codePrecision : Option ℤ → ℤ
  | none => -1
  | some p => if p < 0 then 0 else p

theorem getFieldWidth_eq (type : Flags)
    (hsize : ∀ ds, size = some (.digits ds) → ∃ d ds', ds = d :: ds')
    (hfit : ∀ s ∈ size, s.WellFormed) (hread : readSize size args = some (x, args'))
    (hx : ∀ w ∈ x, w.natAbs < 2 ^ 31) (hdigit : isdigit (peek rest) = false)
    (hstar : peek rest ≠ ch '*') :
    getFieldWidth type (widthBytes size ++ rest) args =
      .ok (codeWidth x, { type with left := type.left || decide (x.getD 0 < 0) }, rest, args') := by
  cases size with
  | none =>
    obtain ⟨rfl, rfl⟩ : none = x ∧ args = args' := by simpa [readSize] using hread
    change getFieldWidth type rest args = _
    rw [getFieldWidth, if_neg (by rw [hdigit]; exact Bool.false_ne_true), if_neg hstar]
    simp [codeWidth]
  | some size =>
    cases size with
    | digits ds =>
      obtain ⟨d, ds, rfl⟩ := hsize ds rfl
      obtain ⟨rfl, rfl⟩ : some (value (d :: ds) : ℤ) = x ∧ args = args' := by
        simpa [readSize] using hread
      have hskip : skipAtoi 0 ((d :: ds).map digitChar ++ rest) = ((value (d :: ds) : ℤ), rest) :=
        skipAtoi_digits 0 (d :: ds) hdigit (hfit _ rfl)
      have hpos : ¬(value (d :: ds) : ℤ) < 0 := by omega
      change getFieldWidth type ((d :: ds).map digitChar ++ rest) args = _
      rw [getFieldWidth, if_pos isdigit_peek, hskip]
      simp [codeWidth, hpos]
    | star =>
      cases args with
      | nil => cases hread
      | cons arg args =>
        cases arg with
        | str address s => cases hread
        | int v =>
          obtain ⟨rfl, rfl⟩ : some v.toInt = x ∧ args = args' := by simpa [readSize] using hread
          have hv : v.toInt.natAbs < 2 ^ 31 := hx v.toInt rfl
          change getFieldWidth type (ch '*' :: rest) (.int v :: args) = _
          have hnot : ¬isdigit (peek (ch '*' :: rest)) = true := Bool.eq_false_iff.mp isdigit_star
          rw [getFieldWidth, if_neg hnot, if_pos (show peek (ch '*' :: rest) = ch '*' from rfl)]
          simp only [vaInt, Bind.bind, Except.bind, codeWidth, Option.getD_some, List.tail_cons]
          split_ifs with hneg
          · have hint : int (-v.toInt) = v.toInt.natAbs := by
              rw [int_eq (by omega) (by omega)]
              omega
            simp [hint, hneg]
          · have habs : (v.toInt.natAbs : ℤ) = v.toInt := by omega
            simp [habs, hneg]

theorem getPrecision_eq (hfit : ∀ s ∈ size, s.WellFormed)
    (hread : readSize size args = some (x, args')) (hdigit : isdigit (peek rest) = false)
    (hstar : peek rest ≠ ch '*') (hdot : peek rest ≠ ch '.') :
    getPrecision (precisionBytes size ++ rest) args = .ok (codePrecision x, rest, args') := by
  cases size with
  | none =>
    obtain ⟨rfl, rfl⟩ : none = x ∧ args = args' := by simpa [readSize] using hread
    exact if_neg hdot
  | some size =>
    obtain ⟨p, hp, hprecision⟩ : ∃ p, getDigits (size.bytes ++ rest) args = .ok (p, rest, args') ∧
        (if p < 0 then 0 else p) = codePrecision x := by
      cases size with
      | digits ds =>
        obtain ⟨rfl, rfl⟩ : some (value ds : ℤ) = x ∧ args = args' := by
          simpa [readSize] using hread
        cases ds with
        | nil =>
          -- a precision without digits is zero
          refine ⟨-1, ?_, rfl⟩
          change getDigits rest args = _
          rw [getDigits, if_neg (by rw [hdigit]; exact Bool.false_ne_true), if_neg hstar]
        | cons d ds =>
          have hskip : skipAtoi 0 ((d :: ds).map digitChar ++ rest) = ((value (d :: ds) : ℤ), rest) :=
            skipAtoi_digits 0 (d :: ds) hdigit (hfit _ rfl)
          refine ⟨value (d :: ds), ?_, rfl⟩
          change getDigits ((d :: ds).map digitChar ++ rest) args = _
          rw [getDigits, if_pos isdigit_peek, hskip]
      | star =>
        cases args with
        | nil => cases hread
        | cons arg args =>
          cases arg with
          | str address s => cases hread
          | int v =>
            obtain ⟨rfl, rfl⟩ : some v.toInt = x ∧ args = args' := by simpa [readSize] using hread
            refine ⟨v.toInt, ?_, rfl⟩
            change getDigits (ch '*' :: rest) (.int v :: args) = _
            have hnot : ¬isdigit (peek (ch '*' :: rest)) = true :=
              Bool.eq_false_iff.mp isdigit_star
            rw [getDigits, if_neg hnot, if_pos (show peek (ch '*' :: rest) = ch '*' from rfl)]
            rfl
    change getPrecision (ch '.' :: (size.bytes ++ rest)) args = _
    rw [getPrecision, if_pos (show peek (ch '.' :: (size.bytes ++ rest)) = ch '.' from rfl)]
    simp only [List.tail_cons, hp, Bind.bind, Except.bind, hprecision]

theorem getQualifier_eq (hh : peek rest ≠ ch 'h') (hl : peek rest ≠ ch 'l') :
    getQualifier rest = (0, rest) := by
  rw [getQualifier, if_neg fun h ↦ h.elim hh hl]

def Conversion.given (r : Conversion) : Flags where
  zeropad := r.zero
  plus := r.plus
  left := r.left

theorem convertChar_conversion (put : UInt8 → σ → σ) (v : BitVec 32) {type : Flags}
    (htype : type.left = r.left) (hwidth : r.width.getD 0 < 2 ^ 31) :
    convertChar put type r.fieldWidth (.int v :: args) o =
      .ok (args, emit put (r.pad [v.toNat.toUInt8]) o) := by
  have hcases := fieldWidth_cases r
  have hcount : (r.fieldWidth - 1).toNat = r.width.getD 0 - [v.toNat.toUInt8].length := by
    rw [List.length_singleton]
    omega
  simp only [convertChar, vaInt, Bind.bind, Except.bind, Conversion.pad, ← htype]
  by_cases hleft : type.left = true
  · simp only [if_pos hleft, if_neg (not_not.mpr hleft)]
    rw [padWhileDown_eq (by omega) (by omega), hcount, List.rightpad, emit_append, emit_cons,
      emit_nil]
  · have hlast : (min (r.fieldWidth - 1) 0 - 1).toNat = 0 := by omega
    simp only [if_pos hleft, if_neg hleft]
    rw [padWhileDown_eq (n := r.fieldWidth) (by omega) (by omega),
      padWhileDown_eq (by omega) (by omega), hlast, hcount, List.leftpad, emit_append, emit_cons,
      emit_nil, List.replicate_zero, emit_nil]

def Conversion.cut (r : Conversion) (s : List UInt8) : List UInt8 :=
  match r.precision with
  | none => s
  | some p => if p < 0 then s else s.take p.toNat

theorem cut_eq (hprecision : r.precision ≠ some 0) {s : List UInt8} (hlen : s.length < 2 ^ 31) :
    ∃ len : ℕ, (if 0 < codePrecision r.precision ∧ codePrecision r.precision < int s.length then
      codePrecision r.precision else int s.length) = len ∧ s.take len = r.cut s ∧
      (r.cut s).length = len := by
  have hint : int s.length = s.length := int_eq (by omega) (by omega)
  rw [hint, Conversion.cut]
  cases hp : r.precision with
  | none => exact ⟨s.length, if_neg (by simp [codePrecision]), List.take_length, rfl⟩
  | some p =>
    have hne : p ≠ 0 := fun heq ↦ hprecision (by rw [hp, heq])
    simp only [codePrecision]
    by_cases hneg : p < 0
    · simp only [if_pos hneg]
      exact ⟨s.length, if_neg (by omega), List.take_length, rfl⟩
    · simp only [if_neg hneg]
      by_cases hlt : p < s.length
      · refine ⟨p.toNat, ?_, rfl, ?_⟩
        · rw [if_pos ⟨by omega, hlt⟩]
          omega
        · rw [List.length_take]
          omega
      · refine ⟨s.length, if_neg fun h ↦ hlt h.2, ?_, ?_⟩
        · rw [List.take_length, List.take_of_length_le (by omega)]
        · rw [List.length_take]
          omega

theorem convertString_conversion (put : UInt8 → σ → σ) {address : BitVec 32} {s : CString}
    {type : Flags} (htype : type.left = r.left) (haddress : address ≠ 0)
    (hprecision : r.precision ≠ some 0) (hwidth : r.width.getD 0 < 2 ^ 31) :
    convertString put type r.fieldWidth (codePrecision r.precision) (.str address s :: args) o =
      .ok (args, emit put (r.pad (r.cut s.bytes)) o) := by
  have hcases := fieldWidth_cases r
  obtain ⟨len, hlen, htake, hcut⟩ := cut_eq hprecision s.fits
  have hle : len ≤ s.bytes.length := by
    have := congrArg List.length htake
    rw [List.length_take, hcut] at this
    omega
  have hsmall := s.fits
  have hcount : (r.fieldWidth - len).toNat = r.width.getD 0 - (r.cut s.bytes).length := by
    rw [hcut]
    omega
  simp only [convertString, vaStr, if_neg haddress, Bind.bind, Except.bind, hlen, Int.toNat_natCast, htake,
    Conversion.pad, ← htype]
  by_cases hleft : type.left = true
  · simp only [if_pos hleft, if_neg (not_not.mpr hleft)]
    rw [padWhile_eq (by omega) (by omega), hcount, List.rightpad, emit_append]
  · have hdown : int (min r.fieldWidth len - 1) = min r.fieldWidth len - 1 :=
      int_eq (by omega) (by omega)
    have hlast : (min r.fieldWidth len - 1 - len).toNat = 0 := by omega
    simp only [if_pos hleft, if_neg hleft]
    rw [padWhile_eq (n := r.fieldWidth) (by omega) (by omega), hdown,
      padWhile_eq (by omega) (by omega), hlast, hcount, List.leftpad, emit_append,
      List.replicate_zero, emit_nil]

def Conv.numeric : Conv → Bool
  | .c | .s => false
  | _ => true

def Conversion.code (r : Conversion) : List UInt8 :=
  match r.arg with
  | .int v => if r.conv.numeric then r.number (divisor r.conv.base) v else r.pad [v.toNat.toUInt8]
  | .str _ s => r.pad (r.cut s.bytes)

/-- The counters of a number stay in range. -/
def Conversion.InRange (r : Conversion) : Prop :=
  r.conv.numeric = true → ∀ v, r.arg = .int v → r.Roomy v

theorem length_digits_le {b b' : ℕ} (hb : 1 < b) (hle : b ≤ b') (n : ℕ) :
    (Nat.digits b' n).length ≤ (Nat.digits b n).length :=
  (Nat.digits_length_le_iff (Nat.lt_of_lt_of_le hb hle) n).mpr
    (Nat.lt_of_lt_of_le (Nat.lt_base_pow_length_digits hb) (Nat.pow_le_pow_left hle _))

theorem length_number_le (r : Conversion) {b b' : ℕ} (hb : 1 < b) (hle : b ≤ b') (v : BitVec 32) :
    (r.number b' v).length ≤ (r.number b v).length := by
  have hdigits := length_digits_le hb hle (r.magnitude v)
  simp only [length_number, Conversion.body, List.length_leftpad, numeral, List.length_reverse,
    List.length_map]
  omega

theorem base_le_divisor (conv : Conv) : 1 < conv.base ∧ conv.base ≤ divisor conv.base := by
  cases conv <;> decide

theorem text_numeric (hnumeric : r.conv.numeric = true) {text : List UInt8}
    (htext : r.text = some text) : ∃ v, r.arg = .int v ∧ text = r.number r.conv.base v ∧
      (r.zero → r.precision = none) ∧ ∀ p ∈ r.precision, 1 ≤ p := by
  rw [Conversion.text] at htext
  cases harg : r.arg with
  | int v =>
    rw [harg] at htext
    refine ⟨v, rfl, ?_⟩
    cases hconv : r.conv
    case c => rw [hconv] at hnumeric; cases hnumeric
    case s => rw [hconv] at hnumeric; cases hnumeric
    all_goals
      rw [hconv] at htext
      simp only [Option.ite_none_right_eq_some, Option.some.injEq] at htext
      obtain ⟨⟨hzero, hprecision⟩, rfl⟩ := htext
      exact ⟨rfl, hzero, hprecision⟩
  | str address s =>
    rw [harg] at htext
    cases hconv : r.conv
    case s => rw [hconv] at hnumeric; cases hnumeric
    all_goals
      rw [hconv] at htext
      cases htext

theorem text_char (hconv : r.conv = .c) {text : List UInt8} (htext : r.text = some text) :
    ∃ v, r.arg = .int v ∧ text = r.pad [v.toNat.toUInt8] := by
  rw [Conversion.text, hconv] at htext
  cases harg : r.arg with
  | int v =>
    rw [harg] at htext
    simp only [Option.ite_none_right_eq_some, Option.some.injEq] at htext
    exact ⟨v, rfl, htext.2.symm⟩
  | str address s =>
    rw [harg] at htext
    cases htext

theorem text_string (hconv : r.conv = .s) {text : List UInt8} (htext : r.text = some text) :
    ∃ address s, r.arg = .str address s ∧ text = r.pad (r.cut s.bytes) ∧ address ≠ 0 ∧
      r.precision ≠ some 0 := by
  rw [Conversion.text, hconv] at htext
  cases harg : r.arg with
  | int v =>
    rw [harg] at htext
    cases htext
  | str address s =>
    rw [harg] at htext
    simp only [Option.ite_none_right_eq_some, Option.some.injEq] at htext
    exact ⟨address, s, rfl, htext.2.symm, htext.1.2⟩

theorem conv_cases (conv : Conv) : conv = .c ∨ conv = .s ∨ conv.numeric = true := by
  cases conv <;> decide

theorem length_code_le {text : List UInt8} (htext : r.text = some text) :
    r.code.length ≤ text.length := by
  rw [Conversion.code]
  obtain hconv | hconv | hnumeric := conv_cases r.conv
  · obtain ⟨v, harg, rfl⟩ := text_char hconv htext
    rw [harg, hconv]
    exact Nat.le_refl _
  · obtain ⟨address, s, harg, rfl, -⟩ := text_string hconv htext
    rw [harg]
  · obtain ⟨v, harg, rfl, -⟩ := text_numeric hnumeric htext
    obtain ⟨hone, hle⟩ := base_le_divisor r.conv
    rw [harg]
    simp only [if_pos hnumeric]
    exact length_number_le r hone hle v

/-- What is put out for a conversion with its arguments at the front of the list. -/
def Conversion.Prints (r : Conversion) (text : List UInt8) : Prop :=
  ∀ {σ : Type} (put : UInt8 → σ → σ) (o : σ) (rest : List UInt8) (args : List Arg),
    convert put r.given r.fieldWidth (codePrecision r.precision) 0 (r.conv.char :: rest)
      (r.arg :: args) o = .ok (rest, args, emit put text o)

theorem convert_numeric (hnumeric : r.conv.numeric = true) {v : BitVec 32} (harg : r.arg = .int v)
    (hprecision : ∀ p ∈ r.precision, 1 ≤ p) (put : UInt8 → σ → σ) :
    convert put r.given r.fieldWidth (codePrecision r.precision) 0 (r.conv.char :: rest)
      (r.arg :: args) o =
        .ok (rest, args, printNumber put v r.conv.base r.fieldWidth r.minDigits r.flags o) := by
  have hmin : codePrecision r.precision = r.minDigits := by
    rw [Conversion.minDigits]
    cases hp : r.precision with
    | none => rfl
    | some p =>
      have hp := hprecision p hp
      exact if_neg (by omega)
  have hconvert : convert put r.given r.fieldWidth (codePrecision r.precision) 0
      (r.conv.char :: rest) (.int v :: args) o = (rest, ·) <$> convertNumber put r.conv.base r.flags
        r.fieldWidth (codePrecision r.precision) 0 (.int v :: args) o := by
    cases r with
    | mk conv => cases conv <;> first | rfl | cases hnumeric
  rw [harg, hconvert, hmin]
  rfl

theorem prints_code {text : List UInt8} (htext : r.text = some text) (hlen : text.length < 2 ^ 31)
    (hrange : r.InRange) : r.Prints r.code := by
  intro σ put o rest args
  obtain hconv | hconv | hnumeric := conv_cases r.conv
  · obtain ⟨v, harg, rfl⟩ := text_char hconv htext
    rw [length_pad] at hlen
    have hconvert : convertChar put r.given r.fieldWidth (.int v :: args) o = _ :=
      convertChar_conversion put v rfl (Nat.lt_of_le_of_lt (Nat.le_max_left _ _) hlen)
    rw [Conversion.code, harg, hconv]
    change (rest, ·) <$> convertChar put r.given r.fieldWidth (.int v :: args) o = _
    rw [hconvert]
    rfl
  · obtain ⟨address, s, harg, rfl, haddress, hprecision⟩ := text_string hconv htext
    rw [length_pad] at hlen
    have hconvert : convertString put r.given r.fieldWidth (codePrecision r.precision)
        (.str address s :: args) o = _ :=
      convertString_conversion put rfl haddress hprecision
        (Nat.lt_of_le_of_lt (Nat.le_max_left _ _) hlen)
    rw [Conversion.code, harg, hconv]
    change (rest, ·) <$> convertString put r.given r.fieldWidth (codePrecision r.precision)
      (.str address s :: args) o = _
    rw [hconvert]
    rfl
  · obtain ⟨v, harg, rfl, -, hprecision⟩ := text_numeric hnumeric htext
    obtain ⟨hone, hle⟩ := base_le_divisor r.conv
    have hcode : r.code = r.number (divisor r.conv.base) v := by
      rw [Conversion.code, harg]
      exact if_pos hnumeric
    rw [convert_numeric hnumeric harg hprecision, hcode, printNumber_conversion put o hprecision
      (Nat.lt_of_le_of_lt (length_number_le r hone hle v) hlen) (hrange hnumeric v harg)]

theorem prints_overflow {text : List UInt8} (htext : r.text = some text)
    (hlen : text.length < 2 ^ 31) (hrange : ¬r.InRange) : 2 ^ 31 - 3 ≤ text.length ∧
      ∃ long, r.Prints long ∧ 2 ^ 31 ≤ long.length ∧ long.length < text.length + 2 ^ 31 := by
  simp only [Conversion.InRange, not_forall] at hrange
  obtain ⟨hnumeric, v, harg, hroomy⟩ := hrange
  obtain ⟨v', harg', rfl, hzero, hprecision⟩ := text_numeric hnumeric htext
  obtain rfl : v = v' := Arg.int.inj (harg.symm.trans harg')
  obtain ⟨hone, hle⟩ := base_le_divisor r.conv
  have hcode := length_number_le r hone hle v
  obtain ⟨hleast, hlong⟩ := printNumber_overflow hprecision hzero
    (Nat.lt_of_le_of_lt hcode hlen) hroomy
  obtain ⟨long, hlong'⟩ := printNumber_emits v r.conv.base r.fieldWidth r.minDigits r.flags
  rw [hlong', emit_push, List.nil_append] at hlong
  refine ⟨by omega, long, fun put o rest args ↦ ?_, by omega, by omega⟩
  rw [convert_numeric hnumeric harg hprecision, hlong']

theorem width_le {text : List UInt8} (htext : r.text = some text) :
    r.width.getD 0 ≤ text.length := by
  obtain hconv | hconv | hnumeric := conv_cases r.conv
  · obtain ⟨v, -, rfl⟩ := text_char hconv htext
    rw [length_pad]
    exact Nat.le_max_left _ _
  · obtain ⟨address, s, -, rfl, -⟩ := text_string hconv htext
    rw [length_pad]
    exact Nat.le_max_left _ _
  · obtain ⟨v, -, rfl, -⟩ := text_numeric hnumeric htext
    rw [length_number]
    exact Nat.le_max_left _ _

theorem char_conv (conv : Conv) : isdigit conv.char = false ∧ ¬IsFlag conv.char ∧
    conv.char ≠ ch '*' ∧ conv.char ≠ ch '.' ∧ conv.char ≠ ch 'h' ∧ conv.char ≠ ch 'l' := by
  cases conv <;> decide

theorem peek_precision (size : Option Size) (conv : Conv) (rest : List UInt8) :
    ∃ c cs, precisionBytes size ++ conv.char :: rest = c :: cs ∧ isdigit c = false ∧ ¬IsFlag c ∧
      c ≠ ch '*' := by
  cases size with
  | none =>
    obtain ⟨hdigit, hflag, hstar, -⟩ := char_conv conv
    exact ⟨conv.char, rest, rfl, hdigit, hflag, hstar⟩
  | some size => exact ⟨ch '.', _, rfl, by decide, by decide, by decide⟩

theorem digitChar_not_flag {c : Fin 10} (h : c ≠ 0) : ¬IsFlag (digitChar c) := by
  revert c
  decide

theorem peek_width (h : ∀ ds, d.width = some (.digits ds) → ∃ c cs, ds = c :: cs ∧ c ≠ 0)
    (rest : List UInt8) : ∃ c cs, widthBytes d.width ++
      (precisionBytes d.precision ++ d.conv.char :: rest) = c :: cs ∧ ¬IsFlag c := by
  cases hwidth : d.width with
  | none =>
    obtain ⟨c, cs, heq, -, hflag, -⟩ := peek_precision d.precision d.conv rest
    exact ⟨c, cs, heq, hflag⟩
  | some size =>
    cases size with
    | digits ds =>
      obtain ⟨c, cs, rfl, hc⟩ := h ds hwidth
      exact ⟨digitChar c, _, rfl, digitChar_not_flag hc⟩
    | star => exact ⟨ch '*', _, rfl, by decide⟩

/-- What the formatter makes of a directive. -/
theorem directive_conversion (put : UInt8 → σ → σ) (hwell : d.WellFormed)
    (hread : d.read args = some (r, args')) {text : List UInt8} (htext : r.text = some text)
    (hlen : text.length < 2 ^ 31) {out : List UInt8} (hprints : r.Prints out) :
    directive put (d.bytes ++ rest) args o = .ok (rest, args', emit put out o) := by
  obtain ⟨hfirst, hwidth, hprecision⟩ := hwell
  rw [Directive.read] at hread
  split at hread
  · cases hread
  rename_i w args₁ hw
  split at hread
  · cases hread
  · cases hread
  rename_i p arg args₂ hp
  obtain ⟨hr, rfl⟩ := Prod.mk.inj (Option.some.inj hread)
  obtain ⟨c, cs, hhead, hflag⟩ := peek_width hfirst rest
  obtain ⟨c', cs', hnext, hdigit, -, hstar⟩ := peek_precision d.precision d.conv rest
  obtain ⟨hdigit', -, hstar', hdot, hh, hl⟩ := char_conv d.conv
  have hbytes : d.bytes ++ rest = d.flags.map Flag.char ++ c :: cs := by
    rw [← hhead]
    simp [Directive.bytes]
  have hshort : ∀ x ∈ w, x.natAbs < 2 ^ 31 := by
    intro x hx
    have hle := width_le htext
    rw [← hr, Option.mem_def.mp hx] at hle
    exact Nat.lt_of_le_of_lt hle hlen
  have hsome : ∀ ds, d.width = some (.digits ds) → ∃ d ds', ds = d :: ds' := by
    intro ds hds
    obtain ⟨c, cs, heq, -⟩ := hfirst ds hds
    exact ⟨c, cs, heq⟩
  have hgiven : r.given =
      { zeropad := false || decide (Flag.zero ∈ d.flags)
        plus := false || decide (Flag.plus ∈ d.flags)
        left := false || decide (Flag.minus ∈ d.flags) || decide (w.getD 0 < 0) } := by
    rw [← hr]
    simp [Conversion.given]
  have hfieldWidth : r.fieldWidth = codeWidth w := by
    rw [← hr]
    cases w <;> rfl
  have hconvert : convert put r.given (codeWidth w) (codePrecision p) 0 (d.conv.char :: rest)
      (arg :: args₂) o = .ok (rest, args₂, emit put out o) := by
    have h := hprints put o rest args₂
    rw [hfieldWidth, ← hr] at h
    rw [← hr]
    exact h
  rw [directive, hbytes, flagLoop_flags _ _ hflag]
  simp only [← hhead]
  rw [getFieldWidth_eq _ hsome hwidth hw hshort (by rw [hnext]; exact hdigit)
    (by rw [hnext]; exact hstar)]
  simp only [Bind.bind, Except.bind]
  rw [getPrecision_eq hprecision hp (show isdigit (peek (d.conv.char :: rest)) = false from hdigit')
    hstar' hdot]
  simp only
  rw [getQualifier_eq (show peek (d.conv.char :: rest) ≠ ch 'h' from hh) hl, ← hgiven]
  exact hconvert

def Part.code : Part → List UInt8
  | .byte c => [c]
  | .conversion r => r.code

def Part.InRange : Part → Prop
  | .byte _ => True
  | .conversion r => r.InRange

def Part.Prints : Part → List UInt8 → Prop
  | .byte c, text => text = [c]
  | .conversion r, text => r.Prints text

theorem formatLoop_piece (put : UInt8 → σ → σ) {piece : Piece} (hwell : piece.WellFormed)
    {part : Part} (hread : piece.read args = some (part, args')) {text : List UInt8}
    (htext : part.text = some text) (hlen : text.length < 2 ^ 31) {out : List UInt8}
    (hprints : part.Prints out) (turns : ℕ) :
    formatLoop put (turns + 1) (piece.bytes ++ rest) args o =
      formatLoop put turns rest args' (emit put out o) := by
  cases piece with
  | char c =>
    obtain ⟨rfl, rfl⟩ := Prod.mk.inj (Option.some.inj hread)
    obtain rfl : out = [c] := hprints
    exact formatLoop_char hwell.1 hwell.2
  | percent =>
    obtain ⟨rfl, rfl⟩ := Prod.mk.inj (Option.some.inj hread)
    obtain rfl : out = [ch '%'] := hprints
    exact formatLoop_percent
  | directive d =>
    cases hd : d.read args with
    | none =>
      rw [Piece.read, hd] at hread
      cases hread
    | some x =>
      rw [Piece.read, hd] at hread
      obtain ⟨rfl, rfl⟩ := Prod.mk.inj (Option.some.inj hread)
      change formatLoop put (turns + 1) (ch '%' :: (d.bytes ++ rest)) args o = _
      rw [formatLoop_percent, directive_conversion put hwell hd htext hlen hprints]
      rfl

theorem length_bytes (piece : Piece) : 1 ≤ piece.bytes.length := by
  cases piece <;> simp [Piece.bytes]

theorem partsText_cons {part : Part} {parts : List Part} {text : List UInt8}
    (h : partsText (part :: parts) = some text) : ∃ first others, part.text = some first ∧
      partsText parts = some others ∧ text = first ++ others := by
  rw [partsText] at h
  split at h
  · rename_i first others hfirst hothers
    exact ⟨first, others, hfirst, hothers, (Option.some.inj h).symm⟩
  · cases h

theorem readPieces_cons {piece : Piece} {pieces : List Piece} {parts : List Part}
    (h : readPieces (piece :: pieces) args = some parts) : ∃ part parts' args',
      piece.read args = some (part, args') ∧ readPieces pieces args' = some parts' ∧
        parts = part :: parts' := by
  rw [readPieces] at h
  split at h
  · cases h
  · rename_i part args' hpart
    obtain ⟨parts', hparts, rfl⟩ := Option.map_eq_some_iff.mp h
    exact ⟨part, parts', args', hpart, hparts, rfl⟩

theorem formatLoop_pieces (put : UInt8 → σ → σ) {pieces : List Piece}
    (hwell : ∀ piece ∈ pieces, piece.WellFormed) {parts : List Part}
    (hread : readPieces pieces args = some parts) {text : List UInt8}
    (htext : partsText parts = some text) (hlen : text.length < 2 ^ 31) {outs : List (List UInt8)}
    (houts : List.Forall₂ Part.Prints parts outs) {turns : ℕ}
    (hturns : (formatBytes pieces).length < turns) :
    formatLoop put turns (formatBytes pieces) args o = .ok (emit put outs.flatten o) := by
  induction pieces generalizing args parts text outs turns o with
  | nil =>
    obtain rfl := Option.some.inj hread
    obtain rfl := List.forall₂_nil_left_iff.mp houts
    obtain ⟨turns, rfl⟩ : ∃ n, turns = n + 1 := ⟨turns - 1, by simp [formatBytes] at hturns; omega⟩
    exact formatLoop_end rfl
  | cons piece pieces ih =>
    obtain ⟨part, parts, args', hpart, hparts, rfl⟩ := readPieces_cons hread
    obtain ⟨first, others, hfirst, hothers, rfl⟩ := partsText_cons htext
    obtain ⟨hpiece, hpieces⟩ := List.forall_mem_cons.mp hwell
    obtain ⟨out, outs, hprints, hrest, rfl⟩ := List.forall₂_cons_left_iff.mp houts
    have hbytes : formatBytes (piece :: pieces) = piece.bytes ++ formatBytes pieces := rfl
    have hone := length_bytes piece
    rw [List.length_append] at hlen
    rw [hbytes, List.length_append] at hturns
    obtain ⟨turns, rfl⟩ : ∃ n, turns = n + 1 := ⟨turns - 1, by omega⟩
    rw [hbytes, formatLoop_piece put hpiece hpart hfirst (by omega) hprints,
      ih hpieces hparts hothers (by omega) hrest (by omega), List.flatten_cons, emit_append]

theorem length_partCode_le {part : Part} {text : List UInt8} (htext : part.text = some text) :
    part.code.length ≤ text.length := by
  cases part with
  | byte c =>
    obtain rfl := Option.some.inj htext
    exact Nat.le_refl _
  | conversion r => exact length_code_le htext

theorem length_codes_le {parts : List Part} {text : List UInt8} (htext : partsText parts = some text) :
    (parts.flatMap Part.code).length ≤ text.length := by
  induction parts generalizing text with
  | nil => exact Nat.zero_le _
  | cons part parts ih =>
    obtain ⟨first, others, hfirst, hothers, rfl⟩ := partsText_cons htext
    have hpart := length_partCode_le hfirst
    have hparts := ih hothers
    rw [List.flatMap_cons, List.length_append, List.length_append]
    omega

theorem partPrints_cases {part : Part} {text : List UInt8} (htext : part.text = some text)
    (hlen : text.length < 2 ^ 31) : part.InRange ∧ part.Prints part.code ∨
      ¬part.InRange ∧ 2 ^ 31 - 3 ≤ text.length ∧
        ∃ long, part.Prints long ∧ 2 ^ 31 ≤ long.length ∧ long.length < text.length + 2 ^ 31 := by
  cases part with
  | byte c => exact .inl ⟨trivial, rfl⟩
  | conversion r =>
    by_cases hrange : r.InRange
    · exact .inl ⟨hrange, prints_code htext hlen hrange⟩
    · exact .inr ⟨hrange, prints_overflow htext hlen hrange⟩

/-- As the text is shorter than `2 ^ 31`, no more than one of its parts can be out of range. -/
theorem prints_parts {parts : List Part} {text : List UInt8} (htext : partsText parts = some text)
    (hlen : text.length < 2 ^ 31) : ∃ outs, List.Forall₂ Part.Prints parts outs ∧
      ((∀ part ∈ parts, part.InRange) ∧ outs.flatten = parts.flatMap Part.code ∨
        (¬∀ part ∈ parts, part.InRange) ∧ 2 ^ 31 - 3 ≤ text.length ∧
          2 ^ 31 ≤ outs.flatten.length ∧ outs.flatten.length < text.length + 2 ^ 31) := by
  induction parts generalizing text with
  | nil => exact ⟨[], .nil, .inl ⟨fun part hpart ↦ absurd hpart List.not_mem_nil, rfl⟩⟩
  | cons part parts ih =>
    obtain ⟨first, others, hfirst, hothers, rfl⟩ := partsText_cons htext
    have hcode := length_partCode_le hfirst
    have hcodes := length_codes_le hothers
    simp only [List.forall_mem_cons, List.flatMap_cons]
    rw [List.length_append] at hlen ⊢
    obtain ⟨outs, houts, hcases⟩ := ih hothers (by omega)
    obtain ⟨hrange, hprints⟩ | ⟨hrange, hleast, out, hprints, hlong, hmost⟩ :=
      partPrints_cases hfirst (by omega)
    · refine ⟨part.code :: outs, .cons hprints houts, ?_⟩
      rw [List.flatten_cons, List.length_append]
      obtain ⟨hranges, heq⟩ | ⟨hranges, hleast, hlong, hmost⟩ := hcases
      · exact .inl ⟨⟨hrange, hranges⟩, congrArg (part.code ++ ·) heq⟩
      · exact .inr ⟨fun h ↦ hranges h.2, by omega, by omega, by omega⟩
    · refine ⟨out :: outs, .cons hprints houts, .inr ⟨fun h ↦ hrange h.1, ?_⟩⟩
      rw [List.flatten_cons, List.length_append]
      obtain ⟨-, heq⟩ | ⟨-, hleast', -⟩ := hcases
      · rw [heq]
        exact ⟨by omega, by omega, by omega⟩
      · omega

theorem fullText_pieces {pieces : List Piece} (hwell : ∀ piece ∈ pieces, piece.WellFormed)
    {parts : List Part} (hread : readPieces pieces args = some parts) {text : List UInt8}
    (htext : partsText parts = some text) (hlen : text.length < 2 ^ 31) :
    ∃ full, fullText (formatBytes pieces) args = .ok full ∧
      ((∀ part ∈ parts, part.InRange) ∧ full = parts.flatMap Part.code ∨
        (¬∀ part ∈ parts, part.InRange) ∧ 2 ^ 31 ≤ full.length ∧ full.length < 2 ^ 32) := by
  obtain ⟨outs, houts, hcases⟩ := prints_parts htext hlen
  refine ⟨outs.flatten, ?_, ?_⟩
  · rw [fullText, format, formatLoop_pieces push hwell hread htext hlen houts (Nat.lt_succ_self _),
      emit_push, List.nil_append]
  · obtain h | ⟨hrange, -, hlong, hmost⟩ := hcases
    · exact .inl h
    · exact .inr ⟨hrange, hlong, by omega⟩

end GiantGecko.Rtos.Format
