import GiantGecko.Rtos.Format

namespace GiantGecko.Rtos.Format

open Foundation.BoundedStore

/-! Where the text goes is of no account for the text. -/

theorem putWhile_emits (c : UInt8) (bound : ℤ) (turns : ℕ) (n : ℤ) : ∃ m text,
    ∀ {σ : Type} (put : UInt8 → σ → σ) (o : σ),
      putWhile put c bound turns n o = (m, emit put text o) := by
  induction turns generalizing n with
  | zero => exact ⟨n, [], fun put o ↦ rfl⟩
  | succ turns ih =>
    simp only [putWhile]
    split_ifs
    · obtain ⟨m, text, h⟩ := ih (int (n - 1))
      exact ⟨m, c :: text, fun put o ↦ by rw [h, emit_cons]⟩
    · exact ⟨_, [], fun put o ↦ rfl⟩

theorem putWhileDown_emits (c : UInt8) (turns : ℕ) (n : ℤ) : ∃ m text,
    ∀ {σ : Type} (put : UInt8 → σ → σ) (o : σ),
      putWhileDown put c turns n o = (m, emit put text o) := by
  induction turns generalizing n with
  | zero => exact ⟨n, [], fun put o ↦ rfl⟩
  | succ turns ih =>
    simp only [putWhileDown]
    split_ifs
    · obtain ⟨m, text, h⟩ := ih (int (n - 1))
      exact ⟨m, c :: text, fun put o ↦ by rw [h, emit_cons]⟩
    · exact ⟨_, [], fun put o ↦ rfl⟩

theorem padWhile_emits (c : UInt8) (bound n : ℤ) : ∃ m text,
    ∀ {σ : Type} (put : UInt8 → σ → σ) (o : σ), padWhile put c bound n o = (m, emit put text o) :=
  putWhile_emits c bound _ n

theorem padWhileDown_emits (c : UInt8) (n : ℤ) : ∃ m text,
    ∀ {σ : Type} (put : UInt8 → σ → σ) (o : σ), padWhileDown put c n o = (m, emit put text o) :=
  putWhileDown_emits c _ n

theorem ite_padWhile_emits (C : Prop) [Decidable C] (c : UInt8) (bound n n' : ℤ) : ∃ m text,
    ∀ {σ : Type} (put : UInt8 → σ → σ) (o : σ),
      (if C then padWhile put c bound n o else (n', o)) = (m, emit put text o) := by
  by_cases hC : C
  · obtain ⟨m, text, h⟩ := padWhile_emits c bound n
    exact ⟨m, text, fun put o ↦ by rw [if_pos hC, h]⟩
  · exact ⟨n', [], fun put o ↦ by rw [if_neg hC, emit_nil]⟩

theorem putSign_emits (sign : Option UInt8) (size : ℤ) : ∃ m text,
    ∀ {σ : Type} (put : UInt8 → σ → σ) (o : σ), putSign put sign size o = (m, emit put text o) := by
  cases sign with
  | none => exact ⟨size, [], fun put o ↦ rfl⟩
  | some c => exact ⟨int (size - 1), [c], fun put o ↦ rfl⟩

theorem writeNumber_emits (sign : Option UInt8) (tmp : List UInt8) (type : Flags)
    (size precision precisionBak : ℤ) : ∃ text, ∀ {σ : Type} (put : UInt8 → σ → σ) (o : σ),
      writeNumber put sign tmp type size precision precisionBak o = emit put text o := by
  obtain ⟨n₁, text₁, h₁⟩ := ite_padWhile_emits (¬(type.zeropad ∨ type.left)) (ch ' ') 0
    (if sign.isSome ∧ 0 < size then int (size - 1) else size) size
  obtain ⟨n₂, text₂, h₂⟩ := putSign_emits sign n₁
  obtain ⟨n₃, text₃, h₃⟩ := ite_padWhile_emits (¬type.left)
    (if type.zeropad then ch '0' else ch ' ') 0 n₂ n₂
  obtain ⟨n₄, text₄, h₄⟩ := padWhile_emits (ch '0') tmp.length precision
  obtain ⟨n₅, text₅, h₅⟩ := padWhile_emits (ch ' ') 0 n₃
  refine ⟨text₁ ++ text₂ ++ text₃ ++ text₄ ++ (if precisionBak ≠ 0 then tmp.reverse else []) ++ text₅,
    fun put o ↦ ?_⟩
  simp only [writeNumber, h₁, h₂, h₃, h₄, h₅, emit_append]
  split_ifs <;> rfl

theorem printNumber_emits (num : BitVec 32) (base : ℕ) (s precision : ℤ) (type : Flags) : ∃ text,
    ∀ {σ : Type} (put : UInt8 → σ → σ) (o : σ),
      printNumber put num base s precision type o = emit put text o :=
  writeNumber_emits _ _ _ _ _ _

theorem vaInt_cases (args : List Arg) :
    (∃ v args', vaInt args = .ok (v, args')) ∨ vaInt args = .error .args := by
  unfold vaInt
  split
  · exact .inl ⟨_, _, rfl⟩
  · exact .inr rfl

theorem vaStr_cases (args : List Arg) :
    (∃ s args', vaStr args = .ok (s, args')) ∨ vaStr args = .error .args := by
  unfold vaStr
  split
  · exact .inl ⟨_, _, rfl⟩
  · exact .inr rfl

theorem vaPointer_cases (args : List Arg) :
    (∃ v args', vaPointer args = .ok (v, args')) ∨ vaPointer args = .error .args := by
  unfold vaPointer
  split
  · exact .inl ⟨_, _, rfl⟩
  · exact .inl ⟨_, _, rfl⟩
  · exact .inr rfl

/-- A conversion puts out a text, or an argument does not match. -/
def Converts (f : {σ : Type} → (UInt8 → σ → σ) → σ → Except Fault (List Arg × σ)) : Prop :=
  (∃ args text, ∀ {σ : Type} (put : UInt8 → σ → σ) (o : σ), f put o = .ok (args, emit put text o)) ∨
    ∀ {σ : Type} (put : UInt8 → σ → σ) (o : σ), f put o = .error .args

theorem convertChar_converts (flags : Flags) (fieldWidth : ℤ) (args : List Arg) :
    Converts fun put o ↦ convertChar put flags fieldWidth args o := by
  obtain ⟨v, args', hargs⟩ | hargs := vaInt_cases args
  · obtain ⟨m, text, h⟩ : ∃ m text, ∀ {σ : Type} (put : UInt8 → σ → σ) (o : σ),
        (if ¬flags.left then padWhileDown put (ch ' ') fieldWidth o else (fieldWidth, o)) =
          (m, emit put text o) := by
      by_cases hleft : ¬flags.left = true
      · obtain ⟨m, text, h⟩ := padWhileDown_emits (ch ' ') fieldWidth
        exact ⟨m, text, fun put o ↦ by rw [if_pos hleft, h]⟩
      · exact ⟨fieldWidth, [], fun put o ↦ by rw [if_neg hleft, emit_nil]⟩
    obtain ⟨m', text', h'⟩ := padWhileDown_emits (ch ' ') m
    refine .inl ⟨args', text ++ v.toNat.toUInt8 :: text', fun put o ↦ ?_⟩
    simp only [convertChar, h, hargs, h', emit_append, emit_cons]
    rfl
  · refine .inr fun put o ↦ ?_
    simp only [convertChar, hargs]
    rfl

theorem convertString_converts (flags : Flags) (fieldWidth precision : ℤ) (args : List Arg) :
    Converts fun put o ↦ convertString put flags fieldWidth precision args o := by
  obtain ⟨s, args', hargs⟩ | hargs := vaStr_cases args
  · set len := if 0 < precision ∧ precision < int s.length then precision else int s.length with hlen
    obtain ⟨m, text, h⟩ := ite_padWhile_emits (¬flags.left) (ch ' ') len fieldWidth fieldWidth
    obtain ⟨m', text', h'⟩ := padWhile_emits (ch ' ') len m
    refine .inl ⟨args', text ++ (s.take len.toNat ++ text'), fun put o ↦ ?_⟩
    simp only [convertString, hargs, Bind.bind, Except.bind, ← hlen, h, h', emit_append]
  · refine .inr fun put o ↦ ?_
    simp only [convertString, hargs]
    rfl

theorem convertPointer_converts (flags : Flags) (fieldWidth precision : ℤ) (args : List Arg) :
    Converts fun put o ↦ convertPointer put flags fieldWidth precision args o := by
  obtain ⟨v, args', hargs⟩ | hargs := vaPointer_cases args
  · obtain ⟨text, h⟩ := printNumber_emits v 16
      (if fieldWidth = -1 then (8, { flags with zeropad := true }) else (fieldWidth, flags)).1 precision
      (if fieldWidth = -1 then (8, { flags with zeropad := true }) else (fieldWidth, flags)).2
    refine .inl ⟨args', text, fun put o ↦ ?_⟩
    simp only [convertPointer, hargs, Bind.bind, Except.bind, h]
  · refine .inr fun put o ↦ ?_
    simp only [convertPointer, hargs]
    rfl

theorem convertNumber_converts (base : ℕ) (flags : Flags) (fieldWidth precision : ℤ)
    (qualifier : UInt8) (args : List Arg) :
    Converts fun put o ↦ convertNumber put base flags fieldWidth precision qualifier args o := by
  obtain ⟨v, args', hargs⟩ | hargs := vaInt_cases args
  · obtain ⟨text, h⟩ := printNumber_emits
      (if qualifier = ch 'h' then
        if flags.sign then (v.setWidth 16).signExtend 32 else (v.setWidth 16).setWidth 32
      else v) base fieldWidth precision flags
    refine .inl ⟨args', text, fun put o ↦ ?_⟩
    simp only [convertNumber, hargs, Bind.bind, Except.bind, h]
  · refine .inr fun put o ↦ ?_
    simp only [convertNumber, hargs]
    rfl

def Directs (fmt : List UInt8)
    (f : {σ : Type} → (UInt8 → σ → σ) → σ → Except Fault (List UInt8 × List Arg × σ)) : Prop :=
  (∃ fmt' args text, fmt'.length ≤ fmt.length ∧ ∀ {σ : Type} (put : UInt8 → σ → σ) (o : σ),
    f put o = .ok (fmt', args, emit put text o)) ∨
  ∀ {σ : Type} (put : UInt8 → σ → σ) (o : σ), f put o = .error .args

theorem Converts.directs {f : {σ : Type} → (UInt8 → σ → σ) → σ → Except Fault (List Arg × σ)}
    (h : Converts f) {fmt fmt' : List UInt8} (hfmt : fmt'.length ≤ fmt.length) :
    Directs fmt fun put o ↦ (fmt', ·) <$> f put o := by
  obtain ⟨args, text, h⟩ | h := h
  · exact .inl ⟨fmt', args, text, hfmt, fun put o ↦ congrArg ((fmt', ·) <$> ·) (h put o)⟩
  · exact .inr fun put o ↦ congrArg ((fmt', ·) <$> ·) (h put o)

theorem Directs.ite {fmt : List UInt8} {C : Prop} [Decidable C]
    {f g : {σ : Type} → (UInt8 → σ → σ) → σ → Except Fault (List UInt8 × List Arg × σ)}
    (hf : Directs fmt f) (hg : Directs fmt g) :
    Directs fmt fun put o ↦ if C then f put o else g put o := by
  by_cases hC : C
  · simp only [if_pos hC]
    exact hf
  · simp only [if_neg hC]
    exact hg

theorem convert_directs (flags : Flags) (fieldWidth precision : ℤ) (qualifier : UInt8)
    (fmt : List UInt8) (args : List Arg) :
    Directs fmt fun put o ↦ convert put flags fieldWidth precision qualifier fmt args o := by
  have htail : fmt.tail.length ≤ fmt.length := by
    rw [List.length_tail]
    exact Nat.sub_le _ _
  unfold convert
  refine .ite ((convertChar_converts flags fieldWidth args).directs htail) ?_
  refine .ite ((convertString_converts flags fieldWidth precision args).directs htail) ?_
  refine .ite ((convertPointer_converts flags fieldWidth precision args).directs htail) ?_
  refine .ite (.inl ⟨fmt.tail, args, [ch '%'], htail, fun put o ↦ rfl⟩) ?_
  refine .ite ((convertNumber_converts 8 flags fieldWidth precision qualifier args).directs htail) ?_
  refine .ite ((convertNumber_converts 16 _ fieldWidth precision qualifier args).directs htail) ?_
  refine .ite ((convertNumber_converts 16 flags fieldWidth precision qualifier args).directs htail) ?_
  refine .ite ((convertNumber_converts 10 _ fieldWidth precision qualifier args).directs htail) ?_
  refine .ite ((convertNumber_converts 10 flags fieldWidth precision qualifier args).directs htail) ?_
  refine .ite (.inl ⟨fmt.tail, args, [ch '%', peek fmt], htail, fun put o ↦ rfl⟩) ?_
  exact .inl ⟨fmt, args, [ch '%'], Nat.le_refl _, fun put o ↦ rfl⟩

theorem length_flagLoop (flags : Flags) (fmt : List UInt8) :
    (flagLoop flags fmt).2.length ≤ fmt.length := by
  induction fmt generalizing flags with
  | nil => exact Nat.le_refl _
  | cons c fmt ih =>
    rw [flagLoop]
    split_ifs
    all_goals first
      | exact Nat.le_succ_of_le (ih _)
      | exact Nat.le_refl _

theorem length_skipAtoi (i : ℤ) (fmt : List UInt8) : (skipAtoi i fmt).2.length ≤ fmt.length := by
  induction fmt generalizing i with
  | nil => exact Nat.le_refl _
  | cons c fmt ih =>
    rw [skipAtoi]
    split_ifs
    · exact Nat.le_succ_of_le (ih _)
    · exact Nat.le_refl _

theorem length_tail_le (fmt : List UInt8) : fmt.tail.length ≤ fmt.length := by
  rw [List.length_tail]
  exact Nat.sub_le _ _

theorem getFieldWidth_cases (flags : Flags) (fmt : List UInt8) (args : List Arg) :
    (∃ w flags' fmt' args', getFieldWidth flags fmt args = .ok (w, flags', fmt', args') ∧
      fmt'.length ≤ fmt.length) ∨ getFieldWidth flags fmt args = .error .args := by
  rw [getFieldWidth]
  split_ifs
  · exact .inl ⟨_, _, _, _, rfl, length_skipAtoi 0 fmt⟩
  · obtain ⟨v, args', hargs⟩ | hargs := vaInt_cases args
    · rw [hargs]
      by_cases hneg : v.toInt < 0
      · exact .inl ⟨_, _, _, _, if_pos hneg, length_tail_le fmt⟩
      · exact .inl ⟨_, _, _, _, if_neg hneg, length_tail_le fmt⟩
    · rw [hargs]
      exact .inr rfl
  · exact .inl ⟨_, _, _, _, rfl, Nat.le_refl _⟩

theorem getDigits_cases (fmt : List UInt8) (args : List Arg) :
    (∃ p fmt' args', getDigits fmt args = .ok (p, fmt', args') ∧ fmt'.length ≤ fmt.length) ∨
      getDigits fmt args = .error .args := by
  rw [getDigits]
  split_ifs
  · exact .inl ⟨_, _, _, rfl, length_skipAtoi 0 fmt⟩
  · obtain ⟨v, args', hargs⟩ | hargs := vaInt_cases args
    · rw [hargs]
      exact .inl ⟨_, _, _, rfl, length_tail_le fmt⟩
    · rw [hargs]
      exact .inr rfl
  · exact .inl ⟨_, _, _, rfl, Nat.le_refl _⟩

theorem getPrecision_cases (fmt : List UInt8) (args : List Arg) :
    (∃ p fmt' args', getPrecision fmt args = .ok (p, fmt', args') ∧ fmt'.length ≤ fmt.length) ∨
      getPrecision fmt args = .error .args := by
  rw [getPrecision]
  split_ifs
  · obtain ⟨p, fmt', args', h, hlen⟩ | h := getDigits_cases fmt.tail args
    · rw [h]
      exact .inl ⟨_, _, _, rfl, hlen.trans (length_tail_le fmt)⟩
    · rw [h]
      exact .inr rfl
  · exact .inl ⟨_, _, _, rfl, Nat.le_refl _⟩

theorem length_getQualifier (fmt : List UInt8) : (getQualifier fmt).2.length ≤ fmt.length := by
  rw [getQualifier]
  split_ifs
  · exact length_tail_le fmt
  · exact Nat.le_refl _

theorem directive_directs (fmt : List UInt8) (args : List Arg) :
    Directs fmt fun put o ↦ directive put fmt args o := by
  have hflags := length_flagLoop {} fmt
  unfold directive
  obtain ⟨w, flags, fmt₁, args₁, hwidth, hlen₁⟩ | hwidth :=
    getFieldWidth_cases (flagLoop {} fmt).1 (flagLoop {} fmt).2 args
  · obtain ⟨p, fmt₂, args₂, hprecision, hlen₂⟩ | hprecision := getPrecision_cases fmt₁ args₁
    · have hlen₃ := length_getQualifier fmt₂
      simp only [hwidth, hprecision, Bind.bind, Except.bind]
      obtain ⟨fmt', args', text, hlen, h⟩ | h :=
        convert_directs flags w p (getQualifier fmt₂).1 (getQualifier fmt₂).2 args₂
      · exact .inl ⟨fmt', args', text, by omega, h⟩
      · exact .inr h
    · simp only [hwidth, hprecision, Bind.bind, Except.bind]
      exact .inr fun put o ↦ rfl
  · simp only [hwidth, Bind.bind, Except.bind]
    exact .inr fun put o ↦ rfl

section Turns

variable {σ : Type} {put : UInt8 → σ → σ} {turns : ℕ} {c : UInt8} {fmt : List UInt8}
  {args : List Arg} {o : σ}

theorem formatLoop_end (h : peek fmt = 0) : formatLoop put (turns + 1) fmt args o = .ok o :=
  if_pos h

theorem formatLoop_char (hend : c ≠ 0) (hpercent : c ≠ ch '%') :
    formatLoop put (turns + 1) (c :: fmt) args o = formatLoop put turns fmt args (put c o) := by
  rw [formatLoop, if_neg (show peek (c :: fmt) ≠ 0 from hend),
    if_pos (show peek (c :: fmt) ≠ ch '%' from hpercent)]
  rfl

theorem formatLoop_percent : formatLoop put (turns + 1) (ch '%' :: fmt) args o =
    (directive put fmt args o).bind fun x ↦ formatLoop put turns x.1 x.2.1 x.2.2 := by
  have hend : ch '%' ≠ 0 := by decide
  rw [formatLoop, if_neg (show peek (ch '%' :: fmt) ≠ 0 from hend), if_neg fun h ↦ h rfl]
  rfl

end Turns

/-- The formatter puts out the same text wherever it goes, and needs no more turns than the
format has characters. -/
theorem formatLoop_emits (turns : ℕ) (fmt : List UInt8) (args : List Arg)
    (hturns : fmt.length < turns) :
    (∃ text, ∀ {σ : Type} (put : UInt8 → σ → σ) (o : σ),
      formatLoop put turns fmt args o = .ok (emit put text o)) ∨
    ∀ {σ : Type} (put : UInt8 → σ → σ) (o : σ), formatLoop put turns fmt args o = .error .args := by
  induction turns generalizing fmt args with
  | zero => omega
  | succ turns ih =>
    cases fmt with
    | nil => exact .inl ⟨[], fun put o ↦ formatLoop_end rfl⟩
    | cons c fmt =>
      rw [List.length_cons] at hturns
      by_cases hend : c = 0
      · exact .inl ⟨[], fun put o ↦ formatLoop_end hend⟩
      by_cases hpercent : c = ch '%'
      · subst hpercent
        obtain ⟨fmt', args', text, hlen, hdirects⟩ | hdirects := directive_directs fmt args
        · obtain ⟨text', h⟩ | h := ih fmt' args' (by omega)
          · refine .inl ⟨text ++ text', fun put o ↦ ?_⟩
            rw [formatLoop_percent, show directive put fmt args o = _ from hdirects put o, emit_append]
            exact h put _
          · refine .inr fun put o ↦ ?_
            rw [formatLoop_percent, show directive put fmt args o = _ from hdirects put o]
            exact h put _
        · refine .inr fun put o ↦ ?_
          rw [formatLoop_percent, show directive put fmt args o = _ from hdirects put o]
          rfl
      · obtain ⟨text, h⟩ | h := ih fmt args (by omega)
        · exact .inl ⟨c :: text, fun put o ↦ by rw [formatLoop_char hend hpercent, h, emit_cons]⟩
        · exact .inr fun put o ↦ by rw [formatLoop_char hend hpercent, h]

def fullText (fmt : List UInt8) (args : List Arg) : Except Fault (List UInt8) :=
  format push fmt args []

variable {fmt : List UInt8}

theorem format_emits (fmt : List UInt8) (args : List Arg) :
    (∃ text, fullText fmt args = .ok text ∧ ∀ {σ : Type} (put : UInt8 → σ → σ) (o : σ),
      format put fmt args o = .ok (emit put text o)) ∨
    fullText fmt args = .error .args ∧
      ∀ {σ : Type} (put : UInt8 → σ → σ) (o : σ), format put fmt args o = .error .args := by
  obtain ⟨text, h⟩ | h := formatLoop_emits (fmt.length + 1) fmt args (Nat.lt_succ_self _)
  · refine .inl ⟨text, ?_, h⟩
    rw [fullText, format, h, emit_push, List.nil_append]
  · exact .inr ⟨h push [], h⟩

theorem fullText_plain (h : ∀ c ∈ fmt, c ≠ 0 ∧ c ≠ ch '%') (args : List Arg) :
    fullText fmt args = .ok fmt := by
  have hloop (turns : ℕ) (o : List UInt8) (hturns : fmt.length < turns) :
      formatLoop push turns fmt args o = .ok (o ++ fmt) := by
    induction fmt generalizing turns o with
    | nil =>
      obtain ⟨turns, rfl⟩ := Nat.exists_eq_add_of_lt hturns
      rw [formatLoop_end rfl, List.append_nil]
    | cons c fmt ih =>
      rw [List.length_cons] at hturns
      obtain ⟨turns, rfl⟩ : ∃ n, turns = n + 1 := ⟨turns - 1, by omega⟩
      obtain ⟨hc, hfmt⟩ := List.forall_mem_cons.mp h
      rw [formatLoop_char hc.1 hc.2, ih hfmt turns _ (by omega), push, List.append_assoc]
      rfl
  rw [fullText, format, hloop _ _ (Nat.lt_succ_self _), List.nil_append]

end GiantGecko.Rtos.Format
