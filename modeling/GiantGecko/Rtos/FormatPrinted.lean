import GiantGecko.Rtos.FormatBuffer
import GiantGecko.Rtos.FormatDirective

namespace GiantGecko.Rtos.Format

open Foundation.BoundedStore

variable {r : Conversion} {v : BitVec 32} {text : List UInt8}

/-- What a text says to base 16, with spaces left out. -/
def reading (text : List UInt8) : ℕ :=
  Nat.ofDigits 16 ((text.filter (· ≠ ch ' ')).reverse.map fun c ↦ smallDigits.idxOf c)

theorem reading_zeros (n : ℕ) (text : List UInt8) :
    reading (text.leftpad n (ch '0')) = reading text := by
  have hkept (k : ℕ) : (List.replicate k (ch '0')).filter (· ≠ ch ' ') = List.replicate k (ch '0') :=
    List.filter_eq_self.mpr fun c hc ↦ by
      rw [List.eq_of_mem_replicate hc]
      decide
  have hzero : smallDigits.idxOf (ch '0') = 0 := by decide
  rw [reading, List.leftpad, List.filter_append, hkept, List.reverse_append, List.map_append,
    List.reverse_replicate, List.map_replicate, hzero, Nat.ofDigits_append_replicate_zero]
  rfl

theorem reading_pad (r : Conversion) (text : List UInt8) : reading (r.pad text) = reading text := by
  have hdropped (k : ℕ) : (List.replicate k (ch ' ')).filter (· ≠ ch ' ') = [] :=
    List.filter_eq_nil_iff.mpr fun c hc ↦ by
      rw [List.eq_of_mem_replicate hc]
      decide
  rw [reading, Conversion.pad]
  split_ifs
  · rw [List.rightpad, List.filter_append, hdropped, List.append_nil]
    rfl
  · rw [List.leftpad, List.filter_append, hdropped, List.nil_append]
    rfl

theorem smallDigits_get {d : ℕ} (h : d < 16) :
    smallDigits.getD d 0 ≠ ch ' ' ∧ smallDigits.idxOf (smallDigits.getD d 0) = d := by
  have hall : ∀ d : Fin 16, smallDigits.getD d 0 ≠ ch ' ' ∧
      smallDigits.idxOf (smallDigits.getD d 0) = d := by decide
  exact hall ⟨d, h⟩

theorem reading_numeral {b : ℕ} (hb : 1 < b) (hle : b ≤ 16) (n : ℕ) :
    reading (numeral smallDigits b n) = Nat.ofDigits 16 (Nat.digits b n) := by
  have hdigit {d : ℕ} (hd : d ∈ Nat.digits b n) : d < 16 :=
    Nat.lt_of_lt_of_le (Nat.digits_lt_base hb hd) hle
  have hkept : (numeral smallDigits b n).filter (· ≠ ch ' ') = numeral smallDigits b n := by
    refine List.filter_eq_self.mpr fun c hc ↦ ?_
    rw [numeral, List.mem_reverse, List.mem_map] at hc
    obtain ⟨d, hd, rfl⟩ := hc
    exact decide_eq_true (smallDigits_get (hdigit hd)).1
  rw [reading, hkept, numeral, List.reverse_reverse, List.map_map]
  have hback : (Nat.digits b n).map ((fun c ↦ smallDigits.idxOf c) ∘ fun d ↦ smallDigits.getD d 0) =
      (Nat.digits b n).map id :=
    List.map_congr_left fun d hd ↦ (smallDigits_get (hdigit hd)).2
  rw [hback, List.map_id]

theorem reading_number (hconv : r.conv = .o) {b : ℕ} (hb : 1 < b) (hle : b ≤ 16) :
    reading (r.number b v) = Nat.ofDigits 16 (Nat.digits b v.toNat) := by
  have hsign : r.sign v = [] := by
    rw [Conversion.sign, hconv]
    rfl
  have hmagnitude : r.magnitude v = v.toNat := by
    rw [Conversion.magnitude, hconv]
    rfl
  have hbody : reading (r.body b v) = Nat.ofDigits 16 (Nat.digits b v.toNat) := by
    rw [Conversion.body, reading_zeros, hmagnitude, hconv]
    exact reading_numeral hb hle v.toNat
  rw [Conversion.number, hsign, List.nil_append, List.nil_append]
  split_ifs
  · rw [reading_zeros, hbody]
  · rw [reading_pad, hbody]

theorem ofDigits_digits_eq_iff (n : ℕ) : Nat.ofDigits 16 (Nat.digits 8 n) = n ↔ n < 8 := by
  obtain rfl | hpos := Nat.eq_zero_or_pos n
  · simp
  rw [Nat.digits_def' (by omega) hpos, Nat.ofDigits_cons]
  have hle := Nat.ofDigits_monotone (Nat.digits 8 (n / 8)) (show 8 ≤ 16 by omega)
  rw [Nat.ofDigits_digits] at hle
  refine ⟨fun heq ↦ by omega, fun hlt ↦ ?_⟩
  rw [Nat.div_eq_of_lt hlt, Nat.digits_zero, Nat.ofDigits_nil]
  omega

theorem number_eq_iff (hconv : r.conv = .o) : r.number 16 v = r.number 8 v ↔ v.toNat < 8 := by
  refine ⟨fun heq ↦ ?_, fun hlt ↦ ?_⟩
  · have hreading := congrArg reading heq
    rw [reading_number hconv (by omega) (by omega), reading_number hconv (by omega) (by omega),
      Nat.ofDigits_digits] at hreading
    exact (ofDigits_digits_eq_iff _).mp hreading.symm
  · have hmagnitude : r.magnitude v = v.toNat := by
      rw [Conversion.magnitude, hconv]
      rfl
    have hdigits : Nat.digits 16 v.toNat = Nat.digits 8 v.toNat := by
      obtain hzero | hne := eq_or_ne v.toNat 0
      · rw [hzero, Nat.digits_zero, Nat.digits_zero]
      · rw [Nat.digits_of_lt 16 _ hne (by omega), Nat.digits_of_lt 8 _ hne hlt]
    have hbody : r.body 16 v = r.body 8 v := by
      rw [Conversion.body, Conversion.body, numeral, numeral, hmagnitude, hdigits]
    rw [Conversion.number, Conversion.number, hbody]

def Conversion.Small (r : Conversion) : Prop := r.conv = .o → ∀ v, r.arg = .int v → v.toNat < 8

def Part.Small : Part → Prop
  | .byte _ => True
  | .conversion r => r.Small

theorem code_eq_iff (htext : r.text = some text) : r.code = text ↔ r.Small := by
  obtain hconv | hconv | hnumeric := conv_cases r.conv
  · obtain ⟨v, harg, rfl⟩ := text_char hconv htext
    refine iff_of_true ?_ fun ho ↦ by rw [hconv] at ho; cases ho
    rw [Conversion.code, harg, hconv]
    rfl
  · obtain ⟨address, s, harg, rfl, -⟩ := text_string hconv htext
    refine iff_of_true ?_ fun ho ↦ by rw [hconv] at ho; cases ho
    rw [Conversion.code, harg]
  · obtain ⟨v, harg, rfl, -⟩ := text_numeric hnumeric htext
    have hcode : r.code = r.number (divisor r.conv.base) v := by
      rw [Conversion.code, harg]
      exact if_pos hnumeric
    rw [hcode]
    by_cases ho : r.conv = .o
    · have hbase : r.conv.base = 8 := by
        rw [ho]
        rfl
      rw [hbase, show divisor 8 = 16 from rfl, number_eq_iff ho]
      refine ⟨fun hlt _ v' harg' ↦ ?_, fun h ↦ h ho v harg⟩
      obtain rfl := Arg.int.inj (harg.symm.trans harg')
      exact hlt
    · have hbase : divisor r.conv.base = r.conv.base := by
        cases hconv : r.conv <;> first | rfl | exact absurd hconv ho
      rw [hbase]
      exact iff_of_true rfl fun h ↦ absurd h ho

theorem partCode_eq_iff {part : Part} (htext : part.text = some text) :
    part.code = text ↔ part.Small := by
  cases part with
  | byte c => exact iff_of_true (Option.some.inj htext) trivial
  | conversion r => exact code_eq_iff htext

/-- No part comes out longer than it should be, so that none can make up for another one. -/
theorem codes_eq_iff {parts : List Part} (htext : partsText parts = some text) :
    parts.flatMap Part.code = text ↔ ∀ part ∈ parts, part.Small := by
  induction parts generalizing text with
  | nil =>
    obtain rfl := Option.some.inj htext
    simp
  | cons part parts ih =>
    obtain ⟨first, others, hfirst, hothers, rfl⟩ := partsText_cons htext
    have hpart := length_partCode_le hfirst
    have hparts := length_codes_le hothers
    rw [List.forall_mem_cons, ← partCode_eq_iff hfirst, ← ih hothers, List.flatMap_cons]
    refine ⟨fun heq ↦ ?_, fun ⟨hcode, hcodes⟩ ↦ by rw [hcode, hcodes]⟩
    have hlength := congrArg List.length heq
    rw [List.length_append, List.length_append] at hlength
    exact List.append_inj heq (by omega)

section Console

variable {fmt : List UInt8} {args : List Arg} {rtLogBuf : BitVec 32} {mem : BitVec 32 → UInt8}

theorem rtKprintf_eq (htext : fullText fmt args = .ok text) (hlen : text.length < 2 ^ 31) :
    rtKprintf rtLogBuf fmt args mem = .ok ((List.range (min text.length 127)).map fun i ↦
      written text rtLogBuf (BitVec.ofNat 32 127) mem (rtLogBuf + BitVec.ofNat 32 i)) := by
  have hlength : (BitVec.ofInt 32 (text.length : ℤ)).toNat = text.length := by
    rw [BitVec.ofInt_natCast, BitVec.toNat_ofNat, Nat.mod_eq_of_lt (by omega)]
  have hmin : (if 127 < text.length then 127 else text.length) = min text.length 127 := by
    split_ifs <;> omega
  rw [rtKprintf, rtVsnprintf_eq htext hlen]
  simp only [Bind.bind, Except.bind, hlength, consolebufSize, Nat.reduceSub, hmin]

theorem written_log (mem : BitVec 32 → UInt8)
    (hbuf : rtLogBuf.toNat + consolebufSize ≤ 2 ^ 32) (hlen : text.length < 2 ^ 31)
    {i : ℕ} (hi : i < 127) (hin : i < text.length) :
    written text rtLogBuf (BitVec.ofNat 32 127) mem (rtLogBuf + BitVec.ofNat 32 i) =
      if i = 126 ∧ rtLogBuf.toNat + text.length < 2 ^ 32 then 0 else text[i] := by
  obtain ⟨hstop, hsize⟩ := bufferEnd_eq rtLogBuf (BitVec.ofNat 32 127)
  have hcount : (BitVec.ofNat 32 127).toNat = 127 := rfl
  rw [consolebufSize] at hbuf
  rw [hcount] at hstop
  have hplace : (rtLogBuf + BitVec.ofNat 32 i).toNat = rtLogBuf.toNat + i := by
    rw [BitVec.toNat_add, BitVec.toNat_ofNat]
    omega
  have hindex : (2 ^ 32 - rtLogBuf.toNat + (rtLogBuf.toNat + i)) % 2 ^ 32 = i := by omega
  rw [written_apply _ _ _ hlen, hplace, hindex, List.getElem?_eq_getElem hin, Option.getD_some,
    if_pos (show rtLogBuf.toNat + i < _ by omega)]
  refine if_congr ?_ rfl rfl
  split_ifs <;> omega

theorem rtKprintf_prefix (rtLogBuf : BitVec 32) (mem : BitVec 32 → UInt8)
    (htext : fullText fmt args = .ok text) (hlen : text.length < 2 ^ 31)
    (hbuf : rtLogBuf.toNat + consolebufSize ≤ 2 ^ 32) :
    ∃ bytes, rtKprintf rtLogBuf fmt args mem = .ok bytes ∧ (bytes <+: text ↔
      text.length < 127 ∨ text[126]? = some 0 ∨ 2 ^ 32 ≤ rtLogBuf.toNat + text.length) := by
  refine ⟨_, rtKprintf_eq htext hlen, ?_⟩
  have hbyte {i : ℕ} (hi : i < 127) (hin : i < text.length) := written_log mem hbuf hlen hi hin
  simp only [List.prefix_iff_getElem?, List.length_map, List.length_range, List.getElem_map,
    List.getElem_range, Nat.lt_min]
  refine ⟨fun h ↦ ?_, fun h i hi ↦ ?_⟩
  · by_contra hnot
    simp only [not_or, not_lt, not_le] at hnot
    obtain ⟨hlong, hne, hbelow⟩ := hnot
    refine hne ?_
    rw [h 126 ⟨by omega, by omega⟩, hbyte (by omega) (by omega), if_pos ⟨rfl, hbelow⟩]
  · rw [hbyte hi.2 hi.1]
    split_ifs with hend
    · obtain ⟨rfl, hbelow⟩ := hend
      obtain hshort | hzero | hround := h
      · omega
      · exact hzero
      · omega
    · exact List.getElem?_eq_getElem hi.1

end Console

section Pieces

variable {pieces : List Piece} {args : List Arg} {parts : List Part} {full : List UInt8}

theorem eq_of_printed (hfull : fullText (formatBytes pieces) args = .ok full)
    (hlong : full.length < 2 ^ 32) (hlen : text.length < 2 ^ 31)
    (h : ∀ buf size, Fits buf size text.length → ∀ mem, ∃ ret mem',
      rtVsnprintf buf size (formatBytes pieces) args mem = .ok (ret, mem') ∧
        Written text buf size ret mem mem') : full.length < 2 ^ 31 ∧ full = text := by
  have hbuf : (BitVec.ofNat 32 (2 ^ 29)).toNat = 2 ^ 29 := rfl
  have hsize : (BitVec.ofNat 32 (text.length + 1)).toNat = text.length + 1 := by
    rw [BitVec.toNat_ofNat, Nat.mod_eq_of_lt (by omega)]
  have hfits : Fits (BitVec.ofNat 32 (2 ^ 29)) (BitVec.ofNat 32 (text.length + 1)) text.length := by
    rw [Fits, hbuf, hsize, if_neg (by omega)]
    omega
  obtain ⟨ret, mem', hret, hwritten⟩ := h _ _ hfits fun _ ↦ 1
  have hlength := hwritten.length
  have hshort : full.length < 2 ^ 31 := by
    by_contra hnot
    obtain ⟨neg, hneg, hret'⟩ := rtVsnprintf_long (BitVec.ofNat 32 (2 ^ 29))
      (BitVec.ofNat 32 (text.length + 1)) (fun _ ↦ 1) hfull (by omega) hlong
    rw [hret] at hret'
    cases hret'
    omega
  refine ⟨hshort, ?_⟩
  rw [rtVsnprintf_eq hfull hshort] at hret
  cases hret
  have hsame : full.length = text.length := by exact_mod_cast hlength
  exact (eq_of_written hshort (by omega) (by omega) hwritten).symm

end Pieces

/-- The formatter and the console, for every format and buffer. -/
theorem printed_iff (fmt : List UInt8) (args : List Arg) :
    (∀ full, fullText fmt args = .ok full → full.length < 2 ^ 31 → ∀ buf size,
      (∀ mem, ∃ ret mem', rtVsnprintf buf size fmt args mem = .ok (ret, mem') ∧
        Written full buf size ret mem mem') ↔ Fits buf size full.length) ∧
    ∀ pieces parts text, fmt = formatBytes pieces → (∀ piece ∈ pieces, piece.WellFormed) →
      readPieces pieces args = some parts → partsText parts = some text → text.length < 2 ^ 31 →
      (((∀ buf size, Fits buf size text.length → ∀ mem, ∃ ret mem',
          rtVsnprintf buf size fmt args mem = .ok (ret, mem') ∧ Written text buf size ret mem mem') ∧
        ∀ rtLogBuf, rtLogBuf.toNat + consolebufSize ≤ 2 ^ 32 → ∀ mem, ∃ bytes,
          rtKprintf rtLogBuf fmt args mem = .ok bytes ∧ bytes <+: text) ↔
      (∀ part ∈ parts, part.Small ∧ part.InRange) ∧ (text.length < 127 ∨ text[126]? = some 0)) := by
  refine ⟨fun full hfull hlen buf size ↦ written_iff_fits hfull hlen,
    fun pieces parts text hfmt hwell hread htext hlen ↦ ?_⟩
  subst hfmt
  obtain ⟨full, hfull, hcases⟩ := fullText_pieces hwell hread htext hlen
  refine ⟨fun ⟨hbuffer, hconsole⟩ ↦ ?_, fun ⟨hparts, hend⟩ ↦ ?_⟩
  · have hlong : full.length < 2 ^ 32 := by
      obtain ⟨-, rfl⟩ | ⟨-, -, hlong⟩ := hcases
      · have hle := length_codes_le htext
        omega
      · exact hlong
    obtain ⟨hshort, rfl⟩ := eq_of_printed hfull hlong hlen hbuffer
    obtain ⟨hrange, hcode⟩ | ⟨-, hover, -⟩ := hcases
    · refine ⟨fun part hpart ↦ ⟨(codes_eq_iff htext).mp hcode.symm part hpart, hrange part hpart⟩, ?_⟩
      have hbuf : (BitVec.ofNat 32 (2 ^ 29)).toNat = 2 ^ 29 := rfl
      obtain ⟨bytes, hbytes, hiff⟩ := rtKprintf_prefix (BitVec.ofNat 32 (2 ^ 29)) (fun _ ↦ 0)
        hfull hlen (by rw [hbuf, consolebufSize]; omega)
      obtain ⟨bytes', hbytes', hstart⟩ := hconsole (BitVec.ofNat 32 (2 ^ 29))
        (by rw [hbuf, consolebufSize]; omega) fun _ ↦ 0
      rw [hbytes] at hbytes'
      cases hbytes'
      obtain hlast | hlast | hround := hiff.mp hstart
      · exact .inl hlast
      · exact .inr hlast
      · omega
    · omega
  · obtain ⟨-, rfl⟩ | ⟨hnot, -⟩ := hcases
    · have hsame : parts.flatMap Part.code = text :=
        (codes_eq_iff htext).mpr fun part hpart ↦ (hparts part hpart).1
      rw [hsame] at hfull
      refine ⟨fun buf size hfits ↦ (written_iff_fits hfull hlen).mpr hfits, fun rtLogBuf hbuf mem ↦ ?_⟩
      obtain ⟨bytes, hbytes, hiff⟩ := rtKprintf_prefix rtLogBuf mem hfull hlen hbuf
      exact ⟨bytes, hbytes, hiff.mpr (hend.imp_right .inl)⟩
    · exact absurd (fun part hpart ↦ (hparts part hpart).2) hnot

def amountPieces : List Piece :=
  [.directive ⟨[.zero], some (.digits [⟨5, by decide⟩]), none, .d⟩, .char (ch ' '),
    .directive ⟨[], none, some .star, .s⟩]

def amountArgs : List Arg :=
  [.int (-42), .int 2, .str 0x20000100 ⟨"RAM".toList.map ch, by decide, by decide⟩]

theorem printed_amount :
    ((∀ mem, ∃ ret mem', rtVsnprintf 0x20000000 4 (formatBytes amountPieces) amountArgs mem =
        .ok (ret, mem') ∧ Written ("-0042 RA".toList.map ch) 0x20000000 4 ret mem mem') ↔
      Fits 0x20000000 4 8) ∧
    (∀ buf size, Fits buf size 8 → ∀ mem, ∃ ret mem',
      rtVsnprintf buf size (formatBytes amountPieces) amountArgs mem = .ok (ret, mem') ∧
        Written ("-0042 RA".toList.map ch) buf size ret mem mem') ∧
    ∀ rtLogBuf, rtLogBuf.toNat + consolebufSize ≤ 2 ^ 32 → ∀ mem, ∃ bytes,
      rtKprintf rtLogBuf (formatBytes amountPieces) amountArgs mem = .ok bytes ∧
        bytes <+: "-0042 RA".toList.map ch := by
  refine ⟨(printed_iff _ _).1 _ rfl (by decide) _ _, ?_⟩
  refine ((printed_iff _ amountArgs).2 amountPieces _ _ rfl ?_ rfl rfl (by decide)).mpr
    ⟨?_, .inl (by decide)⟩
  · simp [amountPieces, Piece.WellFormed, Directive.WellFormed, Size.WellFormed, value]
    decide
  · simp [Part.Small, Part.InRange, Conversion.Small, Conversion.InRange, Conversion.Roomy, Conv.numeric]

def octalPieces : List Piece := [.directive ⟨[], none, none, .o⟩]

/-- The octal number 10 comes out as 8, and of 127 characters the console gets the end of the
string in place of the last one. -/
theorem printed_octal_eight :
    (∃ parts, readPieces octalPieces [.int 8] = some parts ∧
      partsText parts = some [ch '1', ch '0']) ∧
    (¬∃ ret mem', rtVsnprintf 0x20000000 16 (formatBytes octalPieces) [.int 8] (fun _ ↦ 0) =
      .ok (ret, mem') ∧ Written [ch '1', ch '0'] 0x20000000 16 ret (fun _ ↦ 0) mem') ∧
    ¬∃ bytes, rtKprintf 0x20000000 (List.replicate 127 (ch 'a')) [] (fun _ ↦ 0) = .ok bytes ∧
      bytes <+: List.replicate 127 (ch 'a') := by
  refine ⟨⟨_, rfl, rfl⟩, fun ⟨ret, mem', hret, hwritten⟩ ↦ ?_, fun ⟨bytes, hbytes, hstart⟩ ↦ ?_⟩
  · have hfull : fullText (formatBytes octalPieces) [.int 8] = .ok [ch '8'] := rfl
    rw [rtVsnprintf_eq hfull (by decide)] at hret
    cases hret
    exact absurd hwritten.length (by decide)
  · have hlength : (List.replicate 127 (ch 'a')).length = 127 := List.length_replicate
    have hlast : (List.replicate 127 (ch 'a'))[126]? = some (ch 'a') := by
      rw [List.getElem?_replicate]
      rfl
    have hfull : fullText (List.replicate 127 (ch 'a')) [] = .ok (List.replicate 127 (ch 'a')) :=
      fullText_plain (fun c hc ↦ by rw [List.eq_of_mem_replicate hc]; decide) []
    obtain ⟨bytes', hbytes', hiff⟩ := rtKprintf_prefix 0x20000000 (fun _ ↦ 0) hfull
      (by rw [hlength]; decide) (by decide)
    rw [hbytes] at hbytes'
    cases hbytes'
    rw [hlength, hlast] at hiff
    exact absurd (hiff.mp hstart) (by decide)

end GiantGecko.Rtos.Format
