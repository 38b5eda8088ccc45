import GiantGecko.Rtos.FormatEmits

namespace GiantGecko.Rtos.Format

open Foundation.BoundedStore

/-- Only the buffer is written, what is stored there is a prefix of the text and the end of
it, and the length of the whole text is returned. -/
structure Written (text : List UInt8) (buf size : BitVec 32) (ret : ℤ)
    (mem mem' : BitVec 32 → UInt8) : Prop where
  inside : ∀ a : BitVec 32, a.toNat < buf.toNat ∨ buf.toNat + size.toNat ≤ a.toNat → mem' a = mem a
  stored : 0 < size.toNat → ∃ k < size.toNat, k ≤ text.length ∧
    (∀ i < k, text[i]? = some (mem' (buf + BitVec.ofNat 32 i))) ∧
    mem' (buf + BitVec.ofNat 32 k) = 0 ∧ ∀ a : BitVec 32, buf.toNat + k < a.toNat → mem' a = mem a
  length : ret = text.length

/-- The text, laid out from `buf`, does not come to the end of the address space. -/
def Fits (buf size : BitVec 32) (n : ℕ) : Prop :=
  if size.toNat = 0 then buf.toNat + n ≤ 2 ^ 32 else buf.toNat + n < 2 ^ 32 ∧ buf.toNat + 1 < 2 ^ 32

variable {fmt : List UInt8} {args : List Arg} {text : List UInt8} {buf size : BitVec 32}
  {mem : BitVec 32 → UInt8}

theorem bufferEnd_eq (buf size : BitVec 32) :
    (bufferEnd buf size).1.toNat = min (buf.toNat + size.toNat) (2 ^ 32 - 1) ∧
      (bufferEnd buf size).2.toNat = (bufferEnd buf size).1.toNat - buf.toNat := by
  have hbuf := buf.isLt
  have hsize := size.isLt
  rw [bufferEnd]
  split_ifs with hwrap
  · rw [BitVec.lt_def, BitVec.toNat_add] at hwrap
    have hmax : (-1 : BitVec 32).toNat = 2 ^ 32 - 1 := rfl
    refine ⟨?_, ?_⟩
    · change (-1 : BitVec 32).toNat = _
      omega
    · change (-1 - buf).toNat = (-1 : BitVec 32).toNat - _
      rw [BitVec.toNat_sub]
      omega
  · rw [BitVec.lt_def, BitVec.toNat_add] at hwrap
    refine ⟨?_, ?_⟩
    · change (buf + size).toNat = _
      rw [BitVec.toNat_add]
      omega
    · change size.toNat = (buf + size).toNat - _
      rw [BitVec.toNat_add]
      omega

def written (text : List UInt8) (buf size : BitVec 32) (mem : BitVec 32 → UInt8) :
    BitVec 32 → UInt8 :=
  let (stop, size) := bufferEnd buf size
  let o := emit (Store.put stop) text ⟨buf, mem⟩
  if 0 < size then
    if o.next < stop then Function.update o.mem o.next 0 else Function.update o.mem (stop - 1) 0
  else o.mem

theorem rtVsnprintf_toInt (htext : fullText fmt args = .ok text) (hlen : text.length < 2 ^ 32) :
    rtVsnprintf buf size fmt args mem =
      .ok ((BitVec.ofNat 32 text.length).toInt, written text buf size mem) := by
  obtain ⟨text', htext', h⟩ | ⟨herror, -⟩ := format_emits fmt args
  · obtain rfl : text = text' := Except.ok.inj (htext.symm.trans htext')
    have hret : buf + BitVec.ofNat 32 text.length - buf = BitVec.ofNat 32 text.length := by
      rw [BitVec.add_comm, BitVec.add_sub_cancel]
    obtain ⟨hnext, -⟩ := store_emit (bufferEnd buf size).1 buf mem text (Nat.le_of_lt hlen)
    simp only [rtVsnprintf, h, Bind.bind, Except.bind, hnext, hret, written]
  · cases htext.symm.trans herror

theorem rtVsnprintf_eq (htext : fullText fmt args = .ok text) (hlen : text.length < 2 ^ 31) :
    rtVsnprintf buf size fmt args mem = .ok ((text.length : ℤ), written text buf size mem) := by
  have hnat : (BitVec.ofNat 32 text.length).toNat = text.length := by
    rw [BitVec.toNat_ofNat, Nat.mod_eq_of_lt (by omega)]
  rw [rtVsnprintf_toInt htext (by omega), BitVec.toInt_eq_toNat_of_lt (by omega), hnat]

theorem rtVsnprintf_long (buf size : BitVec 32) (mem : BitVec 32 → UInt8)
    (htext : fullText fmt args = .ok text) (hlong : 2 ^ 31 ≤ text.length)
    (hlen : text.length < 2 ^ 32) :
    ∃ ret < 0, rtVsnprintf buf size fmt args mem = .ok (ret, written text buf size mem) := by
  refine ⟨_, ?_, rtVsnprintf_toInt htext hlen⟩
  have hnat : (BitVec.ofNat 32 text.length).toNat = text.length := by
    rw [BitVec.toNat_ofNat, Nat.mod_eq_of_lt hlen]
  rw [BitVec.toInt_eq_toNat_cond, if_neg (by omega)]
  omega

theorem written_apply (buf size : BitVec 32) (mem : BitVec 32 → UInt8)
    (hlen : text.length < 2 ^ 31) (a : BitVec 32) :
    written text buf size mem a =
      if 0 < (bufferEnd buf size).2.toNat ∧
          a.toNat = (if (buf.toNat + text.length) % 2 ^ 32 < (bufferEnd buf size).1.toNat then
            (buf.toNat + text.length) % 2 ^ 32 else (bufferEnd buf size).1.toNat - 1) then 0
      else if a.toNat < (bufferEnd buf size).1.toNat then
        (text[(2 ^ 32 - buf.toNat + a.toNat) % 2 ^ 32]?).getD (mem a)
      else mem a := by
  obtain ⟨hnext, hmem⟩ := store_emit (bufferEnd buf size).1 buf mem text (by omega)
  obtain ⟨hstop, hsize⟩ := bufferEnd_eq buf size
  set stop := (bufferEnd buf size).1
  set o := emit (Store.put stop) text ⟨buf, mem⟩
  have hplace : o.next.toNat = (buf.toNat + text.length) % 2 ^ 32 := by
    rw [hnext, BitVec.toNat_add, BitVec.toNat_ofNat, Nat.add_mod_mod]
  have hrest : o.mem a = if a.toNat < stop.toNat then
      (text[(2 ^ 32 - buf.toNat + a.toNat) % 2 ^ 32]?).getD (mem a) else mem a := by
    rw [hmem, BitVec.toNat_sub]
    rfl
  have hwritten : written text buf size mem = if 0 < (bufferEnd buf size).2 then
      if o.next < stop then Function.update o.mem o.next 0 else Function.update o.mem (stop - 1) 0
    else o.mem := rfl
  rw [hwritten, ← hrest, ← hplace]
  by_cases hpos : 0 < (bufferEnd buf size).2.toNat
  · have hone : (stop - 1).toNat = stop.toNat - 1 := by
      rw [BitVec.toNat_sub_of_le]
      · rfl
      · rw [BitVec.le_def]
        change 1 ≤ stop.toNat
        omega
    rw [if_pos (show 0 < (bufferEnd buf size).2 from hpos)]
    by_cases hlt : o.next < stop
    · rw [if_pos hlt, if_pos (show o.next.toNat < stop.toNat from hlt), Function.update_apply]
      simp only [hpos, true_and, BitVec.toNat_inj]
    · rw [if_neg hlt, if_neg (show ¬o.next.toNat < stop.toNat from hlt), Function.update_apply]
      simp only [hpos, true_and, ← hone, BitVec.toNat_inj]
  · rw [if_neg (show ¬0 < (bufferEnd buf size).2 from hpos), if_neg fun h ↦ hpos h.1]

theorem written_of_fits (mem : BitVec 32 → UInt8) (hlen : text.length < 2 ^ 31)
    (hfits : Fits buf size text.length) :
    Written text buf size text.length mem (written text buf size mem) := by
  obtain ⟨hstop, hsize⟩ := bufferEnd_eq buf size
  have happly (a : BitVec 32) := written_apply buf size mem hlen a
  have hbuf := buf.isLt
  set e := (bufferEnd buf size).1.toNat
  set m := (bufferEnd buf size).2.toNat
  refine ⟨fun a ha ↦ ?_, fun hpos ↦ ?_, rfl⟩
  · have hlt := a.isLt
    rw [happly]
    obtain hzero | hpos := Nat.eq_zero_or_pos size.toNat
    · rw [Fits, if_pos hzero] at hfits
      rw [if_neg fun h ↦ by omega]
      split_ifs
      · rw [List.getElem?_eq_none (by omega), Option.getD_none]
      · rfl
    · rw [Fits, if_neg (Nat.pos_iff_ne_zero.mp hpos)] at hfits
      rw [Nat.mod_eq_of_lt hfits.1, if_neg fun h ↦ by split_ifs at h <;> omega]
      split_ifs
      · rw [List.getElem?_eq_none (by omega), Option.getD_none]
      · rfl
  · rw [Fits, if_neg (Nat.pos_iff_ne_zero.mp hpos)] at hfits
    have hplace {i : ℕ} (hi : buf.toNat + i < e) : (buf + BitVec.ofNat 32 i).toNat = buf.toNat + i := by
      rw [BitVec.toNat_add, BitVec.toNat_ofNat]
      omega
    obtain ⟨k, hk, hend⟩ : ∃ k, k ≤ text.length ∧ buf.toNat + k < e ∧
        (if buf.toNat + text.length < e then buf.toNat + text.length else e - 1) = buf.toNat + k := by
      by_cases hroom : buf.toNat + text.length < e
      · exact ⟨text.length, Nat.le_refl _, hroom, if_pos hroom⟩
      · refine ⟨e - 1 - buf.toNat, by omega, by omega, ?_⟩
        rw [if_neg hroom]
        omega
    obtain ⟨hin, hend⟩ := hend
    refine ⟨k, by omega, hk, fun i hi ↦ ?_, ?_, fun a ha ↦ ?_⟩
    · rw [happly, Nat.mod_eq_of_lt hfits.1, hend, hplace (by omega), if_neg fun h ↦ by omega,
        if_pos (by omega)]
      have hindex : (2 ^ 32 - buf.toNat + (buf.toNat + i)) % 2 ^ 32 = i := by omega
      rw [hindex, List.getElem?_eq_getElem (by omega), Option.getD_some]
    · rw [happly, Nat.mod_eq_of_lt hfits.1, hend, hplace hin, if_pos ⟨by omega, rfl⟩]
    · have hlt := a.isLt
      rw [happly, Nat.mod_eq_of_lt hfits.1, hend, if_neg fun h ↦ by omega]
      split_ifs
      · rw [List.getElem?_eq_none (by split_ifs at hend <;> omega), Option.getD_none]
      · rfl

theorem add_one_ne (d : UInt8) : d + 1 ≠ d := by
  intro h
  simp at h

/-- Where the text comes to the end of the address space, something goes wrong for some
contents of the memory, whatever text it should be. -/
theorem fits_of_written (hlen : text.length < 2 ^ 31) {text' : List UInt8} {ret : ℤ}
    (h : ∀ mem, Written text' buf size ret mem (written text buf size mem)) :
    Fits buf size text.length := by
  obtain ⟨hstop, hsize⟩ := bufferEnd_eq buf size
  have happly (mem : BitVec 32 → UInt8) (a : BitVec 32) := written_apply buf size mem hlen a
  have hbuf := buf.isLt
  have hsize' := size.isLt
  by_contra hnot
  rw [Fits] at hnot
  set e := (bufferEnd buf size).1.toNat
  set m := (bufferEnd buf size).2.toNat
  -- what the text leaves at address 0 does not depend on what was there
  have hzero (hbuf : 0 < buf.toNat) (d : UInt8) (hd : ∀ mem, written text buf size mem 0 = d) :
      False := by
    have hsame := (h fun _ ↦ d + 1).inside 0 (.inl hbuf)
    exact add_one_ne d (hsame.symm.trans (hd _))
  have hindex (hlast : 2 ^ 32 - buf.toNat < text.length) (hpos : 0 < buf.toNat) :
      text[(2 ^ 32 - buf.toNat + (0 : BitVec 32).toNat) % 2 ^ 32]? =
        some (text.get ⟨2 ^ 32 - buf.toNat, hlast⟩) := by
    have heq : (2 ^ 32 - buf.toNat + (0 : BitVec 32).toNat) % 2 ^ 32 = 2 ^ 32 - buf.toNat := by
      change (2 ^ 32 - buf.toNat + 0) % 2 ^ 32 = _
      omega
    rw [heq, List.getElem?_eq_getElem hlast]
    rfl
  have hfirst : (0 : BitVec 32).toNat = 0 := rfl
  split_ifs at hnot with hnone
  · refine hzero (by omega) (text.get ⟨2 ^ 32 - buf.toNat, by omega⟩) fun mem ↦ ?_
    rw [happly, if_neg fun h ↦ by omega, if_pos (by omega), hindex (by omega) (by omega),
      Option.getD_some]
  obtain htop | hbelow : buf.toNat + 1 = 2 ^ 32 ∨ buf.toNat + 1 < 2 ^ 32 := by omega
  · have hdiffer : ∃ d : UInt8, d ≠ 0 ∧ text'[0]? ≠ some d := by
      by_cases hone : text'[0]? = some 1
      · refine ⟨2, by decide, fun htwo ↦ ?_⟩
        rw [hone] at htwo
        cases htwo
      · exact ⟨1, by decide, hone⟩
    obtain ⟨d, hd, hhead⟩ := hdiffer
    have hkept : written text buf size (fun _ ↦ d) buf = d := by
      rw [happly, if_neg fun h ↦ by omega, if_neg (by omega)]
    obtain ⟨k, -, -, hstart, hend, -⟩ := (h fun _ ↦ d).stored (by omega)
    obtain rfl | hk := Nat.eq_zero_or_pos k
    · rw [show buf + BitVec.ofNat 32 0 = buf from BitVec.add_zero buf, hkept] at hend
      exact hd hend
    · have hhead' := hstart 0 hk
      rw [show buf + BitVec.ofNat 32 0 = buf from BitVec.add_zero buf, hkept] at hhead'
      exact hhead hhead'
  · obtain hround | hround : buf.toNat + text.length = 2 ^ 32 ∨
        2 ^ 32 < buf.toNat + text.length := by omega
    · refine hzero (by omega) 0 fun mem ↦ ?_
      rw [happly, hround, Nat.mod_self, if_pos]
      refine ⟨by omega, ?_⟩
      rw [if_pos (by omega)]
      rfl
    · refine hzero (by omega) (text.get ⟨2 ^ 32 - buf.toNat, by omega⟩) fun mem ↦ ?_
      rw [happly, if_neg fun h ↦ by split_ifs at h <;> omega, if_pos (by omega),
        hindex (by omega) (by omega), Option.getD_some]

/-- For every format and all arguments that match it. -/
theorem written_iff_fits (htext : fullText fmt args = .ok text) (hlen : text.length < 2 ^ 31) :
    (∀ mem, ∃ ret mem', rtVsnprintf buf size fmt args mem = .ok (ret, mem') ∧
      Written text buf size ret mem mem') ↔ Fits buf size text.length := by
  refine ⟨fun h ↦ ?_, fun h mem ↦ ⟨_, _, rtVsnprintf_eq htext hlen, written_of_fits mem hlen h⟩⟩
  have hwritten (mem : BitVec 32 → UInt8) :
      Written text buf size text.length mem (written text buf size mem) := by
    obtain ⟨ret, mem', hret, hwritten⟩ := h mem
    rw [rtVsnprintf_eq htext hlen] at hret
    cases hret
    exact hwritten
  exact fits_of_written hlen hwritten

theorem eq_of_written {text' : List UInt8} (hlen : text.length < 2 ^ 31)
    (hroom : buf.toNat + text.length + 1 < 2 ^ 32) (hsize : size.toNat = text.length + 1)
    (h : Written text' buf size text.length (fun _ ↦ 1) (written text buf size fun _ ↦ 1)) :
    text' = text := by
  have hbelow : buf.toNat + text.length < 2 ^ 32 := by omega
  have hfits : Fits buf size text.length := by
    rw [Fits, if_neg (by omega)]
    exact ⟨hbelow, by omega⟩
  have hplace : (buf + BitVec.ofNat 32 text.length).toNat = buf.toNat + text.length := by
    rw [BitVec.toNat_add, BitVec.toNat_ofNat]
    omega
  obtain ⟨hstop, hsize'⟩ := bufferEnd_eq buf size
  have hend : written text buf size (fun _ ↦ 1) (buf + BitVec.ofNat 32 text.length) = 0 := by
    rw [written_apply _ _ _ hlen, Nat.mod_eq_of_lt hbelow, if_pos]
    rw [hplace, if_pos (by omega)]
    exact ⟨by omega, rfl⟩
  -- the end of what is stored is where the text ends
  have hwhole {k : ℕ} (hk : k < size.toNat) (hrest : ∀ a : BitVec 32, buf.toNat + k < a.toNat →
      written text buf size (fun _ ↦ 1) a = 1) : k = text.length := by
    by_contra hne
    have hone := hrest (buf + BitVec.ofNat 32 text.length) (by omega)
    rw [hend] at hone
    cases hone
  obtain ⟨k, hk, -, hstart, -, hrest⟩ := h.stored (by omega)
  obtain ⟨k', hk', -, hstart', -, hrest'⟩ :=
    (written_of_fits (fun _ ↦ 1) hlen hfits).stored (by omega)
  obtain rfl := hwhole hk hrest
  obtain rfl := hwhole hk' hrest'
  have hlength : text.length = text'.length := by exact_mod_cast h.length
  refine List.ext_getElem? fun i ↦ ?_
  obtain hlt | hge := Nat.lt_or_ge i text.length
  · rw [hstart i hlt, hstart' i hlt]
  · rw [List.getElem?_eq_none hge, List.getElem?_eq_none (by omega)]

end GiantGecko.Rtos.Format
