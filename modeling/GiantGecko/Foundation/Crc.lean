import Mathlib.Data.BitVec

namespace GiantGecko.Foundation.Crc

variable {w : ℕ} (poly : BitVec w)

/-- One step of the shift register: the top bit leaves and, when set, takes
the polynomial off the rest. -/
def shiftBit (c : BitVec w) : BitVec w := if c.msb then c <<< 1 ^^^ poly else c <<< 1

def shiftBits : ℕ → BitVec w → BitVec w
  | 0, c => c
  | n + 1, c => shiftBits n (shiftBit poly c)

def crcByte (c : BitVec w) (b : BitVec 8) : BitVec w :=
  shiftBits poly 8 (c ^^^ b.setWidth w <<< (w - 8))

def crc (bytes : List (BitVec 8)) : BitVec w := bytes.foldl (crcByte poly) 0

theorem shiftBit_xor (a b : BitVec w) :
    shiftBit poly (a ^^^ b) = shiftBit poly a ^^^ shiftBit poly b := by
  simp only [shiftBit, BitVec.msb_xor, BitVec.shiftLeft_xor_distrib]
  apply BitVec.eq_of_getLsbD_eq
  intro i _
  cases a.msb <;> cases b.msb <;> simp only [Bool.false_xor, Bool.true_xor, Bool.not_true,
    Bool.not_false, Bool.false_eq_true, if_true, if_false, BitVec.getLsbD_xor] <;> grind

theorem shiftBits_xor (n : ℕ) (a b : BitVec w) :
    shiftBits poly n (a ^^^ b) = shiftBits poly n a ^^^ shiftBits poly n b := by
  induction n generalizing a b with
  | zero => rfl
  | succ n ih => simp only [shiftBits, shiftBit_xor, ih]

theorem shiftBits_of_clear (n : ℕ) (c : BitVec w) (hn : n ≤ w)
    (h : ∀ i, w - n ≤ i → c.getLsbD i = false) : shiftBits poly n c = c <<< n := by
  induction n generalizing c with
  | zero => simp [shiftBits]
  | succ n ih =>
    have htop : c.msb = false := by
      rw [BitVec.msb_eq_getLsbD_last]
      exact h _ (by omega)
    have hclear : ∀ i, w - n ≤ i → (c <<< 1).getLsbD i = false := by
      intro i hi
      rw [BitVec.getLsbD_shiftLeft, h (i - 1) (by omega), Bool.and_false]
    have hbit : shiftBit poly c = c <<< 1 := by
      rw [shiftBit, htop, if_neg Bool.false_ne_true]
    rw [shiftBits, hbit, ih _ (by omega) hclear, Nat.add_comm, BitVec.shiftLeft_add]

theorem shiftBits_split (n : ℕ) (c : BitVec w) (hn : n ≤ w) :
    shiftBits poly n c = shiftBits poly n (c >>> (w - n) <<< (w - n)) ^^^ c <<< n := by
  have hsplit : c = c >>> (w - n) <<< (w - n) ^^^ (c ^^^ c >>> (w - n) <<< (w - n)) := by
    rw [BitVec.xor_comm c, ← BitVec.xor_assoc, BitVec.xor_self, BitVec.zero_xor]
  have hlow : ∀ i, w - n ≤ i → (c ^^^ c >>> (w - n) <<< (w - n)).getLsbD i = false := by
    intro i hi
    by_cases hw : i < w
    · have he : w - n + (i - (w - n)) = i := by omega
      simp only [BitVec.getLsbD_xor, BitVec.getLsbD_shiftLeft, BitVec.getLsbD_ushiftRight, he]
      simp [hw, hi]
    · exact BitVec.getLsbD_of_ge _ _ (by omega)
  have hup : (c >>> (w - n) <<< (w - n)) <<< n = 0#w := by
    apply BitVec.eq_of_getLsbD_eq
    intro i hi
    simp only [BitVec.getLsbD_shiftLeft]
    grind
  conv_lhs => rw [hsplit]
  rw [shiftBits_xor, shiftBits_of_clear poly n _ hn hlow, BitVec.shiftLeft_xor_distrib, hup,
    BitVec.xor_zero]

/-- The remainder of a byte, from a table indexed by what leaves at the top. -/
theorem crcByte_eq_table (hw : 8 ≤ w) (table : BitVec 8 → BitVec w)
    (htable : ∀ i, table i = shiftBits poly 8 (i.setWidth w <<< (w - 8)))
    (c : BitVec w) (b : BitVec 8) :
    crcByte poly c b = c <<< 8 ^^^ table ((c >>> (w - 8)).setWidth 8 ^^^ b) := by
  have hbyte : (b.setWidth w <<< (w - 8)) <<< 8 = 0#w := by
    apply BitVec.eq_of_getLsbD_eq
    intro i hi
    simp only [BitVec.getLsbD_shiftLeft, BitVec.getLsbD_setWidth]
    grind
  have htop : (c ^^^ b.setWidth w <<< (w - 8)) >>> (w - 8) <<< (w - 8) =
      ((c >>> (w - 8)).setWidth 8 ^^^ b).setWidth w <<< (w - 8) := by
    apply BitVec.eq_of_getLsbD_eq
    intro i hi
    simp only [BitVec.getLsbD_shiftLeft, BitVec.getLsbD_ushiftRight, BitVec.getLsbD_xor,
      BitVec.getLsbD_setWidth]
    grind
  rw [crcByte, shiftBits_split poly 8 _ hw, htop, htable, BitVec.shiftLeft_xor_distrib, hbyte,
    BitVec.xor_zero, BitVec.xor_comm]

end GiantGecko.Foundation.Crc
