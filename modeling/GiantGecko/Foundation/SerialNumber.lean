import Mathlib.Algebra.Group.Nat.Defs

namespace GiantGecko.Foundation.SerialNumber

variable {w a b : ℕ}

/-- The difference of two counts, taken from counters that wrap. -/
theorem toNat_sub_of_le (h : b ≤ a) (hw : a - b < 2 ^ w) :
    (BitVec.ofNat w a - BitVec.ofNat w b).toNat = a - b := by
  have hsum : BitVec.ofNat w a = BitVec.ofNat w (a - b) + BitVec.ofNat w b := by
    rw [← BitVec.ofNat_add, Nat.sub_add_cancel h]
  rw [hsum, BitVec.add_sub_cancel, BitVec.toNat_ofNat, Nat.mod_eq_of_lt hw]

theorem toNat_sub_of_lt (h : a < b) (hw : b - a < 2 ^ w) :
    (BitVec.ofNat w a - BitVec.ofNat w b).toNat = 2 ^ w - (b - a) := by
  have hneg : BitVec.ofNat w a - BitVec.ofNat w b = -(BitVec.ofNat w b - BitVec.ofNat w a) := by
    rw [BitVec.neg_sub, BitVec.add_comm, BitVec.sub_eq_add_neg]
  rw [hneg, BitVec.toNat_neg, toNat_sub_of_le (Nat.le_of_lt h) hw, Nat.mod_eq_of_lt]
  omega

end GiantGecko.Foundation.SerialNumber
