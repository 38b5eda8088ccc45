import Mathlib.Data.List.Basic
import Mathlib.Data.BitVec

namespace GiantGecko.Spi.Dma

abbrev Addr := BitVec 32

structure Descriptor where
  srcEnd : Addr
  dstEnd : Addr
  ctrl : BitVec 32

def dmaDataIncNone : BitVec 32 := 3

def cycleCtrlMask : BitVec 32 := 0x00000007
def nMinus1Mask : BitVec 32 := 0x00003FF0
def srcIncMask : BitVec 32 := 0x0C000000
def dstIncMask : BitVec 32 := 0xC0000000

def srcInc (ctrl : BitVec 32) : BitVec 32 := (ctrl &&& srcIncMask) >>> 26
def dstInc (ctrl : BitVec 32) : BitVec 32 := (ctrl &&& dstIncMask) >>> 30

/-- `DMA_CfgDescr` for byte elements, arbitration after each of them and no
protection bits: only the two increments differ from channel to channel. -/
def dmaCfgDescr (srcInc dstInc : BitVec 32) (d : Descriptor) : Descriptor :=
  { d with ctrl := dstInc <<< 30 ||| srcInc <<< 26 }

/-- `DMA_Prepare` on the primary descriptor for `dmaCycleCtrlBasic`. A NULL
address leaves the end address of the previous activation in place, and
`nMinus1` is not cut down to its field. -/
def dmaPrepare (d : Descriptor) (dst src : Addr) (nMinus1 : BitVec 32) : Descriptor where
  srcEnd :=
    if src = 0 then d.srcEnd
    else if srcInc d.ctrl = dmaDataIncNone then src
    else src + nMinus1 <<< srcInc d.ctrl
  dstEnd :=
    if dst = 0 then d.dstEnd
    else if dstInc d.ctrl = dmaDataIncNone then dst
    else dst + nMinus1 <<< dstInc d.ctrl
  ctrl := d.ctrl &&& ~~~(cycleCtrlMask ||| nMinus1Mask) ||| nMinus1 <<< 4 ||| 1

def dmaActivateBasic (d : Descriptor) (dst src : Addr) (nMinus1 : BitVec 32) : Descriptor :=
  dmaPrepare d dst src nMinus1

structure Cycle where
  count : ℕ
  addr : ℕ → Addr

def count (ctrl : BitVec 32) : ℕ := ((ctrl &&& nMinus1Mask) >>> 4).toNat + 1

/-- The controller counts back from the end address. -/
def elementAddr (last : Addr) (inc : BitVec 32) (n i : ℕ) : Addr :=
  if inc = dmaDataIncNone then last else last - BitVec.ofNat 32 (n - 1 - i) <<< inc

def srcCycle (d : Descriptor) : Cycle where
  count := count d.ctrl
  addr := elementAddr d.srcEnd (srcInc d.ctrl) (count d.ctrl)

def dstCycle (d : Descriptor) : Cycle where
  count := count d.ctrl
  addr := elementAddr d.dstEnd (dstInc d.ctrl) (count d.ctrl)

theorem ofNat_sub_one {n : ℕ} (hn : 0 < n) :
    BitVec.ofNat 32 n - 1 = BitVec.ofNat 32 (n - 1) := by
  obtain ⟨k, rfl⟩ := Nat.exists_eq_succ_of_ne_zero hn.ne'
  rw [Nat.succ_eq_add_one, Nat.add_sub_cancel, BitVec.ofNat_add]
  exact BitVec.add_sub_cancel _ _

theorem count_le (ctrl : BitVec 32) : count ctrl ≤ 1024 := by
  have hmask : (ctrl &&& nMinus1Mask).toNat ≤ nMinus1Mask.toNat := by
    rw [BitVec.toNat_and]
    exact Nat.and_le_right
  have hval : nMinus1Mask.toNat = 16368 := by decide
  rw [count, BitVec.toNat_ushiftRight, Nat.shiftRight_eq_div_pow]
  omega

/-- The control word still has the increments of `dmaCfgDescr`, whatever the
last activation wrote to the count and cycle fields. -/
def Configured (srcInc dstInc : BitVec 32) (d : Descriptor) : Prop :=
  d.ctrl &&& ~~~(cycleCtrlMask ||| nMinus1Mask) = dstInc <<< 30 ||| srcInc <<< 26

theorem configured_cfgDescr (d : Descriptor) :
    Configured 0 3 (dmaCfgDescr 0 3 d) ∧ Configured 3 0 (dmaCfgDescr 3 0 d) := by
  simp only [Configured, dmaCfgDescr]
  decide

theorem srcInc_masked (ctrl : BitVec 32) :
    srcInc (ctrl &&& ~~~(cycleCtrlMask ||| nMinus1Mask)) = srcInc ctrl := by
  have h : ~~~(cycleCtrlMask ||| nMinus1Mask) &&& srcIncMask = srcIncMask := by decide
  rw [srcInc, BitVec.and_assoc, h, srcInc]

theorem dstInc_masked (ctrl : BitVec 32) :
    dstInc (ctrl &&& ~~~(cycleCtrlMask ||| nMinus1Mask)) = dstInc ctrl := by
  have h : ~~~(cycleCtrlMask ||| nMinus1Mask) &&& dstIncMask = dstIncMask := by decide
  rw [dstInc, BitVec.and_assoc, h, dstInc]

theorem count_masked {n : ℕ} (hn : n < 1024) :
    BitVec.ofNat 32 n <<< 4 &&& nMinus1Mask = BitVec.ofNat 32 n <<< 4 := by
  have hmask : nMinus1Mask = 1023#32 <<< 4 := by decide
  have hn' : BitVec.ofNat 32 n &&& 1023#32 = BitVec.ofNat 32 n := by
    apply BitVec.eq_of_toNat_eq
    rw [BitVec.toNat_and, BitVec.toNat_ofNat, BitVec.toNat_ofNat, Nat.mod_eq_of_lt (by omega)]
    exact (Nat.and_two_pow_sub_one_eq_mod n 10).trans (Nat.mod_eq_of_lt hn)
  rw [hmask, ← BitVec.shiftLeft_and_distrib, hn']

theorem prepared_and {n : ℕ} (hn : n < 1024) (base mask : BitVec 32) :
    (base ||| BitVec.ofNat 32 n <<< 4 ||| (1 : BitVec 32)) &&& mask =
      (base &&& mask) ||| (BitVec.ofNat 32 n <<< 4 &&& (nMinus1Mask &&& mask)) |||
        (1 &&& mask : BitVec 32) := by
  rw [← BitVec.and_assoc, count_masked hn, BitVec.and_or_distrib_right, BitVec.and_or_distrib_right]

theorem prepared_and_of_apart {n : ℕ} (hn : n < 1024) (base : BitVec 32) {mask : BitVec 32}
    (hmask : nMinus1Mask &&& mask = 0#32) (hone : (1 : BitVec 32) &&& mask = 0#32) :
    (base ||| BitVec.ofNat 32 n <<< 4 ||| (1 : BitVec 32)) &&& mask = base &&& mask := by
  rw [prepared_and hn, hmask, hone, BitVec.and_zero, BitVec.or_zero, BitVec.or_zero]

theorem prepared_fields (n : ℕ) (hn : n < 1024) (base : BitVec 32)
    (hbase : base = 0xC0000000 ∨ base = 0x0C000000) :
    count (base ||| BitVec.ofNat 32 n <<< 4 ||| 1) = n + 1 ∧
      srcInc (base ||| BitVec.ofNat 32 n <<< 4 ||| 1) = srcInc base ∧
      dstInc (base ||| BitVec.ofNat 32 n <<< 4 ||| 1) = dstInc base ∧
      (base ||| BitVec.ofNat 32 n <<< 4 ||| 1) &&& ~~~(cycleCtrlMask ||| nMinus1Mask) = base := by
  have hcount : base &&& nMinus1Mask = 0#32 := by
    obtain rfl | rfl := hbase <;> decide
  have hrest : base &&& ~~~(cycleCtrlMask ||| nMinus1Mask) = base := by
    obtain rfl | rfl := hbase <;> decide
  have hone : (1 : BitVec 32) &&& nMinus1Mask = 0#32 := by decide
  refine ⟨?_, ?_, ?_, ?_⟩
  · rw [count, prepared_and hn, hcount, hone, BitVec.and_self, count_masked hn, BitVec.or_zero,
      BitVec.zero_or, BitVec.toNat_ushiftRight, BitVec.toNat_shiftLeft, BitVec.toNat_ofNat,
      Nat.mod_eq_of_lt (show n < 2 ^ 32 by omega), Nat.shiftLeft_eq, Nat.mod_eq_of_lt (by omega),
      Nat.shiftRight_eq_div_pow, Nat.mul_div_cancel _ (by decide)]
  · rw [srcInc, prepared_and_of_apart hn base (by decide) (by decide), srcInc]
  · rw [dstInc, prepared_and_of_apart hn base (by decide) (by decide), dstInc]
  · rw [prepared_and_of_apart hn base (by decide) (by decide), hrest]

theorem prepare_fields {d : Descriptor} {base : BitVec 32}
    (hbase : base = 0xC0000000 ∨ base = 0x0C000000)
    (h : d.ctrl &&& ~~~(cycleCtrlMask ||| nMinus1Mask) = base) (dst src : Addr) {n : ℕ}
    (hn : 0 < n) (hn' : n ≤ 1024) :
    count (dmaPrepare d dst src (BitVec.ofNat 32 (n - 1))).ctrl = n ∧
      srcInc (dmaPrepare d dst src (BitVec.ofNat 32 (n - 1))).ctrl = srcInc base ∧
      dstInc (dmaPrepare d dst src (BitVec.ofNat 32 (n - 1))).ctrl = dstInc base ∧
      (dmaPrepare d dst src (BitVec.ofNat 32 (n - 1))).ctrl &&&
        ~~~(cycleCtrlMask ||| nMinus1Mask) = base := by
  obtain ⟨hcount, hfields⟩ := prepared_fields (n - 1) (by omega) base hbase
  rw [show n - 1 + 1 = n by omega] at hcount
  simpa only [dmaPrepare, h] using And.intro hcount hfields

theorem elementAddr_byte (a : Addr) (n i : ℕ) (hi : i < n) :
    elementAddr (a + BitVec.ofNat 32 (n - 1)) 0 n i = a + BitVec.ofNat 32 i := by
  have hinc : (0 : BitVec 32) ≠ dmaDataIncNone := by decide
  have hn : BitVec.ofNat 32 (n - 1) = BitVec.ofNat 32 i + BitVec.ofNat 32 (n - 1 - i) := by
    rw [← BitVec.ofNat_add]
    congr 1
    omega
  have hshift (x : BitVec 32) : x <<< (0 : BitVec 32) = x := by simp
  rw [elementAddr, if_neg hinc, hn, hshift, ← BitVec.add_assoc, BitVec.add_sub_cancel]

theorem srcCycle_prepare {d : Descriptor} (h : Configured 0 3 d) (dst src : Addr) {n : ℕ}
    (hn : 0 < n) (hn' : n ≤ 1024) :
    (srcCycle (dmaPrepare d dst src (BitVec.ofNat 32 (n - 1)))).count = n ∧
      (src ≠ 0 → ∀ i < n, (srcCycle (dmaPrepare d dst src (BitVec.ofNat 32 (n - 1)))).addr i =
        src + BitVec.ofNat 32 i) ∧
      Configured 0 3 (dmaPrepare d dst src (BitVec.ofNat 32 (n - 1))) := by
  have hbase : (3 : BitVec 32) <<< 30 ||| (0 : BitVec 32) <<< 26 = 0xC0000000 := by decide
  obtain ⟨hcount, hinc, -, hkeep⟩ := prepare_fields (.inl hbase) h dst src hn hn'
  refine ⟨hcount, fun hs i hi ↦ ?_, hkeep⟩
  have hold : srcInc d.ctrl = 0 := by rw [← srcInc_masked, h, hbase]; decide
  have hlast : (dmaPrepare d dst src (BitVec.ofNat 32 (n - 1))).srcEnd =
      src + BitVec.ofNat 32 (n - 1) := by
    have hne : (0 : BitVec 32) ≠ dmaDataIncNone := by decide
    simp only [dmaPrepare, if_neg hs, hold, if_neg hne]
    simp
  rw [hbase, show srcInc 0xC0000000 = 0 by decide] at hinc
  simp only [srcCycle, hlast, hinc, hcount]
  exact elementAddr_byte src n i hi

theorem dstCycle_prepare {d : Descriptor} (h : Configured 3 0 d) (dst src : Addr) {n : ℕ}
    (hn : 0 < n) (hn' : n ≤ 1024) :
    (dstCycle (dmaPrepare d dst src (BitVec.ofNat 32 (n - 1)))).count = n ∧
      (dst ≠ 0 → ∀ i < n, (dstCycle (dmaPrepare d dst src (BitVec.ofNat 32 (n - 1)))).addr i =
        dst + BitVec.ofNat 32 i) ∧
      Configured 3 0 (dmaPrepare d dst src (BitVec.ofNat 32 (n - 1))) := by
  have hbase : (0 : BitVec 32) <<< 30 ||| (3 : BitVec 32) <<< 26 = 0x0C000000 := by decide
  obtain ⟨hcount, -, hinc, hkeep⟩ := prepare_fields (.inr hbase) h dst src hn hn'
  refine ⟨hcount, fun hd i hi ↦ ?_, hkeep⟩
  have hold : dstInc d.ctrl = 0 := by rw [← dstInc_masked, h, hbase]; decide
  have hlast : (dmaPrepare d dst src (BitVec.ofNat 32 (n - 1))).dstEnd =
      dst + BitVec.ofNat 32 (n - 1) := by
    have hne : (0 : BitVec 32) ≠ dmaDataIncNone := by decide
    simp only [dmaPrepare, if_neg hd, hold, if_neg hne]
    simp
  rw [hbase, show dstInc 0x0C000000 = 0 by decide] at hinc
  simp only [dstCycle, hlast, hinc, hcount]
  exact elementAddr_byte dst n i hi

end GiantGecko.Spi.Dma
