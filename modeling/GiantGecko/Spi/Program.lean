import GiantGecko.Spi.Driver

namespace GiantGecko.Spi.Program

open Dma Driver

/-- Both channels are as `DMA_Configuration` leaves them, up to the addresses
and counts of earlier activations. -/
def Ready (hspi : EfmSpi) : Prop := Configured 0 3 hspi.tx ∧ Configured 3 0 hspi.rx

theorem ready_configuration (hspi : EfmSpi) : Ready (dmaConfiguration hspi) :=
  ⟨(configured_cfgDescr hspi.tx).1, (configured_cfgDescr hspi.rx).2⟩

theorem count_prepare (d : Descriptor) (dst src : Addr) (n : BitVec 32) :
    count (dmaPrepare d dst src n).ctrl = ((n <<< 4 &&& nMinus1Mask) >>> 4).toNat + 1 := by
  have hold : d.ctrl &&& ~~~(cycleCtrlMask ||| nMinus1Mask) &&& nMinus1Mask = 0#32 := by
    have hmask : ~~~(cycleCtrlMask ||| nMinus1Mask) &&& nMinus1Mask = 0#32 := by decide
    rw [BitVec.and_assoc, hmask, BitVec.and_zero]
  have hone : 1#32 &&& nMinus1Mask = 0#32 := by decide
  have hfield : (dmaPrepare d dst src n).ctrl &&& nMinus1Mask = n <<< 4 &&& nMinus1Mask := by
    show (d.ctrl &&& ~~~(cycleCtrlMask ||| nMinus1Mask) ||| n <<< 4 ||| 1#32) &&& nMinus1Mask = _
    rw [BitVec.and_or_distrib_right, BitVec.and_or_distrib_right, hold, hone, BitVec.zero_or,
      BitVec.or_zero]
  rw [count, hfield]

theorem dmaxfer_spec {hspi : EfmSpi} (h : Ready hspi) (sndb rcvb : Addr) {n : ℕ} (hn : 0 < n)
    (hn' : n ≤ 1024) :
    let t := (dmaxfer hspi ⟨sndb, rcvb, BitVec.ofNat 32 n⟩).1
    t.tx.count = n ∧ (sndb ≠ 0 → ∀ i < n, t.tx.addr i = sndb + BitVec.ofNat 32 i) ∧
      (t.rx.isSome ↔ rcvb ≠ 0) ∧
      (∀ rx ∈ t.rx, rx.count = n ∧ ∀ i < n, rx.addr i = rcvb + BitVec.ofNat 32 i) ∧
      Ready (dmaxfer hspi ⟨sndb, rcvb, BitVec.ofNat 32 n⟩).2 := by
  obtain ⟨hcount, haddr, htx⟩ := srcCycle_prepare h.1 hspi.txData sndb hn hn'
  obtain ⟨hcount', haddr', hrx⟩ := dstCycle_prepare h.2 rcvb hspi.rxData hn hn'
  simp only [dmaxfer, dmaActivateBasic, ofNat_sub_one hn]
  refine ⟨hcount, haddr, ?_, ?_, htx, ?_⟩
  · split_ifs <;> simp_all
  · intro rx hmem
    split_ifs at hmem with hr
    · cases hmem
      exact ⟨hcount', haddr' hr⟩
    · cases hmem
  · simp only
    split_ifs
    · exact hrx
    · exact h.2

/-- A zero length asks for `nMinus1 = 0xFFFFFFFF`, and the controller moves
1024 elements. -/
theorem dmaxfer_zero {hspi : EfmSpi} (h : Ready hspi) (sndb rcvb : Addr) :
    (dmaxfer hspi ⟨sndb, rcvb, 0⟩).1.tx.count = 1024 := by
  have h := h.1
  rw [Configured] at h
  simp only [dmaxfer, dmaActivateBasic, srcCycle, dmaPrepare, h]
  decide

/-- The calls move the message on from offset `off` to its end, in pieces of
1 to 128 bytes that start at multiples of 128. -/
inductive Pieces (m : Message) : ℕ → List Call → Prop
  | done {off : ℕ} : off = m.length.toNat → Pieces m off []
  | piece {off n : ℕ} {calls : List Call} : 128 ∣ off → 0 < n → n ≤ 128 →
      off + n ≤ m.length.toNat → Pieces m (off + n) calls →
      Pieces m off (⟨m.sendBuf + BitVec.ofNat 32 off, m.recvBuf + BitVec.ofNat 32 off,
        BitVec.ofNat 32 n⟩ :: calls)

theorem Pieces.head {m : Message} {calls : List Call} (hp : Pieces m 0 calls)
    (hpos : 0 < m.length.toNat) : ∃ rest,
      calls = ⟨m.sendBuf, m.recvBuf, BitVec.ofNat 32 (min m.length.toNat 128)⟩ :: rest ∧
      Pieces m (min m.length.toNat 128) rest := by
  cases hp with
  | done hend => omega
  | @piece _ n rest _ hn hn' hend hp =>
    rw [Nat.zero_add] at hp hend
    have hmin : n = min m.length.toNat 128 := by
      cases hp with
      | done hlast => omega
      | piece hdvd _ _ _ _ =>
        have := Nat.le_of_dvd hn hdvd
        omega
    rw [← hmin]
    exact ⟨rest, by simp, hp⟩

theorem chunkCalls_pieces {m : Message} (hm : m.length.toNat ≤ 2 ^ 31 - 128) (off : ℕ)
    (hoff : 128 ∣ off) (hle : off ≤ m.length.toNat) :
    ∃ calls, chunkCalls m.sendBuf m.recvBuf m.length.toNat off = some calls ∧
      Pieces m off calls := by
  induction hk : m.length.toNat - off using Nat.strongRecOn generalizing off with
  | _ k ih =>
    rw [chunkCalls]
    by_cases hlt : off < m.length.toNat
    · have hint : ¬ 2 ^ 31 ≤ off + swapSize := by simp only [swapSize]; omega
      rw [if_pos hlt, if_neg hint]
      by_cases hlast : off + swapSize > m.length.toNat
      · have hend : chunkCalls m.sendBuf m.recvBuf m.length.toNat (off + swapSize) = some [] := by
          rw [chunkCalls, if_neg (by omega)]
        have hmod : m.length.toNat % swapSize = m.length.toNat - off := by
          simp only [swapSize] at hlast ⊢
          omega
        rw [if_pos hlast, hend, hmod]
        refine ⟨_, rfl, .piece hoff (by omega) ?_ (by omega) ?_⟩
        · simp only [swapSize] at hlast
          omega
        · exact .done (Nat.add_sub_cancel' hle)
      · rw [if_neg hlast]
        have hle' : off + swapSize ≤ m.length.toNat := by omega
        obtain ⟨calls, hcalls, hpieces⟩ := ih _ (by simp only [swapSize] at *; omega)
          (off + swapSize) (Nat.dvd_add hoff (by decide)) hle' rfl
        rw [hcalls]
        exact ⟨_, rfl, .piece hoff (by decide) (by decide) hle' hpieces⟩
    · rw [if_neg hlt]
      exact ⟨[], rfl, .done (by omega)⟩

theorem toInt_lt_swapSize (m : Message) :
    m.length.toInt < swapSize ↔ m.length.toNat < 128 ∨ 2 ^ 31 ≤ m.length.toNat := by
  rw [BitVec.toInt_eq_toNat_cond, swapSize]
  omega

theorem dmaCalls_pieces (m : Message) (hpos : 0 < m.length.toNat)
    (hm : m.length.toNat ≤ 2 ^ 31 - 128) :
    ∃ calls, dmaCalls m = some calls ∧ Pieces m 0 calls := by
  rw [dmaCalls]
  by_cases hshort : m.length.toInt < swapSize
  · rw [if_pos hshort]
    have hlt : m.length.toNat < 128 := by
      have hcases := (toInt_lt_swapSize m).mp hshort
      omega
    refine ⟨_, rfl, ?_⟩
    simpa using Pieces.piece (dvd_zero 128) hpos hlt.le (by omega) (.done (Nat.zero_add _))
  · rw [if_neg hshort]
    exact chunkCalls_pieces hm 0 (dvd_zero 128) (Nat.zero_le _)

/-- Above `INT_MAX - 127` the loop counter overflows. -/
theorem chunkCalls_overflow (sndb rcvb : Addr) {length : ℕ} (hlong : 2 ^ 31 - 128 < length)
    (hint : length < 2 ^ 31) (off : ℕ) (hoff : 128 ∣ off) (hlt : off < length) :
    chunkCalls sndb rcvb length off = none := by
  induction hk : length - off using Nat.strongRecOn generalizing off with
  | _ k ih =>
    rw [chunkCalls, if_pos hlt]
    by_cases hover : 2 ^ 31 ≤ off + swapSize
    · rw [if_pos hover]
    · have hnext : off + swapSize < length := by simp only [swapSize] at hover ⊢; omega
      have hrest := ih _ (by simp only [swapSize] at *; omega) (off + swapSize)
        (Nat.dvd_add hoff (by decide)) hnext rfl
      rw [if_neg hover, hrest]
      simp

theorem dmaCalls_overflow (m : Message) (hlong : 2 ^ 31 - 128 < m.length.toNat)
    (hint : m.length.toNat < 2 ^ 31) : dmaCalls m = none := by
  have hshort : ¬ m.length.toInt < swapSize := by
    rw [toInt_lt_swapSize]
    omega
  rw [dmaCalls, if_neg hshort]
  exact chunkCalls_overflow _ _ hlong hint 0 (dvd_zero 128) (by omega)

theorem dmaCalls_negative (m : Message) (hneg : 2 ^ 31 ≤ m.length.toNat) :
    dmaCalls m = some [⟨m.sendBuf, m.recvBuf, m.length⟩] := by
  rw [dmaCalls, if_pos ((toInt_lt_swapSize m).mpr (.inr hneg))]

theorem dmaCalls_zero (m : Message) (h : m.length = 0) :
    dmaCalls m = some [⟨m.sendBuf, m.recvBuf, 0⟩] := by
  rw [dmaCalls, if_pos (by rw [h]; decide), h]

theorem add_ofNat_ne_zero {a : Addr} {n i : ℕ} (ha : a ≠ 0) (hfit : a.toNat + n ≤ 2 ^ 32)
    (hi : i < n) : a + BitVec.ofNat 32 i ≠ 0 := by
  intro h
  have hpos : 0 < a.toNat := Nat.pos_of_ne_zero fun h0 ↦ ha (BitVec.eq_of_toNat_eq h0)
  have h' := congrArg BitVec.toNat h
  rw [BitVec.toNat_add, BitVec.toNat_ofNat] at h'
  change _ = 0 at h'
  omega

abbrev Request := Message × BitVec 32

def issued (x : Request) : Option (List Call) := if x.2 ≠ 0 then some [] else dmaCalls x.1

def afterXfer (hspi : EfmSpi) (x : Request) : EfmSpi :=
  ((issued x).map fun calls ↦ (program hspi calls).2).getD hspi

theorem afterXfer_eq {line : Line} {cs : HwSpiCs} {x : Request} {hspi : EfmSpi} {w : World}
    {r : BitVec 32 × World × EfmSpi} (h : spiDmaXfer line cs x.1 x.2 hspi w = some r) :
    r.2.2 = afterXfer hspi x := by
  rw [afterXfer, issued]
  by_cases hlock : x.2 = 0
  · rw [spiDmaXfer, if_neg (not_not.mpr hlock)] at h
    obtain ⟨calls, hcalls, rfl⟩ := Option.map_eq_some_iff.mp h
    simp [hlock, hcalls]
  · rw [spiDmaXfer, if_pos hlock] at h
    cases h
    rw [if_pos hlock]
    rfl

theorem program_ready {m : Message} {off : ℕ} {calls : List Call} (hp : Pieces m off calls)
    {hspi : EfmSpi} (h : Ready hspi) : Ready (program hspi calls).2 := by
  induction hp generalizing hspi with
  | done => exact h
  | piece hoff hn hn' hend hp ih =>
    exact ih (dmaxfer_spec h _ _ hn (by omega)).2.2.2.2

end GiantGecko.Spi.Program
