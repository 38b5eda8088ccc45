import GiantGecko.Spi.SpiCore
import GiantGecko.Spi.Program

namespace GiantGecko.Spi.Operation

open Dma Driver Program SpiCore

theorem duplex_clocked (line : Line) (tr : Transfer) (start n t r : ℕ) (w : World)
    (ht : t ≤ tr.tx.count)
    (hn : (tr.tx.count - t) + ((tr.rx.map Cycle.count).getD 0 - r) ≤ n) :
    (duplex line tr start n t r w).mosi.length = w.mosi.length + (tr.tx.count - t) ∧
      (duplex line tr start n t r w).cs = w.cs := by
  induction n generalizing t r w with
  | zero => exact ⟨by rw [duplex]; omega, rfl⟩
  | succ n ih =>
    have hsend : ∀ b, t < tr.tx.count →
        (w.send b).mosi.length + (tr.tx.count - (t + 1)) = w.mosi.length + (tr.tx.count - t) := by
      intro b hlt
      simp only [World.send, List.length_append, List.length_singleton]
      omega
    cases hrx : tr.rx with
    | none =>
      rw [hrx, Option.map_none, Option.getD_none] at hn ih
      simp only [duplex, hrx]
      split_ifs with hlt
      · obtain ⟨hlength, hcs⟩ := ih (t + 1) r (w.send (w.mem (tr.tx.addr t))) hlt (by omega)
        exact ⟨hlength.trans (hsend _ hlt), hcs⟩
      · exact ⟨by omega, rfl⟩
    | some rx =>
      rw [hrx, Option.map_some, Option.getD_some] at hn ih
      simp only [duplex, hrx]
      split_ifs with hstore hlt
      · exact ih t (r + 1) _ ht (by omega)
      · obtain ⟨hlength, hcs⟩ := ih (t + 1) r (w.send (w.mem (tr.tx.addr t))) hlt (by omega)
        exact ⟨hlength.trans (hsend _ hlt), hcs⟩
      · exact ⟨by omega, rfl⟩

theorem exchange_clocked (line : Line) (w : World) (tr : Transfer) :
    (exchange line w tr).mosi.length = w.mosi.length + tr.tx.count ∧
      (exchange line w tr).cs = w.cs :=
  duplex_clocked line tr _ _ 0 0 w (Nat.zero_le _) (Nat.le_refl _)

theorem exchanges_clocked (line : Line) (ts : List Transfer) (w : World) :
    (ts.foldl (exchange line) w).mosi.length = w.mosi.length + (ts.map (·.tx.count)).sum ∧
      (ts.foldl (exchange line) w).cs = w.cs := by
  induction ts generalizing w with
  | nil => exact ⟨rfl, rfl⟩
  | cons t ts ih =>
    obtain ⟨hlength, hcs⟩ := ih (exchange line w t)
    obtain ⟨hlength', hcs'⟩ := exchange_clocked line w t
    rw [List.foldl_cons, List.map_cons, List.sum_cons]
    exact ⟨by omega, hcs.trans hcs'⟩

theorem xferLoop_clocked (line : Line) (m : Message) (n : ℕ) (w : World) :
    (xferLoop line m n w).mosi.length = w.mosi.length + n ∧ (xferLoop line m n w).cs = w.cs := by
  induction n generalizing w with
  | zero => exact ⟨rfl, rfl⟩
  | succ n ih =>
    obtain ⟨hlength, hcs⟩ := ih (xferByte line m (m.length.toNat - (n + 1)) w)
    have hbyte : (xferByte line m (m.length.toNat - (n + 1)) w).mosi.length =
        w.mosi.length + 1 := List.length_append
    rw [xferLoop]
    exact ⟨by omega, hcs⟩

theorem count_of_le {hspi : EfmSpi} {sndb rcvb : Addr} {n : ℕ} (hn : 0 < n) (hn' : n ≤ 1024) :
    (dmaxfer hspi ⟨sndb, rcvb, BitVec.ofNat 32 n⟩).1.tx.count = n := by
  have hready := (dmaxfer_spec (ready_configuration hspi) sndb rcvb hn hn').1
  exact (count_prepare ..).trans ((count_prepare ..).symm.trans hready)

theorem count_le (hspi : EfmSpi) (c : Call) : (dmaxfer hspi c).1.tx.count ≤ 1024 := by
  refine (count_prepare ..).trans_le (Nat.succ_le_succ ?_)
  rw [BitVec.toNat_ushiftRight, BitVec.toNat_and, Nat.shiftRight_eq_div_pow]
  have hmask : nMinus1Mask.toNat = 0x3FF0 := rfl
  have hle : ((c.length - 1) <<< 4).toNat &&& nMinus1Mask.toNat ≤ nMinus1Mask.toNat :=
    Nat.and_le_right
  omega

theorem pieces_clocked {m : Message} {off : ℕ} {calls : List Call} (hp : Pieces m off calls)
    (hspi : EfmSpi) : ((program hspi calls).1.map (·.tx.count)).sum = m.length.toNat - off := by
  induction hp generalizing hspi with
  | done hend => rw [hend, Nat.sub_self]; rfl
  | piece hoff hn hn' hend hp ih =>
    rw [program, List.map_cons, List.sum_cons, ih, count_of_le hn (by omega)]
    omega

theorem csLevel_pinWrite {p : Port} {s : Bus} {w : World} {level : Bool}
    (h : s.world.cs = w.cs ++ [(p.pin, level)]) : csLevel p s = level := by
  rw [csLevel, h, List.filter_append]
  simp

theorem csLevel_congr {p : Port} {s s' : Bus} (h : s'.world.cs = s.world.cs) :
    csLevel p s' = csLevel p s := by
  rw [csLevel, h, csLevel]

/-- A message has gone by: it has clocked `n` bytes and left the chip select at `level`. -/
structure Moved (p : Port) (s s' : Bus) (level : Bool) (n : ℕ) : Prop where
  level : csLevel p s' = level
  clocked : s'.clocked = s.clocked ++ [n]
  selectByHigh : s'.selectByHigh = s.selectByHigh
  lock : s'.lockHeld = false

def Overflows (p : Port) (length : BitVec 32) : Prop :=
  if p.usingDma then 2 ^ 31 - 128 < length.toNat ∧ length.toNat < 2 ^ 31
  else 2 ^ 31 ≤ length.toNat

theorem overflowing {p : Port} {m : Message} {s : Bus} (h : Overflows p m.length) :
    xfer p m 0 s = none := by
  rw [Overflows] at h
  rw [xfer]
  split_ifs at h ⊢ with hdma
  · rw [spiDmaXfer, if_neg (not_not.mpr rfl), dmaCalls_overflow m h.1 h.2]
    rfl
  · have hneg : m.length.toInt < 0 := BitVec.toInt_neg_iff.mpr (by omega)
    rw [spiXfer, if_neg (not_not.mpr rfl), if_pos hneg]
    rfl

theorem cs_takeCs {p : Port} {m : Message} {s s' : Bus}
    (h : s'.world.cs = (s.world.takeCs ⟨p.pin, s.selectByHigh⟩ m).cs) :
    csLevel p s' = if m.csTake then s.selectByHigh else csLevel p s := by
  rw [World.takeCs] at h
  split_ifs at h ⊢
  · exact csLevel_pinWrite h
  · exact csLevel_congr h

theorem xfer_unlocked {p : Port} {m : Message} {errCode : BitVec 32} {s : Bus}
    (herr : errCode ≠ 0) (hlock : s.lockHeld = false) :
    ∃ s', xfer p m errCode s = some (if p.usingDma then errCode else 0, s') ∧
      Moved p s s' (if m.csTake then s.selectByHigh else csLevel p s) 0 := by
  have hmoved (hspi : EfmSpi) : Moved p s
      (((s.semTake errCode).record (s.world.takeCs ⟨p.pin, s.selectByHigh⟩ m) hspi).semRelease errCode)
      (if m.csTake then s.selectByHigh else csLevel p s) 0 := by
    simp only [Bus.semTake, if_neg herr, Bus.semRelease]
    exact ⟨cs_takeCs rfl, by simp only [Bus.record, takeCs_mosi, Nat.sub_self], rfl, hlock⟩
  by_cases hdma : p.usingDma
  · rw [xfer, if_pos hdma, if_pos hdma, spiDmaXfer, if_pos herr]
    exact ⟨_, rfl, hmoved _⟩
  · rw [xfer, if_neg hdma, if_neg hdma, spiXfer, if_pos herr]
    exact ⟨_, rfl, hmoved _⟩

theorem moved_releaseCs {p : Port} {m : Message} {s : Bus} {w : World} {hspi : EfmSpi} {n : ℕ}
    (hcs : w.cs = (s.world.takeCs ⟨p.pin, s.selectByHigh⟩ m).cs)
    (hmosi : w.mosi.length = (s.world.takeCs ⟨p.pin, s.selectByHigh⟩ m).mosi.length + n) :
    Moved p s
      (((s.semTake 0).record (w.releaseCs ⟨p.pin, s.selectByHigh⟩ m) hspi).semRelease 0)
      (if m.csRelease then !s.selectByHigh
        else if m.csTake then s.selectByHigh else csLevel p s) n := by
  refine ⟨?_, ?_, rfl, rfl⟩
  · rw [World.releaseCs]
    by_cases hlast : m.csRelease
    · rw [if_pos hlast, if_pos hlast]
      exact csLevel_pinWrite rfl
    · rw [if_neg hlast, if_neg hlast]
      exact cs_takeCs hcs
  · show s.clocked ++ [(w.releaseCs _ m).mosi.length - s.world.mosi.length] = _
    rw [releaseCs_mosi, hmosi, takeCs_mosi, Nat.add_sub_cancel_left]

theorem dma_clocked {m : Message}
    (h : ¬(2 ^ 31 - 128 < m.length.toNat ∧ m.length.toNat < 2 ^ 31)) (hspi : EfmSpi) :
    ∃ calls, dmaCalls m = some calls ∧
      (m.length.toNat ≤ ((program hspi calls).1.map (·.tx.count)).sum ↔
        m.length.toNat < 2 ^ 31) := by
  obtain hneg | hint := le_or_gt (2 ^ 31) m.length.toNat
  · refine ⟨_, dmaCalls_negative m hneg, ?_⟩
    have hle := count_le hspi ⟨m.sendBuf, m.recvBuf, m.length⟩
    simp only [program, List.map_cons, List.map_nil, List.sum_cons, List.sum_nil]
    omega
  · obtain hzero | hpos := Nat.eq_zero_or_pos m.length.toNat
    · refine ⟨_, dmaCalls_zero m (BitVec.eq_of_toNat_eq hzero), ?_⟩
      omega
    · obtain ⟨calls, hcalls, hp⟩ := dmaCalls_pieces m hpos (by omega)
      refine ⟨calls, hcalls, ?_⟩
      rw [pieces_clocked hp]
      omega

theorem xfer_locked {p : Port} {m : Message} {s : Bus} (h : ¬Overflows p m.length) :
    ∃ s' n, xfer p m 0 s = some (m.length, s') ∧
      Moved p s s' (if m.csRelease then !s.selectByHigh
        else if m.csTake then s.selectByHigh else csLevel p s) n ∧
      (m.length.toNat ≤ n ↔ m.length.toNat < 2 ^ 31) := by
  rw [Overflows] at h
  by_cases hdma : p.usingDma
  · rw [if_pos hdma] at h
    obtain ⟨calls, hcalls, hall⟩ := dma_clocked h s.hspi
    obtain ⟨hmosi, hcs⟩ := exchanges_clocked p.line (program s.hspi calls).1
      (s.world.takeCs ⟨p.pin, s.selectByHigh⟩ m)
    rw [xfer, if_pos hdma, spiDmaXfer_locked hcalls]
    exact ⟨_, _, rfl, moved_releaseCs hcs hmosi, hall⟩
  · rw [if_neg hdma] at h
    have hpos : ¬m.length.toInt < 0 := by
      rw [BitVec.toInt_neg_iff]
      omega
    obtain ⟨hmosi, hcs⟩ := xferLoop_clocked p.line m m.length.toNat
      (s.world.takeCs ⟨p.pin, s.selectByHigh⟩ m)
    rw [xfer, if_neg hdma, spiXfer_locked hpos]
    exact ⟨_, _, rfl, moved_releaseCs hcs hmosi, by omega⟩

end GiantGecko.Spi.Operation
