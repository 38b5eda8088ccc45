import GiantGecko.Ymodem.Session

namespace GiantGecko.Ymodem

section Fill

variable {υ : Type} (ctx : Receiver.RymCtx υ) (buf : ℕ → UInt8) (tick : UInt32)

def Receiver.RymCtx.fill : Receiver.RymCtx υ := { ctx with buf := buf, tick := tick }

@[simp] theorem Receiver.RymCtx.fill_buf : (ctx.fill buf tick).buf = buf := rfl

end Fill

namespace Reception

open Foundation Receiver Sender Session

theorem ccittTable_eq : ccittTable =
    (List.range 256).map fun i ↦ Crc.shiftBits 0x1021#16 8 (BitVec.ofNat 16 i <<< 8) := by
  decide +kernel

theorem ccittTable_getD (i : BitVec 8) :
    ccittTable.getD i.toNat 0 = Crc.shiftBits 0x1021#16 8 (i.setWidth 16 <<< (16 - 8)) := by
  have hi := i.isLt
  have hw : BitVec.ofNat 16 i.toNat = i.setWidth 16 := by
    apply BitVec.eq_of_toNat_eq
    simp
  rw [ccittTable_eq, List.getD_eq_getElem?_getD, List.getElem?_map, List.getElem?_range hi]
  rw [Option.map_some, Option.getD_some, hw]

theorem tableIndex_eq (c : BitVec 16) (b : BitVec 8) :
    ((c >>> 8 ^^^ b.setWidth 16) &&& 0xFF#16).toNat =
      ((c >>> (16 - 8)).setWidth 8 ^^^ b).toNat := by
  have hlow : ((c >>> (16 - 8)).setWidth 8 ^^^ b) = (c >>> 8 ^^^ b.setWidth 16).setWidth 8 := by
    rw [BitVec.setWidth_xor, BitVec.setWidth_setWidth_of_le _ (by decide), BitVec.setWidth_eq]
  rw [hlow, BitVec.toNat_and, BitVec.toNat_setWidth]
  exact Nat.and_two_pow_sub_one_eq_mod _ 8

theorem crc16_eq (q : List UInt8) : crc16 q = Crc.crc 0x1021#16 (q.map UInt8.toBitVec) := by
  rw [crc16, Crc.crc, List.foldl_map]
  congr 1
  funext c b
  rw [tableIndex_eq]
  exact (Crc.crcByte_eq_table 0x1021#16 (by decide) _ ccittTable_getD c b.toBitVec).symm

theorem crcBytes_joined (bytes : List UInt8) :
    ∃ hi lo, crcBytes bytes = [hi, lo] ∧
      hi.toBitVec.setWidth 16 <<< 8 ||| lo.toBitVec.setWidth 16 = crc16 bytes := by
  refine ⟨_, _, rfl, ?_⟩
  rw [crc16_eq]
  apply BitVec.eq_of_getLsbD_eq
  intro i hi
  simp only [BitVec.getLsbD_or, BitVec.getLsbD_shiftLeft, BitVec.getLsbD_setWidth,
    BitVec.getLsbD_ushiftRight]
  grind

theorem put_buf {υ : Type} (ctx : RymCtx υ) (i : ℕ) (b : UInt8) : (ctx.put i b).buf i = b :=
  Function.update_self ..

theorem put_buf_of_ne {υ : Type} (ctx : RymCtx υ) {i j : ℕ} (h : j ≠ i) (b : UInt8) :
    (ctx.put i b).buf j = ctx.buf j :=
  Function.update_of_ne h ..

variable {υ : Type} (cb : Callbacks υ) (tmSec : ℕ)

def feed (m : Machine υ) (pace : ℕ → UInt32) (bytes : List UInt8) : Machine υ :=
  (timed pace bytes).foldl (Receiver.step cb tmSec) m

theorem feed_cons (m : Machine υ) (pace : ℕ → UInt32) (b : UInt8) (bytes : List UInt8) :
    feed cb tmSec m pace (b :: bytes) =
      feed cb tmSec (Receiver.step cb tmSec m (.byte (pace 0) b)) (fun i ↦ pace (i + 1)) bytes := by
  rw [feed, timed, List.mapIdx_cons, List.foldl_cons]
  rfl

theorem feed_returned (ctx : RymCtx υ) (err : RtErr) (pace : ℕ → UInt32) (bytes : List UInt8) :
    feed cb tmSec ⟨ctx, .returned err⟩ pace bytes = ⟨ctx, .returned err⟩ := by
  induction bytes generalizing pace with
  | nil => rfl
  | cons b bytes ih =>
    rw [feed_cons]
    exact ih _

theorem feed_data (k : DataWait) (len : ℕ) (bytes : List UInt8) (hne : bytes ≠ []) :
    ∀ (ctx : RymCtx υ) (readlen : ℕ) (pace : ℕ → UInt32), readlen + bytes.length = len →
      ∃ buf tick, feed cb tmSec ⟨ctx, .data k len readlen⟩ pace bytes =
          afterData cb len (ctx.fill buf tick) k ∧
        (∀ i, (hi : i < bytes.length) → buf (1 + readlen + i) = bytes[i]) ∧
        ∀ i, i < 1 + readlen ∨ 1 + readlen + bytes.length ≤ i → buf i = ctx.buf i := by
  induction bytes with
  | nil => exact absurd rfl hne
  | cons b bytes ih =>
    intro ctx readlen pace hlen
    rw [List.length_cons] at hlen
    by_cases hb : bytes = []
    · subst hb
      obtain rfl : len = readlen + 1 := by
        rw [← hlen]
        rfl
      refine ⟨Function.update ctx.buf (1 + readlen) b, ctx.tick + pace 0, ?_, ?_, ?_⟩
      · rw [feed_cons]
        simp only [Receiver.step, if_pos (Nat.le_refl _)]
        rfl
      · intro i hi
        obtain rfl : i = 0 := by simpa using hi
        simp
      · intro i hi
        rw [Function.update_of_ne (by simp at hi; omega)]
    · have hpos : 0 < bytes.length := List.length_pos_iff.mpr hb
      obtain ⟨buf, tick, hfeed, hin, hout⟩ := ih hb
        ((ctx.elapse (pace 0)).put (1 + readlen) b) (readlen + 1) (fun i ↦ pace (i + 1)) (by omega)
      refine ⟨buf, tick, ?_, ?_, ?_⟩
      · rw [feed_cons]
        simp only [Receiver.step, if_neg (show ¬len ≤ readlen + 1 by omega)]
        exact hfeed
      · intro i hi
        cases i with
        | zero =>
          rw [hout _ (by omega)]
          exact Function.update_self ..
        | succ i =>
          rw [show 1 + readlen + (i + 1) = 1 + (readlen + 1) + i by omega]
          exact hin i (by simpa using hi)
      · intro i hi
        rw [List.length_cons] at hi
        rw [hout i (by omega)]
        exact Function.update_of_ne (by omega) ..

structure Holds (ctx : RymCtx υ) (seq : UInt8) (p : Payload) : Prop where
  seq_eq : ctx.buf 1 = seq
  comp_eq : ctx.buf 2 = ~~~seq
  slice_eq : ctx.slice 3 p.framing.size = p.bytes
  crc_eq : ctx.recvCrc (3 + p.framing.size) = crc16 p.bytes

theorem length_crcBytes (bytes : List UInt8) : (crcBytes bytes).length = 2 := rfl

theorem holds_of_stored {ctx : RymCtx υ} {buf : ℕ → UInt8} {tick : UInt32} {seq : UInt8}
    {p : Payload} (hget : ∀ i b, (seq :: ~~~seq :: (p.bytes ++ crcBytes p.bytes))[i]? = some b →
      buf (1 + i) = b) : Holds (ctx.fill buf tick) seq p := by
  have hp := p.length_bytes
  obtain ⟨hi, lo, hcrc, hjoin⟩ := crcBytes_joined p.bytes
  have hhi : buf (3 + p.framing.size) = hi := by
    rw [show 3 + p.framing.size = 1 + (p.framing.size + 2) by omega]
    apply hget
    simp [← hp, hcrc]
  have hlo : buf (3 + p.framing.size + 1) = lo := by
    rw [show 3 + p.framing.size + 1 = 1 + (p.framing.size + 3) by omega]
    apply hget
    simp [← hp, hcrc]
  refine ⟨hget 0 seq rfl, hget 1 _ rfl, ?_, ?_⟩
  · apply List.ext_getElem
    · rw [RymCtx.slice, List.length_map, List.length_range, hp]
    · intro i _ h
      have hi : buf (1 + (i + 2)) = p.bytes[i] := by
        apply hget
        change (p.bytes ++ crcBytes p.bytes)[i]? = some p.bytes[i]
        rw [List.getElem?_append_left h, List.getElem?_eq_getElem h]
      simp only [RymCtx.slice, List.getElem_map, List.getElem_range, RymCtx.fill_buf]
      rw [← hi]
      congr 1
      omega
  · rw [RymCtx.recvCrc, RymCtx.fill_buf, hhi, hlo, hjoin]

theorem feed_block (ctx : RymCtx υ) (k : DataWait) (pace : ℕ → UInt32) (seq : UInt8)
    (p : Payload) :
    ∃ buf tick, Holds (ctx.fill buf tick) seq p ∧
      feed cb tmSec ⟨ctx, .data k (4 + p.framing.size) 0⟩ pace
          (seq :: ~~~seq :: (p.bytes ++ crcBytes p.bytes)) =
        afterData cb (4 + p.framing.size) (ctx.fill buf tick) k := by
  have hp := p.length_bytes
  obtain ⟨buf, tick, hfeed, hin, -⟩ := feed_data cb tmSec k (4 + p.framing.size)
    (seq :: ~~~seq :: (p.bytes ++ crcBytes p.bytes)) (List.cons_ne_nil _ _) ctx 0 pace
    (by simp [hp, length_crcBytes]; omega)
  refine ⟨buf, tick, holds_of_stored ?_, hfeed⟩
  intro i b h
  obtain ⟨hi, rfl⟩ := List.getElem?_eq_some_iff.mp h
  exact hin i hi

theorem feed_trans (ctx : RymCtx υ) (pace : ℕ → UInt32) (seq : UInt8) (p : Payload) :
    ∃ buf tick, Holds (ctx.fill buf tick) seq p ∧
      feed cb tmSec ⟨ctx, .code .trans⟩ pace (blockBytes seq p) =
        transReply (rymTransData cb p.framing.size (4 + p.framing.size) (ctx.fill buf tick)) := by
  have hcode : ∀ e, Receiver.step cb tmSec ⟨ctx, .code .trans⟩ (.byte e p.framing.byte) =
      ⟨(ctx.elapse e).put 0 p.framing.byte, .data (.trans p.framing.size)
        (4 + p.framing.size) 0⟩ := by
    intro e
    cases p.framing <;> rfl
  obtain ⟨buf, tick, hholds, hfeed⟩ := feed_block cb tmSec
    ((ctx.elapse (pace 0)).put 0 p.framing.byte) (.trans p.framing.size) (fun i ↦ pace (i + 1)) seq p
  refine ⟨buf, tick, hholds, ?_⟩
  rw [blockBytes, feed_cons, hcode, hfeed]
  rfl

variable {ctx : RymCtx υ} {seq : UInt8} {p : Payload}

theorem Holds.sum_eq (h : Holds ctx seq p) : (ctx.buf 1).toNat + (ctx.buf 2).toNat = 0xFF := by
  have hlt := seq.toNat_lt
  rw [h.seq_eq, h.comp_eq, UInt8.toNat_not]
  simp only [UInt8.size] at hlt ⊢
  omega

theorem trans_ignores (hs : ctx.stage = .established) (pace : ℕ → UInt32) (p : Payload) :
    ∃ buf tick, feed cb tmSec ⟨ctx, .code .trans⟩ pace (blockBytes 0 p) =
      ⟨ctx.fill buf tick, .code .trans⟩ := by
  obtain ⟨buf, tick, hholds, hfeed⟩ := feed_trans cb tmSec ctx pace 0 p
  refine ⟨buf, tick, ?_⟩
  rw [hfeed, rymTransData, if_neg (by omega), if_neg (not_not.mpr hholds.sum_eq),
    if_pos ⟨hs, hholds.seq_eq⟩]
  rfl

/-- A block in any other place is handed to `on_data`, whatever its number. -/
theorem trans_delivers (onData : RymCallback υ) (hcb : cb.onData = some onData)
    (hs : ¬(ctx.stage = .established ∧ seq = 0)) (pace : ℕ → UInt32) (p : Payload) :
    ∃ buf tick, feed cb tmSec ⟨ctx, .code .trans⟩ pace (blockBytes seq p) =
      transReply (.eok, (onData ctx.user p.bytes).1,
        { ctx.fill buf tick with
          stage := .transmitting
          user := (onData ctx.user p.bytes).2
          delivered := ctx.delivered ++ [p.bytes] }) := by
  obtain ⟨buf, tick, hholds, hfeed⟩ := feed_trans cb tmSec ctx pace seq p
  refine ⟨buf, tick, ?_⟩
  have hslice : ({ ctx.fill buf tick with stage := .transmitting } : RymCtx υ).slice 3
      p.framing.size = p.bytes := hholds.slice_eq
  have hcrc : ({ ctx.fill buf tick with stage := .transmitting } : RymCtx υ).recvCrc
      (2 + p.framing.size + 2 - 1) = crc16 p.bytes := by
    rw [show 2 + p.framing.size + 2 - 1 = 3 + p.framing.size by omega]
    exact hholds.crc_eq
  rw [hfeed, rymTransData, if_neg (by omega), if_neg (not_not.mpr hholds.sum_eq),
    if_neg (by rw [hholds.seq_eq]; exact hs)]
  simp only [hslice, hcrc, ne_eq, not_true_eq_false, if_false, hcb]
  rfl

theorem trans_eot (ctx : RymCtx υ) (pace : ℕ → UInt32) :
    ∃ buf tick, feed cb tmSec ⟨ctx, .code .trans⟩ pace [0x04] =
      rymDoFin cb (ctx.fill buf tick) :=
  ⟨_, _, rfl⟩

theorem finEot_eot (ctx : RymCtx υ) (pace : ℕ → UInt32) :
    ∃ buf tick, feed cb tmSec ⟨ctx, .code .finEot⟩ pace [0x04] =
      ⟨((ctx.fill buf tick).rymPutchar .ack).rymPutchar .c, .code .finHeader⟩ :=
  ⟨_, _, rfl⟩

theorem finHeader_eot (ctx : RymCtx υ) (pace : ℕ → UInt32) :
    ∃ buf tick, feed cb tmSec ⟨ctx, .code .finHeader⟩ pace [0x04] =
      ⟨ctx.fill buf tick, .returned .code⟩ :=
  ⟨_, _, rfl⟩

theorem Holds.head_eq (h : Holds ctx seq p) : p.bytes.head? = some (ctx.buf 3) := by
  have hpos : 0 < p.framing.size := by cases p.framing <;> decide
  rw [← h.slice_eq, RymCtx.slice, List.head?_eq_getElem?, List.getElem?_map,
    List.getElem?_range hpos]
  rfl

theorem Holds.header_ok (h : Holds ctx 0 p) : ¬(ctx.buf 1 ≠ 0 ∨ ctx.buf 2 ≠ 0xFF) := by
  rw [h.seq_eq, h.comp_eq]
  decide

theorem feed_finHeader (ctx : RymCtx υ) (pace : ℕ → UInt32) (p : Payload)
    (hp : p.framing = .soh) :
    ∃ buf tick, Holds (ctx.fill buf tick) 0 p ∧
      feed cb tmSec ⟨ctx, .code .finHeader⟩ pace (blockBytes 0 p) =
        if p.bytes.head? ≠ some 0 then beginTrans cb 128 (ctx.fill buf tick)
        else ⟨{ ctx.fill buf tick with stage := .finished }.rymPutchar .ack, .returned .eok⟩ := by
  obtain ⟨buf, tick, hholds, hfeed⟩ := feed_block cb tmSec
    ((ctx.elapse (pace 0)).put 0 p.framing.byte) (.fin rymSohPkgSz) (fun i ↦ pace (i + 1)) 0 p
  replace hholds : Holds (ctx.fill buf tick) 0 p := hholds
  have hcode : Receiver.step cb tmSec ⟨ctx, .code .finHeader⟩ (.byte (pace 0) p.framing.byte) =
      ⟨(ctx.elapse (pace 0)).put 0 p.framing.byte,
        .data (.fin rymSohPkgSz) (4 + p.framing.size) 0⟩ := by
    rw [hp]
    rfl
  have hcrc : (ctx.fill buf tick).recvCrc (rymSohPkgSz - 2) =
      crc16 ((ctx.fill buf tick).slice 3 (rymSohPkgSz - 5)) := by
    have hslice := hholds.slice_eq
    have hcrc := hholds.crc_eq
    rw [← hslice, hp] at hcrc
    exact hcrc
  refine ⟨buf, tick, hholds, ?_⟩
  rw [blockBytes, feed_cons, hcode, hfeed, hp]
  change finCheck cb rymSohPkgSz (rymSohPkgSz - 1) (ctx.fill buf tick) = _
  rw [finCheck, if_neg (not_not.mpr rfl), if_neg hholds.header_ok, if_neg (not_not.mpr hcrc)]
  simp only [hholds.head_eq, ne_eq, Option.some.injEq]
  rfl

theorem Holds.handshakeCheck (h : Holds ctx 0 p) :
    handshakeCheck cb (5 + p.framing.size) (4 + p.framing.size) ctx =
      beginTrans cb p.framing.size ctx := by
  have hsize : 5 + p.framing.size - 5 = p.framing.size := by omega
  have hcrc : ctx.recvCrc (5 + p.framing.size - 2) =
      crc16 (ctx.slice 3 (5 + p.framing.size - 5)) := by
    rw [show 5 + p.framing.size - 2 = 3 + p.framing.size by omega, hsize, h.slice_eq, h.crc_eq]
  rw [Receiver.handshakeCheck, if_neg (by omega), if_neg h.header_ok, if_neg (not_not.mpr hcrc),
    hsize]

/-- The first header. The loop that receives it is not entered when the limit for
`rt_tick_get` has wrapped. -/
theorem feed_handshake (ctx : RymCtx υ) (i : ℕ) (pace : ℕ → UInt32) (p : Payload) :
    ∃ buf tick, Holds (ctx.fill buf tick) 0 p ∧
      feed cb tmSec ⟨ctx, .code (.handshake i)⟩ pace (blockBytes 0 p) =
        beginTrans cb p.framing.size (ctx.fill buf tick) ∨
      ¬ctx.tick + pace 0 ≤ ctx.tick + pace 0 + 100 ∧
        feed cb tmSec ⟨ctx, .code (.handshake i)⟩ pace (blockBytes 0 p) =
          ⟨ctx.fill buf tick, .returned .dsz⟩ := by
  let limit := ctx.tick + pace 0 + 100
  have hcode : Receiver.step cb tmSec ⟨ctx, .code (.handshake i)⟩
      (.byte (pace 0) p.framing.byte) = handshakeReceive cb (5 + p.framing.size) 0 limit
        ((ctx.elapse (pace 0)).put 0 p.framing.byte) := by
    cases p.framing <;> rfl
  have hpos : 0 < 5 + p.framing.size - 1 := by omega
  by_cases hlimit : ctx.tick + pace 0 ≤ limit
  · obtain ⟨buf, tick, hholds, hfeed⟩ := feed_block cb tmSec
      ((ctx.elapse (pace 0)).put 0 p.framing.byte) (.handshake (5 + p.framing.size) 0 limit)
      (fun i ↦ pace (i + 1)) 0 p
    have hholds' : Holds (ctx.fill buf (tick + 5)) 0 p :=
      ⟨hholds.seq_eq, hholds.comp_eq, hholds.slice_eq, hholds.crc_eq⟩
    refine ⟨buf, tick + 5, .inl ⟨hholds', ?_⟩⟩
    have hlen : 5 + p.framing.size - 1 = 4 + p.framing.size := by omega
    rw [blockBytes, feed_cons, hcode, handshakeReceive, if_pos ⟨hlimit, hpos⟩, hlen, hfeed,
      afterData, handshakeReceive, if_neg (by omega), Nat.zero_add]
    exact hholds'.handshakeCheck cb
  · refine ⟨Function.update ctx.buf 0 p.framing.byte, ctx.tick + pace 0, .inr ⟨hlimit, ?_⟩⟩
    have hloop : ¬(((ctx.elapse (pace 0)).put 0 p.framing.byte).tick ≤ limit ∧
        0 < 5 + p.framing.size - 1) := fun h ↦ hlimit h.1
    rw [blockBytes, feed_cons, hcode, handshakeReceive, if_neg hloop, handshakeCheck,
      if_pos (by omega), feed_returned]
    rfl

end Reception

end GiantGecko.Ymodem
