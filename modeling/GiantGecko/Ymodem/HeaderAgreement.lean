import GiantGecko.Ymodem.Progress

namespace GiantGecko.Ymodem.HeaderAgreement

open Receiver Sender Reception Progress

/-- A block 0 that names a file, with any bytes where its CRC belongs. -/
structure Header where
  payload : Payload
  crcHigh : UInt8
  crcLow : UInt8
  named : payload.bytes.head? ≠ some 0

def Header.block (h : Header) : List UInt8 :=
  h.payload.framing.byte :: 0 :: 0xFF :: (h.payload.bytes ++ [h.crcHigh, h.crcLow])

def joined (high low : UInt8) : BitVec 16 :=
  high.toBitVec.setWidth 16 <<< 8 ||| low.toBitVec.setWidth 16

def Header.Sound (h : Header) : Prop := joined h.crcHigh h.crcLow = crc16 h.payload.bytes

def Header.ShortSound (h : Header) : Prop :=
  joined (h.block.getD 131 0) (h.block.getD 132 0) = crc16 (h.payload.bytes.take 128)

instance (h : Header) : Decidable h.Sound := inferInstanceAs (Decidable (_ = _))

instance (h : Header) : Decidable h.ShortSound := inferInstanceAs (Decidable (_ = _))

variable (reply : RymCode) (onData onEnd : Option (RymCallback (List (List UInt8)))) (tmSec : ℕ)

def recording : Callbacks (List (List UInt8)) := ⟨some fun u buf ↦ (reply, u ++ [buf]), onData, onEnd⟩

theorem beginTrans_recording (len : ℕ) (ctx : RymCtx (List (List UInt8))) :
    (beginTrans (recording reply onData onEnd) len ctx).ctx.user = ctx.user ++ [ctx.slice 3 len] := by
  by_cases hreply : reply = .ack
  · simp [beginTrans, rymOnBegin, recording, hreply, rymDoTrans, RymCtx.rymPutchar]
  · simp [beginTrans, rymOnBegin, recording, hreply]

structure Stored (h : Header) (n : ℕ) (ctx : RymCtx (List (List UInt8))) : Prop where
  get : ∀ j b, j < n → h.block[j]? = some b → ctx.buf j = b

variable {h : Header} {ctx : RymCtx (List (List UInt8))} {n : ℕ}

theorem Header.length_block (h : Header) : h.block.length = 5 + h.payload.framing.size := by
  simp [Header.block, h.payload.length_bytes]
  omega

theorem Header.block_getElem? (h : Header) {j : ℕ} (hj : j < h.payload.framing.size) :
    h.block[3 + j]? = h.payload.bytes[j]? := by
  rw [Header.block, Nat.add_comm]
  simp only [List.getElem?_cons_succ]
  rw [List.getElem?_append_left (by rw [h.payload.length_bytes]; exact hj)]

theorem Stored.slice (hs : Stored h n ctx) (len : ℕ) (hlen : len ≤ h.payload.framing.size)
    (hn : 3 + len ≤ n) : ctx.slice 3 len = h.payload.bytes.take len := by
  have hbytes := h.payload.length_bytes
  apply List.ext_getElem
  · rw [RymCtx.slice, List.length_map, List.length_range, List.length_take]
    omega
  · intro i hi _
    simp only [RymCtx.slice, List.length_map, List.length_range] at hi
    simp only [RymCtx.slice, List.getElem_map, List.getElem_range, List.getElem_take]
    refine hs.get _ _ (by omega) ?_
    rw [h.block_getElem? (by omega), List.getElem?_eq_getElem]

theorem Stored.recvCrc (hs : Stored h n ctx) (start : ℕ) (hn : start + 2 ≤ n)
    (hblock : n ≤ h.block.length) :
    ctx.recvCrc start = joined (h.block.getD start 0) (h.block.getD (start + 1) 0) := by
  have hget : ∀ j, j < n → ctx.buf j = h.block.getD j 0 := by
    intro j hj
    refine hs.get j _ hj ?_
    rw [List.getD_eq_getElem?_getD, List.getElem?_eq_getElem (by omega), Option.getD_some]
  rw [RymCtx.recvCrc, hget start (by omega), hget (start + 1) (by omega), joined]

theorem Stored.numbered (hs : Stored h n ctx) (hn : 3 ≤ n) :
    ¬(ctx.buf 1 ≠ 0 ∨ ctx.buf 2 ≠ 0xFF) := by
  rw [hs.get 1 0 (by omega) rfl, hs.get 2 0xFF (by omega) rfl]
  decide

theorem feed_stored (cb : Callbacks (List (List UInt8))) (ctx : RymCtx (List (List UInt8)))
    (k : DataWait) (pace : ℕ → UInt32) (h : Header) {len : ℕ} (hpos : 0 < len)
    (hlen : len ≤ 4 + h.payload.framing.size) :
    ∃ buf tick, feed cb tmSec ⟨ctx.put 0 h.payload.framing.byte, .data k len 0⟩ pace
          (h.block.tail.take len) = afterData cb len (ctx.fill buf tick) k ∧
        Stored h (1 + len) (ctx.fill buf tick) ∧ ∀ j, 1 + len ≤ j → buf j = ctx.buf j := by
  have hblock := h.length_block
  have htake : (h.block.tail.take len).length = len := by
    rw [List.length_take, List.length_tail]
    omega
  obtain ⟨buf, tick, hfeed, hin, hout⟩ := feed_data cb tmSec k len (h.block.tail.take len)
    (List.ne_nil_of_length_pos (by omega)) (ctx.put 0 h.payload.framing.byte) 0 pace (by omega)
  refine ⟨buf, tick, hfeed, ⟨?_⟩, ?_⟩
  · intro j b hj hb
    cases j with
    | zero =>
      rw [RymCtx.fill_buf, hout 0 (by omega), put_buf]
      exact Option.some.inj hb
    | succ j =>
      have hj' : j < (h.block.tail.take len).length := by omega
      have hstored := hin j hj'
      rw [show 1 + 0 + j = j + 1 by omega] at hstored
      rw [RymCtx.fill_buf, hstored, List.getElem_take, List.getElem_tail]
      exact (List.getElem?_eq_some_iff.mp hb).2
  · intro j hj
    rw [hout j (by omega), put_buf_of_ne _ (by omega)]

section Handshake

variable {reply onData onEnd}

theorem handshakeCheck_user (hs : Stored h (5 + h.payload.framing.size) ctx) :
    (handshakeCheck (recording reply onData onEnd) (5 + h.payload.framing.size)
        (4 + h.payload.framing.size) ctx).ctx.user =
      if h.Sound then ctx.user ++ [h.payload.bytes] else ctx.user := by
  have hslice := hs.slice _ (Nat.le_refl _) (by omega)
  rw [← h.payload.length_bytes, List.take_length, h.payload.length_bytes] at hslice
  have hcrc := hs.recvCrc (3 + h.payload.framing.size) (by omega) h.length_block.ge
  have hhigh : h.block.getD (3 + h.payload.framing.size) 0 = h.crcHigh := by
    rw [← h.payload.length_bytes, Header.block, Nat.add_comm]
    simp
  have hlow : h.block.getD (3 + h.payload.framing.size + 1) 0 = h.crcLow := by
    rw [← h.payload.length_bytes, Header.block, Nat.add_comm 3]
    simp
  rw [hhigh, hlow] at hcrc
  rw [handshakeCheck, if_neg (by omega), if_neg (hs.numbered (by omega)),
    show 5 + h.payload.framing.size - 2 = 3 + h.payload.framing.size by omega,
    show 5 + h.payload.framing.size - 5 = h.payload.framing.size by omega, hslice, hcrc]
  by_cases hsound : h.Sound
  · have hcrc' : ¬joined h.crcHigh h.crcLow ≠ crc16 h.payload.bytes := not_not.mpr hsound
    rw [if_neg hcrc', if_pos hsound, beginTrans_recording, hslice]
  · have hcrc' : joined h.crcHigh h.crcLow ≠ crc16 h.payload.bytes := hsound
    rw [if_pos hcrc', if_neg hsound]

theorem handshake_user (ctx : RymCtx (List (List UInt8))) (i : ℕ) (pace : ℕ → UInt32) (h : Header) :
    (feed (recording reply onData onEnd) tmSec ⟨ctx, .code (.handshake i)⟩ pace h.block).ctx.user =
      if ctx.tick + pace 0 ≤ ctx.tick + pace 0 + 100 ∧ h.Sound then ctx.user ++ [h.payload.bytes]
      else ctx.user := by
  have hcode : step (recording reply onData onEnd) tmSec ⟨ctx, .code (.handshake i)⟩
      (.byte (pace 0) h.payload.framing.byte) =
      handshakeReceive (recording reply onData onEnd) (5 + h.payload.framing.size) 0
        (ctx.tick + pace 0 + 100) ((ctx.elapse (pace 0)).put 0 h.payload.framing.byte) := by
    cases h.payload.framing <;> rfl
  have hsize : 5 + h.payload.framing.size - 1 = 4 + h.payload.framing.size := by omega
  have hblock : h.block.tail = h.block.tail.take (4 + h.payload.framing.size) := by
    rw [List.take_of_length_le]
    rw [List.length_tail, h.length_block]
    omega
  have hfeed₀ : feed (recording reply onData onEnd) tmSec ⟨ctx, .code (.handshake i)⟩ pace h.block =
      feed (recording reply onData onEnd) tmSec (handshakeReceive (recording reply onData onEnd)
        (5 + h.payload.framing.size) 0 (ctx.tick + pace 0 + 100)
        ((ctx.elapse (pace 0)).put 0 h.payload.framing.byte)) (fun i ↦ pace (i + 1)) h.block.tail := by
    rw [← hcode]
    exact feed_cons ..
  rw [hfeed₀]
  by_cases hlimit : ctx.tick + pace 0 ≤ ctx.tick + pace 0 + 100
  · obtain ⟨buf, tick, hfeed, hstored, -⟩ := feed_stored tmSec (recording reply onData onEnd)
      (ctx.elapse (pace 0)) (.handshake (5 + h.payload.framing.size) 0 (ctx.tick + pace 0 + 100))
      (fun i ↦ pace (i + 1)) h (by omega) (Nat.le_refl _)
    have hstored' : Stored h (5 + h.payload.framing.size)
        ((ctx.elapse (pace 0)).fill buf (tick + 5)) :=
      ⟨fun j b hj ↦ hstored.get j b (by omega)⟩
    rw [handshakeReceive, if_pos ⟨hlimit, by omega⟩, hsize, hblock, hfeed, afterData,
      handshakeReceive, if_neg (by omega), Nat.zero_add]
    refine (handshakeCheck_user hstored').trans ?_
    simp only [hlimit, true_and]
    rfl
  · have hloop : ¬(((ctx.elapse (pace 0)).put 0 h.payload.framing.byte).tick ≤
        ctx.tick + pace 0 + 100 ∧ 0 < 5 + h.payload.framing.size - 1) := fun h ↦ hlimit h.1
    rw [handshakeReceive, if_neg hloop, handshakeCheck, if_pos (by omega), feed_returned,
      if_neg (fun h ↦ hlimit h.1)]
    rfl

end Handshake

section Fin

variable {reply onData onEnd}

theorem Stored.named (hs : Stored h n ctx) (hn : 3 < n) : ctx.buf 3 ≠ 0 := by
  have hpos : 0 < h.payload.framing.size := by cases h.payload.framing <;> decide
  have hlen : 0 < h.payload.bytes.length := by rwa [h.payload.length_bytes]
  have hfirst : h.block[3]? = some h.payload.bytes[0] := by
    rw [show 3 = 3 + 0 from rfl, h.block_getElem? hpos, List.getElem?_eq_getElem hlen]
  intro hzero
  rw [hs.get 3 _ hn hfirst] at hzero
  refine h.named ?_
  rw [List.head?_eq_getElem?, List.getElem?_eq_getElem hlen, hzero]

theorem slice_split (ctx : RymCtx (List (List UInt8))) (size : ℕ) :
    ctx.slice 3 size = ctx.slice 3 (min 130 size) ++ ctx.slice 133 (size - 130) := by
  obtain hle | hlt := Nat.le_or_ge size 130
  · rw [Nat.min_eq_right hle, Nat.sub_eq_zero_of_le hle]
    exact (List.append_nil _).symm
  · obtain ⟨d, rfl⟩ := Nat.exists_eq_add_of_le hlt
    rw [Nat.min_eq_left hlt, Nat.add_sub_cancel_left, RymCtx.slice, List.range_add, List.map_append,
      List.map_map]
    congr 1
    refine List.map_congr_left fun i _ ↦ ?_
    rw [Function.comp_apply]
    congr 1
    omega

theorem size_ge (f : Framing) : 128 ≤ f.size := by cases f <;> decide

theorem finCheck_user (hs : Stored h 133 ctx) :
    (finCheck (recording reply onData onEnd) (5 + h.payload.framing.size) 132 ctx).ctx.user =
      if h.ShortSound then ctx.user ++ [ctx.slice 3 h.payload.framing.size] else ctx.user := by
  have hsize := size_ge h.payload.framing
  have hslice : ctx.slice 3 (rymSohPkgSz - 5) = h.payload.bytes.take 128 :=
    hs.slice 128 hsize (by omega)
  have hcrc : ctx.recvCrc (rymSohPkgSz - 2) = joined (h.block.getD 131 0) (h.block.getD 132 0) :=
    hs.recvCrc 131 (by omega) (by rw [h.length_block]; omega)
  rw [finCheck, if_neg (by decide), if_neg (hs.numbered (by omega)), hslice, hcrc]
  by_cases hsound : h.ShortSound
  · have hcrc' : ¬joined (h.block.getD 131 0) (h.block.getD 132 0) ≠
        crc16 (h.payload.bytes.take 128) := not_not.mpr hsound
    rw [if_neg hcrc', if_pos hsound, if_pos (hs.named (by omega)), beginTrans_recording,
      Nat.add_sub_cancel_left]
  · have hcrc' : joined (h.block.getD 131 0) (h.block.getD 132 0) ≠
        crc16 (h.payload.bytes.take 128) := hsound
    rw [if_pos hcrc', if_neg hsound]

/-- What `_rym_do_fin` hands to `on_begin`: of a long header, its first 130 bytes and what
is in the buffer after them. -/
theorem fin_user (ctx : RymCtx (List (List UInt8))) (pace : ℕ → UInt32) (h : Header) :
    (feed (recording reply onData onEnd) tmSec ⟨ctx, .code .finHeader⟩ pace
        (h.block.take 133)).ctx.user =
      if h.ShortSound then
        ctx.user ++ [h.payload.bytes.take 130 ++ ctx.slice 133 (h.payload.framing.size - 130)]
      else ctx.user := by
  have hsize := size_ge h.payload.framing
  have hcode : step (recording reply onData onEnd) tmSec ⟨ctx, .code .finHeader⟩
      (.byte (pace 0) h.payload.framing.byte) =
      ⟨(ctx.elapse (pace 0)).put 0 h.payload.framing.byte,
        .data (.fin (5 + h.payload.framing.size)) 132 0⟩ := by
    cases h.payload.framing <;> rfl
  obtain ⟨buf, tick, hfeed, hstored, hrest⟩ := feed_stored tmSec (recording reply onData onEnd)
    (ctx.elapse (pace 0)) (.fin (5 + h.payload.framing.size)) (fun i ↦ pace (i + 1)) h
    (show 0 < 132 by omega) (by omega)
  have htake : h.block.take 133 = h.payload.framing.byte :: h.block.tail.take 132 := rfl
  rw [htake, feed_cons, hcode, hfeed, afterData]
  refine (finCheck_user hstored).trans ?_
  by_cases hsound : h.ShortSound
  · rw [if_pos hsound, if_pos hsound]
    have hrest' : ((ctx.elapse (pace 0)).fill buf tick).slice 133 (h.payload.framing.size - 130) =
        ctx.slice 133 (h.payload.framing.size - 130) :=
      List.map_congr_left fun i _ ↦ hrest (133 + i) (by omega)
    have hall : h.payload.bytes.take (min 130 h.payload.framing.size) = h.payload.bytes.take 130 := by
      rw [← h.payload.length_bytes, ← List.take_take, List.take_length]
    rw [slice_split, hrest', hstored.slice _ (Nat.min_le_right _ _) (by omega), hall]
    rfl
  · rw [if_neg hsound, if_neg hsound]
    rfl

end Fin

/-- The parsers hand the same to `on_begin`, or neither hands it anything. The first is
given the header from one state of the context and with one timing, the second, which
does not read more than 133 bytes, from others. -/
def Agree (ctx₁ ctx₂ : RymCtx (List (List UInt8))) (i : ℕ) (pace₁ pace₂ : ℕ → UInt32)
    (h : Header) : Prop :=
  (feed (recording reply onData onEnd) tmSec ⟨{ ctx₁ with user := [] }, .code (.handshake i)⟩ pace₁
      h.block).ctx.user =
    (feed (recording reply onData onEnd) tmSec ⟨{ ctx₂ with user := [] }, .code .finHeader⟩ pace₂
      (h.block.take 133)).ctx.user

/-- A short header is sound only where the tick limit does not wrap; of a long one both
checks fail, or both hold and the bytes that are not read are there. -/
def Alike (tickOk : Prop) (stale : List UInt8) (h : Header) : Prop :=
  match h.payload.framing with
  | .soh => h.Sound → tickOk
  | .stx => ¬(tickOk ∧ h.Sound) ∧ ¬h.ShortSound ∨
      (tickOk ∧ h.Sound) ∧ h.ShortSound ∧ stale = h.payload.bytes.drop 130

theorem shortSound_iff (hsoh : h.payload.framing = .soh) : h.ShortSound ↔ h.Sound := by
  have hlen : h.payload.bytes.length = 128 := by rw [h.payload.length_bytes, hsoh]; rfl
  have hhigh : h.block.getD 131 0 = h.crcHigh := by
    rw [Header.block, show 131 = h.payload.bytes.length + 3 by omega]
    simp
  have hlow : h.block.getD 132 0 = h.crcLow := by
    rw [Header.block, show 132 = h.payload.bytes.length + 1 + 3 by omega]
    simp
  rw [Header.ShortSound, hhigh, hlow, List.take_of_length_le (by omega), Header.Sound]

theorem agree_iff (ctx₁ ctx₂ : RymCtx (List (List UInt8))) (i : ℕ) (pace₁ pace₂ : ℕ → UInt32)
    (h : Header) :
    Agree reply onData onEnd tmSec ctx₁ ctx₂ i pace₁ pace₂ h ↔
      Alike (ctx₁.tick + pace₁ 0 ≤ ctx₁.tick + pace₁ 0 + 100) (ctx₂.slice 133 894) h := by
  have hlen := h.payload.length_bytes
  rw [Agree, handshake_user, fin_user]
  simp only [List.nil_append]
  change (if ctx₁.tick + pace₁ 0 ≤ ctx₁.tick + pace₁ 0 + 100 ∧ h.Sound then [h.payload.bytes]
    else []) = (if h.ShortSound then
      [h.payload.bytes.take 130 ++ ctx₂.slice 133 (h.payload.framing.size - 130)] else []) ↔ _
  cases hf : h.payload.framing with
  | soh =>
    rw [hf] at hlen
    have hwhole : h.payload.bytes.take 130 ++ ctx₂.slice 133 (Framing.soh.size - 130) =
        h.payload.bytes := by
      rw [List.take_of_length_le (by rw [hlen]; decide)]
      exact List.append_nil _
    simp only [hf, hwhole, Alike, shortSound_iff hf]
    by_cases hsound : h.Sound
    · by_cases htick : ctx₁.tick + pace₁ 0 ≤ ctx₁.tick + pace₁ 0 + 100
      · simp [hsound, htick]
      · simp [hsound, htick]
    · simp [hsound]
  | stx =>
    rw [hf] at hlen
    have hparts : [h.payload.bytes] = [h.payload.bytes.take 130 ++ ctx₂.slice 133 894] ↔
        ctx₂.slice 133 894 = h.payload.bytes.drop 130 := by
      rw [List.singleton_inj]
      constructor
      · intro heq
        have hdrop := congrArg (List.drop 130) heq
        rw [List.drop_left' (by rw [List.length_take, hlen]; rfl)] at hdrop
        exact hdrop.symm
      · intro heq
        rw [heq, List.take_append_drop]
    have hsize : Framing.stx.size - 130 = 894 := rfl
    simp only [hf, hsize, Alike]
    by_cases hfirst : ctx₁.tick + pace₁ 0 ≤ ctx₁.tick + pace₁ 0 + 100 ∧ h.Sound
    · by_cases hshort : h.ShortSound
      · rw [if_pos hfirst, if_pos hshort, hparts]
        simp [hfirst, hshort]
      · rw [if_pos hfirst, if_neg hshort]
        simp [hfirst, hshort]
    · by_cases hshort : h.ShortSound
      · rw [if_neg hfirst, if_pos hshort]
        simp [hfirst, hshort]
      · rw [if_neg hfirst, if_neg hshort]
        simp [hfirst, hshort]

def longHeader (high low : UInt8) : Header where
  payload := ⟨.stx, List.replicate Framing.stx.size 0x41, List.length_replicate⟩
  crcHigh := high
  crcLow := low
  named := by
    rw [List.head?_replicate]
    decide

theorem longHeader_not_shortSound (high low : UInt8) : ¬(longHeader high low).ShortSound := by
  have hletter : ∀ j, j < Framing.stx.size → (longHeader high low).block.getD (3 + j) 0 = 0x41 := by
    intro j hj
    rw [List.getD_eq_getElem?_getD, (longHeader high low).block_getElem? hj]
    change ((List.replicate Framing.stx.size 0x41)[j]?).getD 0 = 0x41
    rw [List.getElem?_replicate, if_pos hj]
    rfl
  have htake : (longHeader high low).payload.bytes.take 128 = List.replicate 128 0x41 := by
    change (List.replicate Framing.stx.size 0x41).take 128 = _
    rw [List.take_replicate]
    rfl
  rw [Header.ShortSound, hletter 128 (by decide), hletter 129 (by decide), htake]
  decide +kernel

/-- A long header with its CRC is handed on as the first of a batch, and refused later. -/
theorem not_agree :
    ¬ ∀ (reply : RymCode) (onData onEnd : Option (RymCallback (List (List UInt8)))) (tmSec : ℕ)
      (ctx₁ ctx₂ : RymCtx (List (List UInt8))) (i : ℕ) (pace₁ pace₂ : ℕ → UInt32) (h : Header),
      Agree reply onData onEnd tmSec ctx₁ ctx₂ i pace₁ pace₂ h := by
  intro hall
  obtain ⟨high, low, -, hsound⟩ := crcBytes_joined (List.replicate Framing.stx.size 0x41)
  let ctx : RymCtx (List (List UInt8)) := ⟨.none, fun _ ↦ 0, [], 0, [], []⟩
  have halike := (agree_iff .ack none none 1 ctx ctx 0 (fun _ ↦ 0) (fun _ ↦ 0)
    (longHeader high low)).mp (hall ..)
  have hshort := longHeader_not_shortSound high low
  obtain ⟨hrefused, -⟩ | ⟨-, haccepted, -⟩ := halike
  · exact hrefused ⟨by decide, hsound⟩
  · exact hshort haccepted

end GiantGecko.Ymodem.HeaderAgreement
