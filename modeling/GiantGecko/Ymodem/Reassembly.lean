import GiantGecko.Ymodem.Progress

namespace GiantGecko.Ymodem.Reassembly

open Foundation.Transition Receiver Sender Reception Progress
open Session (timed)

variable {υ : Type} (cb : Callbacks υ) (tmSec : ℕ)

def inputByte : Input → Option UInt8
  | .byte _ b => some b
  | .gap _ => none

def arrived (es : List Input) : List UInt8 := es.filterMap inputByte

def InHandshake : Wait → Prop
  | .code (.handshake _) => True
  | .data (.handshake _ _ _) _ _ => True
  | _ => False

def Begun : Wait → Prop
  | .code .trans => True
  | .returned .can => True
  | _ => False

/-- The buffer starts with a packet, which has arrived last. -/
structure Whole (bytes : List UInt8) (f : Framing) (ctx : RymCtx υ) : Prop where
  first : ctx.buf 0 = f.byte
  suffix : ctx.slice 0 (5 + f.size) <:+ bytes

/-- A packet that arrives when one is waited for is put together and handed to
`on_begin`, to which nothing else is handed. -/
structure Reassembles (ctx : RymCtx υ) (es : List Input) : Prop where
  packet : ∀ (pre : List Input) (pace : ℕ → UInt32) (p : Payload),
    es = pre ++ timed pace (blockBytes 0 p) →
    (∃ i, (pre.foldl (step cb tmSec) (rymDoHandshake tmSec ctx)).wait = .code (.handshake i)) →
    ∃ ctx' : RymCtx υ, ctx'.slice 0 (5 + p.framing.size) = blockBytes 0 p ∧
      ctx'.user = (pre.foldl (step cb tmSec) (rymDoHandshake tmSec ctx)).ctx.user ∧
      es.foldl (step cb tmSec) (rymDoHandshake tmSec ctx) = beginTrans cb p.framing.size ctx'
  contiguous : Along (step cb tmSec) (fun m _ ↦ InHandshake m.wait) (rymDoHandshake tmSec ctx) es →
    Begun (es.foldl (step cb tmSec) (rymDoHandshake tmSec ctx)).wait →
    ∃ f ctx', Whole (arrived es) f ctx' ∧
      es.foldl (step cb tmSec) (rymDoHandshake tmSec ctx) = beginTrans cb f.size ctx'

/-- The limit for `rt_tick_get` does not wrap when it is set, and has been passed when a
wait for the rest of a packet times out. -/
def Ahead (m : Machine υ) : Input → Prop
  | .byte elapsed b => ∀ i, m.wait = .code (.handshake i) → b = 0x01 ∨ b = 0x02 →
    m.ctx.tick + elapsed ≤ m.ctx.tick + elapsed + 100
  | .gap elapsed => ∀ dataSz i limit len readlen,
    m.wait = .data (.handshake dataSz i limit) len readlen → 0 < i + readlen →
    limit < m.ctx.tick + elapsed + 5

section Packet

variable {tmSec} {ctx : RymCtx υ} {p : Payload}

theorem slice_zero {ctx : RymCtx υ} {bytes : List UInt8}
    (h : ∀ i, (hi : i < bytes.length) → ctx.buf i = bytes[i]) :
    ctx.slice 0 bytes.length = bytes := by
  apply List.ext_getElem
  · rw [RymCtx.slice, List.length_map, List.length_range]
  · intro i _ hi
    simp only [RymCtx.slice, List.getElem_map, List.getElem_range, Nat.zero_add]
    exact h i hi

theorem length_blockBytes (seq : UInt8) (p : Payload) :
    (blockBytes seq p).length = 5 + p.framing.size := by
  simp [blockBytes, p.length_bytes, length_crcBytes]
  omega

theorem step_first (ctx : RymCtx υ) (i : ℕ) (elapsed : UInt32) (f : Framing) :
    step cb tmSec ⟨ctx, .code (.handshake i)⟩ (.byte elapsed f.byte) =
      handshakeReceive cb (5 + f.size) 0 (ctx.tick + elapsed + 100)
        ((ctx.elapse elapsed).put 0 f.byte) := by
  cases f <;> rfl

theorem feed_packet (ctx : RymCtx υ) (i : ℕ) (pace : ℕ → UInt32) (p : Payload) :
    ∃ buf tick,
      if ctx.tick + pace 0 ≤ ctx.tick + pace 0 + 100 then
        (ctx.fill buf tick).slice 0 (5 + p.framing.size) = blockBytes 0 p ∧
          feed cb tmSec ⟨ctx, .code (.handshake i)⟩ pace (blockBytes 0 p) =
            beginTrans cb p.framing.size (ctx.fill buf tick)
      else feed cb tmSec ⟨ctx, .code (.handshake i)⟩ pace (blockBytes 0 p) =
        ⟨ctx.fill buf tick, .returned .dsz⟩ := by
  have hsize : 5 + p.framing.size - 1 = 4 + p.framing.size := by omega
  by_cases hlimit : ctx.tick + pace 0 ≤ ctx.tick + pace 0 + 100
  · obtain ⟨buf, tick, hfeed, hin, hout⟩ := feed_data cb tmSec
      (.handshake (5 + p.framing.size) 0 (ctx.tick + pace 0 + 100)) (4 + p.framing.size)
      (0 :: ~~~0 :: (p.bytes ++ crcBytes p.bytes)) (List.cons_ne_nil _ _)
      ((ctx.elapse (pace 0)).put 0 p.framing.byte) 0 (fun i ↦ pace (i + 1))
      (by simp [p.length_bytes, length_crcBytes]; omega)
    have hholds : Holds (ctx.fill buf (tick + 5)) 0 p := by
      refine holds_of_stored ?_
      intro i b h
      obtain ⟨hi, rfl⟩ := List.getElem?_eq_some_iff.mp h
      exact hin i hi
    refine ⟨buf, tick + 5, ?_⟩
    rw [if_pos hlimit]
    constructor
    · rw [← length_blockBytes 0 p]
      refine slice_zero ?_
      intro i hi
      cases i with
      | zero =>
        rw [RymCtx.fill_buf, hout 0 (by omega), put_buf]
        rfl
      | succ i =>
        have hi' : i < (0 :: ~~~0 :: (p.bytes ++ crcBytes p.bytes)).length :=
          Nat.lt_of_succ_lt_succ hi
        have hstored := hin i hi'
        rw [show 1 + 0 + i = i + 1 by omega] at hstored
        exact hstored
    · rw [blockBytes, feed_cons, step_first, handshakeReceive, if_pos ⟨hlimit, by omega⟩, hsize, hfeed,
        afterData, handshakeReceive, if_neg (by omega), Nat.zero_add]
      exact hholds.handshakeCheck cb
  · refine ⟨Function.update ctx.buf 0 p.framing.byte, ctx.tick + pace 0, ?_⟩
    have hloop : ¬(((ctx.elapse (pace 0)).put 0 p.framing.byte).tick ≤ ctx.tick + pace 0 + 100 ∧
        0 < 5 + p.framing.size - 1) := fun h ↦ hlimit h.1
    rw [if_neg hlimit, blockBytes, feed_cons, step_first, handshakeReceive, if_neg hloop,
      handshakeCheck, if_pos (by omega), feed_returned]
    rfl

end Packet

/-- The packet that is being read has filled the buffer from its start, and its bytes have
arrived last. -/
structure Reading (bytes : List UInt8) (f : Framing) (readlen : ℕ) (ctx : RymCtx υ) : Prop where
  first : ctx.buf 0 = f.byte
  suffix : ctx.slice 0 (1 + readlen) <:+ bytes

inductive Goes (bytes : List UInt8) (m : Machine υ) : Prop
  | waits (i : ℕ) : m.wait = .code (.handshake i) → Goes bytes m
  | reads (f : Framing) (limit : UInt32) (readlen : ℕ) : readlen < 4 + f.size →
      m.wait = .data (.handshake (5 + f.size) 0 limit) (4 + f.size) readlen →
      Reading bytes f readlen m.ctx → Goes bytes m
  | begins (f : Framing) (ctx : RymCtx υ) : Whole bytes f ctx → m = beginTrans cb f.size ctx →
      Goes bytes m
  | fails (err : RtErr) : m.wait = .returned err → err ≠ .can → Goes bytes m

variable {cb tmSec} {bytes : List UInt8} {ctx : RymCtx υ} {f : Framing}

theorem goes_handshakeTurn (i : ℕ) : Goes cb bytes (handshakeTurn tmSec i ctx) := by
  rw [handshakeTurn]
  split_ifs
  · exact .waits i rfl
  · exact .fails .tmo rfl (by decide)

theorem goes_handshakeCheck {i : ℕ} (h : i = 4 + f.size → Whole bytes f ctx) :
    Goes cb bytes (handshakeCheck cb (5 + f.size) i ctx) := by
  rw [handshakeCheck]
  split_ifs with hsize
  · exact .fails .dsz rfl (by decide)
  · exact .fails .seq rfl (by decide)
  · exact .fails .crc rfl (by decide)
  · exact .begins f ctx (h (by omega)) (by rw [Nat.add_sub_cancel_left])

theorem goes_handshakeReceive {i : ℕ} {limit : UInt32} (h : Reading bytes f i ctx)
    (hi : ctx.tick ≤ limit → i = 0 ∨ i = 4 + f.size) :
    Goes cb bytes (handshakeReceive cb (5 + f.size) i limit ctx) := by
  have hwhole : i = 4 + f.size → Whole bytes f ctx := by
    rintro rfl
    refine ⟨h.first, ?_⟩
    rw [show 5 + f.size = 1 + (4 + f.size) by omega]
    exact h.suffix
  rw [handshakeReceive]
  by_cases hloop : ctx.tick ≤ limit ∧ i < 5 + f.size - 1
  · rw [if_pos hloop]
    obtain rfl : i = 0 := (hi hloop.1).resolve_right (by omega)
    rw [show 5 + f.size - 1 = 4 + f.size by omega]
    exact .reads f limit 0 (by omega) rfl h
  · rw [if_neg hloop]
    exact goes_handshakeCheck hwhole

theorem reading_first (elapsed : UInt32) (f : Framing) :
    Reading (bytes ++ [f.byte]) f 0 ((ctx.elapse elapsed).put 0 f.byte) :=
  ⟨put_buf .., List.suffix_append _ _⟩

theorem Reading.put {readlen : ℕ} (h : Reading bytes f readlen ctx) (elapsed : UInt32) (b : UInt8) :
    Reading (bytes ++ [b]) f (readlen + 1) ((ctx.elapse elapsed).put (1 + readlen) b) where
  first := by
    rw [put_buf_of_ne _ (by omega)]
    exact h.first
  suffix := by
    obtain ⟨before, hbefore⟩ := h.suffix
    refine ⟨before, ?_⟩
    have hslice : ((ctx.elapse elapsed).put (1 + readlen) b).slice 0 (1 + (readlen + 1)) =
        ctx.slice 0 (1 + readlen) ++ [b] := by
      rw [← Nat.add_assoc, RymCtx.slice, List.range_succ, List.map_append, RymCtx.slice]
      congr 1
      · refine List.map_congr_left fun i hi ↦ ?_
        have := List.mem_range.mp hi
        exact put_buf_of_ne _ (by omega) b
      · simp [put_buf]
    rw [hslice, ← List.append_assoc, hbefore]

variable {m : Machine υ}

theorem goes_code (i : ℕ) (e : Input) :
    Goes cb (bytes ++ arrived [e]) (step cb tmSec ⟨ctx, .code (.handshake i)⟩ e) := by
  cases e with
  | gap elapsed => exact goes_handshakeTurn (i + 1)
  | byte elapsed b =>
    have hloop : ∀ f : Framing, f.byte = b →
        Goes cb (bytes ++ [b]) (handshakeReceive cb (5 + f.size) 0 (ctx.tick + elapsed + 100)
          ((ctx.elapse elapsed).put 0 b)) := by
      rintro f rfl
      exact goes_handshakeReceive (reading_first elapsed f) fun _ ↦ .inl rfl
    have hstep : step cb tmSec ⟨ctx, .code (.handshake i)⟩ (.byte elapsed b) =
        afterCode cb tmSec ((ctx.elapse elapsed).put 0 b) (.handshake i) (.ofByte b) := rfl
    by_cases hsoh : b = 0x01
    · subst hsoh
      exact hloop .soh rfl
    by_cases hstx : b = 0x02
    · subst hstx
      exact hloop .stx rfl
    have hcode : afterCode cb tmSec ((ctx.elapse elapsed).put 0 b) (.handshake i) (.ofByte b) =
        handshakeTurn tmSec (i + 1) ((ctx.elapse elapsed).put 0 b) := by
      unfold RymCode.ofByte
      split
      · rfl
      · exact absurd rfl hsoh
      · exact absurd rfl hstx
      all_goals rfl
    rw [hstep, hcode]
    exact goes_handshakeTurn (i + 1)

theorem goes_data {limit : UInt32} {readlen : ℕ} (hlen : readlen < 4 + f.size)
    (h : Reading bytes f readlen ctx) {e : Input}
    (he : Ahead ⟨ctx, .data (.handshake (5 + f.size) 0 limit) (4 + f.size) readlen⟩ e) :
    Goes cb (bytes ++ arrived [e])
      (step cb tmSec ⟨ctx, .data (.handshake (5 + f.size) 0 limit) (4 + f.size) readlen⟩ e) := by
  cases e with
  | gap elapsed =>
    have hread : Reading (bytes ++ arrived [.gap elapsed]) f (0 + readlen)
        ((ctx.elapse elapsed).elapse 5) := by
      rw [Nat.zero_add]
      refine ⟨h.first, ?_⟩
      rw [show arrived [.gap elapsed] = [] from rfl, List.append_nil]
      exact h.suffix
    refine goes_handshakeReceive hread fun hle ↦ .inl ?_
    by_contra hne
    have hlt := he _ _ _ _ _ rfl (by omega)
    exact absurd hlt (UInt32.not_lt.mpr hle)
  | byte elapsed b =>
    have hread := h.put elapsed b
    by_cases hlast : 4 + f.size ≤ readlen + 1
    · simp only [step, if_pos hlast, afterData]
      refine goes_handshakeReceive ?_ fun _ ↦ .inr (by omega)
      rw [Nat.zero_add]
      exact ⟨hread.first, hread.suffix⟩
    · simp only [step, if_neg hlast]
      exact .reads f limit (readlen + 1) (by omega) rfl hread

theorem Goes.step (h : Goes cb bytes m) (hm : InHandshake m.wait) {e : Input} (he : Ahead m e) :
    Goes cb (bytes ++ arrived [e]) (Receiver.step cb tmSec m e) := by
  cases h with
  | waits i hwait =>
    obtain ⟨ctx, wait⟩ := m
    obtain rfl : wait = .code (.handshake i) := hwait
    exact goes_code i e
  | reads f limit readlen hlen hwait hread =>
    obtain ⟨ctx, wait⟩ := m
    obtain rfl : wait = .data (.handshake (5 + f.size) 0 limit) (4 + f.size) readlen := hwait
    exact goes_data hlen hread he
  | begins f ctx hwhole hm' =>
    obtain ⟨user, hb | hb⟩ := beginTrans_cases cb f.size ctx
    · rw [hm', hb] at hm
      exact hm.elim
    · rw [hm', hb] at hm
      exact hm.elim
  | fails err hwait herr =>
    rw [hwait] at hm
    exact hm.elim

theorem Goes.run {es : List Input} (h : Goes cb bytes m)
    (hes : Along (Receiver.step cb tmSec) (fun m e ↦ InHandshake m.wait ∧ Ahead m e) m es) :
    Goes cb (bytes ++ arrived es) (es.foldl (Receiver.step cb tmSec) m) := by
  induction es generalizing m bytes with
  | nil => simpa [arrived] using h
  | cons e es ih =>
    have hrest := ih (h.step hes.1.1 hes.1.2) hes.2
    rw [List.append_assoc, arrived, arrived, ← List.filterMap_append, List.singleton_append] at hrest
    exact hrest

theorem Goes.whole (h : Goes cb bytes m) (hm : Begun m.wait) :
    ∃ f ctx', Whole bytes f ctx' ∧ m = beginTrans cb f.size ctx' := by
  cases h with
  | waits i hwait =>
    rw [hwait] at hm
    exact hm.elim
  | reads f limit readlen hlen hwait hread =>
    rw [hwait] at hm
    exact hm.elim
  | begins f ctx hwhole hm' => exact ⟨f, ctx, hwhole, hm'⟩
  | fails err hwait herr =>
    rw [hwait] at hm
    cases err with
    | can => exact absurd rfl herr
    | _ => exact hm.elim

variable (cb) (tmSec)

theorem ahead_data (k : DataWait) (len : ℕ) (bytes : List UInt8) (ctx : RymCtx υ) (readlen : ℕ)
    (pace : ℕ → UInt32) (hlen : readlen + bytes.length ≤ len) :
    Along (step cb tmSec) Ahead ⟨ctx, .data k len readlen⟩ (timed pace bytes) := by
  induction bytes generalizing ctx readlen pace with
  | nil => trivial
  | cons b bytes ih =>
    rw [timed, List.mapIdx_cons]
    refine ⟨fun i hwait ↦ ?_, ?_⟩
    · cases hwait
    by_cases hlast : len ≤ readlen + 1
    · obtain rfl := List.eq_nil_of_length_eq_zero (by rw [List.length_cons] at hlen; omega :
        bytes.length = 0)
      trivial
    · simp only [step, if_neg hlast]
      exact ih _ _ (fun i ↦ pace (i + 1)) (by rw [List.length_cons] at hlen; omega)

theorem ahead_packet (ctx : RymCtx υ) (i : ℕ) (pace : ℕ → UInt32) (p : Payload)
    (hlimit : ctx.tick + pace 0 ≤ ctx.tick + pace 0 + 100) :
    Along (step cb tmSec) Ahead ⟨ctx, .code (.handshake i)⟩ (timed pace (blockBytes 0 p)) := by
  rw [blockBytes, timed, List.mapIdx_cons]
  refine ⟨fun _ _ _ ↦ hlimit, ?_⟩
  rw [step_first, handshakeReceive, if_pos ⟨hlimit, by omega⟩]
  refine ahead_data cb tmSec _ _ _ _ _ (fun i ↦ pace (i + 1)) ?_
  simp [p.length_bytes, length_crcBytes]
  omega

theorem packet_iff (ctx : RymCtx υ) (i : ℕ) (pace : ℕ → UInt32) (p : Payload) :
    (∃ ctx' : RymCtx υ, ctx'.slice 0 (5 + p.framing.size) = blockBytes 0 p ∧
        ctx'.user = ctx.user ∧
        feed cb tmSec ⟨ctx, .code (.handshake i)⟩ pace (blockBytes 0 p) =
          beginTrans cb p.framing.size ctx') ↔
      ctx.tick + pace 0 ≤ ctx.tick + pace 0 + 100 := by
  obtain ⟨buf, tick, hfeed⟩ := feed_packet cb ctx i pace p
  by_cases hlimit : ctx.tick + pace 0 ≤ ctx.tick + pace 0 + 100
  · rw [if_pos hlimit] at hfeed
    exact iff_of_true ⟨ctx.fill buf tick, hfeed.1, rfl, hfeed.2⟩ hlimit
  · rw [if_neg hlimit] at hfeed
    refine iff_of_false ?_ hlimit
    rintro ⟨ctx', -, -, hbegin⟩
    rw [hfeed] at hbegin
    obtain ⟨user, hb | hb⟩ := beginTrans_cases cb p.framing.size ctx'
    · exact absurd (congrArg Machine.wait (hbegin.trans hb)) (by simp [rymDoTrans])
    · exact absurd (congrArg Machine.wait (hbegin.trans hb)) (by simp)

theorem reassembles_of_ahead {ctx : RymCtx υ} {es : List Input}
    (hes : Along (step cb tmSec) Ahead (rymDoHandshake tmSec ctx) es) :
    Reassembles cb tmSec ctx es where
  packet := by
    rintro pre pace p rfl ⟨i, hwait⟩
    rw [List.foldl_append]
    have hahead := ((along_append _ _ _).mp hes).2
    generalize pre.foldl (step cb tmSec) (rymDoHandshake tmSec ctx) = m at hwait hahead ⊢
    obtain ⟨ctx₀, wait⟩ := m
    obtain rfl : wait = .code (.handshake i) := hwait
    rw [blockBytes, timed, List.mapIdx_cons, along_cons] at hahead
    refine (packet_iff cb tmSec ctx₀ i pace p).mpr (hahead.1 i rfl ?_)
    cases p.framing with
    | soh => exact .inl rfl
    | stx => exact .inr rfl
  contiguous hin hbegun := by
    have hstart : Goes cb [] (rymDoHandshake tmSec ctx) := goes_handshakeTurn 0
    exact (hstart.run ((along_and _ _).mpr ⟨hin, hes⟩)).whole hbegun

/-- A header that has come is put together unless the limit wraps when it is set, and in a
run in which it stays ahead nothing else is handed on. -/
theorem reassembles :
    (∀ (ctx : RymCtx υ) (es : List Input),
      Along (step cb tmSec) Ahead (rymDoHandshake tmSec ctx) es → Reassembles cb tmSec ctx es) ∧
    ∀ (ctx : RymCtx υ) (i : ℕ) (pace : ℕ → UInt32) (p : Payload),
      (∃ ctx' : RymCtx υ, ctx'.slice 0 (5 + p.framing.size) = blockBytes 0 p ∧
          ctx'.user = ctx.user ∧
          feed cb tmSec ⟨ctx, .code (.handshake i)⟩ pace (blockBytes 0 p) =
            beginTrans cb p.framing.size ctx') ↔
        ctx.tick + pace 0 ≤ ctx.tick + pace 0 + 100 :=
  ⟨fun _ _ hes ↦ reassembles_of_ahead cb tmSec hes, packet_iff cb tmSec⟩

theorem ahead_slow (cb : Callbacks Unit) (p : Payload) :
    Along (step cb 2) Ahead (rymDoHandshake 2 ⟨.none, fun _ ↦ 0, (), 0, [], []⟩)
      (.gap 3000 :: timed (fun _ ↦ 3) (blockBytes 0 p)) := by
  refine ⟨fun _ _ _ _ _ hwait ↦ ?_, ahead_packet cb 2 _ 1 (fun _ ↦ 3) p (by decide)⟩
  cases hwait

def namePayload : Payload := ⟨.soh, 0x61 :: List.replicate 127 0, rfl⟩

theorem reassembles_slow :
    ∃ ctx : RymCtx Unit, ctx.slice 0 133 = blockBytes 0 namePayload ∧
      (.gap 3000 :: timed (fun _ ↦ 3) (blockBytes 0 namePayload)).foldl (step ⟨none, none, none⟩ 2)
        (rymDoHandshake 2 ⟨.none, fun _ ↦ 0, (), 0, [], []⟩) =
          beginTrans ⟨none, none, none⟩ 128 ctx := by
  obtain ⟨ctx, hslice, -, hrun⟩ := ((reassembles ⟨none, none, none⟩ 2).1 _ _
    (ahead_slow _ namePayload)).packet [.gap 3000] (fun _ ↦ 3) namePayload rfl ⟨1, rfl⟩
  exact ⟨ctx, hslice, hrun⟩

/-- The tick counter is about to wrap when the header comes. -/
theorem not_reassembles :
    ¬ ∀ (cb : Callbacks Unit) (tmSec : ℕ) (ctx : RymCtx Unit) (es : List Input),
      Reassembles cb tmSec ctx es := by
  intro hall
  have hpacket := (hall ⟨none, none, none⟩ 1 ⟨.none, fun _ ↦ 0, (), 0xFFFFFFFF, [], []⟩
    (timed (fun _ ↦ 0) (blockBytes 0 nullPayload))).packet [] (fun _ ↦ 0) nullPayload
    (List.nil_append _).symm ⟨0, rfl⟩
  have htick := (packet_iff ⟨none, none, none⟩ 1
    ((⟨.establishing, fun _ ↦ 0, (), 0xFFFFFFFF, [], []⟩ : RymCtx Unit).rymPutchar .c) 0
    (fun _ ↦ 0) nullPayload).mp hpacket
  exact absurd htick (by decide)

end GiantGecko.Ymodem.Reassembly
