import GiantGecko.Ymodem.Reception

namespace GiantGecko.Ymodem.Progress

open Foundation Receiver Sender Session Reception

variable {υ : Type} {items : List Item} {pos : ℕ} {m : Machine υ}

def WaitsFor (pos : ℕ) : Option Item → Wait → Prop
  | some (.header _), w => if pos = 0 then ∃ i, w = .code (.handshake i) else w = .code .finHeader
  | some (.data _ _), w => w = .code .trans
  | some .eot, w => w = .code .trans
  | some .eotAgain, w => w = .code .finEot
  | some .close, w => w = .code .finHeader
  | none, w => w = .returned .eok

def AfterHeader (items : List Item) : ℕ → Prop
  | 0 => False
  | pos + 1 => ∃ p, items[pos]? = some (.header p)

/-- The receiver waits for item `pos`. -/
structure InPlace (items : List Item) (pos : ℕ) (m : Machine υ) : Prop where
  wait : WaitsFor pos items[pos]? m.wait
  stage : m.wait = .code .trans → (m.ctx.stage = .established ↔ AfterHeader items pos)

/-- And it has taken in the items before `pos`, each of them once. -/
structure Reached (items : List Item) (pos : ℕ) (m : Machine υ) : Prop
    extends InPlace items pos m where
  delivered : m.ctx.delivered = payloads (items.take pos)

structure Failed (items : List Item) (m : Machine υ) : Prop where
  wait : ∃ err, m.wait = .returned err ∧ err ≠ .eok
  delivered : m.ctx.delivered <+: payloads items

theorem InPlace.of_ne (hw : WaitsFor pos items[pos]? m.wait) (hne : m.wait ≠ .code .trans) :
    InPlace items pos m := ⟨hw, fun h ↦ absurd h hne⟩

theorem payloads_take_succ {a : Item} (ha : items[pos]? = some a) :
    payloads (items.take (pos + 1)) = payloads (items.take pos) ++ a.payloads := by
  rw [List.take_add_one, ha, payloads_append]
  congr 1
  exact List.flatMap_singleton ..

theorem payloads_take_isPrefix (items : List Item) (pos : ℕ) :
    payloads (items.take pos) <+: payloads items := by
  refine ⟨payloads (items.drop pos), ?_⟩
  rw [← payloads_append, List.take_append_drop]

theorem Reached.delivered_succ (h : Reached items pos m) {a : Item} (ha : items[pos]? = some a)
    (hp : a.payloads = []) : m.ctx.delivered = payloads (items.take (pos + 1)) := by
  rw [payloads_take_succ ha, hp, List.append_nil, h.delivered]

theorem failed_of_returned {ctx : RymCtx υ} {err : RtErr} (herr : err ≠ .eok)
    (hd : ctx.delivered = payloads (items.take pos)) : Failed items ⟨ctx, .returned err⟩ :=
  ⟨⟨err, rfl, herr⟩, hd ▸ payloads_take_isPrefix items pos⟩

section Place

variable {ctx : RymCtx υ}

theorem inPlace_after_header (hl : Linked items) {p : Payload}
    (ha : items[pos]? = some (.header p)) : InPlace items (pos + 1) (rymDoTrans ctx) := by
  obtain ⟨b, hnext, hf⟩ := hl.next ha (by simp)
  refine ⟨?_, fun _ ↦ ⟨fun _ ↦ ⟨p, ha⟩, fun _ ↦ rfl⟩⟩
  rw [hnext]
  cases b <;> first | exact hf.elim | rfl

theorem inPlace_after_data (hl : Linked items) {n : ℕ} {p : Payload}
    (ha : items[pos]? = some (.data n p)) (hs : ctx.stage = .transmitting) :
    InPlace items (pos + 1) ⟨ctx, .code .trans⟩ := by
  obtain ⟨b, hnext, hf⟩ := hl.next ha (by simp)
  refine ⟨?_, fun _ ↦ iff_of_false (by simp [hs]) ?_⟩
  · rw [hnext]
    cases b <;> first | exact hf.elim | rfl
  · rintro ⟨q, hq⟩
    exact absurd (ha.symm.trans hq) (by simp)

theorem inPlace_after_eot (hl : Linked items) (ha : items[pos]? = some .eot) :
    InPlace items (pos + 1) (⟨ctx, .code .finEot⟩ : Machine υ) := by
  obtain ⟨b, hnext, hf⟩ := hl.next ha (by simp)
  apply InPlace.of_ne _ (by simp)
  rw [hnext]
  cases b <;> first | exact hf.elim | rfl

theorem inPlace_after_eotAgain (hl : Linked items) (ha : items[pos]? = some .eotAgain) :
    InPlace items (pos + 1) (⟨ctx, .code .finHeader⟩ : Machine υ) := by
  obtain ⟨b, hnext, hf⟩ := hl.next ha (by simp)
  apply InPlace.of_ne _ (by simp)
  rw [hnext]
  cases b <;> first | exact hf.elim | rfl

theorem inPlace_after_close (hl : Linked items) (ha : items[pos]? = some .close) :
    InPlace items (pos + 1) (⟨ctx, .returned .eok⟩ : Machine υ) := by
  apply InPlace.of_ne _ (by simp)
  rw [List.getElem?_eq_none (hl.close_last ha).le]
  rfl

end Place

/-- What comes of a packet: the item is taken in and answered, or at least not
answered wrongly, or the session has failed. -/
def Takes (items : List Item) (pos : ℕ) (replies : List RymCode) (m m' : Machine υ) : Prop :=
  Reached items (pos + 1) m' ∧ (m'.ctx.tx = m.ctx.tx ++ replies ∨ m'.ctx.tx = m.ctx.tx) ∨
    Failed items m'

variable (cb : Callbacks υ) (tmSec : ℕ)

theorem beginTrans_cases (len : ℕ) (ctx : RymCtx υ) :
    ∃ user, beginTrans cb len ctx = rymDoTrans { ctx with user := user } ∨
      beginTrans cb len ctx = ⟨{ ctx with user := user }, .returned .can⟩ := by
  refine ⟨(rymOnBegin cb len ctx).2.user, ?_⟩
  cases h : cb.onBegin with
  | none =>
    left
    simp [beginTrans, rymOnBegin, h]
  | some onBegin =>
    by_cases hack : (onBegin ctx.user (ctx.slice 3 len)).1 = .ack
    · left
      simp [beginTrans, rymOnBegin, h, hack]
    · right
      simp [beginTrans, rymOnBegin, h, hack]

theorem takes_begin (hl : Linked items) {p : Payload} (ha : items[pos]? = some (.header p))
    (h : Reached items pos m) (len : ℕ) (ctx : RymCtx υ) (hd : ctx.delivered = m.ctx.delivered)
    (htx : ctx.tx = m.ctx.tx) :
    Takes items pos [.ack, .c] m (beginTrans cb len ctx) := by
  have hdel : ctx.delivered = payloads (items.take (pos + 1)) :=
    hd.trans (h.delivered_succ ha rfl)
  obtain ⟨user, hb | hb⟩ := beginTrans_cases cb len ctx
  · rw [hb]
    left
    refine ⟨⟨inPlace_after_header hl ha, hdel⟩, .inl ?_⟩
    rw [← htx]
    exact List.append_assoc ..
  · rw [hb]
    exact .inr (failed_of_returned (by decide) hdel)

theorem takes_header (hl : Linked items) {p : Payload} (ha : items[pos]? = some (.header p))
    (h : Reached items pos m) (pace : ℕ → UInt32) :
    Takes items pos [.ack, .c] m (feed cb tmSec m pace (blockBytes 0 p)) := by
  have hwait := h.wait
  rw [ha] at hwait
  obtain ⟨ctx, wait⟩ := m
  cases pos with
  | zero =>
    obtain ⟨i, rfl⟩ := hwait
    obtain ⟨buf, tick, ⟨-, hfeed⟩ | ⟨-, hfeed⟩⟩ := feed_handshake cb tmSec ctx i pace p
    · rw [hfeed]
      exact takes_begin cb hl ha h _ (ctx.fill buf tick) rfl rfl
    · rw [hfeed]
      exact .inr (failed_of_returned (by decide) h.delivered)
  | succ q =>
    obtain rfl : wait = .code .finHeader := hwait
    obtain ⟨a, hprev, hf⟩ := hl.prev ha
    have hlater : p.framing = .soh ∧ p.bytes.head? ≠ some 0 := by
      cases a <;> first | exact hf.elim | exact hf
    obtain ⟨buf, tick, -, hfeed⟩ := feed_finHeader cb tmSec ctx pace p hlater.1
    rw [hfeed, if_pos hlater.2]
    exact takes_begin cb hl ha h _ (ctx.fill buf tick) rfl rfl

/-- Where a data block is due, none is taken for the header once more: the first
block of a file has number 1. -/
theorem InPlace.new_block (h : InPlace items pos m) (hl : Linked items) {n : ℕ} {p : Payload}
    (ha : items[pos]? = some (.data n p)) :
    m.wait = .code .trans ∧ ¬(m.ctx.stage = .established ∧ UInt8.ofNat n = 0) := by
  have hwait := h.wait
  rw [ha] at hwait
  refine ⟨hwait, ?_⟩
  rintro ⟨hs, hn⟩
  cases pos with
  | zero => exact (h.stage hwait).mp hs
  | succ q =>
    obtain ⟨q', hq⟩ := (h.stage hwait).mp hs
    obtain ⟨b, hb, hf⟩ := hl.next hq (by simp)
    obtain rfl := Option.some.inj (ha.symm.trans hb)
    obtain rfl : n = 1 := hf
    exact absurd hn (by decide)

theorem takes_data (hl : Linked items) {onData : RymCallback υ} (hcb : cb.onData = some onData)
    {n : ℕ} {p : Payload} (ha : items[pos]? = some (.data n p)) (h : Reached items pos m)
    (pace : ℕ → UInt32) :
    Takes items pos [.ack] m (feed cb tmSec m pace (blockBytes (UInt8.ofNat n) p)) := by
  have hdel := payloads_take_succ ha
  obtain ⟨hwait, hnew⟩ := h.toInPlace.new_block hl ha
  obtain ⟨ctx, wait⟩ := m
  obtain rfl : wait = .code .trans := hwait
  obtain ⟨buf, tick, hfeed⟩ := trans_delivers cb tmSec onData hcb hnew pace p
  have hd : ctx.delivered ++ [p.bytes] = payloads (items.take (pos + 1)) := by
    rw [hdel, ← h.delivered]
    rfl
  rw [hfeed]
  cases hcode : (onData ctx.user p.bytes).1 with
  | can => exact .inr ⟨⟨.can, rfl, by decide⟩, hd ▸ payloads_take_isPrefix items (pos + 1)⟩
  | ack => exact .inl ⟨⟨inPlace_after_data hl ha rfl, hd⟩, .inl rfl⟩
  | _ => exact .inl ⟨⟨inPlace_after_data hl ha rfl, hd⟩, .inr rfl⟩

theorem takes_eot (hl : Linked items) (ha : items[pos]? = some .eot) (h : Reached items pos m)
    (pace : ℕ → UInt32) : Takes items pos [.nak] m (feed cb tmSec m pace [0x04]) := by
  have hwait := h.wait
  rw [ha] at hwait
  obtain ⟨ctx, wait⟩ := m
  obtain rfl : wait = .code .trans := hwait
  obtain ⟨buf, tick, hfeed⟩ := trans_eot cb tmSec ctx pace
  have hd := h.delivered_succ ha rfl
  rw [hfeed, rymDoFin]
  left
  cases cb.onEnd with
  | none => exact ⟨⟨inPlace_after_eot hl ha, hd⟩, .inl rfl⟩
  | some onEnd => exact ⟨⟨inPlace_after_eot hl ha, hd⟩, .inl rfl⟩

theorem takes_eotAgain (hl : Linked items) (ha : items[pos]? = some .eotAgain)
    (h : Reached items pos m) (pace : ℕ → UInt32) :
    Takes items pos [.ack, .c] m (feed cb tmSec m pace [0x04]) := by
  have hwait := h.wait
  rw [ha] at hwait
  obtain ⟨ctx, wait⟩ := m
  obtain rfl : wait = .code .finEot := hwait
  obtain ⟨buf, tick, hfeed⟩ := finEot_eot cb tmSec ctx pace
  rw [hfeed]
  exact .inl ⟨⟨inPlace_after_eotAgain hl ha, h.delivered_succ ha rfl⟩,
    .inl (List.append_assoc ..)⟩

theorem takes_close (hl : Linked items) (ha : items[pos]? = some .close)
    (h : Reached items pos m) (pace : ℕ → UInt32) :
    Takes items pos [.ack] m (feed cb tmSec m pace (blockBytes 0 nullPayload)) := by
  have hwait := h.wait
  rw [ha] at hwait
  obtain ⟨ctx, wait⟩ := m
  obtain rfl : wait = .code .finHeader := hwait
  obtain ⟨buf, tick, -, hfeed⟩ := feed_finHeader cb tmSec ctx pace nullPayload rfl
  have hnull : nullPayload.bytes.head? = some 0 := rfl
  rw [hfeed, if_neg (not_not.mpr hnull)]
  exact .inl ⟨⟨inPlace_after_close hl ha, h.delivered_succ ha rfl⟩, .inl rfl⟩

theorem takes_item (hl : Linked items) {onData : RymCallback υ} (hcb : cb.onData = some onData)
    {a : Item} (ha : items[pos]? = some a) (h : Reached items pos m) (pace : ℕ → UInt32) :
    Takes items pos a.expects m (feed cb tmSec m pace a.bytes) := by
  cases a with
  | header p => exact takes_header cb tmSec hl ha h pace
  | data n p => exact takes_data cb tmSec hl hcb ha h pace
  | eot => exact takes_eot cb tmSec hl ha h pace
  | eotAgain => exact takes_eotAgain cb tmSec hl ha h pace
  | close => exact takes_close cb tmSec hl ha h pace

theorem ignores_header {p : Payload} (ha : items[pos]? = some (.header p)) (hl : Linked items)
    (h : Reached items (pos + 1) m) (pace : ℕ → UInt32) (q : Payload) :
    Reached items (pos + 1) (feed cb tmSec m pace (blockBytes 0 q)) ∧
      (feed cb tmSec m pace (blockBytes 0 q)).ctx.tx = m.ctx.tx := by
  have hwait := h.wait
  have hstage := h.stage
  obtain ⟨b, hnext, hf⟩ := hl.next ha (by simp)
  obtain ⟨ctx, wait⟩ := m
  obtain rfl : wait = .code .trans := by
    rw [hnext] at hwait
    cases b <;> first | exact hf.elim | exact hwait
  have hs : ctx.stage = .established := (hstage rfl).mpr ⟨p, ha⟩
  obtain ⟨buf, tick, hfeed⟩ := trans_ignores cb tmSec hs pace q
  rw [hfeed]
  exact ⟨⟨⟨hwait, hstage⟩, h.delivered⟩, rfl⟩

theorem fails_eot (h : Reached items pos m) (hw : m.wait = .code .finHeader)
    (pace : ℕ → UInt32) : Failed items (feed cb tmSec m pace [0x04]) := by
  obtain ⟨ctx, wait⟩ := m
  obtain rfl : wait = .code .finHeader := hw
  obtain ⟨buf, tick, hfeed⟩ := finHeader_eot cb tmSec ctx pace
  rw [hfeed]
  exact failed_of_returned (by decide) h.delivered

theorem feed_of_returned {err : RtErr} (hw : m.wait = .returned err) (pace : ℕ → UInt32)
    (bytes : List UInt8) : feed cb tmSec m pace bytes = m := by
  obtain ⟨ctx, wait⟩ := m
  obtain rfl : wait = .returned err := hw
  exact feed_returned cb tmSec ctx err pace bytes

theorem gap_cases (h : Reached items pos m) (elapsed : UInt32) :
    (Reached items pos (Receiver.step cb tmSec m (.gap elapsed)) ∧
      ((Receiver.step cb tmSec m (.gap elapsed)).ctx.tx = m.ctx.tx ∨ pos = 0 ∧
        (Receiver.step cb tmSec m (.gap elapsed)).ctx.tx = m.ctx.tx ++ [.c])) ∨
      Failed items (Receiver.step cb tmSec m (.gap elapsed)) := by
  have hwait := h.wait
  obtain ⟨ctx, wait⟩ := m
  have hfail : ∀ err, err ≠ .eok → Receiver.step cb tmSec ⟨ctx, wait⟩ (.gap elapsed) =
      ⟨ctx.elapse elapsed, .returned err⟩ →
      Failed items (Receiver.step cb tmSec ⟨ctx, wait⟩ (.gap elapsed)) := by
    intro err herr hstep
    rw [hstep]
    exact failed_of_returned herr h.delivered
  cases ha : items[pos]? with
  | none =>
    rw [ha] at hwait
    obtain rfl : wait = .returned .eok := hwait
    exact .inl ⟨h, .inl rfl⟩
  | some a =>
    rw [ha] at hwait
    cases a with
    | header p =>
      cases pos with
      | zero =>
        obtain ⟨i, rfl⟩ := hwait
        by_cases hi : i + 1 < tmSec
        · have hstep : Receiver.step cb tmSec ⟨ctx, .code (.handshake i)⟩ (.gap elapsed) =
              ⟨(ctx.elapse elapsed).rymPutchar .c, .code (.handshake (i + 1))⟩ := by
            simp only [Receiver.step, afterCode, handshakeTurn, if_pos hi]
          rw [hstep]
          have hplace : InPlace items 0 (⟨(ctx.elapse elapsed).rymPutchar .c,
              .code (.handshake (i + 1))⟩ : Machine υ) := by
            apply InPlace.of_ne _ (by simp)
            rw [ha]
            exact ⟨i + 1, rfl⟩
          exact .inl ⟨⟨hplace, h.delivered⟩, .inr ⟨rfl, rfl⟩⟩
        · refine .inr (hfail .tmo (by decide) ?_)
          simp only [Receiver.step, afterCode, handshakeTurn, if_neg hi]
      | succ q =>
        obtain rfl : wait = .code .finHeader := hwait
        exact .inr (hfail .code (by decide) rfl)
    | data n p =>
      obtain rfl : wait = .code .trans := hwait
      exact .inr (hfail .code (by decide) rfl)
    | eot =>
      obtain rfl : wait = .code .trans := hwait
      exact .inr (hfail .code (by decide) rfl)
    | eotAgain =>
      obtain rfl : wait = .code .finEot := hwait
      exact .inr (hfail .code (by decide) rfl)
    | close =>
      obtain rfl : wait = .code .finHeader := hwait
      exact .inr (hfail .code (by decide) rfl)

end GiantGecko.Ymodem.Progress
