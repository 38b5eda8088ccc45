import GiantGecko.Ymodem.Progress

namespace GiantGecko.Ymodem.Prompt

open Receiver Sender Session Reception Progress

variable {υ : Type} (cb : Callbacks υ)

def Welcome (user : υ) : Item → Prop
  | .header p => ∀ onBegin ∈ cb.onBegin, (onBegin user p.bytes).1 = .ack
  | .data _ p => ∀ onData ∈ cb.onData, (onData user p.bytes).1 = .ack
  | _ => True

/-- What an item that is acknowledged makes of what the callbacks keep. What
`on_end` is given is left over in the buffer. -/
def Leaves (user : υ) : Item → υ → Prop
  | .header p, user' => user' = cb.onBegin.elim user fun onBegin ↦ (onBegin user p.bytes).2
  | .data _ p, user' => user' = cb.onData.elim user fun onData ↦ (onData user p.bytes).2
  | .eot, user' => ∃ left : List UInt8, left.length = 128 ∧
      user' = cb.onEnd.elim user fun onEnd ↦ (onEnd user left).2
  | .eotAgain, user' => user' = user
  | .close, user' => user' = user

def atOnce : ℕ → UInt32 := fun _ ↦ 0

structure Answers (items : List Item) (pos : ℕ) (a : Item) (m m' : Machine υ) : Prop where
  place : InPlace items (pos + 1) m'
  tx : m'.ctx.tx = m.ctx.tx ++ a.expects
  delivered : m'.ctx.delivered = m.ctx.delivered ++ a.payloads
  user : Leaves cb m.ctx.user a m'.ctx.user

variable {cb} (tmSec : ℕ) {items : List Item} {pos : ℕ} {m : Machine υ}

theorem beginTrans_welcome (ctx : RymCtx υ) {p : Payload} (hw : Welcome cb ctx.user (.header p))
    (hslice : ctx.slice 3 p.framing.size = p.bytes) :
    ∃ user, Leaves cb ctx.user (.header p) user ∧
      beginTrans cb p.framing.size ctx = rymDoTrans { ctx with user := user } := by
  refine ⟨_, rfl, ?_⟩
  cases h : cb.onBegin with
  | none => simp [beginTrans, rymOnBegin, h]
  | some onBegin =>
    have hack := hw onBegin h
    simp [beginTrans, rymOnBegin, h, hslice, hack]

theorem answers_begin (hl : Linked items) {p : Payload} (ha : items[pos]? = some (.header p))
    (hw : Welcome cb m.ctx.user (.header p)) {buf : ℕ → UInt8} {tick : UInt32}
    (h : Holds (m.ctx.fill buf tick) 0 p) :
    Answers cb items pos (.header p) m (beginTrans cb p.framing.size (m.ctx.fill buf tick)) := by
  obtain ⟨user, huser, hb⟩ := beginTrans_welcome (m.ctx.fill buf tick) hw h.slice_eq
  rw [hb]
  exact ⟨inPlace_after_header hl ha, List.append_assoc .., (List.append_nil _).symm, huser⟩

theorem answers_header (hl : Linked items) {p : Payload} (ha : items[pos]? = some (.header p))
    (h : InPlace items pos m) (htick : pos = 0 → m.ctx.tick ≤ m.ctx.tick + 100)
    (hw : Welcome cb m.ctx.user (.header p)) :
    Answers cb items pos (.header p) m (feed cb tmSec m atOnce (blockBytes 0 p)) := by
  have hwait := h.wait
  rw [ha] at hwait
  obtain ⟨ctx, wait⟩ := m
  cases pos with
  | zero =>
    obtain ⟨i, rfl⟩ := hwait
    obtain ⟨buf, tick, ⟨hholds, hfeed⟩ | ⟨hlimit, -⟩⟩ := feed_handshake cb tmSec ctx i atOnce p
    · rw [hfeed]
      exact answers_begin hl ha hw hholds
    · rw [atOnce, UInt32.add_zero] at hlimit
      exact absurd (htick rfl) hlimit
  | succ q =>
    obtain rfl : wait = .code .finHeader := hwait
    obtain ⟨a, hprev, hf⟩ := hl.prev ha
    have hlater : p.framing = .soh ∧ p.bytes.head? ≠ some 0 := by
      cases a <;> first | exact hf.elim | exact hf
    obtain ⟨buf, tick, hholds, hfeed⟩ := feed_finHeader cb tmSec ctx atOnce p hlater.1
    have hsize : p.framing.size = 128 := by
      rw [hlater.1]
      rfl
    rw [hfeed, if_pos hlater.2, ← hsize]
    exact answers_begin hl ha hw hholds

theorem answers_data (hl : Linked items) {onData : RymCallback υ} (hcb : cb.onData = some onData)
    {n : ℕ} {p : Payload} (ha : items[pos]? = some (.data n p)) (h : InPlace items pos m)
    (hw : Welcome cb m.ctx.user (.data n p)) :
    Answers cb items pos (.data n p) m
      (feed cb tmSec m atOnce (blockBytes (UInt8.ofNat n) p)) := by
  obtain ⟨hwait, hnew⟩ := h.new_block hl ha
  obtain ⟨ctx, wait⟩ := m
  obtain rfl : wait = .code .trans := hwait
  obtain ⟨buf, tick, hfeed⟩ := trans_delivers cb tmSec onData hcb hnew atOnce p
  have hack := hw onData hcb
  rw [hfeed, hack]
  refine ⟨inPlace_after_data hl ha rfl, rfl, rfl, ?_⟩
  rw [Leaves, hcb]
  rfl

theorem answers_item (hl : Linked items) {onData : RymCallback υ} (hcb : cb.onData = some onData)
    {a : Item} (ha : items[pos]? = some a) (h : InPlace items pos m)
    (htick : pos = 0 → m.ctx.tick ≤ m.ctx.tick + 100) (hw : Welcome cb m.ctx.user a) :
    Answers cb items pos a m (feed cb tmSec m atOnce a.bytes) := by
  have hwait := h.wait
  rw [ha] at hwait
  cases a with
  | header p => exact answers_header tmSec hl ha h htick hw
  | data n p => exact answers_data tmSec hl hcb ha h hw
  | eot =>
    obtain ⟨ctx, wait⟩ := m
    obtain rfl : wait = .code .trans := hwait
    obtain ⟨buf, tick, hfeed⟩ := trans_eot cb tmSec ctx atOnce
    rw [Item.bytes, hfeed, rymDoFin]
    refine ⟨inPlace_after_eot hl ha, ?_, ?_, (ctx.fill buf tick).slice 3 128, ?_, ?_⟩
    · cases cb.onEnd <;> rfl
    · cases cb.onEnd <;> exact (List.append_nil _).symm
    · rw [RymCtx.slice, List.length_map, List.length_range]
    · cases cb.onEnd <;> rfl
  | eotAgain =>
    obtain ⟨ctx, wait⟩ := m
    obtain rfl : wait = .code .finEot := hwait
    obtain ⟨buf, tick, hfeed⟩ := finEot_eot cb tmSec ctx atOnce
    rw [Item.bytes, hfeed]
    exact ⟨inPlace_after_eotAgain hl ha, List.append_assoc .., (List.append_nil _).symm, rfl⟩
  | close =>
    obtain ⟨ctx, wait⟩ := m
    obtain rfl : wait = .code .finHeader := hwait
    obtain ⟨buf, tick, -, hfeed⟩ := feed_finHeader cb tmSec ctx atOnce nullPayload rfl
    have hnull : nullPayload.bytes.head? = some 0 := rfl
    rw [Item.bytes, hfeed, if_neg (not_not.mpr hnull)]
    exact ⟨inPlace_after_close hl ha, rfl, (List.append_nil _).symm, rfl⟩

/-- Item `k` has just been sent and nothing else is on the line. -/
structure Sent (items : List Item) (k : ℕ) (s : System υ) : Prop where
  sent : s.sent = k + 1
  waiting : ∀ a, items[k]? = some a → s.waiting = a.expects
  forward : s.forward = [k]
  tx : s.rx.ctx.tx = []
  place : InPlace items k s.rx

def promptly (a : Item) : List Event := .deliver atOnce :: List.replicate a.expects.length .hear

theorem advance_waiting (s : System υ) (ws : List RymCode) :
    ({ s with waiting := ws } : System υ).advance items = s.advance items := by
  simp only [System.advance]

theorem hear_all (cb : Callbacks υ) (ws : List RymCode) (hne : ws ≠ []) :
    ∀ s : System υ, s.waiting = ws → s.rx.ctx.tx = ws →
      (List.replicate ws.length .hear).foldl (Session.step cb tmSec items) s =
        (s.setTx []).advance items := by
  induction ws with
  | nil => exact absurd rfl hne
  | cons w ws ih =>
    intro s hw htx
    have hstep : Session.step cb tmSec items s .hear = (s.setTx ws).hears items w := by
      simp only [Session.step, htx]
    have hwaiting : (s.setTx ws).waiting = w :: ws := hw
    rw [List.length_cons, List.replicate_succ, List.foldl_cons, hstep, System.hears, hwaiting]
    by_cases hws : ws = []
    · subst hws
      simp only [if_true]
      rfl
    · simp only [if_true, if_neg hws]
      rw [ih hws _ rfl rfl]
      exact advance_waiting (s.setTx []) ws

theorem expects_ne_nil (a : Item) : a.expects ≠ [] := by
  cases a <;> simp [Item.expects]

def answered (items : List Item) (k : ℕ) (s : System υ) (m : Machine υ) : System υ :=
  (({ s with rx := m, forward := [], reached := s.reached ++ [k] } : System υ).setTx []).advance
    items

theorem promptly_eq {k : ℕ} {s : System υ} (h : Sent items k s) {a : Item}
    (ha : items[k]? = some a)
    (htx : (feed cb tmSec s.rx atOnce a.bytes).ctx.tx = a.expects) :
    (promptly a).foldl (Session.step cb tmSec items) s =
      answered items k s (feed cb tmSec s.rx atOnce a.bytes) := by
  have hpacket : packet items k = a.bytes := by
    rw [packet, ha]
    rfl
  have hstep : Session.step cb tmSec items s (.deliver atOnce) =
      { s with
        rx := feed cb tmSec s.rx atOnce a.bytes
        forward := []
        reached := s.reached ++ [k] } := by
    simp only [Session.step, h.forward, hpacket, feed]
  rw [promptly, List.foldl_cons, hstep]
  exact hear_all tmSec cb a.expects (expects_ne_nil a) _ (h.waiting a ha) htx

theorem sent_answered {k : ℕ} {s : System υ} (h : Sent items k s) {b : Item}
    (hb : items[k + 1]? = some b) {m : Machine υ} (hm : InPlace items (k + 1) m) :
    Sent items (k + 1) (answered items k s m) ∧
      (answered items k s m).rx.ctx.user = m.ctx.user ∧
      (answered items k s m).rx.ctx.delivered = m.ctx.delivered ∧
      (answered items k s m).reached = s.reached ++ [k] := by
  have hs : (({ s with rx := m, forward := [], reached := s.reached ++ [k] } : System υ).setTx
      []).sent = k + 1 := h.sent
  rw [answered, System.advance, hs, hb]
  refine ⟨⟨rfl, fun a ha ↦ ?_, rfl, rfl, ⟨hm.wait, hm.stage⟩⟩, rfl, rfl, rfl⟩
  rw [Option.some.inj (hb.symm.trans ha)]

theorem succeeded_answered {k : ℕ} {s : System υ} (hl : Linked items)
    (hk : items[k]? = some .close) {m : Machine υ} (hm : InPlace items (k + 1) m) :
    (answered items k s m).Succeeded ∧
      (answered items k s m).rx.ctx.user = m.ctx.user ∧
      (answered items k s m).rx.ctx.delivered = m.ctx.delivered := by
  have hwait := hm.wait
  rw [List.getElem?_eq_none (hl.close_last hk).le] at hwait
  rw [answered, System.Succeeded, advance_rx]
  exact ⟨hwait, rfl, rfl⟩

variable {onData : RymCallback υ} {k : ℕ} {s : System υ}

theorem prompt_next (hl : Linked items) (hcb : cb.onData = some onData) (h : Sent items k s)
    {a b : Item} (ha : items[k]? = some a) (hb : items[k + 1]? = some b)
    (htick : k = 0 → s.rx.ctx.tick ≤ s.rx.ctx.tick + 100) (hw : Welcome cb s.rx.ctx.user a) :
    Sent items (k + 1) ((promptly a).foldl (Session.step cb tmSec items) s) ∧
      Leaves cb s.rx.ctx.user a
        ((promptly a).foldl (Session.step cb tmSec items) s).rx.ctx.user ∧
      ((promptly a).foldl (Session.step cb tmSec items) s).rx.ctx.delivered =
        s.rx.ctx.delivered ++ a.payloads ∧
      ((promptly a).foldl (Session.step cb tmSec items) s).reached = s.reached ++ [k] := by
  have hm := answers_item tmSec hl hcb ha h.place htick hw
  have htx := hm.tx
  rw [h.tx, List.nil_append] at htx
  rw [promptly_eq tmSec h ha htx]
  obtain ⟨hsent, huser, hdel, hreached⟩ := sent_answered h hb hm.place
  rw [huser, hdel]
  exact ⟨hsent, hm.user, hm.delivered, hreached⟩

theorem prompt_last (hl : Linked items) (hcb : cb.onData = some onData) (h : Sent items k s)
    (hk : items[k]? = some .close) (htick : k = 0 → s.rx.ctx.tick ≤ s.rx.ctx.tick + 100) :
    ((promptly .close).foldl (Session.step cb tmSec items) s).Succeeded ∧
      ((promptly .close).foldl (Session.step cb tmSec items) s).rx.ctx.user = s.rx.ctx.user ∧
      ((promptly .close).foldl (Session.step cb tmSec items) s).rx.ctx.delivered =
        s.rx.ctx.delivered := by
  have hm := answers_item tmSec hl hcb hk h.place htick trivial
  have htx := hm.tx
  rw [h.tx, List.nil_append] at htx
  rw [promptly_eq tmSec h hk htx]
  obtain ⟨hsucc, huser, hdel⟩ := succeeded_answered hl hk hm.place
  refine ⟨hsucc, huser.trans hm.user, ?_⟩
  rw [hdel, hm.delivered]
  exact List.append_nil _

theorem sent_first (cb : Callbacks υ) (htm : 0 < tmSec) {p : Payload} (hfirst : items[0]? = some (.header p))
    (buf : ℕ → UInt8) (user : υ) (tick : UInt32) :
    ∃ s, Session.step cb tmSec items (start tmSec (some buf) user tick) .hear = s ∧
      Sent items 0 s ∧ s.rx.ctx.user = user ∧ s.rx.ctx.tick = tick ∧ s.rx.ctx.delivered = [] ∧
      s.reached = [] := by
  have hstart : start tmSec (some buf) user tick =
      ⟨⟨⟨.establishing, buf, user, tick, [.c], []⟩, .code (.handshake 0)⟩, 0, [.c], [], []⟩ := by
    simp only [start, rymDoRecv, rymDoHandshake, handshakeTurn, if_pos htm]
    rfl
  have hstep : Session.step cb tmSec items (start tmSec (some buf) user tick) .hear =
      ⟨⟨⟨.establishing, buf, user, tick, [], []⟩, .code (.handshake 0)⟩, 1,
        (Item.header p).expects, [0], []⟩ := by
    rw [hstart]
    simp only [Session.step, System.hears, System.setTx, if_true, System.advance, hfirst]
    rfl
  refine ⟨_, hstep, ⟨rfl, ?_, rfl, rfl, ?_⟩, rfl, rfl, rfl, rfl⟩
  · intro a ha
    rw [Option.some.inj (hfirst.symm.trans ha)]
  · apply InPlace.of_ne _ (by simp)
    rw [hfirst]
    exact ⟨0, rfl⟩

end GiantGecko.Ymodem.Prompt
