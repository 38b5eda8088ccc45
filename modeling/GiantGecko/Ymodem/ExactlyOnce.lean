import GiantGecko.Ymodem.Alignment
import GiantGecko.Ymodem.Prompt

namespace GiantGecko.Ymodem.ExactlyOnce

open Foundation.LossyLine Foundation.Transition Receiver Sender Session Reception Progress
  Ymodem.Alignment Prompt

variable {υ : Type}

/-- The payloads passed to `on_data` are those of the first data blocks, in order
and each once, and those of all of them when the session ends with success. -/
def DeliveredOnce (b : Batch) (s : System υ) : Prop :=
  s.rx.ctx.delivered <+: b.payloads ∧ (s.Succeeded → s.rx.ctx.delivered = b.payloads)

/-- The line makes no copy of a data block, and none of an ACK while the sender
waits for that of a data block. The sender sends a data block again only when no
packet of it is on the line and none has reached the receiver. -/
def Careful (items : List Item) (s : System υ) : Event → Prop
  | .dup i => ∀ j, s.forward[i]? = some j → ¬DataAt items j
  | .dupReply i => ∀ k, s.sent = k + 1 → DataAt items k → s.rx.ctx.tx[i]? ≠ some .ack
  | .resend => ∀ k, s.sent = k + 1 → DataAt items k → k ∉ s.forward ∧ k ∉ s.reached
  | _ => True

def Safe (items : List Item) (s : System υ) : Prop :=
  (∃ pos low, Aligned items pos low s) ∨ Failed items s.rx

variable {items : List Item} {s : System υ} {pos low : ℕ}

theorem deliveredOnce_of_safe {b : Batch} (h : Safe b.items s) : DeliveredOnce b s := by
  rw [DeliveredOnce, ← b.payloads_items]
  obtain ⟨pos, low, h⟩ | h := h
  · have hdel := h.reached.delivered
    refine ⟨hdel ▸ payloads_take_isPrefix b.items pos, fun hs ↦ ?_⟩
    have hwait := h.reached.wait
    rw [System.Succeeded] at hs
    rw [hs] at hwait
    cases ha : b.items[pos]? with
    | none => rw [hdel, List.take_of_length_le (List.getElem?_eq_none_iff.mp ha)]
    | some a =>
      -- the receiver still waits for an item
      rw [ha] at hwait
      cases a with
      | header p =>
        rw [WaitsFor] at hwait
        split at hwait
        · obtain ⟨i, hi⟩ := hwait
          cases hi
        · cases hwait
      | _ => cases hwait
  · obtain ⟨err, hw, herr⟩ := h.wait
    refine ⟨h.delivered, fun hs ↦ absurd ?_ herr⟩
    rw [System.Succeeded, hw] at hs
    exact Wait.returned.inj hs

theorem aligned_resend (h : Aligned items pos low s) (hc : Careful items s .resend)
    (hs : s.sent ≠ 0) : Aligned items pos low { s with forward := s.forward ++ [s.sent - 1] } := by
  obtain ⟨k, hk⟩ := Nat.exists_eq_succ_of_ne_zero hs
  have hlow : low ≤ k := by
    obtain ⟨-, rfl⟩ | ⟨hlt, -⟩ := h.place
    · exact Nat.zero_le k
    · omega
  have hlast : s.sent - 1 = k := by omega
  rw [hlast]
  apply h.setForward
  · have hline := h.line
    have hrange : List.range' low (s.sent - low) = List.range' low (k - low) ++ [k] := by
      rw [hk, Nat.succ_sub hlow, List.range'_concat, Nat.one_mul, Nat.add_sub_cancel' hlow]
    rw [hrange] at hline ⊢
    exact hline.snoc
  · intro j hd
    have honce := h.once j hd
    rw [List.count_append, List.count_singleton]
    by_cases hj : j = k
    · obtain ⟨hfwd, hreached⟩ := hc k hk (hj ▸ hd)
      have hnew : s.forward.count j = 0 := by
        rw [hj]
        exact List.count_eq_zero.mpr hfwd
      have hnot : ¬j < pos := fun hlt ↦ hreached (hj ▸ h.logged j hlt hd)
      rw [hnew, if_neg hnot, hj]
      simp
    · have hne : (k == j) = false := by simpa using Ne.symm hj
      rw [hne, if_neg Bool.false_ne_true]
      exact honce

theorem failed_setTx (h : Failed items s.rx) (tx : List RymCode) :
    Failed items (s.setTx tx).rx := ⟨h.wait, h.delivered⟩

theorem failed_step (cb : Callbacks υ) (tmSec : ℕ) (h : Failed items s.rx) (e : Event) :
    Failed items (Session.step cb tmSec items s e).rx := by
  obtain ⟨err, hw, -⟩ := h.wait
  cases e with
  | deliver pace =>
    cases hfwd : s.forward with
    | nil => simpa only [Session.step, hfwd] using h
    | cons j js =>
      have hrx := feed_of_returned cb tmSec hw pace (packet items j)
      rw [Reception.feed] at hrx
      simpa only [Session.step, hfwd, hrx] using h
  | timeout elapsed =>
    have hrx : Receiver.step cb tmSec s.rx (.gap elapsed) = s.rx := by
      simp only [Receiver.step, hw]
    simpa only [Session.step, hrx] using h
  | hear =>
    cases htx : s.rx.ctx.tx with
    | nil => simpa only [Session.step, htx] using h
    | cons r rs =>
      simp only [Session.step, htx, hears_rx]
      exact failed_setTx h rs
  | resend =>
    by_cases hs : s.sent = 0 ∨ s.waiting = []
    · simpa only [Session.step, if_pos hs] using h
    · simpa only [Session.step, if_neg hs] using h
  | lose i => exact h
  | dup i => exact h
  | loseReply i => exact failed_setTx h _
  | dupReply i => exact failed_setTx h _

theorem safe_step {cb : Callbacks υ} {tmSec : ℕ} {onData : RymCallback υ}
    (hcb : cb.onData = some onData) (hl : Linked items)
    (hfirst : ∃ p, items[0]? = some (.header p)) (s : System υ) (e : Event) (h : Safe items s)
    (hc : Careful items s e) : Safe items (Session.step cb tmSec items s e) := by
  obtain ⟨pos, low, h⟩ | h := h
  · cases e with
    | deliver pace => exact h.deliver hl cb tmSec hcb pace
    | timeout elapsed =>
      obtain h' | hfail := h.timeout cb tmSec elapsed
      · exact .inl ⟨_, _, h'⟩
      · exact .inr hfail
    | hear => exact .inl ⟨_, _, h.hear hl hfirst cb tmSec⟩
    | resend =>
      by_cases hs : s.sent = 0 ∨ s.waiting = []
      · simp only [Session.step, if_pos hs]
        exact .inl ⟨_, _, h⟩
      · simp only [Session.step, if_neg hs]
        exact .inl ⟨_, _, aligned_resend h hc fun h0 ↦ hs (.inl h0)⟩
    | lose i =>
      refine .inl ⟨pos, low, h.setForward _ (h.line.lose i) fun j hd ↦ ?_⟩
      have honce := h.once j hd
      have hcount := count_lose_le i s.forward j
      omega
    | dup i =>
      refine .inl ⟨pos, low, h.setForward _ (h.line.dup i) fun j hd ↦ ?_⟩
      rw [count_dup_of_ne fun hi ↦ hc j hi hd]
      exact h.once j hd
    | loseReply i =>
      refine .inl ⟨pos, low, h.setTx _ (fun xs hxs ↦ hxs.lose i) fun k _ _ ↦ ?_⟩
      exact count_lose_le i _ _
    | dupReply i =>
      refine .inl ⟨pos, low, h.setTx _ (fun xs hxs ↦ hxs.dup i) fun k hk hd ↦ ?_⟩
      rw [count_dup_of_ne (hc k hk hd)]
  · exact .inr (failed_step cb tmSec h e)

theorem safe_start (hfirst : ∃ p, items[0]? = some (.header p)) (tmSec : ℕ)
    (mem : Option (ℕ → UInt8)) (user : υ) (tick : UInt32) :
    Safe items (start tmSec mem user tick) := by
  have hnil : [] <+: payloads items := List.nil_prefix
  cases mem with
  | none => exact .inr ⟨⟨.enomem, rfl, by decide⟩, hnil⟩
  | some buf =>
    by_cases htm : 0 < tmSec
    · have hrx : (start tmSec (some buf) user tick).rx =
          ⟨⟨.establishing, buf, user, tick, [.c], []⟩, .code (.handshake 0)⟩ := by
        simp only [start, rymDoRecv, rymDoHandshake, handshakeTurn, if_pos htm]
        rfl
      have hplace : InPlace items 0 (start tmSec (some buf) user tick).rx := by
        rw [hrx]
        obtain ⟨p, hp⟩ := hfirst
        apply InPlace.of_ne _ (by simp)
        rw [hp]
        exact ⟨0, rfl⟩
      refine .inl ⟨0, 0, {
        reached := ⟨hplace, by rw [hrx]; rfl⟩
        place := .inl ⟨rfl, rfl⟩
        sent_le := Nat.zero_le _
        sent_le_length := Nat.zero_le _
        line := .nil
        once := fun j _ ↦ Nat.zero_le 1
        logged := fun j hj ↦ absurd hj (Nat.not_lt_zero j)
        heard := ⟨[], [.c], rfl, rfl, by rw [hrx]; exact stutters_refl _⟩
        acks := fun k hk ↦ absurd hk.symm (Nat.succ_ne_zero k) }⟩
    · have hrx : (start tmSec (some buf) user tick).rx =
          ⟨⟨.establishing, buf, user, tick, [], []⟩, .returned .tmo⟩ := by
        simp only [start, rymDoRecv, rymDoHandshake, handshakeTurn, if_neg htm]
      right
      rw [hrx]
      exact ⟨⟨.tmo, rfl, by decide⟩, hnil⟩

/-- Losses, delays and repetitions do no harm as long as each data block reaches
the receiver once. -/
theorem delivered_once_of_careful (b : Batch) (onBegin onEnd : Option (RymCallback υ))
    (onData : RymCallback υ) (tmSec : ℕ) (mem : Option (ℕ → UInt8)) (user : υ) (tick : UInt32)
    (events : List Event)
    (h : Along (Session.step ⟨onBegin, some onData, onEnd⟩ tmSec b.items) (Careful b.items)
      (start tmSec mem user tick) events) :
    DeliveredOnce b
      (events.foldl (Session.step ⟨onBegin, some onData, onEnd⟩ tmSec b.items)
        (start tmSec mem user tick)) := by
  apply deliveredOnce_of_safe
  have hfirst : ∃ p, b.items[0]? = some (.header p) := ⟨b.first.header, rfl⟩
  exact run_invariant (safe_step rfl b.linked hfirst) (safe_start hfirst tmSec mem user tick) h

def ackLost : List Event := [.deliver atOnce, .loseReply 0, .resend, .deliver atOnce, .hear]

theorem trans_accepts {cb : Callbacks υ} (tmSec : ℕ) {onData : RymCallback υ}
    (hcb : cb.onData = some onData) (hack : ∀ user bytes, (onData user bytes).1 = .ack)
    {ctx : RymCtx υ} {n : ℕ} {p : Payload}
    (hnew : ¬(ctx.stage = .established ∧ UInt8.ofNat n = 0)) :
    ∃ ctx' : RymCtx υ, feed cb tmSec ⟨ctx, .code .trans⟩ atOnce (Item.data n p).bytes =
        ⟨ctx', .code .trans⟩ ∧
      ctx'.stage = .transmitting ∧ ctx'.tx = ctx.tx ++ [.ack] ∧
      ctx'.delivered = ctx.delivered ++ [p.bytes] := by
  obtain ⟨buf, tick, hfeed⟩ := trans_delivers cb tmSec onData hcb hnew atOnce p
  rw [Item.bytes, hfeed, hack]
  exact ⟨_, rfl, rfl, rfl, rfl⟩

/-- Then the block is delivered again: nothing tells the receiver that it has it. -/
theorem ackLost_delivers_twice {cb : Callbacks υ} (tmSec : ℕ) {onData : RymCallback υ}
    (hcb : cb.onData = some onData) (hack : ∀ user bytes, (onData user bytes).1 = .ack)
    (hl : Linked items) {k n : ℕ} {p : Payload} {b : Item} (h : Sent items k s)
    (ha : items[k]? = some (.data n p)) (hb : items[k + 1]? = some b) :
    Sent items (k + 1) (ackLost.foldl (Session.step cb tmSec items) s) ∧
      (ackLost.foldl (Session.step cb tmSec items) s).rx.ctx.delivered =
        s.rx.ctx.delivered ++ [p.bytes, p.bytes] := by
  obtain ⟨hwait, hnew⟩ := h.place.new_block hl ha
  have hwaiting := h.waiting _ ha
  have hsent := h.sent
  have hforward := h.forward
  have htx := h.tx
  obtain ⟨⟨ctx, wait⟩, sent, waiting, forward, reached⟩ := s
  obtain rfl : wait = .code .trans := hwait
  obtain rfl : sent = k + 1 := hsent
  obtain rfl : forward = [k] := hforward
  obtain rfl : waiting = [.ack] := hwaiting
  obtain ⟨ctx₁, hfeed₁, hstage₁, htx₁, hdel₁⟩ := trans_accepts tmSec hcb hack (p := p) hnew
  have hnew₁ : ¬(({ ctx₁ with tx := [] } : RymCtx υ).stage = .established ∧ UInt8.ofNat n = 0) := by
    rintro ⟨hs, -⟩
    exact absurd (hstage₁.symm.trans hs) (by decide)
  obtain ⟨ctx₂, hfeed₂, hstage₂, htx₂, hdel₂⟩ := trans_accepts tmSec hcb hack (p := p) hnew₁
  have hpacket : packet items k = (Item.data n p).bytes := by
    rw [packet, ha]
    rfl
  rw [feed, ← hpacket] at hfeed₁ hfeed₂
  rw [htx, List.nil_append] at htx₁
  have hdeliver : Session.step cb tmSec items ⟨⟨ctx, .code .trans⟩, k + 1, [.ack], [k], reached⟩
      (.deliver atOnce) = ⟨⟨ctx₁, .code .trans⟩, k + 1, [.ack], [], reached ++ [k]⟩ := by
    simp only [Session.step, hfeed₁]
  have hlose : Session.step cb tmSec items
      ⟨⟨ctx₁, .code .trans⟩, k + 1, [.ack], [], reached ++ [k]⟩ (.loseReply 0) =
      ⟨⟨{ ctx₁ with tx := [] }, .code .trans⟩, k + 1, [.ack], [], reached ++ [k]⟩ := by
    simp only [Session.step, System.setTx, htx₁]
    rfl
  have hdeliver' : Session.step cb tmSec items
      ⟨⟨{ ctx₁ with tx := [] }, .code .trans⟩, k + 1, [.ack], [k], reached ++ [k]⟩ (.deliver atOnce) =
      ⟨⟨ctx₂, .code .trans⟩, k + 1, [.ack], [], reached ++ [k] ++ [k]⟩ := by
    simp only [Session.step, hfeed₂]
  have hhear : Session.step cb tmSec items
      ⟨⟨ctx₂, .code .trans⟩, k + 1, [.ack], [], reached ++ [k] ++ [k]⟩ .hear =
      ⟨⟨{ ctx₂ with tx := [] }, .code .trans⟩, k + 2, b.expects, [k + 1],
        reached ++ [k] ++ [k]⟩ := by
    simp only [Session.step, htx₂, List.nil_append, System.hears, System.setTx, if_true,
      System.advance, hb]
  have hrun : ackLost.foldl (Session.step cb tmSec items)
      ⟨⟨ctx, .code .trans⟩, k + 1, [.ack], [k], reached⟩ =
      ⟨⟨{ ctx₂ with tx := [] }, .code .trans⟩, k + 2, b.expects, [k + 1],
        reached ++ [k] ++ [k]⟩ := by
    rw [ackLost, List.foldl_cons, hdeliver, List.foldl_cons, hlose, List.foldl_cons]
    rw [← hhear, ← hdeliver']
    rfl
  rw [hrun]
  refine ⟨⟨rfl, fun a' ha' ↦ ?_, rfl, rfl, ?_⟩, ?_⟩
  · rw [Option.some.inj (hb.symm.trans ha')]
  · exact inPlace_after_data hl ha hstage₂
  · change ctx₂.delivered = _
    rw [hdel₂]
    change ctx₁.delivered ++ _ = _
    rw [hdel₁, List.append_assoc]
    rfl

section OneBlock

def header : Payload := ⟨.soh, 0x61 :: List.replicate 127 0, by simp [Framing.size]⟩

def block : Payload := ⟨.soh, List.replicate 128 0x41, by simp [Framing.size]⟩

def oneBlock : Batch := ⟨⟨header, [block]⟩, [], by simp⟩

def acknowledge : RymCallback Unit := fun user _ ↦ (.ack, user)

def handlers : Callbacks Unit := ⟨none, some acknowledge, none⟩

theorem handlers_onData : handlers.onData = some acknowledge := rfl

def session (events : List Event) : System Unit :=
  events.foldl (Session.step handlers 1 oneBlock.items) (start 1 (some fun _ ↦ 0) () 0)

theorem session_append (es fs : List Event) :
    session (es ++ fs) = fs.foldl (Session.step handlers 1 oneBlock.items) (session es) :=
  List.foldl_append

theorem session_block : Sent oneBlock.items 1 (session (.hear :: promptly (.header header))) ∧
    (session (.hear :: promptly (.header header))).rx.ctx.delivered = [] ∧
    (session (.hear :: promptly (.header header))).reached = [0] := by
  have hfirst : oneBlock.items[0]? = some (.header header) := rfl
  obtain ⟨s, hstep, hsent, -, htick, hdel, hreached⟩ :=
    sent_first 1 handlers (by decide) hfirst (fun _ ↦ 0) () 0
  have htick' : s.rx.ctx.tick ≤ s.rx.ctx.tick + 100 := by
    rw [htick]
    decide
  have h := prompt_next 1 oneBlock.linked handlers_onData hsent hfirst rfl (fun _ ↦ htick')
    (by simp [Welcome, handlers])
  rw [session, List.foldl_cons, hstep]
  refine ⟨h.1, ?_, ?_⟩
  · rw [h.2.2.1, hdel]
    rfl
  · rw [h.2.2.2, hreached]
    rfl

theorem careful_hear {cb : Callbacks υ} (tmSec n : ℕ) (s : System υ) :
    Along (Session.step cb tmSec items) (Careful items) s (List.replicate n .hear) := by
  induction n generalizing s with
  | zero => trivial
  | succ n ih => exact ⟨trivial, ih _⟩

theorem delivered_once_block_lost :
    DeliveredOnce oneBlock (session
      ((.hear :: promptly (.header header)) ++ [.lose 0, .resend, .deliver atOnce])) := by
  have hlost : ∀ s : System Unit, Sent oneBlock.items 1 s → s.reached = [0] →
      Along (Session.step handlers 1 oneBlock.items) (Careful oneBlock.items) s
        [.lose 0, .resend, .deliver atOnce] := by
    intro s hsent hreached
    refine ⟨trivial, ?_, trivial, trivial⟩
    intro k hk _
    obtain rfl : 1 = k := Nat.succ.inj (hsent.sent.symm.trans hk)
    constructor
    · change 1 ∉ lose 0 s.forward
      rw [hsent.forward]
      decide
    · change 1 ∉ s.reached
      rw [hreached]
      decide
  obtain ⟨hsent, -, hreached⟩ := session_block
  refine delivered_once_of_careful oneBlock none none acknowledge 1 _ () 0 _ ?_
  exact (along_append _ _ _).mpr ⟨⟨trivial, trivial, careful_hear 1 2 _⟩, hlost _ hsent hreached⟩

theorem lost_ack_delivers_twice :
    ¬DeliveredOnce oneBlock (session (.hear :: (promptly (.header header) ++ (ackLost ++
      (promptly .eot ++ (promptly .eotAgain ++ promptly .close)))))) := by
  obtain ⟨hsent₁, hdel₁, -⟩ := session_block
  obtain ⟨hsent₂, hdel₂⟩ := ackLost_delivers_twice 1 handlers_onData (fun _ _ ↦ rfl)
    oneBlock.linked hsent₁ rfl rfl
  obtain ⟨hsent₃, -, hdel₃, -⟩ :=
    prompt_next 1 oneBlock.linked handlers_onData hsent₂ rfl rfl (by simp) trivial
  obtain ⟨hsent₄, -, hdel₄, -⟩ :=
    prompt_next 1 oneBlock.linked handlers_onData hsent₃ rfl rfl (by simp) trivial
  obtain ⟨hsucc, -, hdel⟩ := prompt_last 1 oneBlock.linked handlers_onData hsent₄ rfl (by simp)
  rw [hdel₄, hdel₃, hdel₂, hdel₁] at hdel
  rw [← List.cons_append, session_append, List.foldl_append, List.foldl_append, List.foldl_append]
  rintro ⟨-, hall⟩
  have hone := congrArg List.length ((hall hsucc).symm.trans hdel)
  cases hone

end OneBlock

end GiantGecko.Ymodem.ExactlyOnce
