import GiantGecko.Ymodem.Progress

namespace GiantGecko.Ymodem.Alignment

open Foundation.LossyLine Receiver Sender Session Reception Progress

variable {υ : Type} {items : List Item} {pos low : ℕ} {s : System υ}

def DataAt (items : List Item) (j : ℕ) : Prop := ∃ n p, items[j]? = some (.data n p)

def replies (items : List Item) (n : ℕ) : List RymCode :=
  .c :: (items.take n).flatMap Item.expects

/-- The receiver has taken in the items before `pos`; `low` is the item whose
packet it was given last. The sender has heard a first part of the replies, and
the rest of them is on the line or lost. -/
structure Aligned (items : List Item) (pos low : ℕ) (s : System υ) : Prop where
  reached : Reached items pos s.rx
  place : pos = 0 ∧ low = 0 ∨
    low < s.sent ∧ (pos = low + 1 ∨ pos = low + 2 ∧ items[low]? = some .eot)
  sent_le : s.sent ≤ pos + 1
  sent_le_length : s.sent ≤ items.length
  line : Stutters (List.range' low (s.sent - low)) s.forward
  once : ∀ j, DataAt items j → s.forward.count j + (if j < pos then 1 else 0) ≤ 1
  logged : ∀ j, j < pos → DataAt items j → j ∈ s.reached
  heard : ∃ heard owed, replies items pos = heard ++ owed ∧
    replies items s.sent = heard ++ s.waiting ∧
    Stutters (heard.getLast?.toList ++ owed) s.rx.ctx.tx
  acks : ∀ k, s.sent = k + 1 → DataAt items k → s.rx.ctx.tx.count .ack ≤ pos - k

theorem replies_succ {n : ℕ} {a : Item} (ha : items[n]? = some a) :
    replies items (n + 1) = replies items n ++ a.expects := by
  rw [replies, List.take_add_one, ha, List.flatMap_append, replies, List.cons_append]
  congr 2
  exact List.flatMap_singleton ..

theorem replies_isPrefix (items : List Item) {n n' : ℕ} (h : n ≤ n') : replies items n <+: replies items n' := by
  obtain ⟨d, rfl⟩ := Nat.exists_eq_add_of_le h
  rw [replies, replies, List.take_add, List.flatMap_append]
  exact ⟨_, rfl⟩

def lastReply : Item → RymCode
  | .header _ => .c
  | .data _ _ => .ack
  | .eot => .nak
  | .eotAgain => .c
  | .close => .ack

theorem expects_eq_snoc (a : Item) : ∃ rs, a.expects = rs ++ [lastReply a] := by
  cases a with
  | header p => exact ⟨[.ack], rfl⟩
  | data n p => exact ⟨[], rfl⟩
  | eot => exact ⟨[], rfl⟩
  | eotAgain => exact ⟨[.ack], rfl⟩
  | close => exact ⟨[], rfl⟩

theorem replies_getLast? {n : ℕ} {a : Item} (ha : items[n]? = some a) :
    (replies items (n + 1)).getLast? = some (lastReply a) := by
  obtain ⟨rs, hrs⟩ := expects_eq_snoc a
  rw [replies_succ ha, hrs, ← List.append_assoc, List.getLast?_concat]

theorem count_ack_expects_le (a : Item) : a.expects.count .ack ≤ 1 := by
  cases a <;> simp [Item.expects]

theorem lastReply_eq_head {a b : Item} (hf : a.Follows b)
    (h : b.expects.head? = some (lastReply a)) : ∃ n p n' p', a = .data n p ∧ b = .data n' p' := by
  cases a <;> cases b <;> first
    | exact hf.elim
    | exact ⟨_, _, _, _, rfl, rfl⟩
    | exact absurd h (by simp [Item.expects, lastReply])

theorem Aligned.setTx (h : Aligned items pos low s) (tx : List RymCode)
    (hst : ∀ xs, Stutters xs s.rx.ctx.tx → Stutters xs tx)
    (hcount : ∀ k, s.sent = k + 1 → DataAt items k → tx.count .ack ≤ s.rx.ctx.tx.count .ack) :
    Aligned items pos low (s.setTx tx) := by
  obtain ⟨heard, owed, hpos, hsent, hx⟩ := h.heard
  exact {
    reached := ⟨⟨h.reached.wait, h.reached.stage⟩, h.reached.delivered⟩
    place := h.place
    sent_le := h.sent_le
    sent_le_length := h.sent_le_length
    line := h.line
    once := h.once
    logged := h.logged
    heard := ⟨heard, owed, hpos, hsent, hst _ hx⟩
    acks := fun k hk hd ↦ (hcount k hk hd).trans (h.acks k hk hd) }

theorem Aligned.setForward (h : Aligned items pos low s) (forward : List ℕ)
    (hst : Stutters (List.range' low (s.sent - low)) forward)
    (hcount : ∀ j, DataAt items j →
      forward.count j + (if j < pos then 1 else 0) ≤ 1) :
    Aligned items pos low { s with forward := forward } :=
  { h with line := hst, once := hcount }

theorem Aligned.low_le (h : Aligned items pos low s) : low ≤ s.sent := by
  obtain ⟨-, rfl⟩ | ⟨hlow, -⟩ := h.place
  · exact Nat.zero_le _
  · exact hlow.le

theorem Aligned.eot_of_ahead (h : Aligned items pos low s) (hl : Linked items)
    (hp : s.sent < pos) : items[s.sent]? = some .eotAgain := by
  obtain ⟨rfl, -⟩ | ⟨hlow, rfl | ⟨rfl, heot⟩⟩ := h.place
  · omega
  · omega
  · obtain ⟨b, hb, hf⟩ := hl.next heot (by simp)
    rw [show s.sent = low + 1 by omega]
    cases b <;> first | exact hf.elim | exact hb

theorem Aligned.eq_of_data (h : Aligned items pos low s) (hl : Linked items) (hle : s.sent ≤ pos)
    (hd : DataAt items s.sent) : pos = s.sent := by
  obtain ⟨n, p, hd⟩ := hd
  by_contra hne
  have heot := h.eot_of_ahead hl (by omega)
  exact absurd (heot.symm.trans hd) (by simp)

theorem Aligned.not_forwarded (h : Aligned items pos low s) : s.sent ∉ s.forward := by
  intro hmem
  have hrange := h.line.mem hmem
  have hlow := h.low_le
  rw [List.mem_range'_1] at hrange
  omega

section Deliver

variable {j : ℕ} {js : List ℕ} {m : Machine υ}

theorem Aligned.passed (h : Aligned items pos low s) (hj : s.forward = j :: js) (hpos : pos = j + 1)
    (hm : Reached items pos m) (htx : m.ctx.tx = s.rx.ctx.tx) :
    Aligned items pos j { s with rx := m, forward := js, reached := s.reached ++ [j] } := by
  have hline := h.line
  rw [hj] at hline
  obtain ⟨hlow, hlt, hjs⟩ := hline.head_range
  obtain ⟨heard, owed, hp, hsent, hx⟩ := h.heard
  have hle := h.low_le
  exact {
    reached := hm
    place := .inr ⟨by change j < s.sent; omega, .inl hpos⟩
    sent_le := h.sent_le
    sent_le_length := h.sent_le_length
    line := by rwa [show low + (s.sent - low) - j = s.sent - j by omega] at hjs
    once := fun i hi ↦ by
      have honce := h.once i hi
      rw [hj] at honce
      have hcount := (List.sublist_cons_self j js).count_le i
      change js.count i + _ ≤ 1
      omega
    logged := fun i hi hd ↦ List.mem_append_left _ (h.logged i hi hd)
    heard := ⟨heard, owed, hp, hsent, htx ▸ hx⟩
    acks := fun k hk hd ↦ htx ▸ h.acks k hk hd }

theorem Aligned.taken (h : Aligned items pos low s) (hj : s.forward = j :: js) {a : Item}
    (ha : items[pos]? = some a)
    (hpos : pos = j ∨ pos = j + 1 ∧ items[j]? = some .eot ∧ a = .eotAgain)
    (hm : Reached items (pos + 1) m)
    (htx : m.ctx.tx = s.rx.ctx.tx ++ a.expects ∨ m.ctx.tx = s.rx.ctx.tx) :
    Aligned items (pos + 1) j { s with rx := m, forward := js, reached := s.reached ++ [j] } := by
  have hline := h.line
  rw [hj] at hline
  obtain ⟨hlow, hlt, hjs⟩ := hline.head_range
  obtain ⟨heard, owed, hp, hsent, hx⟩ := h.heard
  have hle := h.low_le
  have hsle := h.sent_le
  have hdata : DataAt items pos → pos = j := by
    rintro ⟨n, p, hd⟩
    obtain hpj | ⟨-, -, rfl⟩ := hpos
    · exact hpj
    · exact absurd (ha.symm.trans hd) (by simp)
  exact {
    reached := hm
    place := by
      refine .inr ⟨by change j < s.sent; omega, ?_⟩
      obtain rfl | ⟨rfl, heot, -⟩ := hpos
      · exact .inl rfl
      · exact .inr ⟨rfl, heot⟩
    sent_le := h.sent_le.trans (Nat.le_succ _)
    sent_le_length := h.sent_le_length
    line := by rwa [show low + (s.sent - low) - j = s.sent - j by omega] at hjs
    once := fun i hi ↦ by
      have honce := h.once i hi
      rw [hj, List.count_cons] at honce
      change js.count i + _ ≤ 1
      by_cases hip : i = pos
      · have hji : j = i := by rw [hip, hdata (hip ▸ hi)]
        rw [if_pos (by omega)]
        simp only [hji, BEq.rfl, if_true] at honce
        omega
      · have hiff : i < pos + 1 ↔ i < pos := by omega
        simp only [hiff]
        omega
    logged := fun i hi hd ↦ by
      rw [List.mem_append]
      by_cases hip : i = pos
      · right
        rw [hip, hdata (hip ▸ hd)]
        exact List.mem_singleton_self j
      · exact .inl (h.logged i (by omega) hd)
    heard := by
      refine ⟨heard, owed ++ a.expects, ?_, hsent, ?_⟩
      · rw [replies_succ ha, hp, List.append_assoc]
      · rw [← List.append_assoc]
        obtain htx | htx := htx
        · rw [htx]
          exact hx.append (stutters_refl _)
        · rw [htx]
          exact hx.append_right _
    acks := fun k hk hd ↦ by
      have hacks := h.acks k hk hd
      have hone := count_ack_expects_le a
      change s.sent = k + 1 at hk
      change m.ctx.tx.count .ack ≤ pos + 1 - k
      obtain htx | htx := htx
      · rw [htx, List.count_append]
        omega
      · rw [htx]
        omega }

end Deliver

theorem waits_finHeader {a : Item} (ha : items[pos]? = some a) (hf : Item.eotAgain.Follows a)
    (hpos : pos ≠ 0) {m : Machine υ} (h : Reached items pos m) : m.wait = .code .finHeader := by
  have hwait := h.wait
  rw [ha] at hwait
  cases a with
  | header p => simpa only [WaitsFor, if_neg hpos] using hwait
  | close => exact hwait
  | _ => exact hf.elim

theorem Aligned.late (h : Aligned items pos low s) (hl : Linked items) (cb : Callbacks υ)
    (tmSec : ℕ) {j : ℕ} {js : List ℕ} (hj : s.forward = j :: js) (hlow : low ≤ j) (hpos : j < pos)
    {a : Item} (ha : items[j]? = some a) (pace : ℕ → UInt32) :
    (∃ pos', Aligned items pos' j
      { s with
        rx := feed cb tmSec s.rx pace a.bytes, forward := js, reached := s.reached ++ [j] }) ∨
      Failed items (feed cb tmSec s.rx pace a.bytes) := by
  have hr := h.reached
  obtain ⟨rfl, -⟩ | ⟨-, hp | ⟨hp, heot⟩⟩ := h.place
  · omega
  · -- the item taken in last
    obtain rfl : pos = j + 1 := by omega
    cases a with
    | header p =>
      obtain ⟨hm, htx⟩ := ignores_header cb tmSec ha hl hr pace p
      exact .inl ⟨_, h.passed hj rfl hm htx⟩
    | data n p =>
      have honce := h.once j ⟨n, p, ha⟩
      rw [hj, List.count_cons_self, if_pos hpos] at honce
      omega
    | eot =>
      obtain ⟨b, hb, hf⟩ := hl.next ha (by simp)
      obtain rfl : b = .eotAgain := by cases b <;> first | exact hf.elim | rfl
      obtain ⟨hm, htx⟩ | hfail := takes_eotAgain cb tmSec hl hb hr pace
      · exact .inl ⟨_, h.taken hj hb (.inr ⟨rfl, ha, rfl⟩) hm htx⟩
      · exact .inr hfail
    | eotAgain =>
      obtain ⟨b, hb, hf⟩ := hl.next ha (by simp)
      exact .inr (fails_eot cb tmSec hr (waits_finHeader hb hf (by omega) hr) pace)
    | close =>
      have hwait := hr.wait
      rw [List.getElem?_eq_none (hl.close_last ha).le] at hwait
      rw [feed_of_returned cb tmSec hwait]
      exact .inl ⟨_, h.passed hj rfl hr rfl⟩
  · -- both EOTs have been taken in, and another one ends the session
    obtain ⟨b, hb, hf⟩ := hl.next heot (by simp)
    obtain rfl : b = .eotAgain := by cases b <;> first | exact hf.elim | rfl
    obtain ⟨b', hb', hf'⟩ := hl.next hb (by simp)
    have hwait : s.rx.wait = .code .finHeader := by
      rw [← hp] at hb'
      exact waits_finHeader hb' hf' (by omega) hr
    have hbytes : a.bytes = [0x04] := by
      obtain rfl | rfl : j = low ∨ j = low + 1 := by omega
      · obtain rfl := Option.some.inj (ha.symm.trans heot)
        rfl
      · obtain rfl := Option.some.inj (ha.symm.trans hb)
        rfl
    rw [hbytes]
    exact .inr (fails_eot cb tmSec hr hwait pace)

theorem Aligned.deliver (h : Aligned items pos low s) (hl : Linked items) (cb : Callbacks υ)
    (tmSec : ℕ) {onData : RymCallback υ} (hcb : cb.onData = some onData) (pace : ℕ → UInt32) :
    (∃ pos' low', Aligned items pos' low' (Session.step cb tmSec items s (.deliver pace))) ∨
      Failed items (Session.step cb tmSec items s (.deliver pace)).rx := by
  cases hfwd : s.forward with
  | nil =>
    have hstep : Session.step cb tmSec items s (.deliver pace) = s := by
      simp only [Session.step, hfwd]
    rw [hstep]
    exact .inl ⟨pos, low, h⟩
  | cons j js =>
    have hstep : Session.step cb tmSec items s (.deliver pace) =
        { s with
          rx := feed cb tmSec s.rx pace (packet items j)
          forward := js
          reached := s.reached ++ [j] } := by simp only [Session.step, hfwd, feed]
    have hline := h.line
    rw [hfwd] at hline
    obtain ⟨hlow, hlt, -⟩ := hline.head_range
    have hle := h.low_le
    have hsle := h.sent_le
    have hlen := h.sent_le_length
    obtain ⟨a, ha⟩ : ∃ a, items[j]? = some a := ⟨items[j], List.getElem?_eq_getElem (by omega)⟩
    have hpacket : packet items j = a.bytes := by
      rw [packet, ha]
      rfl
    rw [hstep, hpacket]
    obtain rfl | hj : j = pos ∨ j < pos := by omega
    · obtain ⟨hm, htx⟩ | hfail := takes_item cb tmSec hl hcb ha h.reached pace
      · exact .inl ⟨_, _, h.taken hfwd ha (.inl rfl) hm htx⟩
      · exact .inr hfail
    · obtain ⟨pos', h'⟩ | hfail := h.late hl cb tmSec hfwd hlow hj ha pace
      · exact .inl ⟨_, _, h'⟩
      · exact .inr hfail

theorem Aligned.timeout (h : Aligned items pos low s) (cb : Callbacks υ) (tmSec : ℕ)
    (elapsed : UInt32) :
    Aligned items pos low (Session.step cb tmSec items s (.timeout elapsed)) ∨
      Failed items (Session.step cb tmSec items s (.timeout elapsed)).rx := by
  obtain ⟨heard, owed, hp, hsent, hx⟩ := h.heard
  obtain ⟨hm, htx⟩ | hfail := gap_cases cb tmSec h.reached elapsed
  · left
    refine { h with reached := hm, heard := ⟨heard, owed, hp, hsent, ?_⟩, acks := ?_ }
    · obtain htx | ⟨rfl, htx⟩ := htx
      · change Stutters _ (Receiver.step cb tmSec s.rx (.gap elapsed)).ctx.tx
        rw [htx]
        exact hx
      · -- the first C is all that has been sent so far
        have hone : heard.getLast?.toList ++ owed = [] ++ [.c] := by
          cases heard with
          | nil => exact hp.symm
          | cons r rs =>
            obtain ⟨rfl, hnil⟩ := List.cons.inj hp
            obtain ⟨rfl, rfl⟩ := List.append_eq_nil_iff.mp hnil.symm
            rfl
        change Stutters _ (Receiver.step cb tmSec s.rx (.gap elapsed)).ctx.tx
        rw [htx, hone]
        rw [hone] at hx
        exact hx.snoc
    · intro k hk hd
      have hacks := h.acks k hk hd
      change (Receiver.step cb tmSec s.rx (.gap elapsed)).ctx.tx.count .ack ≤ pos - k
      obtain htx | ⟨-, htx⟩ := htx
      · rwa [htx]
      · rw [htx, List.count_append]
        exact hacks
  · exact .inr hfail

section Hear

variable {heard owed ws rs : List RymCode} {w : RymCode}

/-- What the sender takes for the reply it waits for has been sent for it: an old
one of the same kind is not on the line any more. -/
theorem Aligned.owed_ne_nil (h : Aligned items pos low s) (hl : Linked items)
    (hfirst : ∃ p, items[0]? = some (.header p)) (hpos : replies items pos = heard)
    (hsent : replies items s.sent = heard ++ w :: ws) (hx : Stutters heard.getLast?.toList (w :: rs))
    (htx : s.rx.ctx.tx = w :: rs) : False := by
  have hlt : pos < s.sent := by
    by_contra hle
    have hlen := (replies_isPrefix items (not_lt.mp hle)).length_le
    rw [hpos, hsent, List.length_append, List.length_cons] at hlen
    omega
  have hs : s.sent = pos + 1 := by
    have hsle := h.sent_le
    omega
  obtain ⟨b, hb⟩ : ∃ b, items[pos]? = some b := by
    have hlen := h.sent_le_length
    exact ⟨items[pos], List.getElem?_eq_getElem (by omega)⟩
  have hexp : b.expects = w :: ws := by
    rw [hs, replies_succ hb, hpos] at hsent
    exact List.append_cancel_left hsent
  have hlast : heard.getLast? = some w := by
    have hmem := hx.mem List.mem_cons_self
    rwa [Option.mem_toList] at hmem
  cases pos with
  | zero =>
    obtain ⟨p, hp⟩ := hfirst
    obtain rfl := Option.some.inj (hp.symm.trans hb)
    obtain ⟨rfl, -⟩ := List.cons.inj hexp
    rw [← hpos] at hlast
    exact absurd hlast (by simp [replies])
  | succ q =>
    obtain ⟨a, ha, hf⟩ := hl.prev hb
    rw [← hpos, replies_getLast? ha] at hlast
    obtain ⟨n, p, n', p', rfl, rfl⟩ := lastReply_eq_head hf (by rw [hexp, hlast]; rfl)
    have hacks := h.acks (q + 1) hs ⟨n', p', hb⟩
    obtain rfl : RymCode.ack = w := (List.cons.inj hexp).1
    rw [htx, List.count_cons_self] at hacks
    omega

theorem Aligned.due (h : Aligned items pos low s) (hl : Linked items)
    (hfirst : ∃ p, items[0]? = some (.header p)) (hpos : replies items pos = heard ++ owed)
    (hsent : replies items s.sent = heard ++ w :: ws)
    (hx : Stutters (heard.getLast?.toList ++ owed) (w :: rs)) (htx : s.rx.ctx.tx = w :: rs) :
    ∃ owed', owed = w :: owed' := by
  cases owed with
  | nil =>
    rw [List.append_nil] at hpos hx
    exact (h.owed_ne_nil hl hfirst hpos hsent hx htx).elim
  | cons o owed' =>
    refine ⟨owed', ?_⟩
    obtain hle | hle := Nat.le_total pos s.sent
    · have hpre := replies_isPrefix items hle
      rw [hpos, hsent, List.prefix_append_right_inj] at hpre
      rw [(List.cons_prefix_cons.mp hpre).1]
    · have hpre := replies_isPrefix items hle
      rw [hpos, hsent, List.prefix_append_right_inj] at hpre
      rw [(List.cons_prefix_cons.mp hpre).1]

theorem Aligned.ignored (h : Aligned items pos low s) {r : RymCode} (htx : s.rx.ctx.tx = r :: rs) :
    Aligned items pos low (s.setTx rs) := by
  apply h.setTx
  · intro xs hxs
    rw [htx] at hxs
    exact hxs.tail
  · intro k _ _
    rw [htx]
    exact (List.sublist_cons_self r rs).count_le _

theorem Aligned.accepted (h : Aligned items pos low s) (hl : Linked items)
    (hfirst : ∃ p, items[0]? = some (.header p)) (hw : s.waiting = w :: ws)
    (htx : s.rx.ctx.tx = w :: rs) :
    Aligned items pos low { s.setTx rs with waiting := ws } ∧
      ∃ heard owed, replies items pos = heard ++ w :: owed ∧
        replies items s.sent = heard ++ w :: ws ∧ Stutters (w :: owed) rs := by
  obtain ⟨heard, owed, hpos, hsent, hx⟩ := h.heard
  rw [hw] at hsent
  rw [htx] at hx
  obtain ⟨owed', rfl⟩ := h.due hl hfirst hpos hsent hx htx
  have hrs : Stutters (w :: owed') rs := hx.next
  have h' := h.ignored htx
  refine ⟨{ h' with heard := ⟨heard ++ [w], owed', ?_, ?_, ?_⟩ }, heard, owed', hpos, hsent, hrs⟩
  · rw [hpos, List.append_assoc]
    rfl
  · change replies items s.sent = _
    rw [hsent, List.append_assoc]
    rfl
  · rw [List.getLast?_concat]
    exact hrs

/-- No ACK of an earlier block is on the line when a data block is sent. -/
theorem Aligned.no_ack_left (h : Aligned items pos low s) (hl : Linked items)
    (hsent : replies items s.sent = heard ++ [w]) (htx : s.rx.ctx.tx = w :: rs)
    (hrs : Stutters [w] rs) (hpos : pos = s.sent) (hd : DataAt items s.sent)
    (hfirst : ∃ p, items[0]? = some (.header p)) : rs.count .ack = 0 := by
  obtain ⟨n, p, hd⟩ := hd
  cases hs : s.sent with
  | zero =>
    rw [hs] at hd
    obtain ⟨q, hq⟩ := hfirst
    exact absurd (hq.symm.trans hd) (by simp)
  | succ k =>
    rw [hs] at hd hsent
    obtain ⟨a, ha, hf⟩ := hl.prev hd
    have hw : w = lastReply a := by
      have hlast := replies_getLast? ha
      rw [hsent, List.getLast?_concat] at hlast
      exact Option.some.inj hlast
    cases a with
    | header q =>
      rw [List.count_eq_zero]
      intro hmem
      have hc := hrs.mem hmem
      rw [hw] at hc
      exact absurd hc (by simp [lastReply])
    | data n' p' =>
      have hacks := h.acks k hs ⟨n', p', ha⟩
      obtain rfl : w = .ack := hw
      rw [htx, List.count_cons_self] at hacks
      omega
    | _ => exact hf.elim

/-- Once the receiver has given the last reply that the sender waits for, it has
taken in every item sent. -/
theorem Aligned.sent_le_of_owed (h : Aligned items pos low s)
    (hpos : replies items pos = heard ++ w :: owed) (hsent : replies items s.sent = heard ++ [w]) :
    s.sent ≤ pos := by
  by_contra hgt
  have hsle := h.sent_le
  have hlen := h.sent_le_length
  have ha : items[pos]? = some items[pos] := List.getElem?_eq_getElem (by omega)
  have hs : s.sent = pos + 1 := by omega
  rw [hs, replies_succ ha, hpos, List.append_assoc, List.append_cancel_left_eq] at hsent
  obtain ⟨rs', hexp⟩ := expects_eq_snoc items[pos]
  rw [hexp] at hsent
  have hlength := congrArg List.length hsent
  simp at hlength

theorem Aligned.advanced (h : Aligned items pos low s) (hl : Linked items)
    (hfirst : ∃ p, items[0]? = some (.header p)) (hw : s.waiting = [w])
    (htx : s.rx.ctx.tx = w :: rs) : Aligned items pos low ((s.setTx rs).advance items) := by
  obtain ⟨h', heard, owed, hpos, hsent, hrs⟩ := h.accepted hl hfirst hw htx
  have hkeep : (s.setTx rs).sent = s.sent := rfl
  have hlow := h.low_le
  have hle := h.sent_le_of_owed hpos hsent
  rw [System.advance, hkeep]
  cases ha : items[s.sent]? with
  | none => exact h'
  | some a =>
    have hlt : s.sent < items.length := (List.getElem?_eq_some_iff.mp ha).1
    obtain ⟨heard', owed', hpos', hsent', hx'⟩ := h'.heard
    exact {
      reached := h'.reached
      place := by
        obtain hzero | ⟨hlt', hp⟩ := h.place
        · exact .inl hzero
        · exact .inr ⟨Nat.lt_succ_of_lt hlt', hp⟩
      sent_le := Nat.succ_le_succ hle
      sent_le_length := hlt
      line := by
        change Stutters (List.range' low (s.sent + 1 - low)) (s.forward ++ [s.sent])
        rw [Nat.succ_sub hlow, List.range'_concat, Nat.one_mul, Nat.add_sub_cancel' hlow]
        exact h.line.append (stutters_refl _)
      once := fun j hd ↦ by
        have honce := h.once j hd
        change (s.forward ++ [s.sent]).count j + _ ≤ 1
        rw [List.count_append, List.count_singleton]
        by_cases hj : j = s.sent
        · subst hj
          have hnot : ¬s.sent < pos := (h.eq_of_data hl hle hd).not_gt
          rw [List.count_eq_zero.mpr h.not_forwarded, if_neg hnot]
          simp
        · have hne : (s.sent == j) = false := by simpa using Ne.symm hj
          rw [hne, if_neg Bool.false_ne_true]
          exact honce
      logged := h.logged
      heard := ⟨heard', owed', hpos', by
        change replies items (s.sent + 1) = heard' ++ a.expects
        rw [replies_succ ha]
        change replies items s.sent = heard' ++ [] at hsent'
        rw [hsent', List.append_nil], hx'⟩
      acks := fun k hk hd ↦ by
        obtain rfl : s.sent = k := Nat.succ.inj hk
        have hp := h.eq_of_data hl hle hd
        have howed : owed = [] := by
          rw [hp, hsent, List.append_cancel_left_eq] at hpos
          exact (List.cons.inj hpos).2.symm
        rw [howed] at hrs
        exact (h.no_ack_left hl hsent htx hrs hp hd hfirst).le.trans (Nat.zero_le _) }

end Hear

theorem Aligned.hear (h : Aligned items pos low s) (hl : Linked items)
    (hfirst : ∃ p, items[0]? = some (.header p)) (cb : Callbacks υ) (tmSec : ℕ) :
    Aligned items pos low (Session.step cb tmSec items s .hear) := by
  cases htx : s.rx.ctx.tx with
  | nil =>
    have hstep : Session.step cb tmSec items s .hear = s := by simp only [Session.step, htx]
    rw [hstep]
    exact h
  | cons r rs =>
    have hstep : Session.step cb tmSec items s .hear = (s.setTx rs).hears items r := by
      simp only [Session.step, htx]
    have hwaiting : (s.setTx rs).waiting = s.waiting := rfl
    rw [hstep, System.hears, hwaiting]
    cases hw : s.waiting with
    | nil => exact h.ignored htx
    | cons w ws =>
      by_cases hr : r = w
      · subst hr
        by_cases hws : ws = []
        · subst hws
          simp only [if_true]
          exact h.advanced hl hfirst hw htx
        · simp only [if_true, if_neg hws]
          exact (h.accepted hl hfirst hw htx).1
      · simp only [if_neg hr]
        exact h.ignored htx

end GiantGecko.Ymodem.Alignment
