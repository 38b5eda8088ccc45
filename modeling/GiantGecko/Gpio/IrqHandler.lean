import GiantGecko.Foundation.Transition
import Mathlib.Data.BitVec

namespace GiantGecko.Gpio.IrqHandler

open Foundation.Transition

/-- The values in which the two handlers differ: the first pin, which is also
how far the snapshot of `IF` is shifted, and what is written to `IFC`. -/
structure Handler where
  first : ℕ
  clear : BitVec 16

def gpioEvenIrqHandler : Handler := ⟨0, 0x5555⟩
def gpioOddIrqHandler : Handler := ⟨1, 0xAAAA⟩

inductive Bank
  | even
  | odd

def Bank.handler : Bank → Handler
  | .even => gpioEvenIrqHandler
  | .odd => gpioOddIrqHandler

/-- Where a handler stands: `flag` and `n` before the next test of the loop. -/
inductive Phase
  | idle
  | running (b : Bank) (flag : BitVec 16) (n : ℕ)

inductive Occurrence
  | edge (p : ℕ)
  | call (p : ℕ)
  deriving DecidableEq

structure Irq where
  intf : BitVec 16
  phase : Phase
  history : List Occurrence

inductive Event
  | edge (p : Fin 16)
  | enter (b : Bank)
  | turn

/-- One test of the loop: a turn of it with the callback it starts, or the
write to `IFC` and the return. `cb n` says that `gpioCbTable[n]` has a
callback. -/
def handlerTurn (cb : ℕ → Bool) (s : Irq) (b : Bank) (flag : BitVec 16) (n : ℕ) : Irq :=
  if flag = 0 then { s with intf := s.intf &&& ~~~b.handler.clear, phase := .idle }
  else
    { s with
      phase := .running b (flag >>> 2) (n + 2)
      history := if flag.getLsbD 0 && cb n then s.history ++ [.call n] else s.history }

/-- An edge is latched at any time. A handler is entered, and takes its
snapshot, when no handler runs and an enabled flag of its bank is set; it keeps
interrupts disabled until it returns. -/
def step (ien : BitVec 16) (cb : ℕ → Bool) (s : Irq) : Event → Irq
  | .edge p =>
    { s with intf := s.intf ||| BitVec.twoPow 16 p, history := s.history ++ [.edge p] }
  | .enter b =>
    match s.phase with
    | .idle =>
      if s.intf &&& ien &&& b.handler.clear = 0 then s
      else { s with phase := .running b (s.intf >>> b.handler.first) b.handler.first }
    | .running .. => s
  | .turn =>
    match s.phase with
    | .idle => s
    | .running b flag n => handlerTurn cb s b flag n

def Pending (p : ℕ) (history : List Occurrence) : Prop :=
  ∃ before after, history = before ++ .edge p :: after ∧ .call p ∉ after

/-- Once no handler runs, every edge on a pin with a callback was followed by a
call of it, or its flag is set. -/
def NoEdgeLost (cb : ℕ → Bool) (s : Irq) : Prop :=
  s.phase = .idle → ∀ p before after, s.history = before ++ .edge p :: after → cb p →
    .call p ∈ after ∨ s.intf.getLsbD p

def ToCome (flag : BitVec 16) (n p : ℕ) : Prop := n ≤ p ∧ flag.getLsbD (p - n)

/-- An edge on a pin of the bank being handled, if the pin has a callback,
comes before that callback is started in this run of the handler, and the pin
was in the snapshot. -/
def Timely (cb : ℕ → Bool) (s : Irq) : Event → Prop
  | .edge p =>
    match s.phase with
    | .idle => True
    | .running b flag n => cb p → p % 2 = b.handler.first → ToCome flag n p
  | _ => True

theorem concat_eq_append_cons {α : Type} {l before after : List α} {x y : α} :
    l ++ [x] = before ++ y :: after ↔
      (after = [] ∧ l = before ∧ x = y) ∨ ∃ rest, after = rest ++ [x] ∧ l = before ++ y :: rest := by
  constructor
  · intro h
    rcases List.eq_nil_or_concat after with rfl | ⟨rest, z, rfl⟩
    · obtain ⟨hl, hx⟩ := List.append_inj' h rfl
      exact .inl ⟨rfl, hl, List.singleton_inj.mp hx⟩
    · rw [List.concat_eq_append, ← List.cons_append, ← List.append_assoc] at h
      obtain ⟨hl, hx⟩ := List.append_inj' h rfl
      exact .inr ⟨rest, by rw [List.concat_eq_append, List.singleton_inj.mp hx], hl⟩
  · rintro (⟨rfl, rfl, rfl⟩ | ⟨rest, rfl, rfl⟩)
    · rfl
    · simp

theorem pending_append_edge {p q : ℕ} {history : List Occurrence}
    (h : Pending p (history ++ [.edge q])) : p = q ∨ Pending p history := by
  obtain ⟨before, after, h, hcall⟩ := h
  rcases concat_eq_append_cons.mp h with ⟨-, -, heq⟩ | ⟨rest, rfl, hhist⟩
  · exact .inl (Occurrence.edge.inj heq).symm
  · exact .inr ⟨before, rest, hhist, fun hmem ↦ hcall (List.mem_append_left _ hmem)⟩

theorem pending_append_call {p q : ℕ} {history : List Occurrence}
    (h : Pending p (history ++ [.call q])) : p ≠ q ∧ Pending p history := by
  obtain ⟨before, after, h, hcall⟩ := h
  rcases concat_eq_append_cons.mp h with ⟨-, -, heq⟩ | ⟨rest, rfl, hhist⟩
  · cases heq
  · refine ⟨?_, before, rest, hhist, fun hmem ↦ hcall (List.mem_append_left _ hmem)⟩
    rintro rfl
    exact hcall (List.mem_append_right _ (List.mem_singleton_self _))

structure Kept (cb : ℕ → Bool) (s : Irq) : Prop where
  parity : ∀ b flag n, s.phase = .running b flag n → n % 2 = b.handler.first
  flagged : ∀ p, cb p → Pending p s.history → s.intf.getLsbD p
  toCome : ∀ b flag n, s.phase = .running b flag n → ∀ p, cb p → Pending p s.history →
    p % 2 = b.handler.first → ToCome flag n p

theorem Kept.noEdgeLost {cb : ℕ → Bool} {s : Irq} (h : Kept cb s) : NoEdgeLost cb s := by
  intro _ p before after hhist hcb
  by_cases hcall : Occurrence.call p ∈ after
  · exact .inl hcall
  · exact .inr (h.flagged p hcb ⟨before, after, hhist, hcall⟩)

theorem kept_of_idle {cb : ℕ → Bool} {s : Irq} (hidle : s.phase = .idle)
    (h : ∀ p, cb p → Pending p s.history → s.intf.getLsbD p) : Kept cb s where
  parity b flag n hrun := by simp [hidle] at hrun
  flagged := h
  toCome b flag n hrun := by simp [hidle] at hrun

theorem getLsbD_clear (b : Bank) {p : ℕ} (hp : p < 16) :
    b.handler.clear.getLsbD p = decide (p % 2 = b.handler.first) := by
  revert p
  cases b <;> decide

theorem getLsbD_afterClear (b : Bank) (intf : BitVec 16) {p : ℕ} (hother : p % 2 ≠ b.handler.first)
    (h : intf.getLsbD p) : (intf &&& ~~~b.handler.clear).getLsbD p := by
  have hp := BitVec.lt_of_getLsbD h
  rw [BitVec.getLsbD_and, BitVec.getLsbD_not, getLsbD_clear b hp, h]
  simp [hp, hother]

theorem first_mod (b : Bank) : b.handler.first % 2 = b.handler.first := by
  cases b <;> rfl

theorem first_le {b : Bank} {p : ℕ} (h : p % 2 = b.handler.first) : b.handler.first ≤ p :=
  h ▸ Nat.mod_le p 2

variable {ien : BitVec 16} {cb : ℕ → Bool} {s : Irq}

theorem kept_edge (h : Kept cb s) {q : Fin 16} (hc : Timely cb s (.edge q)) :
    Kept cb (step ien cb s (.edge q)) where
  parity := h.parity
  flagged p hcb hpending := by
    simp only [step]
    rcases pending_append_edge hpending with rfl | hpending
    · simp
    · simp [h.flagged p hcb hpending]
  toCome b flag n hphase p hcb hpending hbank := by
    change s.phase = .running b flag n at hphase
    rcases pending_append_edge hpending with rfl | hpending
    · simp only [Timely, hphase] at hc
      exact hc hcb hbank
    · exact h.toCome b flag n hphase p hcb hpending hbank

theorem kept_enter (h : Kept cb s) (b : Bank) : Kept cb (step ien cb s (.enter b)) := by
  cases hphase : s.phase with
  | running b flag n => simpa only [step, hphase] using h
  | idle =>
    simp only [step, hphase]
    split_ifs
    · exact h
    · refine ⟨?_, h.flagged, ?_⟩
      · rintro b' flag n ⟨⟩
        exact first_mod b
      · rintro b' flag n ⟨⟩ p hcb hpending hbank
        refine ⟨first_le hbank, ?_⟩
        rw [BitVec.getLsbD_ushiftRight, Nat.add_sub_cancel' (first_le hbank)]
        exact h.flagged p hcb hpending

theorem kept_turn (h : Kept cb s) : Kept cb (step ien cb s .turn) := by
  cases hphase : s.phase with
  | idle => simpa only [step, hphase] using h
  | running b flag n =>
    have hparity := h.parity b flag n hphase
    simp only [step, hphase, handlerTurn]
    by_cases hzero : flag = 0
    · -- nothing is left to come, so no edge of this bank is unanswered
      rw [if_pos hzero]
      refine kept_of_idle rfl fun p hcb hpending ↦ ?_
      refine getLsbD_afterClear b s.intf (fun hbank ↦ ?_) (h.flagged p hcb hpending)
      have hcome := (h.toCome b flag n hphase p hcb hpending hbank).2
      simp [hzero] at hcome
    · rw [if_neg hzero]
      have hstill {p : ℕ} (hcb : cb p) (hpending : Pending p (if flag.getLsbD 0 && cb n
          then s.history ++ [.call n] else s.history)) : Pending p s.history ∧
          (p % 2 = b.handler.first → ToCome flag n p ∧ p ≠ n) := by
        split_ifs at hpending with hcall
        · obtain ⟨hne, hold⟩ := pending_append_call hpending
          exact ⟨hold, fun hbank ↦ ⟨h.toCome b flag n hphase p hcb hold hbank, hne⟩⟩
        · refine ⟨hpending, fun hbank ↦ ?_⟩
          have hcome := h.toCome b flag n hphase p hcb hpending hbank
          refine ⟨hcome, ?_⟩
          rintro rfl
          exact hcall (by simpa [hcb] using hcome.2)
      refine ⟨?_, fun p hcb hpending ↦ h.flagged p hcb (hstill hcb hpending).1, ?_⟩
      · rintro b' flag' n' ⟨⟩
        omega
      · rintro b' flag' n' ⟨⟩ p hcb hpending hbank
        obtain ⟨⟨hle, hbit⟩, hne⟩ := (hstill hcb hpending).2 hbank
        refine ⟨by omega, ?_⟩
        rw [BitVec.getLsbD_ushiftRight, show 2 + (p - (n + 2)) = p - n by omega]
        exact hbit

theorem kept_step (s : Irq) (e : Event) (h : Kept cb s) (hc : Timely cb s e) :
    Kept cb (step ien cb s e) := by
  cases e with
  | edge p => exact kept_edge h hc
  | enter b => exact kept_enter h b
  | turn => exact kept_turn h

/-- In a run whose edges are timely, no edge is lost in any state in which no
handler runs. -/
theorem no_edge_lost_of_timely (ien intf : BitVec 16) (cb : ℕ → Bool) (es : List Event)
    (h : Along (step ien cb) (Timely cb) ⟨intf, .idle, []⟩ es) :
    NoEdgeLost cb (es.foldl (step ien cb) ⟨intf, .idle, []⟩) := by
  have hinit : Kept cb ⟨intf, .idle, []⟩ := by
    refine kept_of_idle rfl ?_
    rintro p - ⟨before, after, hhist, -⟩
    simp at hhist
  exact (run_invariant kept_step hinit h).noEdgeLost

theorem no_edge_lost_before_callback :
    NoEdgeLost (fun _ ↦ true) ([.edge 2, .enter .even, .edge 2, .edge 5, .turn, .turn, .turn,
      .enter .odd].foldl (step 0xFFFF fun _ ↦ true) ⟨0, .idle, []⟩) :=
  no_edge_lost_of_timely 0xFFFF 0 (fun _ ↦ true) _
    ⟨trivial, trivial, fun _ _ ↦ ⟨by decide, by decide⟩, fun _ hbank ↦ absurd hbank (by decide),
      trivial, trivial, trivial, trivial, trivial⟩

/-- An edge that comes while the callback of its own pin runs is cleared. -/
theorem edge_during_callback_lost :
    ¬ NoEdgeLost (fun _ ↦ true) ([.edge 0, .enter .even, .turn, .edge 0, .turn].foldl
      (step 0xFFFF fun _ ↦ true) ⟨0, .idle, []⟩) := by
  intro h
  rcases h rfl 0 [.edge 0, .call 0] [] rfl rfl with hcall | hflag
  · exact List.not_mem_nil hcall
  · exact absurd hflag (by decide)

end GiantGecko.Gpio.IrqHandler
