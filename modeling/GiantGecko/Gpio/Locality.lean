import GiantGecko.Gpio.PinDriver
import Mathlib.Tactic.IntervalCases

namespace GiantGecko.Gpio.Locality

open IrqHandler PinDriver Foundation.Transition

section Served

variable {ien : BitVec 16} {cb : ℕ → Bool} {b : Bank} {intf : BitVec 16} {history : List Occurrence}

theorem turns_idle (m : ℕ) : (List.replicate m Event.turn).foldl (step ien cb)
    ⟨intf, .idle, history⟩ = ⟨intf, .idle, history⟩ := by
  induction m with
  | zero => rfl
  | succ m ih => exact ih

theorem twoPow_shiftRight {j k : ℕ} (hk : j + k < 16) :
    BitVec.twoPow 16 (j + k) >>> j = BitVec.twoPow 16 k := by
  apply BitVec.eq_of_getLsbD_eq
  intro i hi
  rw [BitVec.getLsbD_ushiftRight, BitVec.getLsbD_twoPow, BitVec.getLsbD_twoPow]
  apply Bool.eq_iff_iff.mpr
  simp only [Bool.and_eq_true, decide_eq_true_eq]
  omega

theorem turns_twoPow {k : ℕ} (hk : 2 * k < 16) {m : ℕ} (hm : k + 2 ≤ m) (n : ℕ) :
    ((List.replicate m Event.turn).foldl (step ien cb)
      ⟨intf, .running b (BitVec.twoPow 16 (2 * k)) n, history⟩).history =
      if cb (n + 2 * k) then history ++ [.call (n + 2 * k)] else history := by
  induction k generalizing m n with
  | zero =>
    obtain ⟨m, rfl⟩ := Nat.exists_eq_add_of_le' hm
    have hone : step ien cb ⟨intf, .running b (BitVec.twoPow 16 (2 * 0)) n, history⟩ .turn =
        ⟨intf, .running b 0 (n + 2), if cb n then history ++ [.call n] else history⟩ := by
      simp only [step, handlerTurn]
      rfl
    have htwo : step ien cb
        ⟨intf, .running b 0 (n + 2), if cb n then history ++ [.call n] else history⟩ .turn =
        ⟨intf &&& ~~~b.handler.clear, .idle, if cb n then history ++ [.call n] else history⟩ := by
      simp only [step, handlerTurn, if_true]
    simp only [List.replicate_succ, List.foldl_cons, hone, htwo]
    rw [turns_idle]
    rfl
  | succ k ih =>
    obtain ⟨m, rfl⟩ := Nat.exists_eq_add_of_le' hm
    have hturn : step ien cb ⟨intf, .running b (BitVec.twoPow 16 (2 * (k + 1))) n, history⟩ .turn =
        ⟨intf, .running b (BitVec.twoPow 16 (2 * k)) (n + 2), history⟩ := by
      have hne : BitVec.twoPow 16 (2 * (k + 1)) ≠ 0 := by
        intro hzero
        have hbit := congrArg (fun v ↦ BitVec.getLsbD v (2 * (k + 1))) hzero
        simp [hk] at hbit
      have hshift : BitVec.twoPow 16 (2 * (k + 1)) >>> 2 = BitVec.twoPow 16 (2 * k) := by
        rw [show 2 * (k + 1) = 2 + 2 * k by omega]
        exact twoPow_shiftRight (by omega)
      simp only [step, handlerTurn, if_neg hne, hshift, BitVec.getLsbD_twoPow]
      simp
    rw [show m + (k + 1 + 2) = m + (k + 2) + 1 by omega, List.replicate_succ, List.foldl_cons,
      hturn, ih (by omega) (by omega), show n + 2 + 2 * k = n + 2 * (k + 1) by omega]

end Served

theorem mod_two_eq_first (n : ℕ) : n % 2 = (bankOf n).handler.first := by
  obtain h | h := Nat.mod_two_eq_zero_or_one n <;> simp only [bankOf, h] <;> rfl

theorem history_served (g : Regs) (p : Pin) : (g.served p).history =
    if g.ien.getLsbD p.pin && g.hasCallback p.pin then [.edge p.pin, .call p.pin]
    else [.edge p.pin] := by
  have hfirst := mod_two_eq_first p.pin
  have hpin := p.pin.isLt
  have hedge : (0 : BitVec 16) ||| BitVec.twoPow 16 p.pin = BitVec.twoPow 16 p.pin := BitVec.zero_or
  have hzero (i : ℕ) : BitVec.getLsbD (0 : BitVec 16) i = false := BitVec.getLsbD_zero
  have hseen : BitVec.twoPow 16 p.pin &&& g.ien &&& (bankOf p.pin).handler.clear = 0 ↔
      g.ien.getLsbD p.pin = false := by
    constructor
    · intro hnone
      have hbit := congrArg (fun v ↦ BitVec.getLsbD v p.pin) hnone
      simpa only [BitVec.getLsbD_and, BitVec.getLsbD_twoPow, getLsbD_clear _ hpin, hfirst, hpin,
        decide_true, Bool.true_and, Bool.and_true, hzero] using hbit
    · intro hoff
      apply BitVec.eq_of_getLsbD_eq
      intro i hi
      rw [BitVec.getLsbD_and, BitVec.getLsbD_and, BitVec.getLsbD_twoPow, hzero]
      by_cases hip : (p.pin : ℕ) = i
      · rw [← hip, hoff, Bool.and_false, Bool.false_and]
      · rw [decide_eq_false hip, Bool.and_false, Bool.false_and, Bool.false_and]
  have hflag : BitVec.twoPow 16 p.pin >>> (bankOf p.pin).handler.first =
      BitVec.twoPow 16 (2 * (p.pin / 2)) := by
    have hsum : (p.pin : ℕ) = (bankOf p.pin).handler.first + 2 * (p.pin / 2) := by
      rw [← hfirst]
      exact (Nat.mod_add_div _ _).symm
    have hshift := twoPow_shiftRight (j := (bankOf p.pin).handler.first)
      (k := 2 * (p.pin / 2)) (hsum ▸ hpin)
    rwa [← hsum] at hshift
  simp only [Regs.served, List.foldl_cons, step, hedge, hseen]
  cases hien : g.ien.getLsbD p.pin with
  | false =>
    simp only [if_true, Bool.false_and, Bool.false_eq_true, if_false]
    rw [turns_idle]
    rfl
  | true =>
    simp only [Bool.true_and, Bool.true_eq_false, if_false, hflag]
    rw [turns_twoPow (by omega) (by omega), ← hfirst, Nat.mod_add_div]
    rfl

theorem delivered_eq (g : Regs) (p : Pin) (rising : Bool) : g.delivered p rising =
    if g.listens p rising && g.nvic (bankOf p.pin) && g.ien.getLsbD p.pin then
      (g.gpioCbTable p.pin).call else [] := by
  rw [Regs.delivered, history_served]
  cases g.listens p rising && g.nvic (bankOf p.pin) with
  | false => rfl
  | true =>
    cases g.ien.getLsbD p.pin with
    | false => rfl
    | true =>
      simp only [Bool.true_and, if_true, Regs.hasCallback, Hook.call]
      cases hf : (g.gpioCbTable p.pin).cbFunc with
      | none => rfl
      | some f =>
        change List.filterMap g.called [.edge p.pin, .call p.pin] = _
        simp only [List.filterMap_cons, List.filterMap_nil, Regs.called, hf]
        rfl

inductive Op
  | attach (p : Pin) (mode : ℕ) (hdr : Option ℕ) (args : ℕ)
  | detach (p : Pin)
  | irqEnable (p : Pin) (enabled : ℕ)
  | pinMode (p : Pin) (mode : ℕ)

def Op.pin : Op → Pin
  | .attach p _ _ _ => p
  | .detach p => p
  | .irqEnable p _ => p
  | .pinMode p _ => p

def apply (g : Regs) : Op → Regs
  | .attach p mode hdr args => efm32PinAttachIrq p.number mode hdr args g
  | .detach p => efm32PinDetachIrq p.number g
  | .irqEnable p enabled => efm32PinIrqEnable p.number enabled g
  | .pinMode p mode => efm32PinMode p.number mode g

/-- What the operations on a pin have asked for: the mode and the callback of the
last attach, unless it has been detached, and whether it is enabled. -/
structure Wish where
  attached : Option (ℕ × Hook)
  enabled : Bool

def ask (t : Pin → Wish) : Op → Pin → Wish
  | .attach p mode hdr args =>
    Function.update t p ⟨some (mode, ⟨hdr, args⟩), (t p).enabled⟩
  | .detach p => Function.update t p ⟨none, (t p).enabled⟩
  | .irqEnable p enabled => Function.update t p ⟨(t p).attached, enabled == 1⟩
  | .pinMode _ _ => t

structure State where
  regs : Regs
  wish : Pin → Wish

def step (s : State) (op : Op) : State := ⟨apply s.regs op, ask s.wish op⟩

def reset : State where
  regs := ⟨fun _ _ ↦ .disabled, fun _ ↦ 0, 0, 0, 0, fun _ ↦ ⟨none, 0⟩, fun _ ↦ false⟩
  wish := fun _ ↦ ⟨none, false⟩

def wants (mode : ℕ) (rising : Bool) : Bool :=
  match irqModeEdges mode with
  | some (onRise, onFall) => if rising then onRise else onFall
  | none => false

/-- The operation leaves every other pin's edges to whom they were delivered. -/
def Local (s : State) (op : Op) : Prop :=
  ∀ q ≠ op.pin, ∀ rising, (step s op).regs.delivered q rising = s.regs.delivered q rising

/-- The edges of an attached and enabled pin reach exactly its callback. -/
def Bound (s : State) : Prop :=
  ∀ p mode hook, (s.wish p).attached = some (mode, hook) → (s.wish p).enabled →
    ∀ rising, s.regs.delivered p rising = if wants mode rising then hook.call else []

def Isolated (s : State) (op : Op) : Prop := Local s op ∧ Bound (step s op)

/-- A pin is attached in one of the five modes, and attached or detached only
while no other port's pin of its number is attached; its bank is switched only
while no other pin of the bank is attached or enabled. -/
def Careful (s : State) : Op → Prop
  | .attach p mode _ _ => mode < 5 ∧ ∀ q ≠ p, q.pin = p.pin → (s.wish q).attached = none
  | .detach p => ∀ q ≠ p, q.pin = p.pin → (s.wish q).attached = none
  | .irqEnable p enabled =>
    s.regs.nvic (bankOf p.pin) = (enabled == 1) ∨
      ∀ q ≠ p, bankOf q.pin = bankOf p.pin → (s.wish q).attached = none ∧ (s.wish q).enabled = false
  | .pinMode _ _ => True

/-- The line of an attached pin is set up for it, that of a number without an
attached pin has no callback, and the bank of an enabled pin is on. -/
structure Wired (s : State) : Prop where
  held : ∀ p mode hook, (s.wish p).attached = some (mode, hook) →
    s.regs.mode p.port.index p.pin ≠ .disabled ∧ s.regs.extiPsel p.pin = p.port.index ∧
      s.regs.extiRise.getLsbD p.pin = wants mode true ∧
      s.regs.extiFall.getLsbD p.pin = wants mode false ∧
      s.regs.ien.getLsbD p.pin = true ∧ s.regs.gpioCbTable p.pin = hook
  free : ∀ n : Fin 16, (∀ p : Pin, p.pin = n → (s.wish p).attached = none) →
    (s.regs.gpioCbTable n).cbFunc = none
  on : ∀ p, (s.wish p).enabled → s.regs.nvic (bankOf p.pin)

theorem Wired.delivered {s : State} (h : Wired s) (p : Pin) (rising : Bool) :
    s.regs.delivered p rising = match (s.wish p).attached with
      | some (mode, hook) =>
        if wants mode rising && s.regs.nvic (bankOf p.pin) then hook.call else []
      | none => [] := by
  rw [delivered_eq]
  cases hp : (s.wish p).attached with
  | some a =>
    obtain ⟨mode, hook⟩ := a
    obtain ⟨hmode, hpsel, hrise, hfall, hien, hhook⟩ := h.held p mode hook hp
    have hedge : (if rising then s.regs.extiRise else s.regs.extiFall).getLsbD p.pin =
        wants mode rising := by
      cases rising with
      | true => exact hrise
      | false => exact hfall
    simp only [Regs.listens, hedge, hpsel, hien, hhook, ne_eq, hmode, not_false_eq_true, decide_true,
      BEq.rfl, Bool.true_and, Bool.and_true]
  | none =>
    by_cases hother : ∃ q : Pin, q.pin = p.pin ∧ (s.wish q).attached ≠ none
    · obtain ⟨q, hpin, hq⟩ := hother
      obtain ⟨⟨mode, hook⟩, hq⟩ := Option.ne_none_iff_exists'.mp hq
      obtain ⟨-, hpsel, -⟩ := h.held q mode hook hq
      have hport : q.port.index ≠ p.port.index := by
        intro hindex
        have hqp : q = p := by
          obtain ⟨port, pin⟩ := q
          obtain ⟨port', pin'⟩ := p
          obtain rfl : port = port' := GpioPinPort.index_injective hindex
          obtain rfl : pin = pin' := hpin
          rfl
        rw [hqp, hp] at hq
        cases hq
      rw [hpin] at hpsel
      simp [Regs.listens, hpsel, hport]
    · have hfree := h.free p.pin fun q hq ↦ by
        by_contra hne
        exact hother ⟨q, hq, hne⟩
      simp [Hook.call, hfree]

theorem irqModeEdges_of_lt {mode : ℕ} (h : mode < 5) :
    irqModeEdges mode = some (wants mode true, wants mode false) := by
  interval_cases mode <;> rfl

theorem pin_val_ne {p q : Pin} (h : q.pin ≠ p.pin) : (q.pin : ℕ) ≠ p.pin :=
  fun heq ↦ h (Fin.val_injective heq)

variable {s : State}

theorem wish_step (s : State) (op : Op) {q : Pin} (hq : q ≠ op.pin) :
    (step s op).wish q = s.wish q := by
  cases op with
  | pinMode p mode => rfl
  | attach p mode hdr args => exact Function.update_of_ne hq _ _
  | detach p => exact Function.update_of_ne hq _ _
  | irqEnable p enabled => exact Function.update_of_ne hq _ _

theorem attached_step (s : State) (op : Op) {q : Pin} (hq : q ≠ op.pin) :
    ((step s op).wish q).attached = (s.wish q).attached := by
  rw [wish_step s op hq]

theorem enabled_step (s : State) (op : Op) (hop : ∀ p enabled, op ≠ .irqEnable p enabled)
    (q : Pin) : ((step s op).wish q).enabled = (s.wish q).enabled := by
  obtain rfl | hq := eq_or_ne q op.pin
  · cases op with
    | irqEnable p enabled => exact absurd rfl (hop p enabled)
    | pinMode p mode => rfl
    | attach p mode hdr args => simp only [step, ask, Op.pin, Function.update_self]
    | detach p => simp only [step, ask, Op.pin, Function.update_self]
  · rw [wish_step s op hq]

theorem Wired.free_step (h : Wired s) (op : Op) {n : Fin 16} (hn : n ≠ op.pin.pin)
    (hnone : ∀ q : Pin, q.pin = n → ((step s op).wish q).attached = none) :
    (s.regs.gpioCbTable n).cbFunc = none := by
  refine h.free n fun q hq ↦ ?_
  have hq' : q ≠ op.pin := by
    rintro rfl
    exact hn hq.symm
  exact (attached_step s op hq').symm.trans (hnone q hq)

theorem wired_reset : Wired reset where
  held p mode hook h := by cases h
  free _ _ := rfl
  on p h := by cases h

theorem wired_attach (h : Wired s) {p : Pin} {mode : ℕ} {hdr : Option ℕ} {args : ℕ}
    (hc : Careful s (.attach p mode hdr args)) : Wired (step s (.attach p mode hdr args)) := by
  obtain ⟨hmode, hfree⟩ := hc
  have hp := p.pin.isLt
  have hregs : apply s.regs (.attach p mode hdr args) = irqHookRegister p.pin ⟨hdr, args⟩
      (gpioIntConfig p.port.index p.pin (wants mode true) (wants mode false) true
        (gpioPinModeSet p.port.index p.pin .inputPullFilter s.regs)) := by
    simp only [apply, efm32PinAttachIrq, getGpioPin_number, getGpioPort_number,
      irqModeEdges_of_lt hmode]
  constructor
  · intro q mode' hook hq
    simp only [step, hregs, irqHookRegister, gpioIntConfig, gpioPinModeSet]
    by_cases hqp : q = p
    · subst hqp
      simp only [step, ask, Function.update_self, Option.some.injEq, Prod.mk.injEq] at hq
      obtain ⟨rfl, rfl⟩ := hq
      simp only [and_self, if_true, Function.update_self, getLsbD_regBitWrite _ hp]
      refine ⟨?_, trivial⟩
      intro hdis
      cases hdis
    · rw [attached_step s _ hqp] at hq
      have hpin : (q.pin : ℕ) ≠ p.pin := by
        apply pin_val_ne
        intro heq
        rw [hfree q hqp heq] at hq
        cases hq
      simpa only [hpin, and_false, if_false, Function.update_of_ne hpin, getLsbD_regBitWrite _ hp,
        ne_eq] using h.held q mode' hook hq
  · intro n hn
    simp only [step, hregs, irqHookRegister, gpioIntConfig, gpioPinModeSet]
    have hpn : p.pin ≠ n := by
      intro heq
      have hnone := hn p heq
      simp only [step, ask, Function.update_self] at hnone
      cases hnone
    rw [Function.update_of_ne fun heq ↦ hpn (Fin.val_injective heq).symm]
    exact h.free_step (.attach p mode hdr args) hpn.symm hn
  · intro q hq
    rw [enabled_step s _ (by simp)] at hq
    simp only [step, hregs, irqHookRegister, gpioIntConfig, gpioPinModeSet]
    exact h.on q hq

theorem wired_detach (h : Wired s) {p : Pin} (hc : Careful s (.detach p)) :
    Wired (step s (.detach p)) := by
  have hregs : apply s.regs (.detach p) =
      irqHookRegister p.pin ⟨none, 0⟩ (gpioPinModeSet p.port.index p.pin .disabled s.regs) := by
    simp only [apply, efm32PinDetachIrq, getGpioPin_number, getGpioPort_number]
  constructor
  · intro q mode' hook hq
    simp only [step, hregs, irqHookRegister, gpioPinModeSet]
    by_cases hqp : q = p
    · subst hqp
      simp only [step, ask, Function.update_self] at hq
      cases hq
    · rw [attached_step s _ hqp] at hq
      have hpin : (q.pin : ℕ) ≠ p.pin := by
        apply pin_val_ne
        intro heq
        rw [hc q hqp heq] at hq
        cases hq
      simpa only [hpin, and_false, if_false, Function.update_of_ne hpin] using h.held q mode' hook hq
  · intro n hn
    simp only [step, hregs, irqHookRegister, gpioPinModeSet]
    by_cases hpn : (n : ℕ) = p.pin
    · rw [hpn, Function.update_self]
    · rw [Function.update_of_ne hpn]
      refine h.free_step (.detach p) ?_ hn
      exact fun heq ↦ hpn (congrArg Fin.val heq)
  · intro q hq
    rw [enabled_step s _ (by simp)] at hq
    simp only [step, hregs, irqHookRegister, gpioPinModeSet]
    exact h.on q hq

theorem wired_irqEnable (h : Wired s) {p : Pin} {enabled : ℕ} (hc : Careful s (.irqEnable p enabled)) :
    Wired (step s (.irqEnable p enabled)) := by
  have hregs : apply s.regs (.irqEnable p enabled) =
      { s.regs with nvic := Function.update s.regs.nvic (bankOf p.pin) (enabled == 1) } := by
    simp only [apply, efm32PinIrqEnable, getGpioPin_number]
  have hattached (q : Pin) : (ask s.wish (.irqEnable p enabled) q).attached = (s.wish q).attached := by
    by_cases hqp : q = p
    · subst hqp
      simp only [ask, Function.update_self]
    · simp only [ask, Function.update_of_ne hqp]
  constructor
  · intro q mode' hook hq
    simp only [step, hregs]
    exact h.held q mode' hook ((hattached q).symm.trans hq)
  · intro n hn
    simp only [step, hregs]
    exact h.free n fun q hq ↦ (hattached q).symm.trans (hn q hq)
  · intro q hq
    simp only [step, hregs]
    by_cases hqp : q = p
    · subst hqp
      simpa only [step, ask, Function.update_self] using hq
    · simp only [step, ask, Function.update_of_ne hqp] at hq
      by_cases hbank : bankOf q.pin = bankOf p.pin
      · obtain hsame | hother := hc
        · rw [← hsame, Function.update_eq_self]
          exact h.on q hq
        · rw [(hother q hqp hbank).2] at hq
          cases hq
      · rw [Function.update_of_ne hbank]
        exact h.on q hq

theorem pinMode_regs (g : Regs) (p : Pin) (mode : ℕ) : apply g (.pinMode p mode) = g ∨
    ∃ m, m ≠ .disabled ∧ apply g (.pinMode p mode) = gpioPinModeSet p.port.index p.pin m g := by
  simp only [apply, efm32PinMode, getGpioPin_number, getGpioPort_number]
  split
  all_goals first
    | exact .inl rfl
    | exact .inr ⟨_, (fun hdis ↦ by cases hdis), rfl⟩

theorem wired_pinMode (h : Wired s) (p : Pin) (mode : ℕ) : Wired (step s (.pinMode p mode)) := by
  obtain hregs | ⟨m, hm, hregs⟩ := pinMode_regs s.regs p mode
  · rw [step, hregs]
    exact h
  · rw [step, hregs]
    refine ⟨fun q mode' hook hq ↦ ⟨?_, (h.held q mode' hook hq).2⟩, h.free, h.on⟩
    change (if _ then m else _) ≠ _
    split_ifs
    · exact hm
    · exact (h.held q mode' hook hq).1

theorem wired_step (s : State) (op : Op) (h : Wired s) (hc : Careful s op) : Wired (step s op) := by
  cases op with
  | attach p mode hdr args => exact wired_attach h hc
  | detach p => exact wired_detach h hc
  | irqEnable p enabled => exact wired_irqEnable h hc
  | pinMode p mode => exact wired_pinMode h p mode

theorem nvic_step (s : State) (op : Op) (hop : ∀ p enabled, op ≠ .irqEnable p enabled) :
    (step s op).regs.nvic = s.regs.nvic := by
  cases op with
  | attach p mode hdr args =>
    simp only [step, apply, efm32PinAttachIrq]
    cases irqModeEdges mode <;> rfl
  | detach p => rfl
  | irqEnable p enabled => exact absurd rfl (hop p enabled)
  | pinMode p mode =>
    obtain hregs | ⟨m, -, hregs⟩ := pinMode_regs s.regs p mode
    · rw [step, hregs]
    · rw [step, hregs]
      rfl

theorem Wired.local (h : Wired s) {op : Op} (hc : Careful s op) : Local s op := by
  intro q hq rising
  rw [(wired_step s op h hc).delivered, h.delivered, attached_step s op hq]
  cases hatt : (s.wish q).attached with
  | none => rfl
  | some a =>
    have hnvic : (step s op).regs.nvic (bankOf q.pin) = s.regs.nvic (bankOf q.pin) := by
      cases op with
      | irqEnable p enabled =>
        simp only [step, apply, efm32PinIrqEnable, getGpioPin_number]
        by_cases hbank : bankOf q.pin = bankOf p.pin
        · obtain hsame | hother := hc
          · rw [hbank, Function.update_self, hsame]
          · rw [(hother q hq hbank).1] at hatt
            cases hatt
        · rw [Function.update_of_ne hbank]
      | attach p mode hdr args =>
        rw [nvic_step s _ fun p enabled heq ↦ by cases heq]
      | detach p => rw [nvic_step s _ fun p enabled heq ↦ by cases heq]
      | pinMode p mode => rw [nvic_step s _ fun p enabled heq ↦ by cases heq]
    simp only [hnvic]

theorem Wired.bound (h : Wired s) : Bound s := by
  intro p mode hook hatt hen rising
  rw [h.delivered, hatt, h.on p hen]
  simp only [Bool.and_true]

/-- The table of callbacks has one entry for all ports and the NVIC one line for
eight numbers, so the pins keep apart as long as each operation sees to it. -/
theorem isolated_of_careful (ops : List Op) (hc : Along step Careful reset ops) :
    Along step Isolated reset ops :=
  along_of_invariant wired_step (fun s op h hop ↦ ⟨h.local hop, (wired_step s op h hop).bound⟩)
    wired_reset hc

theorem isolated_two_ports : Along step Isolated reset
    [.attach ⟨.a, 1⟩ 0 (some 10) 20, .irqEnable ⟨.a, 1⟩ 1, .attach ⟨.b, 3⟩ 2 (some 11) 21,
      .irqEnable ⟨.b, 3⟩ 1, .detach ⟨.a, 1⟩, .attach ⟨.c, 1⟩ 1 (some 12) 22] := by
  apply isolated_of_careful
  refine ⟨⟨by decide, fun _ _ _ ↦ rfl⟩, .inr fun q hq _ ↦ ?_, ⟨by decide, fun q hq hpin ↦ ?_⟩,
    .inl rfl, fun q hq hpin ↦ ?_, ⟨by decide, fun q hq hpin ↦ ?_⟩, trivial⟩
  · simp only [step, ask, reset, Function.update_of_ne hq, and_self]
  all_goals
    obtain ⟨port, pin⟩ := q
    obtain rfl := hpin
    cases port <;> first | rfl | exact absurd rfl hq

/-- Switching off `PA3` switches off `PA1`, which is as odd. -/
theorem not_isolated : ¬ Along step Isolated reset
    [.attach ⟨.a, 1⟩ 0 (some 10) 20, .irqEnable ⟨.a, 1⟩ 1, .irqEnable ⟨.a, 3⟩ 0] := by
  intro h
  have hlocal := h.2.2.1.1 ⟨.a, 1⟩ (by decide) true
  simp only [delivered_eq] at hlocal
  revert hlocal
  decide

end GiantGecko.Gpio.Locality
