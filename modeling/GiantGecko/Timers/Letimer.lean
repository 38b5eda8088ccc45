import GiantGecko.Foundation.Transition
import GiantGecko.Timers.HwTimer

namespace GiantGecko.Timers.Letimer

open Foundation.Transition HwTimer

inductive RepMode
  | free | oneshot
  deriving DecidableEq

structure LetimerRegs where
  top : ℕ
  cnt : ℕ
  repMode : RepMode
  rep0 : ℕ
  enabled : Bool
  div : ℕ

/-- A one-shot start sets the repeat mode; no other start sets it back. -/
def letimerStart (cnt : ℕ) (mode : Mode) (r : LetimerRegs) : LetimerRegs :=
  match mode with
  | .oneshot => { r with top := cnt, repMode := .oneshot, rep0 := 1, enabled := true }
  | .period => { r with top := cnt, enabled := true }

def letimerOps : Ops LetimerRegs where
  init r := { r with repMode := .free, enabled := false, div := 1 }
  start := letimerStart
  stop r := { r with enabled := false }
  countGet r := r.cnt
  setsFreq _ := true
  freqSet f r := { r with div := 32768 / f }

def letimerInfo : Info where
  maxfreq := 32768
  minfreq := 64
  maxcnt := 0xFFFF
  countsDown := true

/-- The hardware stops itself after an underflow in the repeat mode one-shot; then
the interrupt is served. -/
def underflow (d : Device LetimerRegs) : Device LetimerRegs × Bool :=
  if d.hw.enabled then
    rtDeviceHwtimerIsr letimerOps
      { d with hw := { d.hw with cnt := d.hw.top, enabled := d.hw.repMode = .free } }
  else (d, false)

inductive Event
  | modeSet (mode : Mode)
  | infoGet
  | freqSet (f : ℕ)
  | write (n top : ℕ)
  | stop
  | count (cnt : ℕ)
  | underflow

def apply (d : Device LetimerRegs) : Event → Device LetimerRegs × Bool
  | .modeSet mode => (hwtimerModeSet mode.word d, false)
  | .infoGet => (hwtimerInfoGet letimerInfo d, false)
  | .freqSet f => (hwtimerFreqSet letimerOps letimerInfo f d, false)
  | .write n top => (rtHwtimerWrite letimerOps n top d, false)
  | .stop => (hwtimerStop letimerOps d, false)
  | .count cnt => ({ d with hw := { d.hw with cnt := cnt } }, false)
  | .underflow => underflow d

/-- What is promised: nothing, that the timer rests, or that `left` more
underflows complete a timeout of `n`. -/
inductive Promise
  | nothing
  | rest
  | due (n left : ℕ)

def Promise.after (mode : Mode) (p : Promise) : Event → Promise
  | .write n _ => if n = 0 then .nothing else .due n n
  | .stop => .rest
  | .underflow =>
    match p with
    | .due n left =>
      if left = 1 then if mode = .oneshot then .rest else .due n n
      else .due n (left - 1)
    | p => p
  | _ => p

structure State where
  device : Device LetimerRegs
  mode : Mode
  promise : Promise

def modeAfter (mode : Mode) : Event → Mode
  | .modeSet mode => mode
  | _ => mode

def step (s : State) (e : Event) : State :=
  ⟨(apply s.device e).1, modeAfter s.mode e, s.promise.after s.mode e⟩

def opened : State where
  device := rtHwtimerOpen letimerOps
    (rtHwtimerInit letimerOps letimerInfo ⟨⟨0, 0, 0, .period⟩, ⟨0, 0, .free, 0, false, 1⟩⟩)
  mode := .oneshot
  promise := .rest

def Promise.Keeps (p : Promise) (d : Device LetimerRegs) : Prop :=
  match p with
  | .nothing => True
  | .rest => d.hw.enabled = false
  | .due _ _ => d.hw.enabled = true

def Promise.Completes (p : Promise) (e : Event) : Prop :=
  e = .underflow ∧ ∃ n, p = .due n 1

def Kept (s : State) (e : Event) : Prop :=
  (step s e).device.timer.mode = (step s e).mode ∧
    (step s e).promise.Keeps (step s e).device ∧
    (s.promise ≠ .nothing → ((apply s.device e).2 = true ↔ s.promise.Completes e))

/-- In the repeat mode one-shot only the last underflow of a one-shot timeout
occurs. -/
def Unstuck (s : State) (e : Event) : Prop :=
  e = .underflow → s.device.hw.repMode = .oneshot →
    ∀ n left, s.promise = .due n left → left = 1 ∧ s.mode = .oneshot

structure Inv (s : State) : Prop where
  mode : s.device.timer.mode = s.mode
  keeps : s.promise.Keeps s.device
  due : ∀ n left, s.promise = .due n left →
    1 ≤ left ∧ 1 ≤ n ∧ s.device.timer.cycles = left ∧ s.device.timer.reload = n

variable {s : State} {e : Event}

theorem inv_opened : Inv opened where
  mode := rfl
  keeps := rfl
  due n left h := by cases h

theorem inv_control (h : Inv s) {e : Event} (he : e ≠ .underflow) : Inv (step s e) := by
  cases e with
  | modeSet mode =>
    simp only [step, apply, hwtimerModeSet, Mode.ofWord_word]
    exact ⟨rfl, h.keeps, h.due⟩
  | infoGet => exact h
  | freqSet f =>
    simp only [step, apply, hwtimerFreqSet]
    split_ifs
    · exact h
    · exact ⟨h.mode, h.keeps, h.due⟩
    · exact h
  | write n top =>
    have hon : (apply s.device (.write n top)).1.hw.enabled = true := by
      simp only [apply, rtHwtimerWrite, letimerOps, letimerStart]
      split <;> rfl
    refine ⟨h.mode, ?_, ?_⟩
    · simp only [step, Promise.after]
      split_ifs
      · trivial
      · exact hon
    · intro n' left hdue
      simp only [step, Promise.after] at hdue
      split_ifs at hdue with hn
      obtain ⟨rfl, rfl⟩ := Promise.due.inj hdue
      exact ⟨Nat.pos_of_ne_zero hn, Nat.pos_of_ne_zero hn, rfl, rfl⟩
  | stop => exact ⟨h.mode, rfl, fun n left hdue ↦ by cases hdue⟩
  | count cnt => exact ⟨h.mode, h.keeps, h.due⟩
  | underflow => exact absurd rfl he

theorem kept_of_inv (h : Inv (step s e)) (he : e ≠ .underflow) : Kept s e := by
  refine ⟨h.mode, h.keeps, fun _ ↦ ?_⟩
  have hnone : (apply s.device e).2 = false := by
    cases e with
    | underflow => exact absurd rfl he
    | modeSet mode => rfl
    | infoGet => rfl
    | freqSet f => rfl
    | write n top => rfl
    | stop => rfl
    | count cnt => rfl
  rw [hnone]
  exact ⟨(fun hfalse ↦ by cases hfalse), fun hover ↦ absurd hover.1 he⟩

theorem underflow_rest {d : Device LetimerRegs} (h : d.hw.enabled = false) :
    underflow d = (d, false) := by
  simp only [underflow, h, Bool.false_eq_true, if_false]

theorem underflow_mode (d : Device LetimerRegs) :
    (underflow d).1.timer.mode = d.timer.mode := by
  simp only [underflow, rtDeviceHwtimerIsr]
  split_ifs <;> rfl

theorem underflow_due {d : Device LetimerRegs} (hon : d.hw.enabled = true) (hpos : 1 ≤ d.timer.cycles) :
    (underflow d).2 = decide (d.timer.cycles = 1) ∧
      (underflow d).1.timer =
        { d.timer with
          cycles := if d.timer.cycles = 1 then d.timer.reload else d.timer.cycles - 1 } ∧
      ((underflow d).1.hw.enabled = true ↔
        d.hw.repMode = .free ∧ ¬(d.timer.cycles = 1 ∧ d.timer.mode = .oneshot)) := by
  simp only [underflow, hon, if_true, rtDeviceHwtimerIsr]
  by_cases hlast : d.timer.cycles = 1
  · simp only [hlast, Nat.sub_self, if_true, decide_true, true_and, letimerOps]
    by_cases hmode : d.timer.mode = .oneshot
    · simp [hmode]
    · simp [hmode]
  · have hleft : d.timer.cycles - 1 ≠ 0 := by omega
    simp [hlast, hleft]

section Due

variable {n left : ℕ}

theorem unstuck_due (hp : s.promise = .due n left) : Unstuck s .underflow ↔
    (s.device.hw.repMode = .oneshot → left = 1 ∧ s.mode = .oneshot) := by
  constructor
  · exact fun hc hrep ↦ hc rfl hrep n left hp
  · intro hc _ hrep n' left' hdue
    obtain ⟨-, rfl⟩ := Promise.due.inj (hp.symm.trans hdue)
    exact hc hrep

theorem completes_due (hp : s.promise = .due n left) :
    s.promise.Completes .underflow ↔ left = 1 := by
  simp only [hp, Promise.Completes, true_and]
  constructor
  · rintro ⟨n', hdue⟩
    exact (Promise.due.inj hdue).2
  · rintro rfl
    exact ⟨n, rfl⟩

theorem promise_due (hp : s.promise = .due n left) : (step s .underflow).promise =
    if left = 1 ∧ s.mode = .oneshot then .rest else .due n (if left = 1 then n else left - 1) := by
  simp only [step, Promise.after, hp]
  by_cases hone : left = 1
  · simp only [hone, if_true, true_and]
  · simp only [hone, if_false, false_and]

end Due

theorem kept_underflow (h : Inv s) :
    (Unstuck s .underflow → Inv (step s .underflow)) ∧
      (Kept s .underflow ↔ Unstuck s .underflow) := by
  have hmode : (step s .underflow).device.timer.mode = (step s .underflow).mode :=
    (underflow_mode s.device).trans h.mode
  cases hp : s.promise with
  | nothing =>
    have hafter : (step s .underflow).promise = .nothing := by simp only [step, hp, Promise.after]
    refine ⟨fun _ ↦ ⟨hmode, by rw [hafter]; trivial, ?_⟩, fun _ _ _ n left hdue ↦ ?_, fun _ ↦ ?_⟩
    · intro n left hdue
      rw [hafter] at hdue
      cases hdue
    · rw [hp] at hdue
      cases hdue
    · exact ⟨hmode, by rw [hafter]; trivial, fun hne ↦ absurd hp hne⟩
  | rest =>
    have hoff : s.device.hw.enabled = false := by
      have hkeeps := h.keeps
      rwa [hp] at hkeeps
    have hsame : step s .underflow = s := by
      simp only [step, apply, underflow_rest hoff, modeAfter, hp, Promise.after]
      rw [← hp]
    refine ⟨fun _ ↦ by rwa [hsame], fun _ _ _ n left hdue ↦ ?_, fun _ ↦ ⟨hmode, ?_, fun _ ↦ ?_⟩⟩
    · rw [hp] at hdue
      cases hdue
    · rw [hsame]
      exact h.keeps
    · simp only [apply, underflow_rest hoff, hp, Promise.Completes, Bool.false_eq_true, reduceCtorEq,
        exists_false, and_false]
  | due n left =>
    have hon : s.device.hw.enabled = true := by
      have hkeeps := h.keeps
      rwa [hp] at hkeeps
    obtain ⟨hleft, hn, hcycles, hreload⟩ := h.due n left hp
    obtain ⟨hind, htimer, henabled⟩ := underflow_due hon (hcycles.symm ▸ hleft)
    rw [hcycles, h.mode] at henabled
    rw [hcycles] at hind htimer
    have hcompletes : (apply s.device .underflow).2 = true ↔ s.promise.Completes .underflow := by
      rw [completes_due hp]
      simp only [apply, hind, decide_eq_true_eq]
    have hunstuck := unstuck_due hp
    have hafter := promise_due hp
    have hrep : s.device.hw.repMode = .oneshot ↔ ¬s.device.hw.repMode = .free := by
      cases s.device.hw.repMode <;> simp
    by_cases hlast : left = 1 ∧ s.mode = .oneshot
    · -- the timeout is over, and the driver stops the timer
      rw [if_pos hlast] at hafter
      have hkeeps : (step s .underflow).promise.Keeps (step s .underflow).device := by
        rw [hafter]
        exact Bool.eq_false_iff.mpr fun htrue ↦ (henabled.mp htrue).2 hlast
      refine ⟨fun _ ↦ ⟨hmode, hkeeps, ?_⟩, fun _ ↦ hunstuck.mpr fun _ ↦ hlast,
        fun _ ↦ ⟨hmode, hkeeps, fun _ ↦ hcompletes⟩⟩
      intro n' left' hdue
      rw [hafter] at hdue
      cases hdue
    · rw [if_neg hlast] at hafter
      have hkeeps : (step s .underflow).promise.Keeps (step s .underflow).device ↔
          s.device.hw.repMode = .free := by
        rw [hafter]
        exact henabled.trans (and_iff_left hlast)
      have hfree : Unstuck s .underflow ↔ s.device.hw.repMode = .free := by
        rw [hunstuck, hrep, imp_iff_not_or, not_not, or_iff_left hlast]
      refine ⟨fun hc ↦ ⟨hmode, hkeeps.mpr (hfree.mp hc), ?_⟩, fun hkept ↦ hfree.mpr (hkeeps.mp hkept.2.1),
        fun hc ↦ ⟨hmode, hkeeps.mpr (hfree.mp hc), fun _ ↦ hcompletes⟩⟩
      intro n' left' hdue
      rw [hafter] at hdue
      obtain ⟨rfl, rfl⟩ := Promise.due.inj hdue
      refine ⟨?_, hn, ?_, ?_⟩
      · split_ifs <;> omega
      · change (underflow s.device).1.timer.cycles = _
        rw [htimer, hreload]
      · change (underflow s.device).1.timer.reload = _
        rw [htimer, hreload]

theorem inv_step (s : State) (e : Event) (h : Inv s) (hc : Unstuck s e) : Inv (step s e) := by
  by_cases he : e = .underflow
  · subst he
    exact (kept_underflow h).1 hc
  · exact inv_control h he

theorem kept_iff_unstuck (s : State) (e : Event) (h : Inv s) : Kept s e ↔ Unstuck s e := by
  by_cases he : e = .underflow
  · subst he
    exact (kept_underflow h).2
  · exact ⟨fun _ heq ↦ absurd heq he, fun _ ↦ kept_of_inv (inv_control h he) he⟩

/-- Since nothing resets the repeat mode, a one-shot start of one cycle spoils the
longer and the periodic timeouts after it, and these only. -/
theorem kept_iff (es : List Event) : Along step Kept opened es ↔ Along step Unstuck opened es :=
  along_congr inv_step kept_iff_unstuck inv_opened es

theorem not_kept : ¬ Along step Kept opened [.write 1 10, .underflow, .write 2 10, .underflow] := by
  intro h
  have hruns : false = true := h.2.2.2.1.2.1
  cases hruns

def calls : State → List Event → ℕ
  | _, [] => 0
  | s, e :: es => (apply s.device e).2.toNat + calls (step s e) es

def Event.isQuiet : Event → Bool
  | .infoGet | .freqSet _ | .count _ | .underflow => true
  | _ => false

def Event.isUnderflow : Event → Bool
  | .underflow => true
  | _ => false

theorem quiet_step (hq : e.isQuiet) (he : e.isUnderflow = false) :
    (step s e).promise = s.promise ∧ (step s e).mode = s.mode ∧ (apply s.device e).2 = false := by
  cases e with
  | infoGet => exact ⟨rfl, rfl, rfl⟩
  | freqSet f => exact ⟨rfl, rfl, rfl⟩
  | count cnt => exact ⟨rfl, rfl, rfl⟩
  | underflow => cases he
  | modeSet mode => cases hq
  | write n top => cases hq
  | stop => cases hq

theorem isUnderflow_iff : e.isUnderflow = true ↔ e = .underflow := by
  cases e <;> simp [Event.isUnderflow]

theorem Kept.called_iff (h : Kept s .underflow) {n left : ℕ} (hp : s.promise = .due n left) :
    (apply s.device .underflow).2 = true ↔ left = 1 := by
  rw [h.2.2 (by rw [hp]; simp), hp]
  simp [Promise.Completes]

theorem calls_rest {es : List Event} (h : Along step Kept s es) (hq : ∀ e ∈ es, e.isQuiet)
    (hp : s.promise = .rest) : calls s es = 0 := by
  induction es generalizing s with
  | nil => rfl
  | cons e es ih =>
    have hnone : (apply s.device e).2 = false := by
      rw [Bool.eq_false_iff]
      intro htrue
      obtain ⟨-, n, hdue⟩ := (h.1.2.2 (by rw [hp]; simp)).mp htrue
      rw [hp] at hdue
      cases hdue
    have hrest : (step s e).promise = .rest := by
      cases hu : e.isUnderflow with
      | false => rw [(quiet_step (hq e List.mem_cons_self) hu).1, hp]
      | true =>
        obtain rfl := isUnderflow_iff.mp hu
        simp only [step, Promise.after, hp]
    rw [calls, hnone, ih h.2 (fun e he ↦ hq e (List.mem_cons_of_mem _ he)) hrest]
    rfl

/-- In one-shot mode the user is called once, at the last underflow of the
timeout. -/
theorem calls_oneshot {es : List Event} (h : Along step Kept s es) (hq : ∀ e ∈ es, e.isQuiet)
    {n left : ℕ} (hp : s.promise = .due n left) (hleft : 1 ≤ left) (hmode : s.mode = .oneshot) :
    calls s es = if left ≤ es.countP Event.isUnderflow then 1 else 0 := by
  induction es generalizing s left with
  | nil =>
    rw [List.countP_nil, if_neg (by omega)]
    rfl
  | cons e es ih =>
    have hq' : ∀ e ∈ es, e.isQuiet := fun e he ↦ hq e (List.mem_cons_of_mem _ he)
    cases hu : e.isUnderflow with
    | false =>
      obtain ⟨hsame, hmode', hnone⟩ := quiet_step (s := s) (hq e List.mem_cons_self) hu
      rw [calls, hnone, List.countP_cons_of_neg (by simp [hu]),
        ih h.2 hq' (hsame.trans hp) hleft (hmode'.trans hmode)]
      simp
    | true =>
      obtain rfl := isUnderflow_iff.mp hu
      have hind := h.1.called_iff hp
      rw [calls, List.countP_cons_of_pos hu]
      by_cases hone : left = 1
      · have hrest : (step s .underflow).promise = .rest := by
          rw [promise_due hp, if_pos ⟨hone, hmode⟩]
        rw [hind.mpr hone, calls_rest h.2 hq' hrest, if_pos (by omega)]
        rfl
      · have hnext : (step s .underflow).promise = .due n (left - 1) := by
          rw [promise_due hp, if_neg fun hlast ↦ hone hlast.1, if_neg hone]
        rw [Bool.eq_false_iff.mpr fun htrue ↦ hone (hind.mp htrue),
          ih h.2 hq' hnext (by omega) hmode, Bool.toNat_false, Nat.zero_add]
        simp only [show left - 1 ≤ es.countP Event.isUnderflow ↔
          left ≤ es.countP Event.isUnderflow + 1 by omega]

/-- In period mode the user is called at every `n`-th underflow. -/
theorem calls_period {es : List Event} (h : Along step Kept s es) (hq : ∀ e ∈ es, e.isQuiet)
    {n left : ℕ} (hp : s.promise = .due n left) (hleft : 1 ≤ left) (hle : left ≤ n)
    (hmode : s.mode = .period) :
    calls s es = (es.countP Event.isUnderflow + (n - left)) / n := by
  induction es generalizing s left with
  | nil =>
    rw [List.countP_nil, Nat.zero_add, Nat.div_eq_of_lt (by omega)]
    rfl
  | cons e es ih =>
    have hq' : ∀ e ∈ es, e.isQuiet := fun e he ↦ hq e (List.mem_cons_of_mem _ he)
    cases hu : e.isUnderflow with
    | false =>
      obtain ⟨hsame, hmode', hnone⟩ := quiet_step (s := s) (hq e List.mem_cons_self) hu
      rw [calls, hnone, List.countP_cons_of_neg (by simp [hu]),
        ih h.2 hq' (hsame.trans hp) hleft hle (hmode'.trans hmode)]
      simp
    | true =>
      obtain rfl := isUnderflow_iff.mp hu
      have hind := h.1.called_iff hp
      rw [calls, List.countP_cons_of_pos hu]
      by_cases hone : left = 1
      · have hnext : (step s .underflow).promise = .due n n := by
          rw [promise_due hp, if_neg (by simp [hmode]), if_pos hone]
        rw [hind.mpr hone, ih h.2 hq' hnext (by omega) (Nat.le_refl n) hmode, Nat.sub_self, Nat.add_zero, hone,
          Nat.add_assoc, Nat.add_sub_cancel' (by omega), Nat.add_div_right _ (by omega),
          Bool.toNat_true, Nat.add_comm]
      · have hnext : (step s .underflow).promise = .due n (left - 1) := by
          rw [promise_due hp, if_neg fun hlast ↦ hone hlast.1, if_neg hone]
        rw [Bool.eq_false_iff.mpr fun htrue ↦ hone (hind.mp htrue),
          ih h.2 hq' hnext (by omega) (by omega) hmode, Bool.toNat_false, Nat.zero_add]
        congr 1
        omega

end GiantGecko.Timers.Letimer
