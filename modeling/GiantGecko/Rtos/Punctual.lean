import GiantGecko.Foundation.Transition
import GiantGecko.Rtos.TimerCheck

namespace GiantGecko.Rtos.Punctual

open Foundation Foundation.Transition Timer TimerQueue

inductive Event
  | start (t : ℕ)
  | stop (t : ℕ)
  | control (t : ℕ) (cmd : Control)
  | tick

/-- The timers, and beside them the ticks counted without end and the deadline of
each timer that has been started and not stopped. -/
structure State where
  system : TimerSystem
  hung : Bool
  now : ℕ
  due : ℕ → Option ℕ

def check (turns : ℕ) (s : State) : Option TimerSystem × List ℕ :=
  rtTimerCheck turns (rtTickIncrease s.system)

/-- The check has a turn for each timer of the list and one to stop; where this is too few,
no number is enough. -/
def act (s : State) : Event → State
  | .start t =>
    match rtTimerStart t s.system with
    | some system =>
      { s with
        system := system
        due := Function.update s.due t (some (s.now + (s.system.timer t).initTick.toNat)) }
    | none => { s with hung := true }
  | .stop t =>
    { s with system := rtTimerStop t s.system, due := Function.update s.due t none }
  | .control t cmd => { s with system := rtTimerControl t cmd s.system }
  | .tick =>
    match (check (s.system.list.length + 1) s).1 with
    | some system => ⟨system, false, s.now + 1, roll s.system s.due (s.now + 1)⟩
    | none => { s with hung := true }

def step (s : State) (e : Event) : State := if s.hung then s else act s e

def boot (initTick : ℕ → BitVec 32) (periodic : ℕ → Bool) : State :=
  ⟨rtTimerInit initTick periodic, false, 0, fun _ ↦ none⟩

def Comes (s : State) (t : ℕ) : Prop := ∃ d ∈ s.due t, d ≤ s.now + 1

instance (s : State) (t : ℕ) : Decidable (Comes s t) :=
  inferInstanceAs (Decidable (∃ d ∈ s.due t, d ≤ s.now + 1))

/-- Along the list the deadlines follow each other in modular order, equal ones in
the order of the starts. -/
def InOrder (s : TimerSystem) : Prop :=
  s.list.Pairwise fun a b ↦
    ((s.timer b).timeoutTick - (s.timer a).timeoutTick).toNat < halfTickMax ∧
      ((s.timer a).timeoutTick = (s.timer b).timeoutTick → (s.timer a).stamp < (s.timer b).stamp)

/-- The list is in order, no deadline has passed, and the check at a tick comes to its end
and has called the functions of the timers whose deadlines come with it, once each, and no
others. -/
def OnTime (s : State) (e : Event) : Prop :=
  InOrder (step s e).system ∧ (∀ t d, (step s e).due t = some d → (step s e).now ≤ d) ∧
    (e = .tick → ∃ turns system calls, check turns s = (some system, calls) ∧
      ∀ t, calls.count t = if Comes s t then 1 else 0)

/-- Every start is within half the range of the tick, that of a periodic timer that
has run out too. -/
def InRange (s : State) : Event → Prop
  | .start t => (s.system.timer t).initTick.toNat < halfTickMax
  | .tick => ∀ t, Comes s t → (s.system.timer t).periodic →
    (s.system.timer t).initTick.toNat < halfTickMax
  | _ => True

def Recurs (s : State) : Event → Prop
  | .tick => ∀ t, Comes s t → (s.system.timer t).periodic → 0 < (s.system.timer t).initTick.toNat
  | _ => True

structure Inv (s : State) : Prop where
  running : s.hung = false
  queue : Queue s.system s.due s.now
  rest : ∀ t ∈ s.system.list, s.now ≤ deadline s.due t

variable {s : State}

theorem inv_boot (initTick : ℕ → BitVec 32) (periodic : ℕ → Bool) : Inv (boot initTick periodic) where
  running := rfl
  queue :=
    { tick := rfl
      mem := fun t ↦ by simp [boot, rtTimerInit]
      active := fun t ↦ by simp [boot, rtTimerInit]
      timeout := fun t ht ↦ by cases ht
      window := fun t ht ↦ by cases ht
      stamp := fun t ht ↦ by cases ht
      sorted := List.Pairwise.nil }
  rest t ht := by cases ht

theorem Inv.not_passed (h : Inv s) {t d : ℕ} (hd : s.due t = some d) : s.now ≤ d := by
  have hrest := h.rest t ((h.queue.mem t).mpr (by rw [hd]; rfl))
  rwa [deadline, hd, Option.getD_some] at hrest

theorem Inv.inOrder (h : Inv s) : InOrder s.system := by
  have hhalf : halfTickMax = 2 ^ 31 - 1 := rfl
  refine h.queue.sorted.imp_of_mem fun {a b} ha hb hab ↦ ?_
  have hwin := h.queue.window b hb
  have hrest := h.rest a ha
  have hle := hab.le
  have hdiff : ((s.system.timer b).timeoutTick - (s.system.timer a).timeoutTick).toNat =
      deadline s.due b - deadline s.due a := by
    rw [h.queue.timeout a ha, h.queue.timeout b hb,
      SerialNumber.toNat_sub_of_le hle (by omega)]
  refine ⟨by omega, fun heq ↦ ?_⟩
  rw [heq, BitVec.sub_self] at hdiff
  have hzero : deadline s.due b - deadline s.due a = 0 := hdiff.symm
  obtain hlt | ⟨-, hstamp⟩ := hab
  · omega
  · exact hstamp

theorem Inv.tick_queue (h : Inv s) : Queue (rtTickIncrease s.system) s.due (s.now + 1) where
  tick := by
    change s.system.tick + 1 = _
    rw [h.queue.tick, BitVec.ofNat_add]
    rfl
  mem := h.queue.mem
  active := h.queue.active
  timeout := h.queue.timeout
  window t ht := by
    have hwin := h.queue.window t ht
    have hrest := h.rest t ht
    omega
  stamp := h.queue.stamp
  sorted := h.queue.sorted

theorem Inv.comes_iff (h : Inv s) (t : ℕ) :
    t ∈ expiredOf s.due (s.now + 1) s.system.list ↔ Comes s t := by
  rw [mem_expiredOf, h.queue.mem, Comes, deadline]
  cases hd : s.due t <;> simp

theorem inv_tick (h : Inv s) (hrange : InRange s .tick) (hrecurs : Recurs s .tick) :
    Inv (step s .tick) ∧ ∃ turns system calls, check turns s = (some system, calls) ∧
      ∀ t, calls.count t = if Comes s t then 1 else 0 := by
  have hinit : ∀ t ∈ expiredOf s.due (s.now + 1) (rtTickIncrease s.system).list,
      ((rtTickIncrease s.system).timer t).periodic →
        0 < ((rtTickIncrease s.system).timer t).initTick.toNat ∧
          ((rtTickIncrease s.system).timer t).initTick.toNat < halfTickMax := by
    intro t ht hper
    have hcomes := (h.comes_iff t).mp ht
    exact ⟨hrecurs t hcomes hper, hrange t hcomes hper⟩
  have hturns : (expiredOf s.due (s.now + 1) (rtTickIncrease s.system).list).length <
      s.system.list.length + 1 := Nat.lt_succ_of_le (List.length_filter_le _ _)
  obtain ⟨system, calls, hcheck, hq, -, hlate, hcount⟩ := check_returns h.tick_queue hinit hturns
  replace hcheck : check (s.system.list.length + 1) s = (some system, calls) := hcheck
  have hstep : step s .tick = ⟨system, false, s.now + 1, roll s.system s.due (s.now + 1)⟩ := by
    simp only [step, h.running, Bool.false_eq_true, if_false, act, hcheck]
  rw [hstep]
  refine ⟨⟨rfl, hq, fun t ht ↦ Nat.le_of_lt (hlate t ht)⟩, _, _, _, hcheck, fun t ↦ ?_⟩
  rw [hcount]
  exact if_congr (h.comes_iff t) rfl rfl

theorem inv_start (h : Inv s) {t : ℕ} (hrange : InRange s (.start t)) : Inv (step s (.start t)) := by
  obtain ⟨system, hstart, hq, -⟩ := restart_queue h.queue hrange
  have hstep : step s (.start t) = { s with
      system := system
      due := Function.update s.due t (some (s.now + (s.system.timer t).initTick.toNat)) } := by
    simp only [step, h.running, Bool.false_eq_true, if_false, act, hstart]
  rw [hstep]
  refine ⟨h.running, hq, fun p hp ↦ ?_⟩
  change s.now ≤ deadline (Function.update s.due t _) p
  by_cases hpt : p = t
  · subst hpt
    rw [deadline_update_self]
    exact Nat.le_add_right _ _
  · rw [deadline_update_of_ne _ hpt]
    refine h.rest p ((h.queue.mem p).mpr ?_)
    have hmem := (hq.mem p).mp hp
    rwa [Function.update_of_ne hpt] at hmem

theorem inv_stop (h : Inv s) (t : ℕ) : Inv (step s (.stop t)) := by
  simp only [step, h.running, Bool.false_eq_true, if_false, act, rtTimerStop]
  by_cases hactive : (s.system.timer t).activated
  · rw [if_pos hactive]
    refine ⟨rfl, removed_queue h.queue, fun p hp ↦ ?_⟩
    obtain ⟨hpt, hp⟩ := h.queue.mem_erase.mp hp
    change s.now ≤ deadline (Function.update s.due t none) p
    rw [deadline_update_of_ne _ hpt]
    exact h.rest p hp
  · have hnone : s.due t = none := by
      rw [h.queue.active, h.queue.mem] at hactive
      exact Option.not_isSome_iff_eq_none.mp hactive
    have hdue : Function.update s.due t none = s.due :=
      (congrArg (Function.update s.due t) hnone.symm).trans (Function.update_eq_self t s.due)
    rw [if_neg hactive, hdue]
    exact ⟨rfl, h.queue, h.rest⟩

theorem inv_control (h : Inv s) (t : ℕ) (cmd : Control) : Inv (step s (.control t cmd)) := by
  simp only [step, h.running, Bool.false_eq_true, if_false, act]
  cases cmd with
  | getTime => exact ⟨rfl, h.queue, h.rest⟩
  | setTime time => exact ⟨rfl, h.queue.set rfl rfl rfl, h.rest⟩
  | setOneshot => exact ⟨rfl, h.queue.set rfl rfl rfl, h.rest⟩
  | setPeriodic => exact ⟨rfl, h.queue.set rfl rfl rfl, h.rest⟩

theorem inv_step (s : State) (e : Event) (h : Inv s) (he : InRange s e ∧ Recurs s e) :
    Inv (step s e) := by
  cases e with
  | start t => exact inv_start h he.1
  | stop t => exact inv_stop h t
  | control t cmd => exact inv_control h t cmd
  | tick => exact (inv_tick h he.1 he.2).1

/-- The check of a periodic timer that runs out and has no period never ends. -/
theorem Inv.hangs (h : Inv s) (hrange : InRange s .tick) {z : ℕ} (hz : Comes s z)
    (hper : (s.system.timer z).periodic = true) (hzero : (s.system.timer z).initTick.toNat = 0)
    (turns : ℕ) : (check turns s).1 = none ∧ ∀ t ∈ (check turns s).2, Comes s t := by
  obtain ⟨hnone, hcalls⟩ := check_hangs h.tick_queue ((h.comes_iff z).mpr hz) hper hzero
    (fun t ht ↦ hrange t ((h.comes_iff t).mp ht)) turns
  exact ⟨hnone, fun t ht ↦ (h.comes_iff t).mp (hcalls t ht)⟩

theorem recurs_of_returns (h : Inv s) (hrange : InRange s .tick) {turns : ℕ} {system : TimerSystem}
    {calls : List ℕ} (hcheck : check turns s = (some system, calls)) : Recurs s .tick := by
  intro z hz hper
  by_contra hzero
  have hnone := (h.hangs hrange hz hper (Nat.eq_zero_of_not_pos hzero) turns).1
  rw [hcheck] at hnone
  cases hnone

theorem onTime_iff_recurs (s : State) (e : Event) (h : Inv s) :
    InRange s e ∧ OnTime s e ↔ InRange s e ∧ Recurs s e := by
  refine and_congr_right fun hrange ↦ ?_
  have honTime (hrecurs : Recurs s e)
      (hcalls : e = .tick → ∃ turns system calls, check turns s = (some system, calls) ∧
        ∀ t, calls.count t = if Comes s t then 1 else 0) : OnTime s e := by
    have hinv := inv_step s e h ⟨hrange, hrecurs⟩
    exact ⟨hinv.inOrder, fun t d hd ↦ hinv.not_passed hd, hcalls⟩
  cases e with
  | start t => exact ⟨fun _ ↦ trivial, fun hrecurs ↦ honTime hrecurs fun he ↦ by cases he⟩
  | stop t => exact ⟨fun _ ↦ trivial, fun hrecurs ↦ honTime hrecurs fun he ↦ by cases he⟩
  | control t cmd => exact ⟨fun _ ↦ trivial, fun hrecurs ↦ honTime hrecurs fun he ↦ by cases he⟩
  | tick =>
    refine ⟨fun hon ↦ ?_, fun hrecurs ↦ honTime hrecurs fun _ ↦ (inv_tick h hrange hrecurs).2⟩
    obtain ⟨turns, system, calls, hcheck, -⟩ := hon.2.2 rfl
    exact recurs_of_returns h hrange hcheck

/-- The timers are on time in just those runs in which no periodic timer runs out
without a period. -/
theorem onTime_iff (initTick : ℕ → BitVec 32) (periodic : ℕ → Bool) (es : List Event)
    (hrange : Along step InRange (boot initTick periodic) es) :
    Along step OnTime (boot initTick periodic) es ↔
      Along step Recurs (boot initTick periodic) es := by
  have hcongr := along_congr inv_step onTime_iff_recurs (inv_boot initTick periodic) es
  rw [along_and, along_and, and_iff_right hrange, and_iff_right hrange] at hcongr
  exact hcongr

theorem onTime_iff_two : Along step OnTime (boot (fun _ ↦ 1) fun _ ↦ true) [.start 3, .start 4, .tick] ↔
    Along step Recurs (boot (fun _ ↦ 1) fun _ ↦ true) [.start 3, .start 4, .tick] := by
  apply onTime_iff
  refine ⟨Nat.lt_of_lt_of_le Nat.one_lt_two (by decide), Nat.lt_of_lt_of_le Nat.one_lt_two (by decide),
    ?_, trivial⟩
  rintro t ⟨d, hd, -⟩ -
  by_cases h3 : t = 3
  · subst h3
    decide
  · by_cases h4 : t = 4
    · subst h4
      decide
    · have hnone : Function.update (Function.update (fun _ ↦ none) 3 (some 1)) 4 (some 1) t = some d := hd
      rw [Function.update_of_ne h4, Function.update_of_ne h3] at hnone
      cases hnone

/-- The check at tick 1 never ends and never calls the timer that is due at tick 2. -/
theorem not_onTime :
    Along step InRange (boot (fun t ↦ if t = 0 then 0 else 2) (fun t ↦ t = 0))
      [.start 0, .start 1, .tick] ∧
    ¬ Along step OnTime (boot (fun t ↦ if t = 0 then 0 else 2) (fun t ↦ t = 0))
      [.start 0, .start 1, .tick] ∧
    ∀ turns, (check turns ([.start 0, .start 1].foldl step
      (boot (fun t ↦ if t = 0 then 0 else 2) (fun t ↦ t = 0)))).1 = none ∧
        1 ∉ (check turns ([.start 0, .start 1].foldl step
          (boot (fun t ↦ if t = 0 then 0 else 2) (fun t ↦ t = 0)))).2 := by
  have hstart : (0 : BitVec 32).toNat < halfTickMax ∧ (2 : BitVec 32).toNat < halfTickMax := by decide
  have hinv : Inv ([.start 0, .start 1].foldl step
      (boot (fun t ↦ if t = 0 then 0 else 2) (fun t ↦ t = 0))) :=
    run_invariant inv_step (inv_boot _ _) ⟨⟨hstart.1, trivial⟩, ⟨hstart.2, trivial⟩, trivial⟩
  set s := [.start 0, .start 1].foldl step (boot (fun t ↦ if t = 0 then 0 else 2) (fun t ↦ t = 0))
  have hrange : InRange s .tick := by
    rintro t ⟨d, hd, -⟩ -
    by_cases h0 : t = 0
    · subst h0
      decide
    · by_cases h1 : t = 1
      · subst h1
        decide
      · have hnone : Function.update (Function.update (fun _ ↦ none) 0 (some 0)) 1 (some 2) t = some d :=
          hd
        rw [Function.update_of_ne h1, Function.update_of_ne h0] at hnone
        cases hnone
  have hrecurs : ¬Recurs s .tick := fun h ↦ absurd (h 0 (by decide) rfl) (by decide)
  refine ⟨⟨hstart.1, hstart.2, hrange, trivial⟩, fun h ↦ ?_, fun turns ↦ ?_⟩
  · exact hrecurs ((onTime_iff_recurs s .tick hinv).mp ⟨hrange, h.2.2.1⟩).2
  · have hcomes : Comes s 0 := by decide
    obtain ⟨hnone, hcalls⟩ := hinv.hangs hrange hcomes rfl rfl turns
    exact ⟨hnone, fun h1 ↦ absurd (hcalls 1 h1) (by decide)⟩

end GiantGecko.Rtos.Punctual
