import GiantGecko.Foundation.Cursor
import GiantGecko.Foundation.SerialNumber
import GiantGecko.Rtos.TimerThread
import Mathlib.Data.Finset.Card

namespace GiantGecko.Rtos.SoftCheck

open Foundation Foundation.Cursor Foundation.Transition TimerPass SoftTimers TimerThread
open Timer (halfTickMax Control)
open TimerFlag (set_timer_self set_timer_of_ne)

inductive Action
  | start (t : ℕ)
  | stop (t : ℕ)
  | detach (t : ℕ)
  | control (t : ℕ) (cmd : Control)
  | tickIncrease

def Action.event : Action → TimerThread.Event
  | .start t => .timers (.start t)
  | .stop t => .timers (.stop t)
  | .detach t => .detach t
  | .control t cmd => .timers (.control t cmd)
  | .tickIncrease => .timers .tickIncrease

/-- `rt_soft_timer_check` on its way, with the timers that the function that was called
last has started, stopped or detached, those that any has, those that have been stopped
or detached and not started since, and those that have been started. -/
structure Check extends TimerThread.State where
  edited : Finset ℕ
  touched : Finset ℕ
  dropped : Finset ℕ
  fresh : Finset ℕ

def mark (t : Option ℕ) (m : Finset ℕ) : Finset ℕ :=
  match t with
  | some t => insert t m
  | none => m

/-- The timer that an action starts, stops or detaches; one that is not active is not
stopped. -/
def edits (s : TimerSystem) : Action → Option ℕ
  | .start t => some t
  | .stop t => if (s.timer t).activated then some t else none
  | .detach t => some t
  | _ => none

def Action.starts : Action → Option ℕ
  | .start t => some t
  | _ => none

def Action.asserts : Action → Option ℕ
  | .start t | .stop t | .detach t | .control t _ => some t
  | .tickIncrease => none

def drops (s : Check) : Action → Finset ℕ
  | .start t => s.dropped.erase t
  | a => mark (edits s.timers a) s.dropped

def act (s : Check) (a : Action) : Check where
  toState := TimerThread.step s.toState a.event
  edited := mark (edits s.timers a) s.edited
  touched := mark (edits s.timers a) s.touched
  dropped := drops s a
  fresh := mark a.starts s.fresh

def back (t : ℕ) (s : Check) : Check :=
  { s with
    toState := TimerThread.step s.toState (.timers .softReturn)
    fresh := mark (restarts t s.timers) s.fresh }

/-- The timeout functions act as `acts` says, the first that is called as `acts 1`. -/
def turn (acts : ℕ → List Action) (s : Check) : Check :=
  match s.timers.soft with
  | none => s
  | some (.look _ _) =>
    { s with toState := TimerThread.step s.toState (.timers .softTurn), edited := ∅ }
  | some (.calls t _) => back t ((acts s.timers.fired.length).foldl act s)

def enter (s : TimerThread.State) : Check where
  toState := TimerThread.step { s with timers := { s.timers with fired := [] } } (.timers .softCheck)
  edited := ∅
  touched := ∅
  dropped := ∅
  fresh := ∅

def state (acts : ℕ → List Action) (s : TimerThread.State) (k : ℕ) : Check :=
  (turn acts)^[k] (enter s)

def Throughout (P : Check → Option SoftPass → Prop) (acts : ℕ → List Action)
    (s : TimerThread.State) : Prop :=
  ∀ k, P (state acts s k) (state acts s k).timers.soft

def Startable (t : Option ℕ) (s : Check) : Prop :=
  ∀ p ∈ t, (s.timers.timer p).initTick.toNat < halfTickMax ∧ Spans s.timers s.now s.deadline p

def Usable (t : Option ℕ) (s : Check) : Prop := ∀ p ∈ t, s.object p = true

/-- The deadlines stay within half the range of the tick of each other and of the tick by
which the check looks at them, and a function uses no timer that is detached. -/
def Ranged (acts : ℕ → List Action) (s : Check) : Option SoftPass → Prop
  | none => True
  | some (.look _ _) => ∀ p ∈ s.timers.rtSoftTimerList, s.now < s.deadline p + halfTickMax
  | some (.calls t _) =>
    Along act (fun s a ↦ Usable a.asserts s ∧ Startable a.starts s) s (acts s.timers.fired.length) ∧
      Startable (restarts t ((acts s.timers.fired.length).foldl act s).timers)
        ((acts s.timers.fired.length).foldl act s)

/-- No timer that has been started since the check began is due. -/
def Timely (s : Check) : Option SoftPass → Prop
  | some (.look _ currentTick) =>
    ∀ p ∈ s.timers.rtSoftTimerList, p ∈ s.fresh → ¬due currentTick (s.timers.timer p)
  | _ => True

/-- The function that was called last has left the next timer alone, or neither that one is
due nor any that has waited since before the check. -/
def Spared (s : Check) : Option SoftPass → Prop
  | some (.look n currentTick) => ∀ u ∈ n, u ∈ s.edited → ¬due currentTick (s.timers.timer u) ∧
      ∀ p ∈ s.timers.rtSoftTimerList, p ∉ s.fresh → ¬due currentTick (s.timers.timer p)
  | _ => True

/-- A timer that its function has detached is not started again. -/
def Released (acts : ℕ → List Action) (s : Check) : Option SoftPass → Prop
  | some (.calls t _) => Usable (restarts t ((acts s.timers.fired.length).foldl act s).timers)
      ((acts s.timers.fired.length).foldl act s)
  | _ => True

instance (t : Option ℕ) (s : Check) : Decidable (Startable t s) :=
  inferInstanceAs (Decidable (∀ p ∈ t, _ < _ ∧ Spans s.timers s.now s.deadline p))

instance (t : Option ℕ) (s : Check) : Decidable (Usable t s) :=
  inferInstanceAs (Decidable (∀ p ∈ t, _ = _))

instance (acts : ℕ → List Action) (s : Check) : (q : Option SoftPass) → Decidable (Ranged acts s q)
  | none => isTrue trivial
  | some (.look _ _) => inferInstanceAs (Decidable (∀ p ∈ s.timers.rtSoftTimerList, _ < _))
  | some (.calls _ _) => inferInstanceAs (Decidable (Along act _ s _ ∧ Startable _ _))

instance (s : Check) : (q : Option SoftPass) → Decidable (Timely s q)
  | none => isTrue trivial
  | some (.look _ currentTick) => inferInstanceAs (Decidable
      (∀ p ∈ s.timers.rtSoftTimerList, p ∈ s.fresh → ¬due currentTick (s.timers.timer p)))
  | some (.calls _ _) => isTrue trivial

instance (s : Check) : (q : Option SoftPass) → Decidable (Spared s q)
  | none => isTrue trivial
  | some (.look n currentTick) => inferInstanceAs (Decidable
      (∀ u ∈ n, u ∈ s.edited → ¬due currentTick (s.timers.timer u) ∧
        ∀ p ∈ s.timers.rtSoftTimerList, p ∉ s.fresh → ¬due currentTick (s.timers.timer p)))
  | some (.calls _ _) => isTrue trivial

instance (acts : ℕ → List Action) (s : Check) : (q : Option SoftPass) → Decidable (Released acts s q)
  | some (.calls _ _) => inferInstanceAs (Decidable (Usable _ _))
  | some (.look _ _) | none => isTrue trivial

def Terminates (acts : ℕ → List Action) (s : TimerThread.State) : Prop :=
  ∃ k, (state acts s k).timers.soft = none

/-- A check that is over has called the functions of the timers that were due at its
beginning, and of those that are at its end, unless a function has touched them. -/
def CallsDue (acts : ℕ → List Action) (s : TimerThread.State) : Prop :=
  ∀ k, (state acts s k).timers.soft = none → ∀ t ∈ s.timers.rtSoftTimerList,
    due s.timers.tick (s.timers.timer t) ∨
      due (state acts s k).timers.tick ((state acts s k).timers.timer t) →
    t ∈ (state acts s k).timers.fired ∨ t ∈ (state acts s k).touched

def SparesStopped (acts : ℕ → List Action) (s : TimerThread.State) : Prop :=
  ∀ k t n, (state acts s k).timers.soft = some (.calls t n) → t ∉ (state acts s k).dropped

def Safe (acts : ℕ → List Action) (s : TimerThread.State) : Prop :=
  (Throughout Timely acts s → Terminates acts s) ∧ CallsDue acts s ∧ SparesStopped acts s

structure Ready (s : TimerThread.State) : Prop where
  queue : SoftQueue s.timers s.now s.deadline
  flag : ∀ p ∈ s.timers.rtSoftTimerList, (s.timers.timer p).soft = true
  awake : awake s.timers = true
  reading : s.reading = none

variable {s s' : Check} {x x' : TimerThread.State} {acts : ℕ → List Action} {t p : ℕ}
  {n u f : Option ℕ}

theorem mem_mark {m : Finset ℕ} : p ∈ mark u m ↔ u = some p ∨ p ∈ m := by
  cases u with
  | none => simp [mark]
  | some t => simp [mark, eq_comm]

structure Running (x : TimerThread.State) : Prop where
  hard : x.timers.hard = none
  halted : x.timers.halted = false
  reading : x.reading = none

theorem Running.step_eq (h : Running x) {e : TimerPass.Event}
    (hobject : ∀ t ∈ asserts x.timers e, x.object t = true) : TimerThread.step x (.timers e) = { x with
      timers := outside x.timers e
      now := x.now + ticks x.timers e
      deadline := redated (starts x.timers e) x.now x.deadline x.timers } := by
  have hpass : ¬∃ t ∈ asserts x.timers e, x.object t = false := by
    rintro ⟨t, ht, hfalse⟩
    cases hfalse.symm.trans (hobject t ht)
  have hturn : TimerPass.step x.timers e = outside x.timers e := by
    simp only [TimerPass.step, h.halted, Bool.false_eq_true, if_false, TimerPass.turn, h.hard]
  simp only [TimerThread.step, takes, h.reading, hturn, if_neg hpass]

theorem Running.starts_eq (h : Running x) (t : ℕ) : starts x.timers (.start t) = some t := by
  simp only [TimerThread.starts, h.halted, h.hard, Bool.false_eq_true, if_false]

theorem Running.starts_return (h : Running x) (hcalls : x.timers.soft = some (.calls t n)) :
    starts x.timers .softReturn = restarts t x.timers := by
  simp only [TimerThread.starts, h.halted, h.hard, Bool.false_eq_true, if_false, hcalls]

def Idle (x : TimerThread.State) (p : ℕ) : Prop :=
  (x.timers.timer p).activated = false ∨ x.object p = false

/-- What happens to the timers where `u` is taken from its list and `f`, which is `u` or
none, gets into it again. -/
structure Changes (x x' : TimerThread.State) (u f : Option ℕ) : Prop where
  running : Running x'
  queue : SoftQueue x'.timers x'.now x'.deadline
  flag : ∀ p, (x'.timers.timer p).soft = (x.timers.timer p).soft
  later : x.now ≤ x'.now
  fired : x'.timers.fired = x.timers.fired
  sub : ∀ p, f = some p → u = some p
  date : ∀ p, f ≠ some p → x'.deadline p = x.deadline p
  other : ∀ p, u ≠ some p → (p ∈ x'.timers.rtSoftTimerList ↔ p ∈ x.timers.rtSoftTimerList)
  self : ∀ p, u = some p →
    (p ∈ x'.timers.rtSoftTimerList ↔ f = some p ∧ (x.timers.timer p).soft = true)
  idle : ∀ p, u ≠ some p → Idle x p → Idle x' p
  out : ∀ p, u = some p → f ≠ some p → Idle x' p
  cursor : ∀ (C : ℕ → Prop) (n : Option ℕ), (∀ p, u = some p → n ≠ some p) →
    (∀ p, f = some p → C p) → Covers C n x.timers.rtSoftTimerList →
    Covers C n x'.timers.rtSoftTimerList

theorem Idle.frame (h : Idle x p)
    (hactive : (x'.timers.timer p).activated = true → (x.timers.timer p).activated = true)
    (hobject : x'.object p = x.object p) : Idle x' p := by
  obtain h | h := h
  · refine .inl (Bool.eq_false_iff.mpr fun htrue ↦ ?_)
    rw [hactive htrue] at h
    cases h
  · exact .inr (hobject.trans h)

theorem changes_none (hrun : Running x') (hqueue : SoftQueue x'.timers x'.now x'.deadline)
    (hflag : ∀ p, (x'.timers.timer p).soft = (x.timers.timer p).soft) (hlater : x.now ≤ x'.now)
    (hfired : x'.timers.fired = x.timers.fired) (hdate : x'.deadline = x.deadline)
    (hlist : x'.timers.rtSoftTimerList = x.timers.rtSoftTimerList)
    (hidle : ∀ p, Idle x p → Idle x' p) : Changes x x' none none where
  running := hrun
  queue := hqueue
  flag := hflag
  later := hlater
  fired := hfired
  sub p hp := by cases hp
  date p _ := by rw [hdate]
  other p _ := by rw [hlist]
  self p hp := by cases hp
  idle p _ := hidle p
  out p hp := by cases hp
  cursor C n _ _ h := by rwa [hlist]

theorem changes_some (hqueue : SoftQueue x.timers x.now x.deadline) (hrun : Running x')
    (hqueue' : SoftQueue x'.timers x'.now x'.deadline)
    (hflag : ∀ p, (x'.timers.timer p).soft = (x.timers.timer p).soft) (hnow : x'.now = x.now)
    (hfired : x'.timers.fired = x.timers.fired) (hdate : x'.deadline = x.deadline)
    (hlist : x'.timers.rtSoftTimerList = x.timers.rtSoftTimerList.erase t)
    (hidle : ∀ p, p = t ∨ Idle x p → Idle x' p) : Changes x x' (some t) none where
  running := hrun
  queue := hqueue'
  flag := hflag
  later := hnow.ge
  fired := hfired
  sub p hp := by cases hp
  date p _ := by rw [hdate]
  other p hp := by
    rw [hlist, hqueue.mem_erase]
    exact and_iff_right fun heq ↦ hp (by rw [heq])
  self p hp := by
    obtain rfl := Option.some.inj hp
    rw [hlist, hqueue.mem_erase]
    simp
  idle p _ h := hidle p (.inr h)
  out p hp _ := hidle p (.inl (Option.some.inj hp).symm)
  cursor C n hn _ h := by
    rw [hlist]
    exact h.erase (hn t rfl)

theorem flag_start (t p : ℕ) (x : TimerSystem) :
    ((rtTimerStart t x).timer p).soft = (x.timer p).soft := by
  obtain rfl | hp := eq_or_ne p t
  · simp only [rtTimerStart]
    split_ifs
    · rw [set_timer_self, TimerFlag.timer_insert, set_timer_self]
      exact TimerFlag.soft_deactivate p p (rtTimerRemove p x)
    · exact TimerFlag.soft_deactivate p p (rtTimerRemove p x)
  · rw [timer_start_of_ne hp]

theorem changes_start (hrun : Running x) (hqueue : SoftQueue x.timers x.now x.deadline)
    (hinit : (x.timers.timer t).initTick.toNat < halfTickMax)
    (hspan : Spans x.timers x.now x.deadline t) (q : Option SoftPass) :
    Changes x { x with
      timers := { rtTimerStart t x.timers with soft := q }
      deadline := redated (some t) x.now x.deadline x.timers } (some t) (some t) where
  running := by
    refine ⟨(TimerFlag.samePass_start t x.timers).hard.trans hrun.hard, ?_, hrun.reading⟩
    rw [start_eq hinit]
    simp only [TimerPass.insert]
    split_ifs <;> exact hrun.halted
  queue := (hqueue.start hspan).pass _ _ _
  flag p := flag_start t p x.timers
  later := Nat.le_refl _
  fired := (TimerFlag.samePass_start t x.timers).fired
  sub p hp := hp
  date p hp := Function.update_of_ne (fun heq ↦ hp (by rw [heq])) _ _
  other p hp := by
    have hne : p ≠ t := fun heq ↦ hp (by rw [heq])
    change p ∈ (rtTimerStart t x.timers).rtSoftTimerList ↔ _
    by_cases hboth : (x.timers.timer t).soft = true ∧
        (x.timers.timer t).initTick.toNat < halfTickMax
    · rw [hqueue.softList_start hboth.1 hboth.2 hspan, OrderedQueue.mem_insertBehind,
        or_iff_right hne, hqueue.mem_erase, and_iff_right hne]
    · rw [softList_start_of_not hboth, hqueue.mem_erase, and_iff_right hne]
  self p hp := by
    obtain rfl := Option.some.inj hp
    change t ∈ (rtTimerStart t x.timers).rtSoftTimerList ↔ _
    by_cases hsoft : (x.timers.timer t).soft = true
    · rw [hqueue.softList_start hsoft hinit hspan, OrderedQueue.mem_insertBehind]
      exact ⟨fun _ ↦ ⟨rfl, hsoft⟩, fun _ ↦ .inl rfl⟩
    · rw [softList_start_of_not fun hboth ↦ hsoft hboth.1, hqueue.mem_erase]
      exact ⟨fun hself ↦ absurd rfl hself.1, fun hself ↦ absurd hself.2 hsoft⟩
  idle p hp h := h.frame (fun hactive ↦ by
    rwa [← timer_start_of_ne (fun heq ↦ hp (by rw [heq]))]) rfl
  out p hp hf := absurd hp hf
  cursor C n hn hC h := by
    change Covers C n (rtTimerStart t x.timers).rtSoftTimerList
    by_cases hboth : (x.timers.timer t).soft = true ∧
        (x.timers.timer t).initTick.toNat < halfTickMax
    · rw [hqueue.softList_start hboth.1 hboth.2 hspan]
      exact (h.erase (hn t rfl)).insertBehind (hC t rfl)
    · rw [softList_start_of_not hboth]
      exact h.erase (hn t rfl)

theorem ticks_eq (y : TimerSystem) (e : TimerPass.Event) (he : e ≠ .tickIncrease) :
    ticks y e = 0 := by
  cases e with
  | tickIncrease => exact absurd rfl he
  | _ => rw [ticks]; simp

theorem Running.step_call (h : Running x) {e : TimerPass.Event} (he : e ≠ .tickIncrease)
    (hstarts : starts x.timers e = none) (hobject : ∀ t ∈ asserts x.timers e, x.object t = true) :
    TimerThread.step x (.timers e) = { x with timers := outside x.timers e } := by
  rw [h.step_eq hobject, ticks_eq _ _ he, hstarts]
  rfl

theorem Running.free (h : Running x) : TimerThread.free x.timers = true := by
  simp [TimerThread.free, h.halted, h.hard]

theorem idle_deactivate (h : p = t ∨ Idle x p) :
    Idle { x with timers := deactivate t x.timers } p := by
  by_cases heq : p = t
  · left
    rw [heq, deactivate, set_timer_self]
  · refine (h.resolve_left heq).frame (fun hactive ↦ ?_) rfl
    rwa [deactivate, set_timer_of_ne _ heq] at hactive

theorem Running.of_timers (h : Running x) {y : TimerSystem} (hhard : y.hard = x.timers.hard)
    (hhalted : y.halted = x.timers.halted) : Running { x with timers := y } :=
  ⟨hhard.trans h.hard, hhalted.trans h.halted, h.reading⟩

theorem changes_stop (hrun : Running x) (hqueue : SoftQueue x.timers x.now x.deadline)
    (hobject : ∀ p ∈ asserts x.timers (.stop t), x.object p = true) :
    Changes x (TimerThread.step x (.timers (.stop t)))
      (if (x.timers.timer t).activated then some t else none) none := by
  have hstarts : starts x.timers (.stop t) = none := by
    simp only [starts, hrun.halted, hrun.hard, Bool.false_eq_true, if_false]
  have hstop := hqueue.stop t
  rw [hrun.step_call (by simp) hstarts hobject]
  change Changes x { x with timers := (rtTimerStop t x.timers).2 } _ _
  rw [rtTimerStop] at hstop ⊢
  split_ifs at hstop ⊢
  · exact changes_some hqueue (hrun.of_timers rfl rfl) hstop
      (fun p ↦ TimerFlag.soft_deactivate t p (rtTimerRemove t x.timers)) rfl rfl rfl rfl
      fun p hp ↦ idle_deactivate hp
  · exact changes_none hrun hqueue (fun _ ↦ rfl) (Nat.le_refl _) rfl rfl rfl fun _ ↦ id

theorem flag_control (t p : ℕ) (cmd : Control) (x : TimerSystem) :
    ((rtTimerControl t cmd x).timer p).soft = (x.timer p).soft := by
  obtain rfl | hp := eq_or_ne p t
  · cases cmd <;> simp only [rtTimerControl, set_timer_self]
  · cases cmd <;> simp only [rtTimerControl, set_timer_of_ne _ hp]

theorem activated_control (t p : ℕ) (cmd : Control) (x : TimerSystem) :
    ((rtTimerControl t cmd x).timer p).activated = (x.timer p).activated := by
  obtain rfl | hp := eq_or_ne p t
  · cases cmd <;> simp only [rtTimerControl, set_timer_self]
  · cases cmd <;> simp only [rtTimerControl, set_timer_of_ne _ hp]

theorem changes_control (hrun : Running x) (hqueue : SoftQueue x.timers x.now x.deadline)
    {cmd : Control} (hobject : ∀ p ∈ asserts x.timers (.control t cmd), x.object p = true) :
    Changes x (TimerThread.step x (.timers (.control t cmd))) none none := by
  have hstarts : starts x.timers (.control t cmd) = none := by
    simp only [starts, hrun.halted, hrun.hard, Bool.false_eq_true, if_false]
  rw [hrun.step_call (by simp) hstarts hobject]
  change Changes x { x with timers := rtTimerControl t cmd x.timers } _ _
  have hcontrol := hqueue.control t cmd
  have hflag (p : ℕ) := flag_control t p cmd x.timers
  have hidle (p : ℕ) (h : Idle x p) : Idle { x with timers := rtTimerControl t cmd x.timers } p :=
    h.frame (fun hactive ↦ (activated_control t p cmd x.timers).symm.trans hactive) rfl
  cases cmd <;>
    exact changes_none (hrun.of_timers rfl rfl) hcontrol hflag (Nat.le_refl _) rfl rfl rfl hidle

theorem changes_detach (hrun : Running x) (hqueue : SoftQueue x.timers x.now x.deadline)
    (hobject : x.object t = true) : Changes x (TimerThread.step x (.detach t)) (some t) none := by
  simp only [TimerThread.step, hrun.free, if_true, rtTimerDetach, hobject]
  refine changes_some hqueue ⟨hrun.hard, hrun.halted, hrun.reading⟩ (hqueue.remove t) (fun _ ↦ rfl)
    rfl rfl rfl rfl fun p hp ↦ ?_
  by_cases heq : p = t
  · rw [heq]
    exact .inr (Function.update_self _ _ _)
  · exact (hp.resolve_left heq).frame id (Function.update_of_ne heq _ _)

theorem changes_tick (hrun : Running x) (hqueue : SoftQueue x.timers x.now x.deadline) :
    Changes x (TimerThread.step x (.timers .tickIncrease)) none none := by
  have hticks : ticks x.timers .tickIncrease = 1 := by
    simp only [ticks, hrun.halted, hrun.hard]
  have hstarts : starts x.timers .tickIncrease = none := by
    simp only [starts, hrun.halted, hrun.hard, Bool.false_eq_true, if_false]
  rw [hrun.step_eq fun t ht ↦ by simp [asserts, hstarts] at ht, hstarts, hticks]
  exact changes_none ⟨hrun.hard, hrun.halted, hrun.reading⟩ hqueue.tickIncrease (fun _ ↦ rfl)
    (Nat.le_succ _) rfl rfl rfl fun _ ↦ id

theorem Running.usable (h : Running s.toState) {a : Action} (huse : Usable a.asserts s)
    {e : TimerPass.Event} (he : a.event = .timers e) :
    ∀ t ∈ asserts s.timers e, s.object t = true := by
  cases a with
  | start t =>
    cases he
    rw [asserts, h.starts_eq]
    · exact huse
    · simp
    · simp
  | stop t =>
    cases he
    rw [asserts, if_pos h.free]
    exact huse
  | detach t => cases he
  | control t cmd =>
    cases he
    rw [asserts, if_pos h.free]
    exact huse
  | tickIncrease =>
    cases he
    intro t ht
    simp [asserts, starts, h.halted, h.hard] at ht

theorem changes_act (hrun : Running s.toState) (hqueue : SoftQueue s.timers s.now s.deadline)
    {a : Action} (huse : Usable a.asserts s) (hstart : Startable a.starts s) :
    Changes s.toState (act s a).toState (edits s.timers a) a.starts := by
  cases a with
  | start t =>
    obtain ⟨hinit, hspan⟩ := hstart t rfl
    simp only [act, Action.event, edits, Action.starts]
    rw [hrun.step_eq (hrun.usable huse rfl), hrun.starts_eq, ticks_eq _ (.start t) (by simp)]
    exact changes_start hrun hqueue hinit hspan (rtTimerStart t s.timers).soft
  | stop t => exact changes_stop hrun hqueue (hrun.usable huse rfl)
  | detach t => exact changes_detach hrun hqueue (huse t rfl)
  | control t cmd => exact changes_control hrun hqueue (hrun.usable huse rfl)
  | tickIncrease => exact changes_tick hrun hqueue

theorem changes_back (hrun : Running s.toState) (hqueue : SoftQueue s.timers s.now s.deadline)
    (hcalls : s.timers.soft = some (.calls t n)) (hstart : Startable (restarts t s.timers) s)
    (huse : Usable (restarts t s.timers) s) :
    Changes s.toState (back t s).toState (restarts t s.timers) (restarts t s.timers) ∧
      (back t s).timers.soft = some (.look n (back t s).timers.tick) := by
  have hasserts : ∀ p ∈ asserts s.timers .softReturn, s.object p = true := by
    rw [asserts, hrun.starts_return hcalls]
    · exact huse
    · simp
    · simp
  simp only [back]
  rw [hrun.step_eq hasserts, hrun.starts_return hcalls, ticks_eq _ .softReturn (by simp)]
  simp only [outside, hcalls]
  by_cases hagain : (s.timers.timer t).periodic = true ∧ (s.timers.timer t).activated = true
  · have hrestart : restarts t s.timers = some t := if_pos hagain
    rw [hrestart] at hstart ⊢
    obtain ⟨hinit, hspan⟩ := hstart t rfl
    rw [restart, if_pos hagain, TimerFlag.start_deactivate]
    refine ⟨changes_start hrun hqueue hinit hspan _, ?_⟩
    rw [tick_start]
  · have hrestart : restarts t s.timers = none := if_neg hagain
    rw [hrestart, restart, if_neg hagain]
    exact ⟨changes_none (hrun.of_timers rfl rfl) ((hqueue.deactivate t).pass _ _ _)
      (fun p ↦ TimerFlag.soft_deactivate t p s.timers) (Nat.le_refl _) rfl rfl rfl
      fun p hp ↦ idle_deactivate (.inr hp), rfl⟩

theorem restarts_eq {y : TimerSystem} (h : restarts t y = some p) : p = t := by
  rw [restarts] at h
  split_ifs at h
  exact (Option.some.inj h).symm

theorem activated_of_restarts {y : TimerSystem} (h : restarts t y = some p) :
    (y.timer p).activated = true := by
  obtain rfl := restarts_eq h
  rw [restarts] at h
  split_ifs at h with hagain
  exact hagain.2

structure Marks (s s' : Check) (u f : Option ℕ) : Prop where
  edited : ∀ p ∈ s'.edited, u = some p ∨ p ∈ s.edited
  touched : ∀ p ∈ s'.touched, u = some p ∨ p ∈ s.touched
  kept : s.touched ⊆ s'.touched
  served : ∀ p, u = some p → p ∈ s.timers.fired ∨ p ∈ s'.touched
  dropped : ∀ p, u ≠ some p → (p ∈ s'.dropped ↔ p ∈ s.dropped)
  out : ∀ p, u = some p → f = some p ∨ p ∈ s'.dropped
  started : ∀ p, f = some p → p ∉ s'.dropped
  fresh : s'.fresh = mark f s.fresh

theorem marks_act (s : Check) (a : Action) : Marks s (act s a) (edits s.timers a) a.starts where
  edited p hp := mem_mark.mp hp
  touched p hp := mem_mark.mp hp
  kept p hp := mem_mark.mpr (.inr hp)
  served p hp := .inr (mem_mark.mpr (.inl hp))
  dropped p hp := by
    cases a with
    | start t => exact Finset.mem_erase.trans (and_iff_right fun heq ↦ hp (by rw [heq]; rfl))
    | _ => exact mem_mark.trans (or_iff_right hp)
  out p hp := by
    cases a with
    | start t => exact .inl hp
    | _ => exact .inr (mem_mark.mpr (.inl hp))
  started p hp hdrop := by
    cases a with
    | start t => exact absurd (Option.some.inj hp).symm (Finset.ne_of_mem_erase hdrop)
    | _ => cases hp
  fresh := rfl

theorem marks_back (hfired : t ∈ s.timers.fired)
    (hstarted : ∀ p, restarts t s.timers = some p → p ∉ s.dropped) :
    Marks s (back t s) (restarts t s.timers) (restarts t s.timers) where
  edited p hp := .inr hp
  touched p hp := .inr hp
  kept p hp := hp
  served p hp := by
    obtain rfl := restarts_eq hp
    exact .inl hfired
  dropped p _ := Iff.rfl
  out p hp := .inl hp
  started := hstarted
  fresh := rfl

/-- What has become of the timers since the check began at `x`: those that waited there
wait as they did, unless they have been called or touched. -/
structure Base (x : TimerThread.State) (s : Check) : Prop where
  running : Running s.toState
  queue : SoftQueue s.timers s.now s.deadline
  flag : ∀ p, (s.timers.timer p).soft = (x.timers.timer p).soft
  linked : ∀ p ∈ s.timers.rtSoftTimerList, (x.timers.timer p).soft = true
  later : x.now ≤ s.now
  date : ∀ p ∉ s.fresh, s.deadline p = x.deadline p
  origin : ∀ p ∈ s.timers.rtSoftTimerList, p ∉ s.fresh →
    p ∈ x.timers.rtSoftTimerList ∧ p ∉ s.timers.fired ∧ p ∉ s.touched
  served : ∀ p ∈ x.timers.rtSoftTimerList,
    p ∈ s.timers.fired ∨ p ∈ s.touched ∨ p ∈ s.timers.rtSoftTimerList ∧ p ∉ s.fresh
  gone : ∀ p ∈ s.dropped, p ∉ s.timers.rtSoftTimerList ∧ Idle s.toState p
  hit : ∀ p ∈ s.edited, (x.timers.timer p).soft = true →
    p ∈ s.timers.rtSoftTimerList ∧ p ∈ s.fresh ∨ p ∈ s.dropped

theorem Base.changes (h : Base x s) (hc : Changes s.toState s'.toState u f)
    (hm : Marks s s' u f) : Base x s' := by
  have hfresh (p : ℕ) : p ∈ s'.fresh ↔ f = some p ∨ p ∈ s.fresh := by
    rw [hm.fresh, mem_mark]
  have hother {p : ℕ} (hp : u ≠ some p) : p ∈ s'.fresh ↔ p ∈ s.fresh :=
    (hfresh p).trans (or_iff_right fun hf ↦ hp (hc.sub p hf))
  have hself {p : ℕ} (hp : u = some p) (hin : p ∈ s'.timers.rtSoftTimerList) : p ∈ s'.fresh :=
    (hfresh p).mpr (.inl ((hc.self p hp).mp hin).1)
  refine ⟨hc.running, hc.queue, fun p ↦ (hc.flag p).trans (h.flag p), fun p hin ↦ ?_,
    Nat.le_trans h.later hc.later, fun p hnot ↦ ?_, fun p hin hnot ↦ ?_, fun p hin ↦ ?_,
    fun p hdrop ↦ ?_, fun p hin hsoft ↦ ?_⟩
  · by_cases hp : u = some p
    · exact (h.flag p).symm.trans ((hc.self p hp).mp hin).2
    · exact h.linked p ((hc.other p hp).mp hin)
  · obtain ⟨hf, hp⟩ := not_or.mp (mt (hfresh p).mpr hnot)
    exact (hc.date p hf).trans (h.date p hp)
  · have hp : u ≠ some p := fun hp ↦ hnot (hself hp hin)
    obtain ⟨horigin, hfired, htouched⟩ :=
      h.origin p ((hc.other p hp).mp hin) fun hin ↦ hnot ((hother hp).mpr hin)
    refine ⟨horigin, by rwa [hc.fired], fun hin ↦ ?_⟩
    obtain hp' | hin := hm.touched p hin
    · exact hp hp'
    · exact htouched hin
  · by_cases hp : u = some p
    · obtain hfired | htouched := hm.served p hp
      · exact .inl (by rwa [hc.fired])
      · exact .inr (.inl htouched)
    · obtain hfired | htouched | ⟨hin, hnot⟩ := h.served p hin
      · exact .inl (by rwa [hc.fired])
      · exact .inr (.inl (hm.kept htouched))
      · exact .inr (.inr ⟨(hc.other p hp).mpr hin, fun hin ↦ hnot ((hother hp).mp hin)⟩)
  · have hf : f ≠ some p := fun hf ↦ hm.started p hf hdrop
    by_cases hp : u = some p
    · exact ⟨fun hin ↦ hf ((hc.self p hp).mp hin).1, hc.out p hp hf⟩
    · obtain ⟨hout, hidle⟩ := h.gone p ((hm.dropped p hp).mp hdrop)
      exact ⟨fun hin ↦ hout ((hc.other p hp).mp hin), hc.idle p hp hidle⟩
  · by_cases hp : u = some p
    · obtain hf | hdrop := hm.out p hp
      · exact .inl ⟨(hc.self p hp).mpr ⟨hf, (h.flag p).trans hsoft⟩, (hfresh p).mpr (.inl hf)⟩
      · exact .inr hdrop
    · obtain hp' | hin := hm.edited p hin
      · exact absurd hp' hp
      obtain ⟨hin, hnew⟩ | hdrop := h.hit p hin hsoft
      · exact .inl ⟨(hc.other p hp).mpr hin, (hother hp).mpr hnew⟩
      · exact .inr ((hm.dropped p hp).mpr hdrop)

/-- The next timer is still ahead of all that have waited since before the check, unless
the function that was called last has touched it. -/
def Kept (n : Option ℕ) (s : Check) : Prop :=
  (∃ p ∈ s.edited, n = some p) ∨ Covers (· ∈ s.fresh) n s.timers.rtSoftTimerList

theorem Kept.changes (h : Kept n s) (hc : Changes s.toState s'.toState u f)
    (hm : Marks s s' u f) (hedited : s.edited ⊆ s'.edited)
    (hu : ∀ p, u = some p → n = some p → p ∈ s'.edited) : Kept n s' := by
  obtain ⟨p, hp, hn⟩ | hcovers := h
  · exact .inl ⟨p, hedited hp, hn⟩
  by_cases hboth : ∃ p, u = some p ∧ n = some p
  · obtain ⟨p, hp, hn⟩ := hboth
    exact .inl ⟨p, hu p hp hn, hn⟩
  · refine .inr (hc.cursor _ n (fun p hp hn ↦ hboth ⟨p, hp, hn⟩) (fun p hf ↦ ?_)
      (hcovers.mono fun p hp ↦ ?_))
    · rw [hm.fresh]
      exact mem_mark.mpr (.inl hf)
    · rw [hm.fresh]
      exact mem_mark.mpr (.inr hp)

def waits (s : Check) : Finset ℕ := s.timers.rtSoftTimerList.toFinset \ s.fresh

theorem mem_waits : p ∈ waits s ↔ p ∈ s.timers.rtSoftTimerList ∧ p ∉ s.fresh := by
  rw [waits, Finset.mem_sdiff, List.mem_toFinset]

theorem waits_changes (hc : Changes s.toState s'.toState u f) (hm : Marks s s' u f) :
    waits s' ⊆ waits s := by
  intro p hp
  obtain ⟨hin, hnot⟩ := mem_waits.mp hp
  rw [hm.fresh, mem_mark, not_or] at hnot
  refine mem_waits.mpr ⟨(hc.other p fun hu ↦ ?_).mp hin, hnot.2⟩
  exact hnot.1 ((hc.self p hu).mp hin).1

theorem soft_act (hrun : Running s.toState) {a : Action} (huse : Usable a.asserts s) :
    (act s a).timers.soft = s.timers.soft := by
  cases a with
  | detach t =>
    simp only [act, Action.event, TimerThread.step, hrun.free, if_true, rtTimerDetach]
    split_ifs <;> rfl
  | tickIncrease =>
    simp only [act, Action.event]
    rw [hrun.step_eq (hrun.usable huse rfl)]
    rfl
  | _ =>
    simp only [act, Action.event]
    rw [hrun.step_eq (hrun.usable huse rfl)]
    exact (TimerFlag.samePass_call s.timers _).soft

theorem Base.foldl_act (h : Base x s) (hk : Kept n s) {as : List Action}
    (hstart : Along act (fun s a ↦ Usable a.asserts s ∧ Startable a.starts s) s as) :
    Base x (as.foldl act s) ∧ Kept n (as.foldl act s) ∧
      (as.foldl act s).timers.soft = s.timers.soft ∧
      (as.foldl act s).timers.fired = s.timers.fired ∧ waits (as.foldl act s) ⊆ waits s := by
  induction as generalizing s with
  | nil => exact ⟨h, hk, rfl, rfl, Finset.Subset.refl _⟩
  | cons a as ih =>
    obtain ⟨⟨huse, hspan⟩, hrest⟩ := hstart
    have hc := changes_act h.running h.queue huse hspan
    have hm := marks_act s a
    have hk' : Kept n (act s a) := hk.changes hc hm (fun p hp ↦ mem_mark.mpr (.inr hp))
      fun p hp _ ↦ mem_mark.mpr (.inl hp)
    obtain ⟨hbase, hkept, hsoft, hfired, hwaits⟩ := ih (h.changes hc hm) hk' hrest
    exact ⟨hbase, hkept, hsoft.trans (soft_act h.running huse), hfired.trans hc.fired,
      hwaits.trans (waits_changes hc hm)⟩

theorem late_of_not_due (h : SoftQueue x.timers x.now x.deadline)
    (hp : p ∈ x.timers.rtSoftTimerList) (hnear : x.now < x.deadline p + halfTickMax)
    (hdue : ¬due x.timers.tick (x.timers.timer p)) : x.now < x.deadline p := by
  have hhalf : halfTickMax = 2 ^ 31 - 1 := rfl
  by_contra hle
  refine hdue ?_
  rw [due, h.tick, h.timeout p hp, SerialNumber.toNat_sub_of_le (Nat.not_lt.mp hle) (by omega)]
  omega

/-- Where the check stands: with a next timer that has been kept, or at its end with no
timer due that has waited since before. -/
def Sound (x : TimerThread.State) (s : Check) : Option SoftPass → Prop
  | none => ∀ p ∈ s.timers.rtSoftTimerList, p ∉ s.fresh → s.now < s.deadline p
  | some (.look n currentTick) => currentTick = s.timers.tick ∧
      (∀ p ∈ n, (x.timers.timer p).soft = true) ∧ Kept n s
  | some (.calls t n) => t ∈ s.timers.fired ∧ n ≠ some t ∧
      (∀ p ∈ n, (x.timers.timer p).soft = true) ∧ Kept n s

theorem Base.stop (h : Base x s) : Base x { s with
    timers := { s.timers with soft := none }
    edited := ∅ } where
  running := h.running.of_timers rfl rfl
  queue := h.queue.pass _ _ _
  flag := h.flag
  linked := h.linked
  later := h.later
  date := h.date
  origin := h.origin
  served := h.served
  gone := h.gone
  hit p hp := absurd hp (Finset.notMem_empty p)

theorem Base.call (h : Base x s) (q : Option SoftPass) : Base x { s with
    timers := { rtTimerRemove t s.timers with soft := q, fired := s.timers.fired ++ [t] }
    edited := ∅ } where
  running := h.running.of_timers rfl rfl
  queue := (h.queue.remove t).pass _ _ _
  flag := h.flag
  linked p hp := h.linked p (h.queue.mem_erase.mp hp).2
  later := h.later
  date := h.date
  origin p hp hnot := by
    obtain ⟨hne, hin⟩ := h.queue.mem_erase.mp hp
    obtain ⟨horigin, hfired, htouched⟩ := h.origin p hin hnot
    exact ⟨horigin, by simp [hfired, hne], htouched⟩
  served p hp := by
    obtain hfired | htouched | ⟨hin, hnot⟩ := h.served p hp
    · exact .inl (List.mem_append_left _ hfired)
    · exact .inr (.inl htouched)
    by_cases hne : p = t
    · exact .inl (List.mem_append_right _ (List.mem_singleton.mpr hne))
    · exact .inr (.inr ⟨h.queue.mem_erase.mpr ⟨hne, hin⟩, hnot⟩)
  gone p hp := ⟨fun hin ↦ (h.gone p hp).1 (h.queue.mem_erase.mp hin).2, (h.gone p hp).2⟩
  hit p hp := absurd hp (Finset.notMem_empty p)

theorem turn_look (acts : ℕ → List Action) {currentTick : BitVec 32} (hrun : Running s.toState)
    (hlook : s.timers.soft = some (.look n currentTick)) : turn acts s = { s with
      timers := softTurn n currentTick s.timers
      edited := ∅ } := by
  have hstarts : starts s.timers .softTurn = none := by
    simp only [starts, hrun.halted, hrun.hard, Bool.false_eq_true, if_false]
  rw [turn, hlook]
  simp only
  rw [hrun.step_call (by simp) hstarts fun t ht ↦ by simp [asserts, hstarts] at ht]
  simp only [outside, hlook]

theorem turn_calls (hcalls : s.timers.soft = some (.calls t n)) :
    turn acts s = back t ((acts s.timers.fired.length).foldl act s) := by
  rw [turn, hcalls]

theorem Base.advance (h : Base x s)
    (hcovers : Covers (· ∈ s.fresh) (some t) s.timers.rtSoftTimerList) :
    Covers (· ∈ s.fresh) (nextNode t s.timers.rtSoftTimerList) (s.timers.rtSoftTimerList.erase t) ∧
      nextNode t s.timers.rtSoftTimerList ≠ some t ∧
      ∀ p ∈ nextNode t s.timers.rtSoftTimerList, (x.timers.timer p).soft = true := by
  have hnext : nextNode t s.timers.rtSoftTimerList =
      (s.timers.rtSoftTimerList.dropWhile (· ≠ t)).tail.head? := if_pos hcovers.mem
  have hadvance := hcovers.advance h.queue.nodup
  rw [← hnext] at hadvance
  refine ⟨hadvance, fun heq ↦ ?_, fun p hp ↦ ?_⟩
  · rw [heq] at hadvance
    exact (h.queue.mem_erase.mp hadvance.mem).1 rfl
  · rw [Option.mem_def.mp hp] at hadvance
    exact h.linked p (h.queue.mem_erase.mp hadvance.mem).2

theorem Base.look_cases (h : Base x s) (acts : ℕ → List Action) {currentTick : BitVec 32}
    (hlook : s.timers.soft = some (.look n currentTick))
    (hsound : Sound x s (some (.look n currentTick)))
    (hrange : Ranged acts s (some (.look n currentTick)))
    (hspare : Spared s (some (.look n currentTick))) :
    turn acts s = { s with timers := { s.timers with soft := none }, edited := ∅ } ∧
        (∀ p ∈ s.timers.rtSoftTimerList, p ∉ s.fresh → s.now < s.deadline p) ∨
      ∃ t, n = some t ∧ due currentTick (s.timers.timer t) ∧
        Covers (· ∈ s.fresh) (some t) s.timers.rtSoftTimerList ∧ turn acts s = { s with
          timers := { rtTimerRemove t s.timers with
            soft := some (.calls t (nextNode t s.timers.rtSoftTimerList))
            fired := s.timers.fired ++ [t] }
          edited := ∅ } := by
  obtain ⟨rfl, -, hkept⟩ := hsound
  rw [turn_look acts h.running hlook]
  cases n with
  | none =>
    refine .inl ⟨rfl, fun p hp hnot ↦ ?_⟩
    obtain ⟨u, -, hu⟩ | hcovers := hkept
    · cases hu
    · exact absurd (hcovers.all hp) hnot
  | some u =>
    simp only [softTurn]
    split_ifs with hdue
    · refine .inr ⟨u, rfl, hdue, ?_, rfl⟩
      obtain ⟨v, hv, heq⟩ | hcovers := hkept
      · obtain rfl := Option.some.inj heq
        exact absurd hdue (hspare u rfl hv).1
      · exact hcovers
    · refine .inl ⟨rfl, fun p hp hnot ↦ ?_⟩
      obtain ⟨v, hv, heq⟩ | hcovers := hkept
      · obtain rfl := Option.some.inj heq
        exact late_of_not_due h.queue hp (hrange p hp) ((hspare u rfl hv).2 p hp hnot)
      · have hu := late_of_not_due h.queue hcovers.mem (hrange u hcovers.mem) hdue
        obtain rfl | hle := hcovers.ahead h.queue.sorted hp hnot
        · exact hu
        · exact Nat.lt_of_lt_of_le hu hle

theorem Base.turn_look (h : Base x s) {currentTick : BitVec 32}
    (hlook : s.timers.soft = some (.look n currentTick))
    (hsound : Sound x s (some (.look n currentTick)))
    (hrange : Ranged acts s (some (.look n currentTick)))
    (hspare : Spared s (some (.look n currentTick))) :
    Base x (turn acts s) ∧ Sound x (turn acts s) (turn acts s).timers.soft := by
  obtain ⟨hturn, hlate⟩ | ⟨t, rfl, -, hcovers, hturn⟩ := h.look_cases acts hlook hsound hrange hspare
  · rw [hturn]
    exact ⟨h.stop, hlate⟩
  · obtain ⟨hadvance, hne, hnext⟩ := h.advance hcovers
    rw [hturn]
    exact ⟨h.call _, List.mem_append_right _ List.mem_cons_self, hne, hnext, .inr hadvance⟩

theorem Base.turn_calls (h : Base x s) (hcalls : s.timers.soft = some (.calls t n))
    (hsound : Sound x s (some (.calls t n))) (hrange : Ranged acts s (some (.calls t n)))
    (hrelease : Released acts s (some (.calls t n))) :
    Base x (turn acts s) ∧ Sound x (turn acts s) (turn acts s).timers.soft ∧
      waits (turn acts s) ⊆ waits s ∧
      ∃ currentTick, (turn acts s).timers.soft = some (.look n currentTick) := by
  obtain ⟨hfired, hne, hflag, hkept⟩ := hsound
  obtain ⟨hbase, hkept, hsoft, hsame, hwaits⟩ := h.foldl_act hkept hrange.1
  obtain ⟨hc, hlook⟩ :=
    changes_back hbase.running hbase.queue (hsoft.trans hcalls) hrange.2 hrelease
  have hm : Marks ((acts s.timers.fired.length).foldl act s) _ _ _ :=
    marks_back (t := t) (by rwa [hsame]) fun p hp hdrop ↦ by
      obtain hidle | hidle := (hbase.gone p hdrop).2
      · rw [activated_of_restarts hp] at hidle
        cases hidle
      · cases hidle.symm.trans (hrelease p hp)
  rw [SoftCheck.turn_calls hcalls, hlook]
  refine ⟨hbase.changes hc hm, ⟨rfl, hflag, ?_⟩, (waits_changes hc hm).trans hwaits, _, rfl⟩
  refine hkept.changes hc hm (Finset.Subset.refl _) fun p hp hn ↦ ?_
  rw [restarts_eq hp] at hn
  exact absurd hn hne

theorem Base.turn (h : Base x s) (hsound : Sound x s s.timers.soft)
    (hrange : Ranged acts s s.timers.soft) (hspare : Spared s s.timers.soft)
    (hrelease : Released acts s s.timers.soft) :
    Base x (turn acts s) ∧ Sound x (turn acts s) (turn acts s).timers.soft := by
  obtain hsoft | ⟨n, currentTick, hsoft⟩ | ⟨t, n, hsoft⟩ := softPass_cases s.timers.soft
  · have hturn : SoftCheck.turn acts s = s := by
      rw [SoftCheck.turn, hsoft]
    rw [hturn]
    exact ⟨h, hsound⟩
  · rw [hsoft] at hsound hrange hspare
    exact h.turn_look hsoft hsound hrange hspare
  · rw [hsoft] at hsound hrange hrelease
    obtain ⟨hbase, hsound, -⟩ := h.turn_calls hsoft hsound hrange hrelease
    exact ⟨hbase, hsound⟩

theorem state_succ (acts : ℕ → List Action) (x : TimerThread.State) (k : ℕ) :
    state acts x (k + 1) = turn acts (state acts x k) := Function.iterate_succ_apply' _ _ _

theorem state_stopped {m : ℕ} (hstop : (state acts x m).timers.soft = none) (j : ℕ) :
    (state acts x (m + j)).timers.soft = none := by
  induction j with
  | zero => exact hstop
  | succ j ih =>
    rw [← Nat.add_assoc, state_succ, turn, ih]
    exact ih

theorem step_halted (hhalted : x.timers.halted = true) (e : TimerThread.Event) :
    (TimerThread.step x e).timers = x.timers := by
  have hhalt : x.halt.timers = x.timers := by
    simp only [TimerThread.State.halt, ← hhalted]
  have hfree : free x.timers = false := by
    simp only [free, hhalted, Bool.not_true, Bool.false_and]
  have hawake : awake x.timers = false := by
    simp only [awake, hhalted, Bool.not_true, Bool.false_and]
  cases e with
  | timers e =>
    simp only [TimerThread.step, takes]
    split
    · rfl
    · split_ifs
      · exact hhalt
      · exact if_pos hhalted
  | detach t => simp only [TimerThread.step, hfree, Bool.false_eq_true, if_false]
  | look => simp only [TimerThread.step, hawake, Bool.false_eq_true, false_and, if_false]
  | getTick => simp only [TimerThread.step, hawake, Bool.false_eq_true, if_false]
  | sleep => simp only [TimerThread.step, hawake, Bool.false_eq_true, if_false]
  | tickless => rfl

theorem foldl_act_halted (hhalted : s.timers.halted = true) (as : List Action) :
    (as.foldl act s).timers = s.timers := by
  induction as generalizing s with
  | nil => rfl
  | cons a as ih =>
    have hact : (act s a).timers = s.timers := step_halted hhalted a.event
    exact (ih (by rw [hact]; exact hhalted)).trans hact

theorem state_halted {k : ℕ} (hhalted : (state acts x k).timers.halted = true)
    (hcalls : (state acts x k).timers.soft = some (.calls t n)) (j : ℕ) :
    (state acts x (k + j)).timers = (state acts x k).timers := by
  induction j with
  | zero => rfl
  | succ j ih =>
    rw [← Nat.add_assoc, state_succ, turn_calls (ih ▸ hcalls)]
    have hsame := foldl_act_halted (ih ▸ hhalted) (acts (state acts x (k + j)).timers.fired.length)
    exact (step_halted (by rw [hsame, ih]; exact hhalted) _).trans (hsame.trans ih)

theorem Base.released {k : ℕ} (h : Base x (state acts x k))
    (hcalls : (state acts x k).timers.soft = some (.calls t n))
    (hsound : Sound x (state acts x k) (some (.calls t n)))
    (hrange : Ranged acts (state acts x k) (some (.calls t n))) (hends : Terminates acts x) :
    Released acts (state acts x k) (some (.calls t n)) := by
  obtain ⟨-, -, -, hkept⟩ := hsound
  obtain ⟨hbase, -, hsoft, -⟩ := h.foldl_act hkept hrange.1
  have hreturn := hsoft.trans hcalls
  obtain ⟨m, hend⟩ := hends
  by_contra hnot
  have hnext : (state acts x (k + 1)).timers = { ((acts (state acts x k).timers.fired.length).foldl
      act (state acts x k)).timers with halted := true } := by
    obtain ⟨p, hp, hobject⟩ : ∃ p ∈ asserts ((acts (state acts x k).timers.fired.length).foldl
        act (state acts x k)).timers .softReturn,
        ((acts (state acts x k).timers.fired.length).foldl act (state acts x k)).object p = false := by
      rw [asserts, hbase.running.starts_return hreturn]
      · simpa [Released, Usable] using hnot
      · simp
      · simp
    rw [state_succ, SoftCheck.turn_calls hcalls]
    simp only [back, TimerThread.step, takes]
    rw [if_pos ⟨p, hp, hobject⟩]
    rfl
  have hstuck := state_halted (k := k + 1) (by rw [hnext]) (by rw [hnext]; exact hreturn)
  obtain hm | hm := Nat.lt_or_ge k m
  · obtain ⟨j, rfl⟩ := Nat.exists_eq_add_of_le (Nat.succ_le_of_lt hm)
    rw [hstuck j, hnext] at hend
    cases hend.symm.trans hreturn
  · obtain ⟨j, rfl⟩ := Nat.exists_eq_add_of_le hm
    cases (state_stopped hend j).symm.trans hcalls

def waiting (tick n : ℕ) : TimerThread.State where
  timers :=
    { tick := BitVec.ofNat 32 tick
      timer := fun p ↦ ⟨3, BitVec.ofNat 32 (p + 1), p < n, p % 2 = 1, true⟩
      rtTimerList := []
      rtSoftTimerList := List.range n
      hard := none
      soft := none
      fired := []
      halted := false }
  now := tick
  deadline := (· + 1)
  object := fun _ ↦ true
  reading := none

end GiantGecko.Rtos.SoftCheck
