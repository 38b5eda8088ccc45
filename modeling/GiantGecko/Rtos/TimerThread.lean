import GiantGecko.Rtos.BlockedTakes
import GiantGecko.Rtos.SoftTimers

namespace GiantGecko.Rtos.TimerThread

open Foundation Foundation.Transition TimerPass SoftTimers
open Timer (halfTickMax)
open BlockedTakes (tickMax rtTimerListNextTimeout)

/-- How far `rt_thread_timer_entry` has got: it has read that no timer waits, it has read the
next timeout, which is that of the deadline, or it has read the tick as well, at `readAt`, and is
left with the ticks that it is going to sleep. -/
inductive Reading
  | suspend
  | timeout (nextTimeout : BitVec 32) (deadline : ℕ)
  | delay (ticks : ℕ) (deadline : ℕ) (readAt : ℕ)
  deriving DecidableEq

/-- The timers, with the ticks and the deadlines counted without end, whether each still has the
type of a timer, and the timer thread on its way from reading the list to sleeping. -/
structure State where
  timers : TimerSystem
  now : ℕ
  deadline : ℕ → ℕ
  object : ℕ → Bool
  reading : Option Reading

/-- What happens to the timers, a timer detached too, the steps of a turn of
`rt_thread_timer_entry`, and the look of a tickless `_pm_change_sleep_mode` at the hard timers. -/
inductive Event
  | timers (e : TimerPass.Event)
  | detach (t : ℕ)
  | look
  | getTick
  | sleep
  | tickless

def starts (s : TimerSystem) (e : TimerPass.Event) : Option ℕ :=
  if s.halted then none
  else
    match s.hard, e with
    | none, .start t => some t
    | some (.calls _), .start t => some t
    | some (.calls t), .hardReturn => restarts t s
    | none, .softReturn =>
      match s.soft with
      | some (.calls t _) => restarts t s
      | _ => none
    | _, _ => none

def ticks (s : TimerSystem) (e : TimerPass.Event) : ℕ :=
  match s.halted, s.hard, e with
  | false, none, .tickIncrease => 1
  | _, _, _ => 0

def free (s : TimerSystem) : Bool := !s.halted && s.hard != some .look

def asserts (s : TimerSystem) : TimerPass.Event → Option ℕ
  | .stop t => if free s then some t else none
  | .control t _ => if free s then some t else none
  | e => starts s e

def State.halt (s : State) : State := { s with timers := { s.timers with halted := true } }

/-- The thread checks the timers when it has slept, or has found that it need not. -/
def takes (s : State) (e : TimerPass.Event) : State :=
  match e, s.reading with
  | .softCheck, some _ => s
  | _, _ =>
    if ∃ t ∈ asserts s.timers e, s.object t = false then s.halt
    else { s with
      timers := TimerPass.step s.timers e
      now := s.now + ticks s.timers e
      deadline := redated (starts s.timers e) s.now s.deadline s.timers }

def awake (s : TimerSystem) : Bool := !s.halted && s.hard.isNone && s.soft.isNone

/-- `rt_object_detach` clears the type. -/
def rtTimerDetach (t : ℕ) (s : State) : State :=
  if s.object t then
    { s with timers := rtTimerRemove t s.timers, object := Function.update s.object t false }
  else s.halt

def rtThreadTimerEntryLook (s : State) : State :=
  if rtTimerListNextTimeout s.timers = tickMax then { s with reading := some .suspend }
  else { s with reading := some (.timeout (rtTimerListNextTimeout s.timers)
    (s.deadline (s.timers.rtSoftTimerList.headD 0))) }

def rtThreadTimerEntryGetTick (s : State) : State :=
  match s.reading with
  | some (.timeout nextTimeout deadline) =>
    if (nextTimeout - s.timers.tick).toNat < halfTickMax then
      { s with reading := some (.delay (nextTimeout - s.timers.tick).toNat deadline s.now) }
    else { s with reading := none }
  | _ => s

def rtThreadTimerEntrySleep (s : State) : State :=
  match s.reading with
  | some (.timeout _ _) => s
  | _ => { s with reading := none }

def step (s : State) : Event → State
  | .timers e => takes s e
  | .detach t => if free s.timers then rtTimerDetach t s else s
  | .look => if awake s.timers ∧ s.reading = none then rtThreadTimerEntryLook s else s
  | .getTick => if awake s.timers then rtThreadTimerEntryGetTick s else s
  | .sleep => if awake s.timers then rtThreadTimerEntrySleep s else s
  | .tickless => s

/-- A soft timer that is started then does not get in front of what the thread has read. -/
def Behind (deadline : ℕ) : Reading → Prop
  | .suspend => False
  | .timeout _ d => d ≤ deadline
  | .delay _ d _ => d ≤ deadline

def Early (now : ℕ) : Option Reading → Prop
  | some (.timeout _ d) => now ≠ d ∧ now < d + 2 ^ 31
  | _ => True

def Prompt (now : ℕ) : Option Reading → Prop
  | some (.delay _ _ readAt) => now = readAt
  | _ => True

/-- No first timer of a list is read that has the deadline `RT_TICK_MAX`; the deadlines that wait
lie within half the range of the tick; the thread reads the tick at another one than the deadline
that it has read, 2^31 ticks after it at most, and goes to sleep before the next; and meanwhile
no soft timer is started in front. -/
def Regular (s : State) : Event → Prop
  | .timers e => ∀ t ∈ starts s.timers e, Spans s.timers s.now s.deadline t ∧
    ((s.timers.timer t).soft → ∀ r ∈ s.reading, Behind (deadlineFrom s.now t s.timers) r)
  | .look => ∀ p ∈ s.timers.rtSoftTimerList.head?, (s.timers.timer p).timeoutTick ≠ tickMax
  | .getTick => Early s.now s.reading
  | .sleep => Prompt s.now s.reading
  | .tickless => ∀ p ∈ s.timers.rtTimerList.head?, (s.timers.timer p).timeoutTick ≠ tickMax
  | .detach _ => True

instance (deadline : ℕ) : (r : Reading) → Decidable (Behind deadline r)
  | .suspend => isFalse id
  | .timeout _ _ => inferInstanceAs (Decidable (_ ≤ _))
  | .delay _ _ _ => inferInstanceAs (Decidable (_ ≤ _))

instance (now : ℕ) : (r : Option Reading) → Decidable (Early now r)
  | some (.timeout _ _) => inferInstanceAs (Decidable (_ ∧ _))
  | some .suspend | some (.delay _ _ _) | none => isTrue trivial

instance (now : ℕ) : (r : Option Reading) → Decidable (Prompt now r)
  | some (.delay _ _ _) => inferInstanceAs (Decidable (_ = _))
  | some .suspend | some (.timeout _ _) | none => isTrue trivial

instance (s : State) : (e : Event) → Decidable (Regular s e)
  | .timers e => inferInstanceAs (Decidable (∀ t ∈ starts s.timers e,
      Spans s.timers s.now s.deadline t ∧
        ((s.timers.timer t).soft → ∀ r ∈ s.reading, Behind (deadlineFrom s.now t s.timers) r)))
  | .look => inferInstanceAs (Decidable
      (∀ p ∈ s.timers.rtSoftTimerList.head?, (s.timers.timer p).timeoutTick ≠ tickMax))
  | .getTick => inferInstanceAs (Decidable (Early s.now s.reading))
  | .sleep => inferInstanceAs (Decidable (Prompt s.now s.reading))
  | .tickless => inferInstanceAs (Decidable
      (∀ p ∈ s.timers.rtTimerList.head?, (s.timers.timer p).timeoutTick ≠ tickMax))
  | .detach _ => isTrue trivial

def Reading.Fits (s : State) : Reading → Prop
  | .suspend => s.timers.rtSoftTimerList = []
  | .timeout nextTimeout d => nextTimeout = BitVec.ofNat 32 d ∧ d < s.now + halfTickMax ∧
      ∀ p ∈ s.timers.rtSoftTimerList, d ≤ s.deadline p
  | .delay ticks d readAt => readAt + max ticks 1 ≤ d ∧
      ∀ p ∈ s.timers.rtSoftTimerList, d ≤ s.deadline p

structure Inv (s : State) : Prop where
  queue : SoftQueue s.timers s.now s.deadline
  reading : ∀ r ∈ s.reading, s.timers.soft = none ∧ r.Fits s

variable {s : State} {x : TimerSystem} {now : ℕ} {deadline : ℕ → ℕ}

structure Moves (x x' : TimerSystem) (now n : ℕ) (deadline : ℕ → ℕ) (started : Option ℕ) : Prop where
  queue : SoftQueue x' (now + n) (redated started now deadline x)
  list : ∀ p ∈ x'.rtSoftTimerList, p ∈ x.rtSoftTimerList ∧ started ≠ some p ∨
    started = some p ∧ (x.timer p).soft = true

theorem Moves.of_queue {x' : TimerSystem} {n : ℕ} (h : SoftQueue x' (now + n) deadline)
    (hlist : ∀ p ∈ x'.rtSoftTimerList, p ∈ x.rtSoftTimerList) : Moves x x' now n deadline none :=
  ⟨h, fun p hp ↦ .inl ⟨hlist p hp, by simp⟩⟩

theorem Moves.pass {x' : TimerSystem} {n : ℕ} {started : Option ℕ}
    (h : Moves x x' now n deadline started) (hard : Option HardPass) (soft : Option SoftPass)
    (fired : List ℕ) :
    Moves x { x' with hard := hard, soft := soft, fired := fired } now n deadline started :=
  ⟨h.queue.pass hard soft fired, h.list⟩

theorem moves_refl (h : SoftQueue x now deadline) : Moves x x now 0 deadline none :=
  .of_queue h fun _ hp ↦ hp

theorem moves_remove (h : SoftQueue x now deadline) (t : ℕ) :
    Moves x (rtTimerRemove t x) now 0 deadline none :=
  .of_queue (h.remove t) fun _ hp ↦ (h.mem_erase.mp hp).2

theorem moves_start (h : SoftQueue x now deadline) {t : ℕ} (hspan : Spans x now deadline t) :
    Moves x (rtTimerStart t x) now 0 deadline (some t) where
  queue := h.start hspan
  list p hp := by
    by_cases hboth : (x.timer t).soft = true ∧ (x.timer t).initTick.toNat < halfTickMax
    · rw [h.softList_start hboth.1 hboth.2 hspan, OrderedQueue.mem_insertBehind, h.mem_erase] at hp
      obtain rfl | ⟨hne, hmem⟩ := hp
      · exact .inr ⟨rfl, hboth.1⟩
      · exact .inl ⟨hmem, fun heq ↦ hne (Option.some.inj heq).symm⟩
    · rw [softList_start_of_not hboth, h.mem_erase] at hp
      exact .inl ⟨hp.2, fun heq ↦ hp.1 (Option.some.inj heq).symm⟩

theorem moves_restart (h : SoftQueue x now deadline) {t : ℕ}
    (hspan : ∀ u ∈ restarts t x, Spans x now deadline u) :
    Moves x (restart t x) now 0 deadline (restarts t x) := by
  by_cases hagain : (x.timer t).periodic = true ∧ (x.timer t).activated = true
  · have hstart : restarts t x = some t := if_pos hagain
    rw [restart, if_pos hagain, TimerFlag.start_deactivate, hstart]
    exact moves_start h (hspan t hstart)
  · rw [restart, if_neg hagain, restarts, if_neg hagain]
    exact .of_queue (h.deactivate t) fun p hp ↦ hp

theorem moves_softTurn (h : SoftQueue x now deadline) (n : Option ℕ) (currentTick : BitVec 32) :
    Moves x (softTurn n currentTick x) now 0 deadline none := by
  cases n with
  | none => exact (moves_refl h).pass _ _ _
  | some t =>
    rw [softTurn]
    split_ifs
    · exact (moves_remove h t).pass _ _ _
    · exact (moves_refl h).pass _ _ _

theorem moves_hardTurn (h : SoftQueue x now deadline) : Moves x (hardTurn x) now 0 deadline none := by
  rw [hardTurn]
  split
  · exact (moves_refl h).pass _ _ _
  · split_ifs
    · exact (moves_remove h _).pass _ _ _
    · exact (moves_refl h).pass _ _ _

theorem moves_call (h : SoftQueue x now deadline) {e : TimerPass.Event} {started : Option ℕ}
    (hstarted : started = match e with | .start t => some t | _ => none)
    (hspan : ∀ t ∈ started, Spans x now deadline t) :
    Moves x (call x e) now 0 deadline started := by
  subst hstarted
  cases e with
  | start t => exact moves_start h (hspan t rfl)
  | stop t =>
    refine .of_queue (h.stop t) ?_
    simp only [call, rtTimerStop]
    split_ifs
    · exact fun p hp ↦ (h.mem_erase.mp hp).2
    · exact fun p hp ↦ hp
  | control t cmd =>
    refine .of_queue (h.control t cmd) ?_
    cases cmd <;> exact fun p hp ↦ hp
  | _ => exact moves_refl h

theorem softPass_cases (pass : Option SoftPass) : pass = none ∨
    (∃ n currentTick, pass = some (.look n currentTick)) ∨ ∃ t n, pass = some (.calls t n) := by
  rcases pass with _ | ⟨n, currentTick⟩ | ⟨t, n⟩ <;> simp

theorem moves_step (h : SoftQueue x now deadline) {e : TimerPass.Event}
    (hspan : ∀ t ∈ starts x e, Spans x now deadline t) :
    Moves x (TimerPass.step x e) now (ticks x e) deadline (starts x e) := by
  cases hhalted : x.halted with
  | true =>
    simp only [TimerPass.step, starts, ticks, hhalted, if_true]
    exact moves_refl h
  | false =>
    simp only [TimerPass.step, starts, ticks, hhalted, Bool.false_eq_true, if_false] at hspan ⊢
    cases hhard : x.hard with
    | none =>
      simp only [hhard, turn] at hspan ⊢
      cases e with
      | start t => exact moves_call h (e := .start t) rfl hspan
      | stop t => exact moves_call h (e := .stop t) rfl hspan
      | control t cmd => exact moves_call h (e := .control t cmd) rfl hspan
      | tickIncrease => exact .of_queue h.tickIncrease fun p hp ↦ hp
      | hardCheck => exact (moves_refl h).pass _ _ _
      | hardTurn => exact moves_refl h
      | hardReturn => exact moves_refl h
      | softCheck =>
        simp only [outside]
        split
        · exact (moves_refl h).pass _ _ _
        · exact moves_refl h
      | softTurn =>
        simp only [outside]
        split
        · exact moves_softTurn h _ _
        · exact moves_refl h
      | softReturn =>
        obtain hsoft | ⟨n, currentTick, hsoft⟩ | ⟨t, n, hsoft⟩ := softPass_cases x.soft
        · simp only [outside, hsoft]
          exact moves_refl h
        · simp only [outside, hsoft]
          exact moves_refl h
        · simp only [outside, hsoft] at hspan ⊢
          exact (moves_restart h hspan).pass _ _ _
    | some pass =>
      cases pass with
      | look =>
        simp only [turn, hhard]
        cases e with
        | hardTurn => exact moves_hardTurn h
        | _ => exact moves_refl h
      | calls t =>
        simp only [hhard, turn] at hspan ⊢
        cases e with
        | start u => exact moves_call h (e := .start u) rfl hspan
        | stop u => exact moves_call h (e := .stop u) rfl hspan
        | control u cmd => exact moves_call h (e := .control u cmd) rfl hspan
        | hardReturn => exact (moves_restart h hspan).pass _ _ _
        | _ => exact moves_refl h

theorem soft_hardTurn (x : TimerSystem) : (hardTurn x).soft = x.soft := by
  rw [hardTurn]
  split
  · rfl
  · split_ifs <;> rfl

theorem soft_step {e : TimerPass.Event} (he : e ≠ .softCheck) (hsoft : x.soft = none) :
    (TimerPass.step x e).soft = none := by
  rw [TimerPass.step]
  split_ifs
  · exact hsoft
  cases hhard : x.hard with
  | none =>
    simp only [turn, hhard]
    cases e with
    | start t => exact (TimerFlag.samePass_call x _).soft.trans hsoft
    | stop t => exact (TimerFlag.samePass_call x _).soft.trans hsoft
    | control t cmd => exact (TimerFlag.samePass_call x _).soft.trans hsoft
    | softCheck => exact absurd rfl he
    | softTurn => simp only [outside, hsoft]
    | softReturn => simp only [outside, hsoft]
    | _ => exact hsoft
  | some pass =>
    cases pass with
    | calls t =>
      simp only [turn, hhard]
      cases e with
      | start t => exact (TimerFlag.samePass_call x _).soft.trans hsoft
      | stop t => exact (TimerFlag.samePass_call x _).soft.trans hsoft
      | control t cmd => exact (TimerFlag.samePass_call x _).soft.trans hsoft
      | hardReturn => exact (TimerFlag.samePass_restart t x).soft.trans hsoft
      | _ => exact hsoft
    | look =>
      simp only [turn, hhard]
      cases e with
      | hardTurn => exact (soft_hardTurn x).trans hsoft
      | _ => exact hsoft

def boot (initTick : ℕ → BitVec 32) (periodic soft : ℕ → Bool) : State :=
  ⟨rtTimerInit initTick periodic soft, 0, fun _ ↦ 0, fun _ ↦ true, none⟩

theorem inv_boot (initTick : ℕ → BitVec 32) (periodic soft : ℕ → Bool) :
    Inv (boot initTick periodic soft) where
  queue :=
    { tick := rfl
      nodup := List.nodup_nil
      timeout := fun p hp ↦ by cases hp
      ahead := fun p hp ↦ by cases hp
      sorted := List.Pairwise.nil }
  reading r hr := by cases hr

theorem SoftQueue.halt (h : SoftQueue x now deadline) :
    SoftQueue { x with halted := true } now deadline :=
  ⟨h.tick, h.nodup, h.timeout, h.ahead, h.sorted⟩

theorem Inv.halt (h : Inv s) : Inv s.halt where
  queue := SoftQueue.halt h.queue
  reading r hr := by
    obtain ⟨hsoft, hfits⟩ := h.reading r hr
    exact ⟨hsoft, by cases r <;> exact hfits⟩

theorem Reading.Fits.mono {r : Reading} {s' : State} (h : r.Fits s) (hnow : s.now ≤ s'.now)
    (hlist : ∀ p ∈ s'.timers.rtSoftTimerList, p ∈ s.timers.rtSoftTimerList ∧
      s'.deadline p = s.deadline p ∨ Behind (s'.deadline p) r) : r.Fits s' := by
  have hback {d : ℕ} (hfirst : ∀ p ∈ s.timers.rtSoftTimerList, d ≤ s.deadline p)
      (hd : ∀ e, Behind e r → d ≤ e) : ∀ p ∈ s'.timers.rtSoftTimerList, d ≤ s'.deadline p := by
    intro p hp
    obtain ⟨hmem, heq⟩ | hbehind := hlist p hp
    · rw [heq]
      exact hfirst p hmem
    · exact hd _ hbehind
  cases r with
  | suspend =>
    refine List.eq_nil_iff_forall_not_mem.mpr fun p hp ↦ ?_
    obtain ⟨hmem, -⟩ | hfalse := hlist p hp
    · rw [h] at hmem
      cases hmem
    · exact hfalse
  | timeout nextTimeout d =>
    exact ⟨h.1, Nat.lt_of_lt_of_le h.2.1 (Nat.add_le_add_right hnow _),
      hback h.2.2 fun e he ↦ he⟩
  | delay ticks d readAt => exact ⟨h.1, hback h.2 fun e he ↦ he⟩

theorem Inv.takes (h : Inv s) {e : TimerPass.Event} (hreg : Regular s (.timers e)) :
    Inv (takes s e) := by
  have hmoves := moves_step h.queue fun t ht ↦ (hreg t ht).1
  have hrun : s.reading = none ∨ e ≠ .softCheck → Inv { s with
      timers := TimerPass.step s.timers e
      now := s.now + ticks s.timers e
      deadline := redated (starts s.timers e) s.now s.deadline s.timers } := by
    refine fun hcheck ↦ ⟨hmoves.queue, fun r hr ↦ ?_⟩
    obtain hnone | he := hcheck
    · cases hnone.symm.trans hr
    obtain ⟨hsoft, hfits⟩ := h.reading r hr
    refine ⟨soft_step he hsoft, hfits.mono (Nat.le_add_right _ _) fun p hp ↦ ?_⟩
    obtain ⟨hmem, hne⟩ | ⟨hp, hkind⟩ := hmoves.list p hp
    · refine .inl ⟨hmem, ?_⟩
      cases hstart : starts s.timers e with
      | none => rfl
      | some t => exact deadline_of_ne fun heq ↦ hne (by rw [hstart, heq])
    · refine .inr ?_
      have hbehind := (hreg p hp).2 hkind r hr
      rw [hp]
      simp only [redated, Function.update_self]
      exact hbehind
  unfold TimerThread.takes
  split
  · exact h
  · rename_i hnot
    split_ifs
    · exact h.halt
    · refine hrun ?_
      cases hreading : s.reading with
      | none => exact .inl rfl
      | some r => exact .inr fun he ↦ hnot r he hreading

theorem Inv.detach (h : Inv s) (t : ℕ) : Inv (rtTimerDetach t s) := by
  unfold rtTimerDetach
  split_ifs
  · refine ⟨h.queue.remove t, fun r hr ↦ ?_⟩
    obtain ⟨hsoft, hfits⟩ := h.reading r hr
    exact ⟨hsoft, hfits.mono (Nat.le_refl _) fun p hp ↦ .inl ⟨(h.queue.mem_erase.mp hp).2, rfl⟩⟩
  · exact h.halt

theorem awake_soft (h : awake x = true) : x.soft = none := by
  simp only [awake, Bool.and_eq_true, Option.isNone_iff_eq_none] at h
  exact h.2

theorem Inv.look (h : Inv s) (hawake : awake s.timers = true) (hreg : Regular s .look) :
    Inv (rtThreadTimerEntryLook s) := by
  unfold rtThreadTimerEntryLook
  cases hlist : s.timers.rtSoftTimerList with
  | nil =>
    rw [if_pos (by rw [rtTimerListNextTimeout, hlist])]
    refine ⟨h.queue, ?_⟩
    rintro _ ⟨⟩
    exact ⟨awake_soft hawake, hlist⟩
  | cons p ps =>
    have hnext : rtTimerListNextTimeout s.timers = (s.timers.timer p).timeoutTick := by
      rw [rtTimerListNextTimeout, hlist]
    have hmem : p ∈ s.timers.rtSoftTimerList := by
      rw [hlist]
      exact List.mem_cons_self
    have hfirst := h.queue.sorted
    rw [hlist, List.pairwise_cons] at hfirst
    rw [hnext, if_neg (hreg p (by rw [hlist]; rfl))]
    refine ⟨h.queue, ?_⟩
    rintro _ ⟨⟩
    refine ⟨awake_soft hawake, h.queue.timeout p hmem, h.queue.ahead p hmem, fun q hq ↦ ?_⟩
    change q ∈ s.timers.rtSoftTimerList at hq
    rw [hlist] at hq
    obtain rfl | hq := List.mem_cons.mp hq
    · exact Nat.le_refl _
    · exact hfirst.1 q hq

theorem toNat_sub_deadline {d : ℕ} (hahead : d < now + halfTickMax) (hnow : now < d + 2 ^ 31)
    (hhalf : (BitVec.ofNat 32 d - BitVec.ofNat 32 now).toNat < halfTickMax) :
    now + (BitVec.ofNat 32 d - BitVec.ofNat 32 now).toNat = d := by
  have htick : halfTickMax = 2 ^ 31 - 1 := rfl
  have hle : now ≤ d := by
    by_contra hlt
    rw [SerialNumber.toNat_sub_of_lt (by omega) (by omega)] at hhalf
    omega
  rw [SerialNumber.toNat_sub_of_le hle (by omega)]
  omega

theorem Inv.getTick (h : Inv s) (hreg : Regular s .getTick) :
    Inv (rtThreadTimerEntryGetTick s) := by
  unfold rtThreadTimerEntryGetTick
  split
  · rename_i nextTimeout d hreading
    obtain ⟨hsoft, rfl, hahead, hfirst⟩ := h.reading _ hreading
    simp only [Regular, hreading, Early] at hreg
    split_ifs with hhalf
    · refine ⟨h.queue, ?_⟩
      rintro _ ⟨⟩
      rw [h.queue.tick] at hhalf ⊢
      have hticks := toNat_sub_deadline hahead hreg.2 hhalf
      exact ⟨hsoft, by omega, hfirst⟩
    · exact ⟨h.queue, fun r hr ↦ by cases hr⟩
  · exact h

theorem inv_step (s : State) (e : Event) (h : Inv s) (hreg : Regular s e) : Inv (step s e) := by
  cases e with
  | timers e => exact h.takes hreg
  | detach t =>
    rw [step]
    split_ifs
    · exact h.detach t
    · exact h
  | look =>
    rw [step]
    split_ifs with hawake
    · exact h.look hawake.1 hreg
    · exact h
  | getTick =>
    rw [step]
    split_ifs
    · exact h.getTick hreg
    · exact h
  | sleep =>
    rw [step]
    split_ifs
    · unfold rtThreadTimerEntrySleep
      split
      · exact h
      · exact ⟨h.queue, fun r hr ↦ by cases hr⟩
    · exact h
  | tickless => exact h

/-- A turn of the thread whose steps follow each other. -/
theorem timerEntry_eq (x : BlockedTakes.System) (now : ℕ) (deadline : ℕ → ℕ) (object : ℕ → Bool) :
    BlockedTakes.timerEntry x =
      match (rtThreadTimerEntryGetTick
        (rtThreadTimerEntryLook ⟨x.timers, now, deadline, object, none⟩)).reading with
      | some .suspend =>
        { x with threads := Waiting.suspendSelf BlockedTakes.timerThread .noTimer x.threads }
      | some (.delay _ _ _) =>
        { x with threads := Waiting.rtThreadSleep BlockedTakes.timerThread .delay x.threads }
      | _ => x := by
  unfold BlockedTakes.timerEntry rtThreadTimerEntryLook
  split_ifs with hmax hhalf
  · rfl
  · simp only [rtThreadTimerEntryGetTick, if_pos hhalf]
  · simp only [rtThreadTimerEntryGetTick, if_neg hhalf]

theorem ticks_run (n : ℕ) (initTick : ℕ → BitVec 32) (periodic soft : ℕ → Bool) :
    (List.replicate n (Event.timers .tickIncrease)).foldl step (boot initTick periodic soft) =
      { boot initTick periodic soft with
        timers := { rtTimerInit initTick periodic soft with tick := BitVec.ofNat 32 n }
        now := n } := by
  induction n with
  | zero => rfl
  | succ n ih =>
    rw [List.replicate_succ', List.foldl_append, ih, BitVec.ofNat_add]
    rfl

end GiantGecko.Rtos.TimerThread
