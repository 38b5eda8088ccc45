import GiantGecko.Rtos.TimerFlag
import GiantGecko.Rtos.TimerQueue

namespace GiantGecko.Rtos.SoftTimers

open Foundation Foundation.OrderedQueue TimerPass
open Timer (halfTickMax rowInsert Control)
open TimerFlag (set_timer_self set_timer_of_ne timer_insert insert_soft insert_hard start_deactivate)

/-- The soft timers that wait, in the order of their deadlines, which like `now` are
counted without end. -/
structure SoftQueue (s : TimerSystem) (now : ℕ) (deadline : ℕ → ℕ) : Prop where
  tick : s.tick = BitVec.ofNat 32 now
  nodup : s.rtSoftTimerList.Nodup
  timeout : ∀ p ∈ s.rtSoftTimerList, (s.timer p).timeoutTick = BitVec.ofNat 32 (deadline p)
  ahead : ∀ p ∈ s.rtSoftTimerList, deadline p < now + halfTickMax
  sorted : s.rtSoftTimerList.Pairwise fun a b ↦ deadline a ≤ deadline b

def deadlineFrom (now t : ℕ) (s : TimerSystem) : ℕ := now + (s.timer t).initTick.toNat

/-- A soft timer that is started has a deadline less than half the range of the tick
behind those of all that wait. -/
def Spans (s : TimerSystem) (now : ℕ) (deadline : ℕ → ℕ) (t : ℕ) : Prop :=
  (s.timer t).soft → (s.timer t).initTick.toNat < halfTickMax →
    ∀ p ∈ s.rtSoftTimerList, p ≠ t → deadlineFrom now t s < deadline p + halfTickMax

instance (s : TimerSystem) (now : ℕ) (deadline : ℕ → ℕ) (t : ℕ) :
    Decidable (Spans s now deadline t) :=
  inferInstanceAs (Decidable (_ → _ → ∀ p ∈ s.rtSoftTimerList, p ≠ t → _ < _))

def restarts (t : ℕ) (s : TimerSystem) : Option ℕ :=
  if (s.timer t).periodic ∧ (s.timer t).activated then some t else none

/-- The deadlines after a timer has been started, or none. -/
def redated (started : Option ℕ) (now : ℕ) (deadline : ℕ → ℕ) (s : TimerSystem) : ℕ → ℕ :=
  match started with
  | some t => Function.update deadline t (deadlineFrom now t s)
  | none => deadline

variable {s s' : TimerSystem} {now t p : ℕ} {deadline : ℕ → ℕ}

theorem SoftQueue.mem_erase (h : SoftQueue s now deadline) :
    p ∈ s.rtSoftTimerList.erase t ↔ p ≠ t ∧ p ∈ s.rtSoftTimerList := h.nodup.mem_erase_iff

theorem SoftQueue.shorten (h : SoftQueue s now deadline) (htick : s'.tick = s.tick)
    (hlist : s'.rtSoftTimerList.Sublist s.rtSoftTimerList)
    (htimer : ∀ p ∈ s'.rtSoftTimerList, (s'.timer p).timeoutTick = (s.timer p).timeoutTick) :
    SoftQueue s' now deadline where
  tick := htick.trans h.tick
  nodup := h.nodup.sublist hlist
  timeout p hp := (htimer p hp).trans (h.timeout p (hlist.subset hp))
  ahead p hp := h.ahead p (hlist.subset hp)
  sorted := h.sorted.sublist hlist

theorem SoftQueue.remove (h : SoftQueue s now deadline) (t : ℕ) :
    SoftQueue (rtTimerRemove t s) now deadline :=
  h.shorten rfl List.erase_sublist fun _ _ ↦ rfl

theorem timeoutTick_set {x : RtTimer} (hx : x.timeoutTick = (s.timer t).timeoutTick) (p : ℕ) :
    ((s.set t x).timer p).timeoutTick = (s.timer p).timeoutTick := by
  obtain rfl | hp := eq_or_ne p t
  · rw [set_timer_self, hx]
  · rw [set_timer_of_ne _ hp]

theorem SoftQueue.set (h : SoftQueue s now deadline) {x : RtTimer}
    (hx : x.timeoutTick = (s.timer t).timeoutTick) : SoftQueue (s.set t x) now deadline :=
  h.shorten rfl (List.Sublist.refl _) fun p _ ↦ timeoutTick_set hx p

theorem SoftQueue.deactivate (h : SoftQueue s now deadline) (t : ℕ) :
    SoftQueue (deactivate t s) now deadline := h.set rfl

theorem SoftQueue.stop (h : SoftQueue s now deadline) (t : ℕ) :
    SoftQueue (rtTimerStop t s).2 now deadline := by
  rw [rtTimerStop]
  split_ifs
  · exact (h.remove t).deactivate t
  · exact h

theorem SoftQueue.control (h : SoftQueue s now deadline) (t : ℕ) (cmd : Control) :
    SoftQueue (rtTimerControl t cmd s) now deadline := by
  cases cmd with
  | getTime => exact h
  | setTime time => exact h.set rfl
  | setOneshot => exact h.set rfl
  | setPeriodic => exact h.set rfl

theorem SoftQueue.tickIncrease (h : SoftQueue s now deadline) :
    SoftQueue { s with tick := s.tick + 1 } (now + 1) deadline where
  tick := by
    change s.tick + 1 = _
    rw [h.tick, BitVec.ofNat_add]
    rfl
  nodup := h.nodup
  timeout := h.timeout
  ahead p hp := Nat.lt_of_lt_of_le (h.ahead p hp) (by omega)
  sorted := h.sorted

theorem SoftQueue.pass (h : SoftQueue s now deadline) (hard : Option HardPass)
    (soft : Option SoftPass) (fired : List ℕ) :
    SoftQueue { s with hard := hard, soft := soft, fired := fired } now deadline :=
  ⟨h.tick, h.nodup, h.timeout, h.ahead, h.sorted⟩

def unlinked (t : ℕ) (s : TimerSystem) : TimerSystem :=
  (rtTimerRemove t s).set t
    { s.timer t with timeoutTick := s.tick + (s.timer t).initTick, activated := false }

theorem unlinked_self (t : ℕ) (s : TimerSystem) : (unlinked t s).timer t =
    { s.timer t with timeoutTick := s.tick + (s.timer t).initTick, activated := false } :=
  set_timer_self _

theorem start_eq (hinit : (s.timer t).initTick.toNat < halfTickMax) : rtTimerStart t s =
    (insert t (unlinked t s)).set t { (unlinked t s).timer t with activated := true } := by
  have hself : ((deactivate t (rtTimerRemove t s)).timer t) =
      { s.timer t with activated := false } := set_timer_self _
  have hset : (deactivate t (rtTimerRemove t s)).set t
      { s.timer t with timeoutTick := s.tick + (s.timer t).initTick, activated := false } =
      unlinked t s := by
    simp only [TimerPass.deactivate, unlinked, TimerSystem.set, Function.update_idem]
  simp only [rtTimerStart, hself, if_pos hinit, timer_insert]
  rw [← hset]
  rfl

theorem timer_start_of_ne (hp : p ≠ t) : (rtTimerStart t s).timer p = s.timer p := by
  simp only [rtTimerStart]
  split_ifs
  · rw [set_timer_of_ne _ hp, timer_insert, set_timer_of_ne _ hp, TimerPass.deactivate,
      set_timer_of_ne _ hp]
    rfl
  · exact set_timer_of_ne _ hp

theorem tick_start (t : ℕ) (s : TimerSystem) : (rtTimerStart t s).tick = s.tick := by
  simp only [rtTimerStart, TimerPass.insert]
  split_ifs <;> rfl

theorem timeoutTick_start (hinit : (s.timer t).initTick.toNat < halfTickMax) :
    ((rtTimerStart t s).timer t).timeoutTick = s.tick + (s.timer t).initTick := by
  rw [start_eq hinit, set_timer_self, unlinked_self]

theorem softList_start_of_not (h : ¬((s.timer t).soft = true ∧
    (s.timer t).initTick.toNat < halfTickMax)) :
    (rtTimerStart t s).rtSoftTimerList = s.rtSoftTimerList.erase t := by
  by_cases hinit : (s.timer t).initTick.toNat < halfTickMax
  · have hsoft : ((unlinked t s).timer t).soft = false := by
      rw [unlinked_self]
      exact Bool.eq_false_iff.mpr fun hsoft ↦ h ⟨hsoft, hinit⟩
    rw [start_eq hinit, insert_hard hsoft]
    rfl
  · have hself : ((TimerPass.deactivate t (rtTimerRemove t s)).timer t).initTick =
        (s.timer t).initTick := by
      rw [TimerPass.deactivate, set_timer_self]
      rfl
    simp only [rtTimerStart, hself, if_neg hinit]
    rfl

theorem softList_start (hsoft : (s.timer t).soft = true)
    (hinit : (s.timer t).initTick.toNat < halfTickMax) :
    (rtTimerStart t s).rtSoftTimerList =
      rowInsert (fun p ↦ ((rtTimerStart t s).timer p).timeoutTick) t (s.rtSoftTimerList.erase t) := by
  have hsoft' : ((unlinked t s).timer t).soft = true := by
    rw [unlinked_self]
    exact hsoft
  have htimeout (p : ℕ) : ((rtTimerStart t s).timer p).timeoutTick =
      ((unlinked t s).timer p).timeoutTick := by
    rw [start_eq hinit, timeoutTick_set (by rw [timer_insert]), timer_insert]
  simp only [htimeout]
  rw [start_eq hinit, insert_soft hsoft']
  rfl

theorem deadline_of_ne {d : ℕ} (hp : p ≠ t) : Function.update deadline t d p = deadline p :=
  Function.update_of_ne hp _ _

/-- A timer that is started waits behind those whose deadline is no later. -/
theorem SoftQueue.softList_start (h : SoftQueue s now deadline) (hsoft : (s.timer t).soft = true)
    (hinit : (s.timer t).initTick.toNat < halfTickMax) (hspan : Spans s now deadline t) :
    (rtTimerStart t s).rtSoftTimerList =
      insertBehind (fun p ↦ deadline p ≤ deadlineFrom now t s) t (s.rtSoftTimerList.erase t) := by
  rw [SoftTimers.softList_start hsoft hinit]
  refine TimerQueue.rowInsert_eq ?_ fun p hp ↦ ?_
  · rw [timeoutTick_start hinit, h.tick, deadlineFrom, BitVec.ofNat_add, BitVec.ofNat_toNat,
      BitVec.setWidth_eq]
  · obtain ⟨hne, hmem⟩ := h.mem_erase.mp hp
    have hahead := h.ahead p hmem
    have hafter := hspan hsoft hinit p hmem hne
    rw [timer_start_of_ne hne]
    exact ⟨h.timeout p hmem, by rw [deadlineFrom]; omega, by omega⟩

theorem SoftQueue.forget (h : SoftQueue s now deadline) (ht : t ∉ s.rtSoftTimerList) (d : ℕ) :
    SoftQueue s now (Function.update deadline t d) := by
  have hsame : ∀ p ∈ s.rtSoftTimerList, Function.update deadline t d p = deadline p := by
    intro p hp
    refine deadline_of_ne ?_
    rintro rfl
    exact ht hp
  refine ⟨h.tick, h.nodup, fun p hp ↦ ?_, fun p hp ↦ ?_, ?_⟩
  · rw [hsame p hp]
    exact h.timeout p hp
  · rw [hsame p hp]
    exact h.ahead p hp
  · refine h.sorted.imp_of_mem fun {a b} ha hb hab ↦ ?_
    rwa [hsame a ha, hsame b hb]

theorem SoftQueue.start_halted (h : SoftQueue s now deadline)
    (hinit : ¬(s.timer t).initTick.toNat < halfTickMax) :
    SoftQueue (rtTimerStart t s) now deadline := by
  have hlist := softList_start_of_not (s := s) (t := t) fun hboth ↦ hinit hboth.2
  refine h.shorten (tick_start t s) (by rw [hlist]; exact List.erase_sublist) fun p hp ↦ ?_
  rw [hlist] at hp
  rw [timer_start_of_ne (h.mem_erase.mp hp).1]

theorem SoftQueue.start (h : SoftQueue s now deadline) (hspan : Spans s now deadline t) :
    SoftQueue (rtTimerStart t s) now (Function.update deadline t (deadlineFrom now t s)) := by
  by_cases hinit : (s.timer t).initTick.toNat < halfTickMax
  case neg =>
    refine (h.start_halted hinit).forget ?_ _
    rw [softList_start_of_not fun hboth ↦ hinit hboth.2]
    exact fun hin ↦ (h.mem_erase.mp hin).1 rfl
  have hout : t ∉ s.rtSoftTimerList.erase t := fun hin ↦ (h.mem_erase.mp hin).1 rfl
  have hrest := (h.remove t).forget hout (deadlineFrom now t s)
  have hother : ∀ p ∈ s.rtSoftTimerList.erase t,
      ((rtTimerStart t s).timer p).timeoutTick = (s.timer p).timeoutTick := by
    intro p hp
    rw [timer_start_of_ne (h.mem_erase.mp hp).1]
  have hself : Function.update deadline t (deadlineFrom now t s) t = deadlineFrom now t s :=
    Function.update_self _ _ _
  by_cases hsoft : (s.timer t).soft = true
  · have hlist := h.softList_start hsoft hinit hspan
    refine ⟨(tick_start t s).trans h.tick, ?_, fun p hp ↦ ?_, fun p hp ↦ ?_, ?_⟩
    · rw [hlist, insertBehind_perm.nodup_iff, List.nodup_cons]
      exact ⟨hout, h.nodup.erase t⟩
    · rw [hlist, mem_insertBehind] at hp
      obtain rfl | hp := hp
      · rw [timeoutTick_start hinit, hself, h.tick, deadlineFrom, BitVec.ofNat_add,
          BitVec.ofNat_toNat, BitVec.setWidth_eq]
      · exact (hother p hp).trans (hrest.timeout p hp)
    · rw [hlist, mem_insertBehind] at hp
      obtain rfl | hp := hp
      · rw [hself, deadlineFrom]
        omega
      · exact hrest.ahead p hp
    · rw [hlist]
      refine pairwise_insertBehind hrest.sorted (fun y hy hle ↦ ?_) (fun y hy hle ↦ ?_)
        fun y hy z hz hyz hle ↦ ?_
      · rw [hself, deadline_of_ne (h.mem_erase.mp hy).1]
        exact of_decide_eq_true hle
      · rw [hself, deadline_of_ne (h.mem_erase.mp hy).1]
        exact Nat.le_of_lt (Nat.lt_of_not_le (of_decide_eq_false hle))
      · rw [deadline_of_ne (h.mem_erase.mp hy).1, deadline_of_ne (h.mem_erase.mp hz).1] at hyz
        exact decide_eq_true (Nat.le_trans hyz (of_decide_eq_true hle))
  · have hlist := softList_start_of_not fun hboth ↦ hsoft hboth.1
    refine hrest.shorten (tick_start t s) (by rw [hlist]; exact List.Sublist.refl _) fun p hp ↦ ?_
    rw [hlist] at hp
    exact hother p hp

theorem SoftQueue.restart (h : SoftQueue s now deadline)
    (hspan : ∀ u ∈ restarts t s, Spans s now deadline u) :
    SoftQueue (restart t s) now (redated (restarts t s) now deadline s) := by
  by_cases hagain : (s.timer t).periodic = true ∧ (s.timer t).activated = true
  · have hstart : restarts t s = some t := if_pos hagain
    rw [TimerPass.restart, if_pos hagain, start_deactivate, hstart]
    exact h.start (hspan t hstart)
  · rw [TimerPass.restart, if_neg hagain, restarts, if_neg hagain]
    exact h.deactivate t

end GiantGecko.Rtos.SoftTimers
