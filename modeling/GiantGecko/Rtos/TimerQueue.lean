import GiantGecko.Foundation.OrderedQueue
import GiantGecko.Foundation.SerialNumber
import GiantGecko.Rtos.Timer

namespace GiantGecko.Rtos.TimerQueue

open Foundation Foundation.OrderedQueue Timer

def deadline (due : ℕ → Option ℕ) (t : ℕ) : ℕ := (due t).getD 0

/-- The earlier deadline comes first, and of equal ones the earlier start. -/
def Before (s : TimerSystem) (due : ℕ → Option ℕ) (a b : ℕ) : Prop :=
  deadline due a < deadline due b ∨
    deadline due a = deadline due b ∧ (s.timer a).stamp < (s.timer b).stamp

/-- The list holds the timers that are due, in order, none further from the tick
`cur` than half the range of the counter. -/
structure Queue (s : TimerSystem) (due : ℕ → Option ℕ) (cur : ℕ) : Prop where
  tick : s.tick = BitVec.ofNat 32 cur
  mem : ∀ t, t ∈ s.list ↔ (due t).isSome
  active : ∀ t, (s.timer t).activated = true ↔ t ∈ s.list
  timeout : ∀ t ∈ s.list, (s.timer t).timeoutTick = BitVec.ofNat 32 (deadline due t)
  window : ∀ t ∈ s.list, cur ≤ deadline due t + 1 ∧ deadline due t + 1 < cur + 2 ^ 31
  stamp : ∀ t ∈ s.list, (s.timer t).stamp < s.randomNr
  sorted : s.list.Pairwise (Before s due)

def SameConfig (s s' : TimerSystem) : Prop :=
  ∀ t, (s'.timer t).initTick = (s.timer t).initTick ∧ (s'.timer t).periodic = (s.timer t).periodic

def removed (t : ℕ) (s : TimerSystem) : TimerSystem :=
  { s.set t { s.timer t with activated := false } with list := s.list.erase t }

variable {s : TimerSystem} {due : ℕ → Option ℕ} {cur t : ℕ}

theorem set_timer_self (x : RtTimer) : (s.set t x).timer t = x := Function.update_self _ _ _

theorem set_timer_of_ne (x : RtTimer) {p : ℕ} (hp : p ≠ t) : (s.set t x).timer p = s.timer p :=
  Function.update_of_ne hp _ _

theorem deadline_update_of_ne (d : Option ℕ) {p : ℕ} (hp : p ≠ t) :
    deadline (Function.update due t d) p = deadline due p := by
  rw [deadline, Function.update_of_ne hp, deadline]

theorem deadline_update_self (d : ℕ) : deadline (Function.update due t (some d)) t = d := by
  rw [deadline, Function.update_self, Option.getD_some]

theorem Queue.nodup (h : Queue s due cur) : s.list.Nodup := by
  refine h.sorted.imp ?_
  rintro a b hab rfl
  obtain hlt | ⟨-, hlt⟩ := hab <;> exact Nat.lt_irrefl _ hlt

theorem Queue.mem_erase (h : Queue s due cur) {p : ℕ} :
    p ∈ s.list.erase t ↔ p ≠ t ∧ p ∈ s.list := h.nodup.mem_erase_iff

theorem Queue.set (h : Queue s due cur) {x : RtTimer} (hactive : x.activated = (s.timer t).activated)
    (htimeout : x.timeoutTick = (s.timer t).timeoutTick) (hstamp : x.stamp = (s.timer t).stamp) :
    Queue (s.set t x) due cur := by
  have hsame (p : ℕ) : ((s.set t x).timer p).activated = (s.timer p).activated ∧
      ((s.set t x).timer p).timeoutTick = (s.timer p).timeoutTick ∧
      ((s.set t x).timer p).stamp = (s.timer p).stamp := by
    by_cases hp : p = t
    · subst hp
      rw [set_timer_self]
      exact ⟨hactive, htimeout, hstamp⟩
    · rw [set_timer_of_ne _ hp]
      exact ⟨rfl, rfl, rfl⟩
  refine ⟨h.tick, h.mem, ?_, ?_, h.window, ?_, ?_⟩
  · exact fun p ↦ by rw [(hsame p).1]; exact h.active p
  · exact fun p hp ↦ by rw [(hsame p).2.1]; exact h.timeout p hp
  · exact fun p hp ↦ by rw [(hsame p).2.2]; exact h.stamp p hp
  · refine h.sorted.imp fun {a b} hab ↦ ?_
    simp only [Before, (hsame a).2.2, (hsame b).2.2]
    exact hab

theorem removed_queue (h : Queue s due cur) :
    Queue (removed t s) (Function.update due t none) cur where
  tick := h.tick
  mem p := by
    rw [removed, h.mem_erase, h.mem]
    by_cases hp : p = t
    · subst hp
      simp
    · simp [hp]
  active p := by
    change ((s.set t _).timer p).activated = true ↔ p ∈ s.list.erase t
    rw [h.mem_erase]
    by_cases hp : p = t
    · subst hp
      simp [set_timer_self]
    · simp [set_timer_of_ne _ hp, h.active, hp]
  timeout p hmem := by
    obtain ⟨hp, hmem⟩ := h.mem_erase.mp hmem
    change ((s.set t _).timer p).timeoutTick = _
    rw [set_timer_of_ne _ hp, deadline_update_of_ne _ hp]
    exact h.timeout p hmem
  window p hmem := by
    obtain ⟨hp, hmem⟩ := h.mem_erase.mp hmem
    rw [deadline_update_of_ne _ hp]
    exact h.window p hmem
  stamp p hmem := by
    obtain ⟨hp, hmem⟩ := h.mem_erase.mp hmem
    change ((s.set t _).timer p).stamp < _
    rw [set_timer_of_ne _ hp]
    exact h.stamp p hmem
  sorted := by
    refine (h.sorted.sublist List.erase_sublist).imp_of_mem fun {a b} ha hb hab ↦ ?_
    obtain ⟨ha, -⟩ := h.mem_erase.mp ha
    obtain ⟨hb, -⟩ := h.mem_erase.mp hb
    change _ < _ ∨ _ = _ ∧ ((s.set t _).timer a).stamp < ((s.set t _).timer b).stamp
    rw [set_timer_of_ne _ ha, set_timer_of_ne _ hb, deadline_update_of_ne _ ha,
      deadline_update_of_ne _ hb]
    exact hab

theorem set_sameConfig {x : RtTimer} (hinit : x.initTick = (s.timer t).initTick)
    (hperiodic : x.periodic = (s.timer t).periodic) : SameConfig s (s.set t x) := by
  intro p
  by_cases hp : p = t
  · subst hp
    rw [set_timer_self]
    exact ⟨hinit, hperiodic⟩
  · rw [set_timer_of_ne _ hp]
    exact ⟨rfl, rfl⟩

theorem removed_sameConfig : SameConfig s (removed t s) := set_sameConfig rfl rfl

/-- Inside the window the walk compares the deadlines themselves. -/
theorem rowInsert_eq {timeout : ℕ → BitVec 32} {key : ℕ → ℕ} {d : ℕ} {l : List ℕ}
    (ht : timeout t = BitVec.ofNat 32 d)
    (hl : ∀ p ∈ l, timeout p = BitVec.ofNat 32 (key p) ∧ key p < d + halfTickMax ∧
      d ≤ key p + halfTickMax) :
    rowInsert timeout t l = insertBehind (fun p ↦ key p ≤ d) t l := by
  induction l with
  | nil => rfl
  | cons p ps ih =>
    obtain ⟨hp, hlt, hle⟩ := hl p List.mem_cons_self
    have ih := ih fun q hq ↦ hl q (List.mem_cons_of_mem p hq)
    have hhalf : halfTickMax = 2 ^ 31 - 1 := rfl
    rw [rowInsert, insertBehind, hp, ht, ih]
    by_cases hstay : key p ≤ d
    · rw [if_pos (decide_eq_true hstay)]
      by_cases heq : key p = d
      · rw [heq, BitVec.sub_self]
        rfl
      · rw [SerialNumber.toNat_sub_of_lt (by omega) (by omega), if_neg (by omega), if_neg (by omega)]
    · have hstay' : ¬decide (key p ≤ d) = true := by rwa [decide_eq_true_eq]
      rw [if_neg hstay', SerialNumber.toNat_sub_of_le (by omega) (by omega), if_neg (by omega),
        if_pos (by omega)]

theorem Before.le {a b : ℕ} (h : Before s due a b) : deadline due a ≤ deadline due b := by
  obtain hlt | ⟨heq, -⟩ := h
  · exact Nat.le_of_lt hlt
  · exact Nat.le_of_eq heq

def inserted (due : ℕ → Option ℕ) (d t : ℕ) (s : TimerSystem) : TimerSystem :=
  { s.set t (armed t s) with
    list := insertBehind (fun p ↦ deadline due p ≤ d) t s.list
    randomNr := s.randomNr + 1 }

theorem Queue.ne_of_mem (h : Queue s due cur) (hdue : due t = none) {p : ℕ} (hp : p ∈ s.list) :
    p ≠ t := by
  rintro rfl
  rw [h.mem, hdue] at hp
  cases hp

theorem Queue.armed_timeoutTick (h : Queue s due cur) (t : ℕ) :
    (armed t s).timeoutTick = BitVec.ofNat 32 (cur + (s.timer t).initTick.toNat) := by
  rw [BitVec.ofNat_add, BitVec.ofNat_toNat, BitVec.setWidth_eq, ← h.tick]
  rfl

theorem start_eq (h : Queue s due cur) (hdue : due t = none)
    (hinit : (s.timer t).initTick.toNat < halfTickMax) :
    rtTimerStart t s = some (inserted due (cur + (s.timer t).initTick.toNat) t s) := by
  have hhalf : halfTickMax = 2 ^ 31 - 1 := rfl
  have hnot : t ∉ s.list := fun hmem ↦ h.ne_of_mem hdue hmem rfl
  have hrow : rowInsert (fun p ↦ ((s.set t (armed t s)).timer p).timeoutTick) t s.list =
      insertBehind (fun p ↦ deadline due p ≤ cur + (s.timer t).initTick.toNat) t s.list := by
    apply rowInsert_eq
    · rw [set_timer_self, h.armed_timeoutTick]
    · intro p hp
      have hwin := h.window p hp
      rw [set_timer_of_ne _ (h.ne_of_mem hdue hp)]
      exact ⟨h.timeout p hp, by omega, by omega⟩
  rw [inserted, ← hrow]
  simp only [rtTimerStart, if_pos hinit, TimerSystem.set_list, List.erase_of_not_mem hnot,
    TimerSystem.set_randomNr]

theorem inserted_queue (h : Queue s due cur) (hdue : due t = none)
    (hinit : (s.timer t).initTick.toNat < halfTickMax) :
    Queue (inserted due (cur + (s.timer t).initTick.toNat) t s)
      (Function.update due t (some (cur + (s.timer t).initTick.toNat))) cur where
  tick := h.tick
  mem p := by
    rw [inserted, mem_insertBehind]
    by_cases hp : p = t
    · subst hp
      simp
    · simp [hp, h.mem]
  active p := by
    change ((s.set t _).timer p).activated = true ↔ p ∈ insertBehind _ t s.list
    rw [mem_insertBehind]
    by_cases hp : p = t
    · subst hp
      simp [set_timer_self, armed]
    · simp [set_timer_of_ne _ hp, hp, h.active]
  timeout p hmem := by
    change ((s.set t _).timer p).timeoutTick = _
    obtain rfl | hp := mem_insertBehind.mp hmem
    · rw [set_timer_self, deadline_update_self, h.armed_timeoutTick]
    · have hne := h.ne_of_mem hdue hp
      rw [set_timer_of_ne _ hne, deadline_update_of_ne _ hne, h.timeout p hp]
  window p hmem := by
    have hhalf : halfTickMax = 2 ^ 31 - 1 := rfl
    obtain rfl | hp := mem_insertBehind.mp hmem
    · rw [deadline_update_self]
      omega
    · rw [deadline_update_of_ne _ (h.ne_of_mem hdue hp)]
      exact h.window p hp
  stamp p hmem := by
    change ((s.set t _).timer p).stamp < s.randomNr + 1
    obtain rfl | hp := mem_insertBehind.mp hmem
    · rw [set_timer_self]
      exact Nat.lt_succ_self _
    · rw [set_timer_of_ne _ (h.ne_of_mem hdue hp)]
      exact Nat.lt_succ_of_lt (h.stamp p hp)
  sorted := by
    apply pairwise_insertBehind
    · refine h.sorted.imp_of_mem fun {a b} ha hb hab ↦ ?_
      have hat := h.ne_of_mem hdue ha
      have hbt := h.ne_of_mem hdue hb
      change _ < _ ∨ _ = _ ∧ ((s.set t _).timer a).stamp < ((s.set t _).timer b).stamp
      rw [set_timer_of_ne _ hat, set_timer_of_ne _ hbt, deadline_update_of_ne _ hat,
        deadline_update_of_ne _ hbt]
      exact hab
    · intro y hy hstay
      have hyt := h.ne_of_mem hdue hy
      rw [decide_eq_true_eq] at hstay
      change _ < _ ∨ _ = _ ∧ ((s.set t _).timer y).stamp < ((s.set t _).timer t).stamp
      rw [set_timer_self, set_timer_of_ne _ hyt, deadline_update_of_ne _ hyt, deadline_update_self]
      obtain hlt | heq := Nat.lt_or_eq_of_le hstay
      · exact .inl hlt
      · exact .inr ⟨heq, h.stamp y hy⟩
    · intro y hy hstay
      rw [decide_eq_false_iff_not, Nat.not_le] at hstay
      refine .inl ?_
      rwa [deadline_update_self, deadline_update_of_ne _ (h.ne_of_mem hdue hy)]
    · intro y hy z hz hyz hstay
      have hle := hyz.le
      rw [deadline_update_of_ne _ (h.ne_of_mem hdue hy), deadline_update_of_ne _
        (h.ne_of_mem hdue hz)] at hle
      rw [decide_eq_true_eq] at hstay ⊢
      exact Nat.le_trans hle hstay

theorem start_queue (h : Queue s due cur) (hdue : due t = none)
    (hinit : (s.timer t).initTick.toNat < halfTickMax) : ∃ s', rtTimerStart t s = some s' ∧
      Queue s' (Function.update due t (some (cur + (s.timer t).initTick.toNat))) cur ∧
      SameConfig s s' :=
  ⟨_, start_eq h hdue hinit, inserted_queue h hdue hinit, set_sameConfig rfl rfl⟩

theorem start_removed (h : Queue s due cur) (t : ℕ) :
    rtTimerStart t (removed t s) = rtTimerStart t s := by
  have harmed : (removed t s).set t (armed t (removed t s)) =
      { s.set t (armed t s) with list := s.list.erase t } := by
    simp only [removed, armed, TimerSystem.set, Function.update_self, Function.update_idem]
  have hinit : ((removed t s).timer t).initTick = (s.timer t).initTick :=
    (removed_sameConfig t).1
  have herase : (s.list.erase t).erase t = s.list.erase t := by
    apply List.erase_of_not_mem
    intro hmem
    exact (h.mem_erase.mp hmem).1 rfl
  simp only [rtTimerStart, hinit, harmed, herase]
  rfl

theorem SameConfig.trans {s' s'' : TimerSystem} (h : SameConfig s s') (h' : SameConfig s' s'') :
    SameConfig s s'' :=
  fun t ↦ ⟨(h' t).1.trans (h t).1, (h' t).2.trans (h t).2⟩

theorem restart_queue (h : Queue s due cur) (hinit : (s.timer t).initTick.toNat < halfTickMax) :
    ∃ s', rtTimerStart t s = some s' ∧
      Queue s' (Function.update due t (some (cur + (s.timer t).initTick.toNat))) cur ∧
      SameConfig s s' := by
  have hconfig := removed_sameConfig (s := s) (t := t)
  obtain ⟨s', hs', hq, hsame⟩ := start_queue (removed_queue (t := t) h) (Function.update_self _ _ _)
    (by rwa [(hconfig t).1])
  rw [start_removed h] at hs'
  rw [Function.update_idem, (hconfig t).1] at hq
  exact ⟨s', hs', hq, hconfig.trans hsame⟩

theorem expire_queue (h : Queue s due cur) (ht : t ∈ s.list)
    (hinit : (s.timer t).periodic → (s.timer t).initTick.toNat < halfTickMax) :
    ∃ s', expire t s = some s' ∧
      Queue s' (Function.update due t (if (s.timer t).periodic then
        some (cur + (s.timer t).initTick.toNat) else none)) cur ∧ SameConfig s s' := by
  have hexpire : expire t s = if (s.timer t).periodic then rtTimerStart t (removed t s)
      else some (removed t s) := by
    simp only [expire, (h.active t).mpr ht, Bool.and_true]
    rfl
  rw [hexpire]
  cases hper : (s.timer t).periodic with
  | false =>
    simp only [Bool.false_eq_true, if_false]
    exact ⟨_, rfl, removed_queue h, removed_sameConfig⟩
  | true =>
    simp only [if_true, start_removed h]
    exact restart_queue h (hinit hper)

end GiantGecko.Rtos.TimerQueue
