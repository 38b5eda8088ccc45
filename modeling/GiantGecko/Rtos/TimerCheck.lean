import GiantGecko.Rtos.TimerQueue
import Mathlib.Data.List.Perm.Subperm

namespace GiantGecko.Rtos.TimerQueue

open Foundation Timer

variable {s : TimerSystem} {due : ℕ → Option ℕ} {cur : ℕ}

/-- What is due once the loop has been through: a timer whose deadline has come
goes on from there if it is periodic. -/
def roll (s : TimerSystem) (due : ℕ → Option ℕ) (cur t : ℕ) : Option ℕ :=
  match due t with
  | some d =>
    if d ≤ cur then
      if (s.timer t).periodic then some (cur + (s.timer t).initTick.toNat) else none
    else some d
  | none => none

theorem roll_expire {s' : TimerSystem} {t : ℕ} (hsame : SameConfig s s')
    (hdue : ∃ d, due t = some d ∧ d ≤ cur)
    (hpos : (s.timer t).periodic → 0 < (s.timer t).initTick.toNat) :
    roll s' (Function.update due t (if (s.timer t).periodic then
      some (cur + (s.timer t).initTick.toNat) else none)) cur = roll s due cur := by
  obtain ⟨d, hd, hle⟩ := hdue
  funext p
  by_cases hp : p = t
  · subst hp
    simp only [roll, Function.update_self, hd, if_pos hle]
    cases hper : (s.timer p).periodic with
    | false => rfl
    | true =>
      have hpos := hpos hper
      simp only [if_true]
      rw [if_neg (by omega)]
  · simp only [roll, Function.update_of_ne hp, (hsame p).1, (hsame p).2]

theorem Queue.deadline_eq (h : Queue s due cur) {t : ℕ} (ht : t ∈ s.list) :
    due t = some (deadline due t) := by
  obtain ⟨d, hd⟩ := Option.isSome_iff_exists.mp ((h.mem t).mp ht)
  rw [deadline, hd, Option.getD_some]

theorem Queue.expired_iff (h : Queue s due cur) {t : ℕ} (ht : t ∈ s.list) :
    (s.tick - (s.timer t).timeoutTick).toNat < halfTickMax ↔ deadline due t ≤ cur := by
  have hwin := h.window t ht
  have hhalf : halfTickMax = 2 ^ 31 - 1 := rfl
  rw [h.tick, h.timeout t ht]
  by_cases hle : deadline due t ≤ cur
  · rw [SerialNumber.toNat_sub_of_le hle (by omega)]
    omega
  · rw [SerialNumber.toNat_sub_of_lt (by omega) (by omega)]
    omega

def expiredOf (due : ℕ → Option ℕ) (cur : ℕ) (l : List ℕ) : List ℕ :=
  l.filter fun t ↦ deadline due t ≤ cur

theorem mem_expiredOf {l : List ℕ} {t : ℕ} : t ∈ expiredOf due cur l ↔ t ∈ l ∧ deadline due t ≤ cur := by
  rw [expiredOf, List.mem_filter, decide_eq_true_eq]

theorem Queue.late (h : Queue s due cur) (hhead : ∀ t ts, s.list = t :: ts → cur < deadline due t) :
    ∀ t ∈ s.list, cur < deadline due t := by
  have hsorted := h.sorted
  cases hl : s.list with
  | nil => simp
  | cons p ps =>
    rw [hl] at hsorted
    have hp := hhead p ps hl
    intro t ht
    obtain rfl | ht := List.mem_cons.mp ht
    · exact hp
    · exact Nat.lt_of_lt_of_le hp ((List.pairwise_cons.mp hsorted).1 t ht).le

theorem check_stop (h : Queue s due cur) (hlate : ∀ t ∈ s.list, cur < deadline due t) (turns : ℕ) :
    rtTimerCheck (turns + 1) s = (some s, []) := by
  cases hl : s.list with
  | nil => simp only [rtTimerCheck, hl]
  | cons t ts =>
    have ht : t ∈ s.list := hl ▸ List.mem_cons_self
    have hstop : ¬(s.tick - (s.timer t).timeoutTick).toNat < halfTickMax := by
      rw [h.expired_iff ht, Nat.not_le]
      exact hlate t ht
    simp only [rtTimerCheck, hl, if_neg hstop]

theorem check_expire (h : Queue s due cur) {t : ℕ} {ts : List ℕ} (hl : s.list = t :: ts)
    (hle : deadline due t ≤ cur) {s' : TimerSystem} (hs' : expire t s = some s') (turns : ℕ) :
    rtTimerCheck (turns + 1) s = ((rtTimerCheck turns s').1, t :: (rtTimerCheck turns s').2) := by
  have ht : t ∈ s.list := hl ▸ List.mem_cons_self
  simp only [rtTimerCheck, hl, if_pos ((h.expired_iff ht).mpr hle), hs']

theorem roll_late (h : Queue s due cur) (hlate : ∀ t ∈ s.list, cur < deadline due t) :
    roll s due cur = due := by
  funext t
  rw [roll]
  cases hd : due t with
  | none => rfl
  | some d =>
    have hlt := hlate t ((h.mem t).mpr (by rw [hd]; rfl))
    rw [deadline, hd, Option.getD_some] at hlt
    simp only [if_neg (Nat.not_le.mpr hlt)]

theorem mem_expiredOf_of_ne {s' : TimerSystem} {t : ℕ} {d : Option ℕ} (h : Queue s due cur)
    (h' : Queue s' (Function.update due t d) cur) {p : ℕ} (hp : p ≠ t) :
    p ∈ expiredOf (Function.update due t d) cur s'.list ↔ p ∈ expiredOf due cur s.list := by
  rw [mem_expiredOf, mem_expiredOf, h'.mem, h.mem, Function.update_of_ne hp,
    deadline_update_of_ne _ hp]

theorem mem_expiredOf_self {s' : TimerSystem} {t : ℕ} {d : Option ℕ}
    (h' : Queue s' (Function.update due t d) cur) :
    t ∈ expiredOf (Function.update due t d) cur s'.list ↔ ∃ x, d = some x ∧ x ≤ cur := by
  rw [mem_expiredOf, h'.mem, deadline, Function.update_self]
  cases d <;> simp

theorem length_lt_of_taken {l l' : List ℕ} {t : ℕ} (hnodup : l'.Nodup) (ht : t ∈ l)
    (hsub : ∀ p ∈ l', p ≠ t ∧ p ∈ l) : l'.length < l.length := by
  have hcons : (t :: l').Nodup := List.nodup_cons.mpr ⟨fun hmem ↦ (hsub t hmem).1 rfl, hnodup⟩
  have hall : t :: l' ⊆ l := List.cons_subset.mpr ⟨ht, fun p hp ↦ (hsub p hp).2⟩
  exact (List.subperm_of_subset hcons hall).length_le

/-- The loop calls the function of each timer whose deadline has come once and
starts the periodic ones again; it needs a turn for each and one to stop. -/
theorem check_returns (h : Queue s due cur) {turns : ℕ}
    (hinit : ∀ t ∈ expiredOf due cur s.list, (s.timer t).periodic →
      0 < (s.timer t).initTick.toNat ∧ (s.timer t).initTick.toNat < halfTickMax)
    (hturns : (expiredOf due cur s.list).length < turns) :
    ∃ s' calls, rtTimerCheck turns s = (some s', calls) ∧ Queue s' (roll s due cur) cur ∧
      SameConfig s s' ∧ (∀ t ∈ s'.list, cur < deadline (roll s due cur) t) ∧
      ∀ t, calls.count t = if t ∈ expiredOf due cur s.list then 1 else 0 := by
  induction turns generalizing s due with
  | zero => exact absurd hturns (Nat.not_lt_zero _)
  | succ turns ih =>
    by_cases hsome : ∃ t ts, s.list = t :: ts ∧ deadline due t ≤ cur
    · obtain ⟨t, ts, hl, hle⟩ := hsome
      have ht : t ∈ s.list := hl ▸ List.mem_cons_self
      have hexp : t ∈ expiredOf due cur s.list := mem_expiredOf.mpr ⟨ht, hle⟩
      obtain ⟨s₁, hs₁, hq, hsame⟩ := expire_queue h ht fun hper ↦ (hinit t hexp hper).2
      set d := if (s.timer t).periodic then some (cur + (s.timer t).initTick.toNat) else none with hd
      have hlater : ∀ x, d = some x → cur < x := by
        intro x hx
        rw [hd] at hx
        split_ifs at hx with hper
        have hpos := (hinit t hexp hper).1
        cases hx
        omega
      have hmem {p : ℕ} : p ∈ expiredOf (Function.update due t d) cur s₁.list ↔
          p ≠ t ∧ p ∈ expiredOf due cur s.list := by
        by_cases hp : p = t
        · subst hp
          rw [mem_expiredOf_self hq]
          constructor
          · rintro ⟨x, hx, hle⟩
            exact absurd hle (Nat.not_le.mpr (hlater x hx))
          · exact fun hself ↦ absurd rfl hself.1
        · rw [mem_expiredOf_of_ne h hq hp]
          exact (and_iff_right hp).symm
      have hlen : (expiredOf (Function.update due t d) cur s₁.list).length < turns := by
        have hnodup : (expiredOf (Function.update due t d) cur s₁.list).Nodup := hq.nodup.filter _
        have hshort := length_lt_of_taken hnodup hexp fun p hp ↦ hmem.mp hp
        omega
      obtain ⟨s', calls, hcheck, hq', hsame', hlate, hcount⟩ := ih hq (by
        intro p hp hper
        obtain ⟨-, hp⟩ := hmem.mp hp
        rw [(hsame p).2] at hper
        rw [(hsame p).1]
        exact hinit p hp hper) hlen
      rw [roll_expire hsame ⟨_, h.deadline_eq ht, hle⟩ fun hper ↦ (hinit t hexp hper).1] at hq' hlate
      refine ⟨s', t :: calls, ?_, hq', hsame.trans hsame', hlate, fun p ↦ ?_⟩
      · rw [check_expire h hl hle hs₁, hcheck]
      · rw [List.count_cons, hcount]
        by_cases hp : p = t
        · subst hp
          simp [hmem, hexp]
        · simp [hmem, hp, Ne.symm hp]
    · have hlate := h.late fun t ts hl ↦ Nat.lt_of_not_le fun hle ↦ hsome ⟨t, ts, hl, hle⟩
      have hnone : expiredOf due cur s.list = [] := by
        rw [expiredOf, List.filter_eq_nil_iff]
        intro t ht hle
        exact absurd (hlate t ht) (Nat.not_lt.mpr (of_decide_eq_true hle))
      rw [roll_late h hlate]
      exact ⟨s, [], check_stop h hlate turns, h, fun t ↦ ⟨rfl, rfl⟩, hlate, fun t ↦ by simp [hnone]⟩

/-- A periodic timer of no ticks runs out again at once: the loop does not end, and no
timer whose deadline is still to come has its turn. -/
theorem check_hangs (h : Queue s due cur) {z : ℕ} (hz : z ∈ expiredOf due cur s.list)
    (hper : (s.timer z).periodic = true) (hzero : (s.timer z).initTick.toNat = 0)
    (hinit : ∀ t ∈ expiredOf due cur s.list, (s.timer t).periodic →
      (s.timer t).initTick.toNat < halfTickMax) (turns : ℕ) :
    (rtTimerCheck turns s).1 = none ∧ ∀ t ∈ (rtTimerCheck turns s).2, t ∈ expiredOf due cur s.list := by
  induction turns generalizing s due with
  | zero => exact ⟨rfl, fun t ht ↦ by cases ht⟩
  | succ turns ih =>
    obtain ⟨hzl, hzle⟩ := mem_expiredOf.mp hz
    cases hl : s.list with
    | nil =>
      rw [hl] at hzl
      cases hzl
    | cons t ts =>
      have ht : t ∈ s.list := hl ▸ List.mem_cons_self
      have hle : deadline due t ≤ cur := by
        by_contra hlt
        have hlate := h.late fun p ps hl' ↦ by
          obtain ⟨rfl, -⟩ := List.cons.inj (hl.symm.trans hl')
          exact Nat.lt_of_not_le hlt
        exact absurd hzle (Nat.not_le.mpr (hlate z hzl))
      have hexp : t ∈ expiredOf due cur s.list := mem_expiredOf.mpr ⟨ht, hle⟩
      obtain ⟨s₁, hs₁, hq, hsame⟩ := expire_queue h ht (hinit t hexp)
      set d := if (s.timer t).periodic then some (cur + (s.timer t).initTick.toNat) else none with hd
      have hold : ∀ p ∈ expiredOf (Function.update due t d) cur s₁.list,
          p ∈ expiredOf due cur s.list := by
        intro p hp
        by_cases hpt : p = t
        · rwa [hpt]
        · exact (mem_expiredOf_of_ne h hq hpt).mp hp
      have hrest : (rtTimerCheck turns s₁).1 = none ∧ ∀ p ∈ (rtTimerCheck turns s₁).2,
          p ∈ expiredOf (Function.update due t d) cur s₁.list := by
        apply ih hq
        · by_cases hzt : z = t
          · subst hzt
            refine (mem_expiredOf_self hq).mpr ⟨cur, ?_, Nat.le_refl cur⟩
            rw [hd, if_pos hper, hzero, Nat.add_zero]
          · exact (mem_expiredOf_of_ne h hq hzt).mpr hz
        · rwa [(hsame z).2]
        · rwa [(hsame z).1]
        · intro p hp hper'
          rw [(hsame p).2] at hper'
          rw [(hsame p).1]
          exact hinit p (hold p hp) hper'
      rw [check_expire h hl hle hs₁, ← hl]
      refine ⟨hrest.1, fun p hp ↦ ?_⟩
      obtain rfl | hp := List.mem_cons.mp hp
      · exact hexp
      · exact hold p (hrest.2 p hp)

end GiantGecko.Rtos.TimerQueue
