import Mathlib.Algebra.Order.Ring.Nat
import Mathlib.Logic.Function.Iterate

namespace GiantGecko.Timers.UsDelay

def rtTickPerSecond : ℕ := 1000
def reloadMask : ℕ := 0xFFFFFF

/-- The `SysTick->LOAD` that `SysTick_Configuration` sets, `none` where
`SysTick_Config` refuses. -/
def sysTickConfiguration (coreClk : UInt32) : Option UInt32 :=
  let cnts := coreClk / UInt32.ofNat rtTickPerSecond
  if (cnts - 1).toNat > reloadMask then none else some (cnts - 1)

def countDown (reload v : ℕ) : ℕ := if v = 0 then reload else v - 1

/-- The loop of `rt_hw_us_delay`: each number of the list is how many
decrements pass until the next sample of the counter. The result is how many
have passed since the first sample when the function returns. -/
def delayLoop (reload ticks : ℕ) : ℕ → ℕ → ℕ → List ℕ → Option ℕ
  | _, _, _, [] => none
  | elapsed, told, tcnt, gap :: gaps =>
    let tnow := (countDown reload)^[gap] told
    if tnow ≠ told then
      let tcnt := (if tnow < told then tcnt + (told - tnow)
        else tcnt + (reload - tnow + told)) % 2 ^ 32
      if tcnt ≥ ticks then some (elapsed + gap)
      else delayLoop reload ticks (elapsed + gap) tnow tcnt gaps
    else delayLoop reload ticks (elapsed + gap) told tcnt gaps

/-- `rt_hw_us_delay`, the counter standing at `told` when it is first sampled.
The product of `us` and `reload` is one of 32 bits. -/
def rtHwUsDelay (us reload : UInt32) (told : ℕ) (gaps : List ℕ) : Option ℕ :=
  delayLoop reload.toNat ((us * reload).toNat / (1000000 / rtTickPerSecond)) 0 told 0 gaps

/-- However the counter is polled, at least once a period, the function returns
only when the time has passed. -/
def NeverEarly (us reload : UInt32) : Prop :=
  ∀ told ≤ reload.toNat, ∀ gaps : List ℕ, (∀ gap ∈ gaps, gap ≤ reload.toNat + 1) →
    ∀ elapsed ∈ rtHwUsDelay us reload told gaps, us.toNat * reload.toNat / 1000 ≤ elapsed

variable {reload ticks : ℕ}

theorem iterate_countDown {v : ℕ} (h : v ≤ reload) (gap : ℕ) :
    (countDown reload)^[gap] v ≤ reload ∧
      ∃ wraps, (countDown reload)^[gap] v + gap = v + wraps * (reload + 1) := by
  induction gap with
  | zero => exact ⟨h, 0, by simp⟩
  | succ gap ih =>
    obtain ⟨hle, wraps, hw⟩ := ih
    rw [Function.iterate_succ_apply', countDown]
    split_ifs with hzero
    · exact ⟨le_rfl, wraps + 1, by rw [Nat.succ_mul]; omega⟩
    · exact ⟨by omega, wraps, by omega⟩

theorem counted_le {told gap tcnt elapsed : ℕ} (h : told ≤ reload)
    (hne : (countDown reload)^[gap] told ≠ told) (htcnt : tcnt ≤ elapsed) :
    (if (countDown reload)^[gap] told < told then tcnt + (told - (countDown reload)^[gap] told)
      else tcnt + (reload - (countDown reload)^[gap] told + told)) % 2 ^ 32 ≤ elapsed + gap := by
  obtain ⟨hle, wraps, hw⟩ := iterate_countDown h gap
  refine (Nat.mod_le ..).trans ?_
  rcases Nat.eq_zero_or_pos wraps with rfl | hpos
  · split_ifs <;> omega
  · have := Nat.le_mul_of_pos_left (reload + 1) hpos
    split_ifs <;> omega

theorem le_of_delayLoop {gaps : List ℕ} {elapsed told tcnt result : ℕ} (htold : told ≤ reload)
    (htcnt : tcnt ≤ elapsed) (h : delayLoop reload ticks elapsed told tcnt gaps = some result) :
    ticks ≤ result := by
  induction gaps generalizing elapsed told tcnt with
  | nil => simp [delayLoop] at h
  | cons gap gaps ih =>
    obtain ⟨hle, -⟩ := iterate_countDown htold gap
    rw [delayLoop] at h
    dsimp only at h
    by_cases hne : (countDown reload)^[gap] told ≠ told
    · have hcounted := counted_le htold hne htcnt
      rw [if_pos hne] at h
      obtain ⟨hreached, h⟩ | ⟨-, h⟩ := ite_eq_iff.mp h
      · obtain rfl := Option.some.inj h
        exact hreached.trans hcounted
      · exact ih hle hcounted h
    · rw [if_neg hne] at h
      exact ih htold (by omega) h

theorem iterate_countDown_reload {gap : ℕ} (h : gap ≤ reload) :
    (countDown reload)^[gap] reload = reload - gap := by
  induction gap with
  | zero => rfl
  | succ gap ih =>
    rw [Function.iterate_succ_apply', ih (by omega), countDown, if_neg (by omega)]
    omega

def laps (reload rest : ℕ) : ℕ → List ℕ
  | 0 => [rest]
  | rounds + 1 => reload :: 1 :: laps reload rest rounds

theorem laps_le {rest : ℕ} (hrest : rest ≤ reload) (rounds : ℕ) :
    ∀ gap ∈ laps reload rest rounds, gap ≤ reload + 1 := by
  induction rounds with
  | zero => simp only [laps, List.mem_singleton, forall_eq]; omega
  | succ rounds ih =>
    simp only [laps, List.forall_mem_cons]
    exact ⟨by omega, by omega, ih⟩

theorem delayLoop_down {gap elapsed tcnt : ℕ} {gaps : List ℕ} (hpos : 0 < gap) (hgap : gap ≤ reload)
    (hfits : tcnt + gap < 2 ^ 32) :
    delayLoop reload ticks elapsed reload tcnt (gap :: gaps) =
      if ticks ≤ tcnt + gap then some (elapsed + gap)
      else delayLoop reload ticks (elapsed + gap) (reload - gap) (tcnt + gap) gaps := by
  have hlt : reload - gap < reload := by omega
  rw [delayLoop, iterate_countDown_reload hgap]
  dsimp only
  rw [if_pos hlt.ne, if_pos hlt, Nat.sub_sub_self hgap, Nat.mod_eq_of_lt hfits]

theorem delayLoop_wrap {elapsed tcnt : ℕ} {gaps : List ℕ} (hreload : 0 < reload)
    (hfits : tcnt < 2 ^ 32) :
    delayLoop reload ticks elapsed 0 tcnt (1 :: gaps) =
      if ticks ≤ tcnt then some (elapsed + 1)
      else delayLoop reload ticks (elapsed + 1) reload tcnt gaps := by
  have hnow : (countDown reload)^[1] 0 = reload := rfl
  rw [delayLoop, hnow]
  dsimp only
  rw [if_pos hreload.ne', if_neg (Nat.not_lt_zero _), Nat.sub_self, Nat.add_zero, Nat.add_zero,
    Nat.mod_eq_of_lt hfits]

/-- The decrement that reloads the counter is not counted, so every round takes
one longer than it counts. -/
theorem delayLoop_laps {rest : ℕ} (hpos : 0 < rest) (hrest : rest ≤ reload) (rounds : ℕ)
    {elapsed tcnt : ℕ} (hfits : tcnt + rounds * reload + rest < 2 ^ 32)
    (hbefore : 0 < rounds → tcnt + rounds * reload < ticks)
    (hreached : ticks ≤ tcnt + rounds * reload + rest) :
    delayLoop reload ticks elapsed reload tcnt (laps reload rest rounds) =
      some (elapsed + rounds * (reload + 1) + rest) := by
  induction rounds generalizing elapsed tcnt with
  | zero =>
    rw [Nat.zero_mul, Nat.add_zero] at hfits hreached
    rw [laps, delayLoop_down hpos hrest hfits, if_pos hreached, Nat.zero_mul, Nat.add_zero]
  | succ rounds ih =>
    have hbefore' := hbefore (by omega)
    rw [Nat.succ_mul] at hfits hbefore' hreached
    rw [laps, delayLoop_down (by omega) le_rfl (by omega), if_neg (by omega), Nat.sub_self,
      delayLoop_wrap (by omega) (by omega), if_neg (by omega),
      ih (by omega) (fun _ ↦ by omega) (by omega), Nat.succ_mul]
    congr 1
    omega

theorem target_eq (us reload : UInt32) : (us * reload).toNat / (1000000 / rtTickPerSecond) =
    us.toNat * reload.toNat % 2 ^ 32 / 1000 := by
  rw [UInt32.toNat_mul]
  rfl

theorem neverEarly_of_fits {us reload : UInt32} (h : us.toNat * reload.toNat < 2 ^ 32) :
    NeverEarly us reload := by
  intro told htold gaps _ elapsed helapsed
  rw [rtHwUsDelay, target_eq, Nat.mod_eq_of_lt h] at helapsed
  exact le_of_delayLoop htold (Nat.zero_le 0) helapsed

theorem early_of_overflow {us reload : UInt32} (h : 2 ^ 32 ≤ us.toNat * reload.toNat) :
    ¬ NeverEarly us reload := by
  intro hnever
  have hus := us.toNat_lt
  have hreload : 2 ≤ reload.toNat := by
    by_contra hsmall
    have := Nat.mul_le_mul_left us.toNat (show reload.toNat ≤ 1 by omega)
    omega
  -- the counts to reach, as rounds and a last one of at least 1
  obtain ⟨n, hn⟩ : ∃ n, us.toNat * reload.toNat % 2 ^ 32 / 1000 ≤ n + 1 ∧
      n ≤ us.toNat * reload.toNat % 2 ^ 32 / 1000 ∧
      (0 < n → n + 1 = us.toNat * reload.toNat % 2 ^ 32 / 1000) :=
    ⟨us.toNat * reload.toNat % 2 ^ 32 / 1000 - 1, by omega, by omega, by omega⟩
  have hsplit := Nat.div_add_mod' n reload.toNat
  have hrest := Nat.mod_lt n (show 0 < reload.toNat by omega)
  have hrounds : n / reload.toNat ≤ n / 2 := Nat.div_le_div_left hreload (by omega)
  have hzero : 0 < n / reload.toNat → 0 < n := fun hpos ↦ Nat.pos_of_ne_zero fun h0 ↦ by simp [h0] at hpos
  have hrun := hnever reload.toNat le_rfl (laps reload.toNat (n % reload.toNat + 1) (n / reload.toNat))
    (laps_le (by omega) _) (0 + n / reload.toNat * (reload.toNat + 1) + (n % reload.toNat + 1))
    (by
      rw [rtHwUsDelay, target_eq]
      exact delayLoop_laps (by omega) (by omega) _ (by omega) (fun hpos ↦ by have := hzero hpos; omega)
        (by omega))
  rw [Nat.mul_succ] at hrun
  omega

theorem neverEarly_iff (us reload : UInt32) :
    NeverEarly us reload ↔ us.toNat * reload.toNat < 2 ^ 32 :=
  ⟨fun h ↦ not_le.mp fun hover ↦ early_of_overflow hover h, neverEarly_of_fits⟩

/-- The flash driver's delay of 150 ms with a core clock of 48 MHz. -/
theorem flash_delay_early :
    ¬ ∀ coreClk us, ∀ reload ∈ sysTickConfiguration coreClk, NeverEarly us reload := by
  intro h
  have hdelay := h 48000000 (150 * 1024) 47999 rfl
  exact early_of_overflow (by decide) hdelay

end GiantGecko.Timers.UsDelay
