import GiantGecko.Pm.PowerManager
import Mathlib.Logic.Function.Iterate

namespace GiantGecko.Pm.Requests

open Foundation.Transition PowerManager

/-- The manager, the sleep mode that the loop of `_pm_select_sleep_mode` looks at
next, which interrupts are not kept out of, and how many requests of a mode have
not been released. -/
structure State where
  sys : System
  scan : Option ℕ
  outstanding : ℕ → ℕ

inductive Event
  | request (mode : ℕ)
  | release (mode : ℕ)
  | runEnter (mode : ℕ)
  | idle (suspended : Bool)

def reset : State := ⟨rtHwPmInit, none, fun _ ↦ 0⟩

/-- A turn of the loop, which ends with the mode that is selected. -/
def look (i : ℕ) (pm : RtPm) : Option ℕ :=
  if i < 6 then if pm.modes i ≠ 0 then some i else none else some pmDefaultSleep

def selected (s : State) : Event → Option ℕ
  | .idle _ => s.scan.bind fun i ↦ look i s.sys.pm
  | _ => none

section Step

variable (prodRev : ℕ)

def idle (suspended : Bool) (s : State) : State :=
  match s.scan with
  | none => { s with sys := pmFrequencyScaling prodRev s.sys, scan := some 0 }
  | some i =>
    match look i s.sys.pm with
    | none => { s with scan := some (i + 1) }
    | some mode =>
      { s with
        sys := pmChangeSleepMode prodRev mode suspended
          { s.sys with pm := { s.sys.pm with sleepMode := mode } }
        scan := none }

def step (s : State) (e : Event) : State :=
  if s.sys.chip.on then
    match e with
    | .request mode =>
      { s with
        sys := rtPmRequest mode s.sys
        outstanding := Function.update s.outstanding mode (s.outstanding mode + 1) }
    | .release mode =>
      { s with
        sys := rtPmRelease mode s.sys
        outstanding := Function.update s.outstanding mode (s.outstanding mode - 1) }
    | .runEnter mode => { s with sys := rtPmRunEnter prodRev mode s.sys }
    | .idle suspended => idle prodRev suspended s
  else s

/-- The shallowest mode with a request that has not been released, or the default. -/
def Shallowest (outstanding : ℕ → ℕ) (mode : ℕ) : Prop :=
  (mode < 6 ∧ outstanding mode ≠ 0 ∧ ∀ j < mode, outstanding j = 0) ∨
    mode = pmDefaultSleep ∧ ∀ j < 6, outstanding j = 0

/-- The right mode is selected, and `last_mode`, which is the mode that `ops->run`
was last called with, is one of the four that `run` handles. -/
def Exact (s : State) (e : Event) : Prop :=
  (∀ mode ∈ selected s e, Shallowest s.outstanding mode) ∧ (step prodRev s e).sys.lastMode < 4

end Step

/-- No mode is requested 256 times, or when the loop has just passed it, and
`PM_RUN_MODE_MAX` is not entered. -/
def Within (s : State) : Event → Prop
  | .request mode => mode < 6 → s.outstanding mode < 255 ∧ ∀ i ∈ s.scan, i ≤ mode
  | .runEnter mode => mode ≠ 4
  | _ => True

instance (s : State) (e : Event) : Decidable (Within s e) :=
  match e with
  | .request mode =>
    inferInstanceAs (Decidable (mode < 6 → s.outstanding mode < 255 ∧ ∀ i ∈ s.scan, i ≤ mode))
  | .runEnter mode => inferInstanceAs (Decidable (mode ≠ 4))
  | .release _ => isTrue trivial
  | .idle _ => isTrue trivial

structure Inv (s : State) : Prop where
  counts : ∀ mode < 6, s.sys.pm.modes mode = s.outstanding mode
  scanned : ∀ i ∈ s.scan, i ≤ 6 ∧ ∀ j < i, s.outstanding j = 0
  lastMode : s.sys.lastMode < 4
  runMode : s.sys.pm.runMode < 4

variable {prodRev : ℕ} {s : State}

theorem inv_reset : Inv reset where
  counts _ _ := rfl
  scanned i h := by cases h
  lastMode := by decide
  runMode := by decide

theorem look_of_lt {i : ℕ} (hi : i < 6) (pm : RtPm) :
    look i pm = if pm.modes i ≠ 0 then some i else none := if_pos hi

theorem look_of_le {i : ℕ} (hi : 6 ≤ i) (pm : RtPm) : look i pm = some pmDefaultSleep :=
  if_neg (Nat.not_lt.mpr hi)

theorem look_eq_none {i : ℕ} {pm : RtPm} : look i pm = none ↔ i < 6 ∧ pm.modes i = 0 := by
  obtain hi | hi := Nat.lt_or_ge i 6
  · simp [look_of_lt hi, hi]
  · simp [look_of_le hi, Nat.not_lt.mpr hi]

theorem look_eq_some {i mode : ℕ} {pm : RtPm} (h : look i pm = some mode) :
    i < 6 ∧ pm.modes i ≠ 0 ∧ mode = i ∨ 6 ≤ i ∧ mode = pmDefaultSleep := by
  obtain hi | hi := Nat.lt_or_ge i 6
  · rw [look_of_lt hi] at h
    split_ifs at h with hmode
    cases h
    exact .inl ⟨hi, hmode, rfl⟩
  · rw [look_of_le hi] at h
    cases h
    exact .inr ⟨hi, rfl⟩

@[simp] theorem run_modes (mode : ℕ) (sys : System) :
    (run prodRev mode sys).pm = sys.pm := by
  unfold run
  split_ifs <;> rfl

theorem run_lastMode {mode : ℕ} (hmode : mode < 4) {sys : System} (h : sys.lastMode < 4) :
    (run prodRev mode sys).lastMode < 4 := by
  unfold run
  split_ifs
  · exact h
  · exact hmode

theorem pmChangeSleepMode_eq (prodRev mode : ℕ) (suspended : Bool) (sys : System) :
    (pmChangeSleepMode prodRev mode suspended sys).pm = sys.pm ∧
      (pmChangeSleepMode prodRev mode suspended sys).lastMode = sys.lastMode := by
  unfold pmChangeSleepMode
  split_ifs <;> exact ⟨rfl, rfl⟩

theorem Inv.selected (h : Inv s) {e : Event} {mode : ℕ} (hmode : mode ∈ selected s e) :
    Shallowest s.outstanding mode := by
  cases e with
  | idle suspended =>
    obtain ⟨i, hi, hlook⟩ := Option.bind_eq_some_iff.mp hmode
    obtain ⟨hle, hpassed⟩ := h.scanned i hi
    obtain ⟨hlt, hne, rfl⟩ | ⟨hge, rfl⟩ := look_eq_some hlook
    · rw [h.counts mode hlt] at hne
      exact .inl ⟨hlt, hne, hpassed⟩
    · exact .inr ⟨rfl, fun j hj ↦ hpassed j (by omega)⟩
  | request mode => cases hmode
  | release mode => cases hmode
  | runEnter mode => cases hmode

theorem Inv.request (h : Inv s) {mode : ℕ} (hw : Within s (.request mode)) :
    Inv { s with
      sys := rtPmRequest mode s.sys
      outstanding := Function.update s.outstanding mode (s.outstanding mode + 1) } := by
  refine ⟨fun m hm ↦ ?_, fun i hi ↦ ?_, ?_, ?_⟩
  · obtain rfl | hne := eq_or_ne m mode
    · have hroom : m ≤ 5 ∧ s.sys.pm.modes m < 255 := by
        rw [h.counts m hm]
        exact ⟨by omega, (hw hm).1⟩
      simp only [rtPmRequest, if_pos hroom, Function.update_self]
      rw [h.counts m hm]
    · have hmodes : (rtPmRequest mode s.sys).pm.modes m = s.sys.pm.modes m := by
        unfold rtPmRequest
        split_ifs
        · exact Function.update_of_ne hne _ _
        · rfl
      rw [hmodes, h.counts m hm]
      exact (Function.update_of_ne hne _ _).symm
  · obtain ⟨hle, hpassed⟩ := h.scanned i hi
    refine ⟨hle, fun j hj ↦ ?_⟩
    have hne : j ≠ mode := by
      rintro rfl
      have hi := (hw (by omega)).2 i hi
      omega
    exact (Function.update_of_ne hne _ _).trans (hpassed j hj)
  · have hlast := h.lastMode
    unfold rtPmRequest
    split_ifs <;> exact hlast
  · have hrun := h.runMode
    unfold rtPmRequest
    split_ifs <;> exact hrun

theorem Inv.release (h : Inv s) (mode : ℕ) :
    Inv { s with
      sys := rtPmRelease mode s.sys
      outstanding := Function.update s.outstanding mode (s.outstanding mode - 1) } := by
  refine ⟨fun m hm ↦ ?_, fun i hi ↦ ?_, ?_, ?_⟩
  · obtain rfl | hne := eq_or_ne m mode
    · have hcount := h.counts m hm
      unfold rtPmRelease
      split_ifs with hpos
      · simp [hcount]
      · have hzero : s.sys.pm.modes m = 0 := by omega
        simp [hzero, ← hcount]
    · have hmodes : (rtPmRelease mode s.sys).pm.modes m = s.sys.pm.modes m := by
        unfold rtPmRelease
        split_ifs
        · exact Function.update_of_ne hne _ _
        · rfl
      rw [hmodes, h.counts m hm]
      exact (Function.update_of_ne hne _ _).symm
  · obtain ⟨hle, hpassed⟩ := h.scanned i hi
    refine ⟨hle, fun j hj ↦ ?_⟩
    obtain rfl | hne := eq_or_ne j mode
    · simp [hpassed j hj]
    · exact (Function.update_of_ne hne _ _).trans (hpassed j hj)
  · have hlast := h.lastMode
    unfold rtPmRelease
    split_ifs <;> exact hlast
  · have hrun := h.runMode
    unfold rtPmRelease
    split_ifs <;> exact hrun

theorem Inv.runEnter (h : Inv s) {mode : ℕ} (hmode : mode ≠ 4) :
    Inv { s with sys := rtPmRunEnter prodRev mode s.sys } := by
  unfold rtPmRunEnter
  split_ifs with hlarge hlower
  · exact h
  · refine ⟨fun m hm ↦ ?_, h.scanned, run_lastMode (by omega) h.lastMode, ?_⟩
    · simpa using h.counts m hm
    · change mode < 4
      omega
  · refine ⟨h.counts, h.scanned, h.lastMode, ?_⟩
    change mode < 4
    omega

theorem Inv.scaling (h : Inv s) :
    Inv { s with sys := pmFrequencyScaling prodRev s.sys, scan := some 0 } := by
  have hstart : ∀ i ∈ some 0, i ≤ 6 ∧ ∀ j < i, s.outstanding j = 0 := by
    rintro i ⟨⟩
    exact ⟨by omega, fun j hj ↦ absurd hj (by omega)⟩
  unfold pmFrequencyScaling
  split_ifs
  · refine ⟨fun m hm ↦ ?_, hstart, run_lastMode h.runMode h.lastMode, ?_⟩
    · simpa using h.counts m hm
    · simpa using h.runMode
  · exact ⟨h.counts, hstart, h.lastMode, h.runMode⟩

theorem Inv.idle (h : Inv s) (suspended : Bool) : Inv (idle prodRev suspended s) := by
  unfold Requests.idle
  cases hscan : s.scan with
  | none => exact h.scaling
  | some i =>
    obtain ⟨hle, hpassed⟩ := h.scanned i hscan
    dsimp only
    cases hlook : look i s.sys.pm with
    | none =>
      obtain ⟨hlt, hzero⟩ := look_eq_none.mp hlook
      refine ⟨h.counts, ?_, h.lastMode, h.runMode⟩
      rintro _ ⟨⟩
      refine ⟨hlt, fun j hj ↦ ?_⟩
      obtain hj | rfl := Nat.lt_succ_iff_lt_or_eq.mp hj
      · exact hpassed j hj
      · rw [← h.counts j hlt, hzero]
    | some mode =>
      obtain ⟨hpm, hlast⟩ := pmChangeSleepMode_eq prodRev mode suspended
        { s.sys with pm := { s.sys.pm with sleepMode := mode } }
      refine ⟨fun m hm ↦ ?_, (fun i hi ↦ by cases hi), ?_, ?_⟩
      · simpa only [hpm] using h.counts m hm
      · simpa only [hlast] using h.lastMode
      · simpa only [hpm] using h.runMode

theorem inv_step (s : State) (e : Event) (h : Inv s) (hw : Within s e) :
    Inv (step prodRev s e) := by
  unfold step
  split_ifs
  · cases e with
    | request mode => exact h.request hw
    | release mode => exact h.release mode
    | runEnter mode => exact h.runEnter hw
    | idle suspended => exact h.idle suspended
  · exact h

theorem look_select {i mode : ℕ} {pm : RtPm} (hpassed : ∀ j < i, pm.modes j = 0)
    (hi : i ≤ 6) (hlook : look i pm = some mode) : pmSelectSleepMode pm = mode := by
  unfold pmSelectSleepMode
  obtain ⟨hlt, hne, rfl⟩ | ⟨hge, rfl⟩ := look_eq_some hlook
  · have hfind : ((List.range 6).find? fun mode ↦ pm.modes mode ≠ 0) = some mode := by
      rw [List.find?_range_eq_some]
      refine ⟨by simpa using hne, List.mem_range.mpr hlt, fun j hj ↦ ?_⟩
      simpa using hpassed j hj
    rw [hfind]
    rfl
  · have hfind : ((List.range 6).find? fun mode ↦ pm.modes mode ≠ 0) = none := by
      rw [List.find?_range_eq_none]
      exact fun j hj ↦ by simpa using hpassed j (by omega)
    rw [hfind]
    rfl

theorem scan_pass (prodRev : ℕ) (suspended : Bool) {i n : ℕ} (hn : i + n = 6) (hscan : s.scan = some i)
    (hpassed : ∀ j < i, s.sys.pm.modes j = 0) : ∃ turns,
    (idle prodRev suspended)^[turns] s = ⟨pmChangeSleepMode prodRev
      (pmSelectSleepMode s.sys.pm) suspended
      { s.sys with pm := { s.sys.pm with sleepMode := pmSelectSleepMode s.sys.pm } },
      none, s.outstanding⟩ := by
  induction n generalizing s i with
  | zero =>
    have hlook : look i s.sys.pm = some pmDefaultSleep := look_of_le (by omega) s.sys.pm
    refine ⟨1, ?_⟩
    rw [look_select hpassed (by omega) hlook]
    simp only [Function.iterate_succ_apply, Function.iterate_zero_apply, idle, hscan, hlook]
  | succ n ih =>
    cases hlook : look i s.sys.pm with
    | none =>
      have hnext : idle prodRev suspended s = { s with scan := some (i + 1) } := by
        simp only [idle, hscan, hlook]
      obtain ⟨turns, hturns⟩ := ih (s := { s with scan := some (i + 1) }) (i := i + 1)
        (by omega) rfl fun j hj ↦ by
          obtain hj | rfl := Nat.lt_succ_iff_lt_or_eq.mp hj
          · exact hpassed j hj
          · exact (look_eq_none.mp hlook).2
      exact ⟨turns + 1, by rw [Function.iterate_succ_apply, hnext, hturns]⟩
    | some mode =>
      refine ⟨1, ?_⟩
      rw [look_select hpassed (by omega) hlook]
      simp only [Function.iterate_succ_apply, Function.iterate_zero_apply, idle, hscan, hlook]

/-- Where nothing is called meanwhile, the turns are a pass of `rt_system_power_manager`. -/
theorem idle_pass (suspended : Bool) (hscan : s.scan = none) : ∃ turns,
    (idle prodRev suspended)^[turns] s =
      { s with sys := rtSystemPowerManager prodRev suspended s.sys } := by
  have hnext : idle prodRev suspended s =
      { s with sys := pmFrequencyScaling prodRev s.sys, scan := some 0 } := by
    simp only [idle, hscan]
  obtain ⟨turns, hturns⟩ := scan_pass prodRev suspended (n := 6)
    (s := { s with sys := pmFrequencyScaling prodRev s.sys, scan := some 0 }) rfl rfl
    fun j hj ↦ absurd hj (Nat.not_lt_zero j)
  refine ⟨turns + 1, ?_⟩
  rw [Function.iterate_succ_apply, hnext, hturns, hscan]
  rfl

theorem exact_of_within (es : List Event) (h : Along (step prodRev) Within reset es) :
    Along (step prodRev) (Exact prodRev) reset es :=
  along_of_invariant inv_step
    (fun s e hs he ↦ ⟨fun _ hmode ↦ hs.selected hmode, (inv_step s e hs he).lastMode⟩)
    inv_reset h

theorem exact_of_within_requests : Along (step 19) (Exact 19) reset
    [.request 3, .runEnter 2, .request 2, .release 2, .idle true, .idle true, .request 7] :=
  exact_of_within _ ⟨by decide, by decide, by decide, trivial, trivial, trivial, by decide, trivial⟩

theorem lastMode_not_exact : ¬Along (step 19) (Exact 19) reset [.runEnter 4, .idle true] :=
  fun h ↦ absurd h.2.1.2 (by decide)

end GiantGecko.Pm.Requests
