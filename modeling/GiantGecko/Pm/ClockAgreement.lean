import GiantGecko.Pm.PowerManager
import Mathlib.Tactic.IntervalCases

namespace GiantGecko.Pm.ClockAgreement

open Foundation.Transition PowerManager

def Serves (c : Cmu) : ℕ → Prop
  | 0 => c.source = .hfxo
  | 1 => c = ⟨.hfrco, .mhz28⟩
  | 2 => c = ⟨.hfrco, .mhz11⟩
  | 3 => c = ⟨.hfrco, .mhz1⟩
  | _ => False

inductive Event
  | runEnter (mode : Fin 4)
  | request (mode : ℕ)
  | release (mode : ℕ)
  | idle (suspended : Bool)

structure State where
  sys : System
  requested : Option ℕ

def reset : State := ⟨rtHwPmInit, none⟩

variable (prodRev : ℕ)

def step (s : State) (e : Event) : State :=
  if s.sys.chip.on then
    match e with
    | .runEnter mode => ⟨rtPmRunEnter prodRev mode s.sys, some mode⟩
    | .request mode => ⟨rtPmRequest mode s.sys, s.requested⟩
    | .release mode => ⟨rtPmRelease mode s.sys, s.requested⟩
    | .idle suspended => ⟨rtSystemPowerManager prodRev suspended s.sys, s.requested⟩
  else s

/-- The clock serves the run mode asked for and the tick is cut from it. -/
def Settled (s : State) : Prop :=
  (∀ mode, s.requested = some mode → Serves s.sys.chip.cmu mode) ∧
    s.sys.chip.reload = systemCoreClockGet prodRev s.sys.chip.cmu / rtTickPerSecond

def Agrees (s : State) (e : Event) : Prop :=
  ∀ suspended, e = .idle suspended → (step prodRev s e).sys.chip.on → Settled prodRev (step prodRev s e)

def slept (suspended : Bool) (pm : RtPm) : ℕ := if suspended then pmSelectSleepMode pm else 0

/-- An idle pass that returns finds the HFXO still selected if the high speed is
asked for, goes to light sleep only at low speed or before any request, and to
standby only from the HFRCO. -/
def Harmless (s : State) : Event → Prop
  | .idle suspended =>
    s.sys.chip.on → slept suspended s.sys.pm ≠ 5 →
      (s.requested = some 0 → s.sys.chip.cmu.source = .hfxo) ∧
      (slept suspended s.sys.pm = 2 → s.requested = none ∨ s.requested = some 3) ∧
      (slept suspended s.sys.pm = 4 → s.requested ≠ some 0 ∧
        (s.requested = none → s.sys.chip.cmu.source = .hfrco))
  | _ => True

/-- `lastMode` is the run mode asked for unless its change is pending, and says
what the clock serves unless it is still 0. -/
structure Inv (s : State) : Prop where
  reload : s.sys.chip.reload = systemCoreClockGet prodRev s.sys.chip.cmu / rtTickPerSecond
  fresh : s.requested = none →
    s.sys.lastMode = 0 ∧ s.sys.pm.frequencyPending = false ∧ s.sys.pm.runMode = 1
  asked : ∀ mode, s.requested = some mode → mode < 4 ∧ s.sys.pm.runMode = mode ∧
    (s.sys.lastMode = mode ∨ s.sys.pm.frequencyPending = true ∧ mode ≠ 0)
  cached : s.sys.lastMode ≠ 0 → Serves s.sys.chip.cmu s.sys.lastMode

variable {prodRev} {s : State}

theorem inv_reset : Inv prodRev reset where
  reload := by norm_num [reset, rtHwPmInit, systemCoreClockGet, rtTickPerSecond]
  fresh _ := ⟨rfl, rfl, rfl⟩
  asked mode h := by cases h
  cached h := absurd rfl h

variable (prodRev) in
theorem run_of_ne {mode : ℕ} (hmode : mode < 4) {sys : System} (hne : mode ≠ sys.lastMode) :
    ∃ chip, run prodRev mode sys = { sys with lastMode := mode, chip := chip } ∧
      Serves chip.cmu mode ∧ chip.on = sys.chip.on ∧
      chip.reload = systemCoreClockGet prodRev chip.cmu / rtTickPerSecond := by
  refine ⟨(run prodRev mode sys).chip, ?_⟩
  unfold run
  rw [if_neg hne]
  interval_cases mode <;> exact ⟨rfl, rfl, rfl, rfl⟩

theorem Inv.scaling (h : Inv prodRev s) : ∃ sys, pmFrequencyScaling prodRev s.sys = sys ∧
    Inv prodRev ⟨sys, s.requested⟩ ∧ sys.pm.modes = s.sys.pm.modes ∧
    sys.chip.on = s.sys.chip.on ∧ (∀ mode, s.requested = some mode → sys.lastMode = mode) ∧
    (s.requested = none ∨ s.requested = some 0 → sys.chip = s.sys.chip) := by
  refine ⟨_, rfl, ?_⟩
  cases hpending : s.sys.pm.frequencyPending with
  | false =>
    have hsame : pmFrequencyScaling prodRev s.sys = s.sys := by
      simp only [pmFrequencyScaling, hpending, Bool.false_eq_true, if_false]
    rw [hsame]
    refine ⟨h, rfl, rfl, fun mode hmode ↦ ?_, fun _ ↦ rfl⟩
    obtain hlast | ⟨hpend, -⟩ := (h.asked mode hmode).2.2
    · exact hlast
    · rw [hpending] at hpend
      cases hpend
  | true =>
    cases hreq : s.requested with
    | none =>
      have hfalse := (h.fresh hreq).2.1
      rw [hpending] at hfalse
      cases hfalse
    | some mode =>
      obtain ⟨hlt, hrun, hlast⟩ := h.asked mode hreq
      by_cases heq : mode = s.sys.lastMode
      · have hsys : pmFrequencyScaling prodRev s.sys =
            { s.sys with pm := { s.sys.pm with frequencyPending := false } } := by
          simp only [pmFrequencyScaling, hpending, if_true, hrun, run, if_pos heq]
        rw [hsys]
        refine ⟨⟨h.reload, (fun hnone ↦ by cases hnone), ?_, h.cached⟩, rfl, rfl, ?_, fun _ ↦ rfl⟩
        · intro mode' hmode'
          cases hmode'
          exact ⟨hlt, hrun, .inl heq.symm⟩
        · intro mode' hmode'
          cases hmode'
          exact heq.symm
      · obtain ⟨chip, hchip, hserves, hon, hreload⟩ := run_of_ne prodRev hlt heq
        have hsys : pmFrequencyScaling prodRev s.sys = ⟨{ s.sys.pm with frequencyPending := false },
            mode, chip⟩ := by
          simp only [pmFrequencyScaling, hpending, if_true, hrun, hchip]
        rw [hsys]
        refine ⟨⟨hreload, (fun hnone ↦ by cases hnone), ?_, fun _ ↦ hserves⟩, rfl, hon, ?_, ?_⟩
        · intro mode' hmode'
          cases hmode'
          exact ⟨hlt, hrun, .inl rfl⟩
        · intro mode' hmode'
          cases hmode'
          rfl
        · intro hzero
          obtain hzero | hzero := hzero
          · cases hzero
          · cases hzero
            obtain hlast | ⟨-, hne⟩ := hlast
            · exact absurd hlast.symm heq
            · exact absurd rfl hne

theorem pmSelectSleepMode_lt (pm : RtPm) : pmSelectSleepMode pm < 6 := by
  rw [pmSelectSleepMode]
  cases hfind : (List.range 6).find? fun mode ↦ pm.modes mode ≠ 0 with
  | none => decide
  | some mode => exact List.mem_range.mp (List.mem_of_find?_eq_some hfind)

theorem slept_lt (suspended : Bool) (pm : RtPm) : slept suspended pm < 6 := by
  cases suspended with
  | false => exact Nat.succ_pos 5
  | true => exact pmSelectSleepMode_lt pm

theorem sleep_on (c : Chip) {mode : ℕ} (hmode : mode < 6) (hshut : mode ≠ 5) :
    (sleep prodRev mode c).on = c.on := by
  interval_cases mode <;> first | rfl | exact absurd rfl hshut

theorem step_idle (h : Inv prodRev s) (hon : s.sys.chip.on) (suspended : Bool) :
    ∃ sys, pmFrequencyScaling prodRev s.sys = sys ∧ step prodRev s (.idle suspended) =
      ⟨{ sys with
          pm := { sys.pm with sleepMode := pmSelectSleepMode s.sys.pm }
          chip := sleep prodRev (slept suspended s.sys.pm) sys.chip }, s.requested⟩ := by
  obtain ⟨sys, hsys, -, hmodes, -⟩ := h.scaling
  have hselect : pmSelectSleepMode sys.pm = pmSelectSleepMode s.sys.pm := by
    simp only [pmSelectSleepMode, hmodes]
  refine ⟨sys, hsys, ?_⟩
  simp only [step, hon, if_true, rtSystemPowerManager, hsys, hselect, pmChangeSleepMode, slept]
  cases suspended with
  | true => simp only [or_true, if_true]
  | false =>
    simp only [Bool.false_eq_true, or_false, if_false]
    split_ifs with hzero
    · rw [hzero]
    · rfl

theorem Serves.source {c : Cmu} {mode : ℕ} (h : Serves c mode) (hmode : mode ≠ 0) :
    c.source = .hfrco := by
  obtain _ | _ | _ | _ | mode := mode
  · exact absurd rfl hmode
  · exact congrArg Cmu.source h
  · exact congrArg Cmu.source h
  · exact congrArg Cmu.source h
  · exact h.elim

theorem serves_low (mode : ℕ) : Serves ⟨.hfrco, .mhz1⟩ mode ↔ mode = 3 := by
  obtain _ | _ | _ | _ | mode := mode <;> simp [Serves]

/-- The tick cut from the HFXO is longer than any cut from the HFRCO. -/
theorem reload_standby (c : Cmu) :
    systemCoreClockGet prodRev c / rtTickPerSecond =
      systemCoreClockGet prodRev { c with source := .hfrco } / rtTickPerSecond ↔
      c.source = .hfrco := by
  obtain ⟨source, band⟩ := c
  cases source with
  | hfrco => exact ⟨fun _ ↦ rfl, fun _ ↦ rfl⟩
  | hfxo =>
    have hlt : hfrcoFreq prodRev band ≤ 28000000 := by
      cases band <;> grind [hfrcoFreq]
    simp only [systemCoreClockGet, rtTickPerSecond, reduceCtorEq, iff_false]
    omega

theorem settled_sleep_iff {sys : System} {requested : Option ℕ} {mode : ℕ}
    (h : Inv prodRev ⟨sys, requested⟩) (hlast : ∀ m, requested = some m → sys.lastMode = m)
    (hmode : mode < 6) (hshut : mode ≠ 5) (pm : RtPm) :
    Settled prodRev ⟨⟨pm, sys.lastMode, sleep prodRev mode sys.chip⟩, requested⟩ ↔
      (requested = some 0 → sys.chip.cmu.source = .hfxo) ∧
      (mode = 2 → requested = none ∨ requested = some 3) ∧
      (mode = 4 → requested ≠ some 0 ∧ (requested = none → sys.chip.cmu.source = .hfrco)) := by
  have hreload : sys.chip.reload = systemCoreClockGet prodRev sys.chip.cmu / rtTickPerSecond :=
    h.reload
  have hserves : ∀ m, requested = some m → m ≠ 0 → Serves sys.chip.cmu m := by
    intro m hm hne
    have hcached := h.cached
    simp only [hlast m hm] at hcached
    exact hcached hne
  -- only light sleep and standby change the clock
  have hawake : (∀ m, requested = some m → Serves sys.chip.cmu m) ↔
      (requested = some 0 → sys.chip.cmu.source = .hfxo) := by
    constructor
    · exact fun hall ↦ hall 0
    · intro hhigh m hm
      by_cases hzero : m = 0
      · subst hzero
        exact hhigh hm
      · exact hserves m hm hzero
  interval_cases mode
  · simpa only [Settled, sleep, hreload, and_true, OfNat.zero_ne_ofNat, IsEmpty.forall_iff] using hawake
  · simpa only [Settled, sleep, hreload, and_true, OfNat.one_ne_ofNat, IsEmpty.forall_iff] using hawake
  · have hlow : (∀ m, requested = some m → Serves ⟨.hfrco, .mhz1⟩ m) ↔
        requested = none ∨ requested = some 3 := by
      simp only [serves_low]
      cases requested with
      | none => simp
      | some m => simp
    have hhigh : requested = none ∨ requested = some 3 → requested = some 0 →
        sys.chip.cmu.source = .hfxo := by
      rintro (rfl | rfl) hzero <;> cases hzero
    simp only [Settled, sleep, emEM1Hfrco, sysTickConfiguration, and_true, hlow, forall_const,
      Nat.reduceEqDiff, IsEmpty.forall_iff]
    exact ⟨fun hmode ↦ ⟨hhigh hmode, hmode⟩, fun hmode ↦ hmode.2⟩
  · simpa only [Settled, sleep, emEM2Lfxo, sysTickConfiguration, and_true, OfNat.ofNat_eq_ofNat,
      Nat.reduceEqDiff, IsEmpty.forall_iff] using hawake
  · simp only [Settled, sleep, emEM3, hreload, reload_standby, Nat.reduceEqDiff, IsEmpty.forall_iff,
      true_and, forall_const]
    cases requested with
    | none => simp
    | some m =>
      by_cases hzero : m = 0
      · subst hzero
        simp [Serves]
      · have hsource := (hserves m rfl hzero).source hzero
        have hcmu : { sys.chip.cmu with source := .hfrco } = sys.chip.cmu := by
          rw [← hsource]
        simp only [hcmu, hawake]
        simp [hzero, hsource]
  · exact absurd rfl hshut

theorem agrees_iff_harmless (h : Inv prodRev s) (e : Event) :
    Agrees prodRev s e ↔ Harmless s e := by
  cases e with
  | runEnter mode => exact ⟨fun _ ↦ trivial, fun _ suspended he ↦ by cases he⟩
  | request mode => exact ⟨fun _ ↦ trivial, fun _ suspended he ↦ by cases he⟩
  | release mode => exact ⟨fun _ ↦ trivial, fun _ suspended he ↦ by cases he⟩
  | idle suspended =>
    have hagrees : Agrees prodRev s (.idle suspended) ↔
        ((step prodRev s (.idle suspended)).sys.chip.on →
          Settled prodRev (step prodRev s (.idle suspended))) := by
      constructor
      · exact fun hall ↦ hall suspended rfl
      · rintro himp suspended' heq
        exact himp
    rw [hagrees, Harmless]
    cases hon : s.sys.chip.on with
    | false =>
      have hsame : step prodRev s (.idle suspended) = s := by simp [step, hon]
      rw [hsame, hon]
      constructor <;> intro _ hfalse <;> cases hfalse
    | true =>
      obtain ⟨sys, hsys, hstep⟩ := step_idle h hon suspended
      obtain ⟨sys', hsys', hinv, -, hon', hlast, hchip⟩ := h.scaling
      obtain rfl : sys = sys' := hsys.symm.trans hsys'
      have hmode := slept_lt suspended s.sys.pm
      rw [hstep]
      by_cases hshut : slept suspended s.sys.pm = 5
      · simp [hshut, sleep, emEM4]
      · have hstays : (sleep prodRev (slept suspended s.sys.pm) sys.chip).on = true := by
          rw [sleep_on _ hmode hshut, hon', hon]
        have hsource : s.requested = none ∨ s.requested = some 0 →
            (sys.chip.cmu.source = s.sys.chip.cmu.source) := fun hreq ↦ by rw [hchip hreq]
        have hiff := settled_sleep_iff hinv hlast hmode hshut
          { sys.pm with sleepMode := pmSelectSleepMode s.sys.pm }
        simp only [hstays, forall_const, ne_eq, hshut, not_false_eq_true]
        rw [hiff]
        refine and_congr (forall_congr' fun hreq ↦ by rw [hsource (.inr hreq)])
          (and_congr Iff.rfl (forall_congr' fun _ ↦ and_congr Iff.rfl ?_))
        exact forall_congr' fun hreq ↦ by rw [hsource (.inl hreq)]

theorem inv_runEnter (h : Inv prodRev s) (mode : Fin 4) :
    Inv prodRev ⟨rtPmRunEnter prodRev mode s.sys, some mode⟩ := by
  have hmode : ¬4 < (mode : ℕ) := by omega
  by_cases hlt : (mode : ℕ) < s.sys.pm.runMode
  · by_cases heq : (mode : ℕ) = s.sys.lastMode
    · simp only [rtPmRunEnter, hmode, if_false, hlt, if_true, run, if_pos heq]
      refine ⟨h.reload, (fun hnone ↦ by cases hnone), ?_, h.cached⟩
      rintro m ⟨⟩
      exact ⟨mode.isLt, rfl, .inl heq.symm⟩
    · obtain ⟨chip, hrun, hserves, -, hreload⟩ := run_of_ne prodRev mode.isLt heq
      simp only [rtPmRunEnter, hmode, if_false, hlt, if_true, hrun]
      refine ⟨hreload, (fun hnone ↦ by cases hnone), ?_, fun _ ↦ hserves⟩
      rintro m ⟨⟩
      exact ⟨mode.isLt, rfl, .inl rfl⟩
  · simp only [rtPmRunEnter, hmode, if_false, hlt]
    refine ⟨h.reload, (fun hnone ↦ by cases hnone), ?_, h.cached⟩
    rintro m ⟨⟩
    refine ⟨mode.isLt, rfl, ?_⟩
    by_cases hzero : (mode : ℕ) = 0
    · -- the high speed is pending only where it has been requested before
      left
      change s.sys.lastMode = mode
      cases hreq : s.requested with
      | none =>
        have hrun := (h.fresh hreq).2.2
        omega
      | some m =>
        obtain ⟨-, hrun, hlast | ⟨-, hne⟩⟩ := h.asked m hreq <;> omega
    · exact .inr ⟨rfl, hzero⟩

theorem inv_step (s : State) (e : Event) (h : Inv prodRev s) (he : Harmless s e) :
    Inv prodRev (step prodRev s e) := by
  cases hon : s.sys.chip.on with
  | false =>
    have hsame : step prodRev s e = s := by
      simp only [step, hon, Bool.false_eq_true, if_false]
    rwa [hsame]
  | true =>
    cases e with
    | runEnter mode =>
      simp only [step, hon, if_true]
      exact inv_runEnter h mode
    | request mode =>
      simp only [step, hon, if_true, rtPmRequest]
      split_ifs <;> exact ⟨h.reload, h.fresh, h.asked, h.cached⟩
    | release mode =>
      simp only [step, hon, if_true, rtPmRelease]
      split_ifs <;> exact ⟨h.reload, h.fresh, h.asked, h.cached⟩
    | idle suspended =>
      obtain ⟨sys, hsys, hstep⟩ := step_idle h hon suspended
      obtain ⟨sys', hsys', hinv, -, hon', hlast, -⟩ := h.scaling
      obtain rfl : sys = sys' := hsys.symm.trans hsys'
      have hsettled : (step prodRev s (.idle suspended)).sys.chip.on →
          Settled prodRev (step prodRev s (.idle suspended)) :=
        (agrees_iff_harmless h (.idle suspended)).mpr he suspended rfl
      rw [hstep] at hsettled ⊢
      by_cases hshut : slept suspended s.sys.pm = 5
      · rw [hshut]
        exact ⟨hinv.reload, hinv.fresh, hinv.asked, hinv.cached⟩
      · have hstays : (sleep prodRev (slept suspended s.sys.pm) sys.chip).on = true := by
          rw [sleep_on _ (slept_lt suspended s.sys.pm) hshut, hon', hon]
        obtain ⟨hserves, hreload⟩ := hsettled hstays
        refine ⟨hreload, hinv.fresh, hinv.asked, fun hne ↦ ?_⟩
        cases hreq : s.requested with
        | none => exact absurd (hinv.fresh hreq).1 hne
        | some m =>
          have hm := hserves m hreq
          rwa [← hlast m hreq] at hm

theorem agrees_iff (es : List Event) :
    Along (step prodRev) (Agrees prodRev) reset es ↔ Along (step prodRev) Harmless reset es :=
  along_congr inv_step (fun _ e h ↦ agrees_iff_harmless h e) inv_reset es

theorem not_agrees : ¬ Along (step 19) (Agrees 19) reset
    [.runEnter 0, .request 2, .idle true] := by
  intro h
  have hsettled := h.2.2.1 true rfl rfl
  have hsource : Source.hfrco = Source.hfxo := hsettled.1 0 rfl
  cases hsource

end GiantGecko.Pm.ClockAgreement
