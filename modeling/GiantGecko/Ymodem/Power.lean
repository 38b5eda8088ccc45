import GiantGecko.Pm.ClockAgreement
import GiantGecko.Ymodem.Cleanup

namespace GiantGecko.Ymodem.Power

open Foundation.Transition Receiver Streams Cleanup Pm.PowerManager Pm.ClockAgreement

def pmSleepModeDeep : ℕ := 3
def pmRunModeHighSpeed : ℕ := 0
def pmRunModeLowSpeed : ℕ := 3

def defaultDownloadPart : List UInt8 := "/download".toUTF8.toList

def chosenPath (argv : List (List UInt8)) : Option (List UInt8) :=
  let argc := argv.length % 2 ^ 8
  if argc < 2 then some defaultDownloadPart
  else if argv[1]? = some [0x2D, 0x70] then
    if argc < 3 then none else argv[2]?
  else none

variable {σ : Type} (prodRev : ℕ) (c : Stdio σ) (ops : DeviceOps) (used : Device → Device)

/-- While files are transferred the power manager makes some passes, in which the devices
let it sleep or not. Nothing is returned while the transfer goes on. -/
def ymodemOta (argv : List (List UInt8)) (passes : List Bool) (w : World) (u : Ota σ)
    (es : List Input) (s : System) : Option System :=
  let s := rtPmRelease pmSleepModeDeep (rtPmRunEnter prodRev pmRunModeHighSpeed s)
  match chosenPath argv with
  | none => some s
  | some path =>
    match rymRecvOnDevice c ops used w { u with recvPath := path } es with
    | none => none
    | some _ =>
      let s := passes.foldl (fun s suspended ↦ rtSystemPowerManager prodRev suspended s) s
      some (rtPmRequest pmSleepModeDeep (rtPmRunEnter prodRev pmRunModeLowSpeed s))

/-- The count of requests for deep sleep is as it was, and low speed was asked for last. -/
structure Neutral (s s' : System) : Prop where
  deep : s'.pm.modes pmSleepModeDeep = s.pm.modes pmSleepModeDeep
  lowSpeed : s'.pm.runMode = pmRunModeLowSpeed

def prior (before : List Pm.ClockAgreement.Event) : System :=
  (before.foldl (Pm.ClockAgreement.step prodRev) reset).sys

def Balanced (before : List Pm.ClockAgreement.Event) : Prop :=
  Along (Pm.ClockAgreement.step prodRev) (fun s e ↦ ∀ mode, e = .release mode → 0 < s.sys.pm.modes mode)
    reset before

section Counts

variable {s : System} {mode : ℕ}

theorem run_pm : (run prodRev mode s).pm = s.pm := by
  unfold run
  split_ifs
  · rfl
  · rfl

theorem runEnter_modes : (rtPmRunEnter prodRev mode s).pm.modes = s.pm.modes := by
  rw [rtPmRunEnter]
  split_ifs
  · rfl
  · simp only [run_pm]
  · rfl

theorem runEnter_runMode (hmode : mode ≤ 4) : (rtPmRunEnter prodRev mode s).pm.runMode = mode := by
  rw [rtPmRunEnter, if_neg (by omega)]

theorem scaling_modes : (pmFrequencyScaling prodRev s).pm.modes = s.pm.modes := by
  rw [pmFrequencyScaling]
  split_ifs
  · simp only [run_pm]
  · rfl

theorem powerManager_modes (suspended : Bool) :
    (rtSystemPowerManager prodRev suspended s).pm.modes = s.pm.modes := by
  simp only [rtSystemPowerManager, pmChangeSleepMode]
  split_ifs
  · exact scaling_modes prodRev
  · exact scaling_modes prodRev

theorem passes_modes (passes : List Bool) :
    (passes.foldl (fun s suspended ↦ rtSystemPowerManager prodRev suspended s) s).pm.modes =
      s.pm.modes := by
  induction passes generalizing s with
  | nil => rfl
  | cons suspended passes ih => exact ih.trans (powerManager_modes prodRev suspended)

theorem request_modes (hmode : mode ≤ 5) (k : ℕ) : (rtPmRequest mode s).pm.modes k =
    if k = mode ∧ s.pm.modes mode < 255 then s.pm.modes k + 1 else s.pm.modes k := by
  rw [rtPmRequest]
  by_cases hfull : s.pm.modes mode < 255
  · obtain rfl | hne := eq_or_ne k mode
    · simp [hmode, hfull]
    · simp [hmode, hfull, hne]
  · simp [hfull]

theorem release_modes (hmode : mode ≤ 5) (k : ℕ) : (rtPmRelease mode s).pm.modes k =
    if k = mode then s.pm.modes k - 1 else s.pm.modes k := by
  rw [rtPmRelease]
  obtain rfl | hne := eq_or_ne k mode
  · by_cases hnone : 0 < s.pm.modes k
    · simp [hmode, hnone]
    · simp [hnone]
      omega
  · split_ifs
    · simp [hne]
    · rfl

theorem request_runMode : (rtPmRequest mode s).pm.runMode = s.pm.runMode := by
  rw [rtPmRequest]
  split_ifs
  · rfl
  · rfl

theorem release_runMode : (rtPmRelease mode s).pm.runMode = s.pm.runMode := by
  rw [rtPmRelease]
  split_ifs
  · rfl
  · rfl

def Counted (s : System) : Prop := ∀ mode, s.pm.modes mode ≤ 255

theorem Counted.request (h : Counted s) (mode : ℕ) : Counted (rtPmRequest mode s) := by
  intro k
  by_cases hmode : mode ≤ 5
  · have hk := h k
    rw [request_modes hmode]
    split_ifs with hroom
    · obtain ⟨rfl, hroom⟩ := hroom
      omega
    · exact hk
  · rw [rtPmRequest, if_neg fun hroom ↦ hmode hroom.1]
    exact h k

theorem Counted.release (h : Counted s) (mode : ℕ) : Counted (rtPmRelease mode s) := by
  intro k
  by_cases hmode : mode ≤ 5
  · have hk := h k
    rw [release_modes hmode]
    split_ifs
    · omega
    · exact hk
  · rw [rtPmRelease, if_neg fun hroom ↦ hmode hroom.1]
    exact h k

theorem counted_prior (before : List Pm.ClockAgreement.Event) : Counted (prior prodRev before) := by
  have hrun : Counted (before.foldl (Pm.ClockAgreement.step prodRev) reset).sys := by
    refine reachable_invariant (I := fun s : State ↦ Counted s.sys) ?_ (fun _ ↦ Nat.zero_le _) before
    intro s e h
    unfold Pm.ClockAgreement.step
    by_cases hon : s.sys.chip.on = true
    · rw [if_pos hon]
      cases e with
      | runEnter mode =>
        intro k
        rw [runEnter_modes]
        exact h k
      | request mode => exact h.request mode
      | release mode => exact h.release mode
      | idle suspended =>
        intro k
        rw [powerManager_modes]
        exact h k
    · rw [if_neg hon]
      exact h
  exact hrun

end Counts

/-- `ymodem_ota` is neutral just if its arguments are understood and deep sleep is requested
when it is called. -/
theorem neutral_iff {argv : List (List UInt8)} {passes : List Bool} {w : World} {u : Ota σ}
    {es : List Input} {before : List Pm.ClockAgreement.Event} {s' : System}
    (hreturns : ymodemOta prodRev c ops used argv passes w u es (prior prodRev before) = some s') :
    Neutral (prior prodRev before) s' ↔
      (chosenPath argv).isSome = true ∧ 0 < (prior prodRev before).pm.modes pmSleepModeDeep := by
  have hcount := counted_prior prodRev before pmSleepModeDeep
  generalize prior prodRev before = s at hreturns hcount ⊢
  rw [ymodemOta] at hreturns
  cases hpath : chosenPath argv with
  | none =>
    simp only [hpath, Option.some.injEq] at hreturns
    subst hreturns
    refine iff_of_false ?_ fun h ↦ Bool.false_ne_true h.1
    intro h
    have hlow := h.lowSpeed
    rw [release_runMode, runEnter_runMode prodRev (by decide)] at hlow
    exact absurd hlow (by decide)
  | some path =>
    simp only [hpath] at hreturns
    cases hsession : rymRecvOnDevice c ops used w { u with recvPath := path } es with
    | none => simp [hsession] at hreturns
    | some r =>
      simp only [hsession, Option.some.injEq] at hreturns
      subst hreturns
      have hdeep : pmSleepModeDeep ≤ 5 := by decide
      constructor
      · intro h
        have hsame := h.deep
        simp only [request_modes hdeep, runEnter_modes, passes_modes, release_modes hdeep, if_true,
          true_and] at hsame
        refine ⟨rfl, ?_⟩
        by_contra hzero
        rw [if_pos (by omega)] at hsame
        omega
      · rintro ⟨-, hpos⟩
        refine ⟨?_, ?_⟩
        · simp only [request_modes hdeep, runEnter_modes, passes_modes, release_modes hdeep, if_true,
            true_and]
          rw [if_pos (by omega)]
          omega
        · rw [request_runMode, runEnter_runMode prodRev (by decide)]

section Console

def deepRequested : List Pm.ClockAgreement.Event := [.request 3]

theorem ymodemOta_received {es : List Input} {r : Returned Unit}
    (hr : rymRecvOnDevice stdio ⟨none, none, none⟩ id served
      { idle with recvPath := defaultDownloadPart } es = some r) :
    ymodemOta 0 stdio ⟨none, none, none⟩ id [] [true] served idle es (prior 0 deepRequested) =
      some (rtPmRequest pmSleepModeDeep (rtPmRunEnter 0 pmRunModeLowSpeed
        (rtSystemPowerManager 0 true (rtPmRelease pmSleepModeDeep
          (rtPmRunEnter 0 pmRunModeHighSpeed (prior 0 deepRequested)))))) := by
  have hpath : chosenPath [] = some defaultDownloadPart := rfl
  rw [ymodemOta, hpath]
  simp only [hr]
  rfl

theorem neutral_oneBlock : ∃ s', ymodemOta 0 stdio ⟨none, none, none⟩ id [] [true] served idle
    (oneBlock fileHeader fileBlock) (prior 0 deepRequested) = some s' ∧
      Neutral (prior 0 deepRequested) s' := by
  have hreceived := received_oneBlock fileHeader fileBlock
    { idle with recvPath := defaultDownloadPart }
  generalize oneBlock fileHeader fileBlock = es at hreceived ⊢
  obtain ⟨r, hr, -⟩ := hreceived
  have hreturns := ymodemOta_received hr
  exact ⟨_, hreturns, (neutral_iff 0 stdio ⟨none, none, none⟩ id hreturns).mpr ⟨rfl, by decide⟩⟩

theorem not_neutral :
    ¬ ∀ (prodRev : ℕ) (c : Stdio Unit) (ops : DeviceOps) (used : Device → Device)
      (argv : List (List UInt8)) (passes : List Bool) (w : World) (u : Ota Unit) (es : List Input)
      (before : List Pm.ClockAgreement.Event) (s' : System), Balanced prodRev before →
      ymodemOta prodRev c ops used argv passes w u es (prior prodRev before) = some s' →
      Neutral (prior prodRev before) s' := by
  intro hall
  have hbalanced : Balanced 0 deepRequested := by
    refine ⟨?_, trivial⟩
    intro mode hmode
    cases hmode
  have hneutral := hall 0 stdio ⟨none, none, none⟩ id [[0x79], [0x78]] [] lowMemory idle []
    deepRequested _ hbalanced rfl
  exact absurd hneutral.lowSpeed (by decide)

end Console

end GiantGecko.Ymodem.Power
