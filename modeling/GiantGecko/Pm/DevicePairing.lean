import GiantGecko.Pm.PowerManager
import Mathlib.Data.Int.Notation
import Mathlib.Tactic.Tauto

namespace GiantGecko.Pm.DevicePairing

open PowerManager (Chip sleep)

/-- The operations of a registered device: `suspend` returns `RT_EOK` (0) or an
error, and either may be missing. -/
structure DevicePm where
  suspend : Option (ℕ → ℤ)
  resume : Bool

inductive Call
  | enterSleep (mode : ℕ)
  | exitSleep (mode : ℕ)
  | suspend (i mode : ℕ) (ret : ℤ)
  | resume (i mode : ℕ)
  | sleep (mode : ℕ)
  | timerStart (timeout : BitVec 32)
  | timerGetTick
  | timerStop
  | tickSet (tick : BitVec 32)
  | timerCheck
  deriving DecidableEq

structure RtPm where
  sleepMode : ℕ
  devicePm : List DevicePm
  timerMask : BitVec 8
  timerStart : Bool
  notify : Bool

/-- The deadline of the first hard timer, `RT_TICK_MAX` for none, the tick before
and after the sleep, and the ticks that the timer of the driver has counted. -/
structure Clock where
  nextTimeoutTick : BitVec 32
  tick : BitVec 32
  wakeTick : BitVec 32
  deltaTick : BitVec 32

def tickMax : BitVec 32 := 0xFFFFFFFF

def pmTicklessThresh : ℕ := 2

def pmSleepModeIdle : ℕ := 1

def pmDeviceSuspend (mode : ℕ) : ℕ → List DevicePm → List Call × ℤ
  | _, [] => ([], 0)
  | i, d :: ds =>
    match d.suspend with
    | none => pmDeviceSuspend mode (i + 1) ds
    | some suspend =>
      if suspend mode ≠ 0 then ([.suspend i mode (suspend mode)], suspend mode)
      else
        let r := pmDeviceSuspend mode (i + 1) ds
        (.suspend i mode (suspend mode) :: r.1, r.2)

def pmDeviceResume (mode : ℕ) : ℕ → List DevicePm → List Call
  | _, [] => []
  | i, d :: ds =>
    if d.resume then .resume i mode :: pmDeviceResume mode (i + 1) ds
    else pmDeviceResume mode (i + 1) ds

/-- The mode that is entered after all, and what is done to the driver's timer. -/
def tickless (c : Clock) (mode : ℕ) (pm : RtPm) : ℕ × List Call :=
  if pm.timerMask.getLsbD mode then
    if c.nextTimeoutTick = tickMax then (mode, if pm.timerStart then [.timerStart tickMax] else [])
    else if (c.nextTimeoutTick - c.tick).toNat < pmTicklessThresh then (pmSleepModeIdle, [])
    else (mode, [.timerStart (c.nextTimeoutTick - c.tick)])
  else (mode, [])

def wake (c : Clock) (mode : ℕ) (pm : RtPm) : List Call :=
  if pm.timerMask.getLsbD mode then
    [.timerGetTick, .timerStop] ++
      if c.deltaTick ≠ 0 then [.tickSet (c.wakeTick + c.deltaTick), .timerCheck] else []
  else []

def notified (call : Call) (pm : RtPm) : List Call := if pm.notify then [call] else []

def pmChangeSleepMode (c : Clock) (mode : ℕ) (pm : RtPm) : List Call :=
  if mode = 0 then [.sleep mode]
  else
    let r := pmDeviceSuspend mode 0 pm.devicePm
    if r.2 ≠ 0 then
      notified (.enterSleep mode) pm ++ r.1 ++ pmDeviceResume mode 0 pm.devicePm ++
        notified (.exitSleep mode) pm
    else
      let t := tickless c mode pm
      notified (.enterSleep mode) pm ++ r.1 ++ t.2 ++ [.sleep t.1] ++ wake c t.1 pm ++
        pmDeviceResume pm.sleepMode 0 pm.devicePm ++ notified (.exitSleep t.1) pm

def pass (c : Clock) (mode : ℕ) (pm : RtPm) : List Call :=
  pmChangeSleepMode c mode { pm with sleepMode := mode }

/-- A device without a `suspend` counts as suspended, unless the mode is
`PM_SLEEP_MODE_NONE` and nothing is suspended. -/
def Suspended (mode : ℕ) (calls : List Call) (i : ℕ) (d : DevicePm) : Prop :=
  match d.suspend with
  | some _ => ∃ m, .suspend i m 0 ∈ calls
  | none => mode ≠ 0

structure Paired (mode : ℕ) (devices : List DevicePm) (calls : List Call) : Prop where
  resumed : ∀ i d, devices[i]? = some d → d.resume →
    ((∃ m, .resume i m ∈ calls) ↔ Suspended mode calls i d)
  sameMode : ∀ i m m', .resume i m ∈ calls → .suspend i m' 0 ∈ calls → m = m'
  notices : ∀ m m', .enterSleep m ∈ calls → .exitSleep m' ∈ calls → m = m'

def Succeeds (mode : ℕ) (d : DevicePm) : Prop := ∀ suspend ∈ d.suspend, suspend mode = 0

/-- The first hard timer is so close that the idle mode replaces another one. -/
def TooClose (c : Clock) (mode : ℕ) (pm : RtPm) : Prop :=
  pm.timerMask.getLsbD mode ∧ c.nextTimeoutTick ≠ tickMax ∧
    (c.nextTimeoutTick - c.tick).toNat < pmTicklessThresh ∧ mode ≠ pmSleepModeIdle

/-- No device fails that has both operations or stands before one that has, and where
all succeed, no mode that the notifications have told of is replaced. -/
def Undisturbed (c : Clock) (mode : ℕ) (pm : RtPm) : Prop :=
  mode ≠ 0 →
    (∀ i d, pm.devicePm[i]? = some d → d.suspend.isSome → d.resume →
      ∀ e ∈ pm.devicePm.take (i + 1), Succeeds mode e) ∧
    ((∀ e ∈ pm.devicePm, Succeeds mode e) → pm.notify → ¬TooClose c mode pm)

variable {c : Clock} {mode : ℕ} {pm : RtPm} {devices : List DevicePm} {base i m : ℕ} {ret : ℤ}

theorem pmDeviceSuspend_ret (base : ℕ) :
    (pmDeviceSuspend mode base devices).2 = 0 ↔ ∀ e ∈ devices, Succeeds mode e := by
  induction devices generalizing base with
  | nil => simp [pmDeviceSuspend]
  | cons d ds ih =>
    rw [pmDeviceSuspend, List.forall_mem_cons, Succeeds]
    cases hd : d.suspend with
    | none => simp [ih]
    | some suspend =>
      by_cases hret : suspend mode = 0
      · simp [hret, ih]
      · simp [hret]

theorem exists_place_cons {P : ℕ → DevicePm → Prop} {d : DevicePm} {ds : List DevicePm} :
    (∃ n e, i = base + n ∧ (d :: ds)[n]? = some e ∧ P n e) ↔
      i = base ∧ P 0 d ∨ ∃ n e, i = base + 1 + n ∧ ds[n]? = some e ∧ P (n + 1) e := by
  constructor
  · rintro ⟨n, e, hi, he, hp⟩
    cases n with
    | zero =>
      cases he
      exact .inl ⟨hi, hp⟩
    | succ n => exact .inr ⟨n, e, by omega, he, hp⟩
  · rintro (⟨hi, hp⟩ | ⟨n, e, hi, he, hp⟩)
    · exact ⟨0, d, hi, rfl, hp⟩
    · exact ⟨n + 1, e, by omega, he, hp⟩

theorem mem_pmDeviceSuspend : Call.suspend i m 0 ∈ (pmDeviceSuspend mode base devices).1 ↔
    m = mode ∧ ∃ n d, i = base + n ∧ devices[n]? = some d ∧ d.suspend.isSome ∧
      ∀ e ∈ devices.take (n + 1), Succeeds mode e := by
  induction devices generalizing base with
  | nil => simp [pmDeviceSuspend]
  | cons d ds ih =>
    rw [exists_place_cons (P := fun n e ↦ e.suspend.isSome ∧
      ∀ x ∈ (d :: ds).take (n + 1), Succeeds mode x)]
    simp only [pmDeviceSuspend, List.take_succ_cons, List.take_zero, List.forall_mem_cons]
    cases hd : d.suspend with
    | none =>
      have hok : Succeeds mode d := by simp [Succeeds, hd]
      simp [ih, hok]
    | some suspend =>
      by_cases hret : suspend mode = 0
      · have hok : Succeeds mode d := by simpa [Succeeds, hd] using hret
        simp only [hret, ne_eq, not_true_eq_false, if_false, List.mem_cons, Call.suspend.injEq,
          and_true, ih, Option.isSome_some, List.not_mem_nil, IsEmpty.forall_iff, implies_true, hok,
          true_and]
        tauto
      · have hbad : ¬Succeeds mode d := by simpa [Succeeds, hd] using hret
        have hne : ¬0 = suspend mode := fun h ↦ hret h.symm
        simp [hret, hbad, hne]

theorem mem_pmDeviceResume : Call.resume i m ∈ pmDeviceResume mode base devices ↔
    m = mode ∧ ∃ n d, i = base + n ∧ devices[n]? = some d ∧ d.resume := by
  induction devices generalizing base with
  | nil => simp [pmDeviceResume]
  | cons d ds ih =>
    rw [exists_place_cons (P := fun _ e ↦ e.resume), pmDeviceResume]
    split_ifs with hresume
    · simp [hresume, ih, and_or_left, and_comm]
    · simp [hresume, ih]

theorem suspended_iff {calls : List Call} {d : DevicePm} (hmode : mode ≠ 0) :
    Suspended mode calls i d ↔ (d.suspend.isSome → ∃ m, Call.suspend i m 0 ∈ calls) := by
  unfold Suspended
  cases d.suspend <;> simp [hmode]

theorem mem_notified {call call' : Call} : call ∈ notified call' pm ↔ pm.notify ∧ call = call' := by
  unfold notified
  split_ifs with hnotify <;> simp [hnotify]

theorem mem_pmDeviceSuspend_imp {call : Call} (h : call ∈ (pmDeviceSuspend mode base devices).1) :
    ∃ i ret, call = .suspend i mode ret := by
  induction devices generalizing base with
  | nil => cases h
  | cons d ds ih =>
    rw [pmDeviceSuspend] at h
    cases hd : d.suspend with
    | none =>
      rw [hd] at h
      exact ih h
    | some suspend =>
      simp only [hd] at h
      split_ifs at h
      · exact ⟨base, _, List.mem_singleton.mp h⟩
      · obtain hhead | htail := List.mem_cons.mp h
        · exact ⟨base, _, hhead⟩
        · exact ih htail

theorem mem_pmDeviceResume_imp {call : Call} (h : call ∈ pmDeviceResume mode base devices) :
    ∃ i, call = .resume i mode := by
  induction devices generalizing base with
  | nil => cases h
  | cons d ds ih =>
    rw [pmDeviceResume] at h
    split_ifs at h
    · obtain hhead | htail := List.mem_cons.mp h
      · exact ⟨base, hhead⟩
      · exact ih htail
    · exact ih h

def Call.inner : Call → Bool
  | .sleep _ | .timerStart _ | .timerGetTick | .timerStop | .tickSet _ | .timerCheck => true
  | _ => false

theorem inner_of_mem_tickless {call : Call} (h : call ∈ (tickless c mode pm).2) :
    call.inner = true := by
  unfold tickless at h
  split_ifs at h
  · rw [List.mem_singleton.mp h]
    rfl
  · cases h
  · cases h
  · rw [List.mem_singleton.mp h]
    rfl
  · cases h

theorem inner_of_mem_wake {call : Call} (h : call ∈ wake c mode pm) : call.inner = true := by
  unfold wake at h
  split_ifs at h
  · simp only [List.cons_append, List.nil_append, List.mem_cons, List.not_mem_nil, or_false] at h
    rcases h with rfl | rfl | rfl | rfl <;> rfl
  · simp only [List.append_nil, List.mem_cons, List.not_mem_nil, or_false] at h
    rcases h with rfl | rfl <;> rfl
  · cases h

def exitMode (c : Clock) (mode : ℕ) (pm : RtPm) : ℕ :=
  if (pmDeviceSuspend mode 0 pm.devicePm).2 ≠ 0 then mode else (tickless c mode pm).1

theorem mem_pass (hmode : mode ≠ 0) {call : Call} (hcall : call.inner = false) :
    call ∈ pass c mode pm ↔ pm.notify ∧ call = .enterSleep mode ∨
      call ∈ (pmDeviceSuspend mode 0 pm.devicePm).1 ∨ call ∈ pmDeviceResume mode 0 pm.devicePm ∨
      pm.notify ∧ call = .exitSleep (exitMode c mode pm) := by
  have hsleep : ∀ m, call ≠ .sleep m := by
    rintro m rfl
    cases hcall
  have htickless : call ∉ (tickless c mode { pm with sleepMode := mode }).2 := fun h ↦ by
    rw [inner_of_mem_tickless h] at hcall
    cases hcall
  have hwake : ∀ m, call ∉ wake c m { pm with sleepMode := mode } := fun m h ↦ by
    rw [inner_of_mem_wake h] at hcall
    cases hcall
  simp only [pass, pmChangeSleepMode, if_neg hmode]
  by_cases hret : (pmDeviceSuspend mode 0 pm.devicePm).2 = 0
  · have hexit : exitMode c mode pm = (tickless c mode { pm with sleepMode := mode }).1 :=
      if_neg (not_not.mpr hret)
    rw [if_neg (not_not.mpr hret), hexit]
    simp only [List.mem_append, List.mem_singleton, mem_notified, htickless, hsleep, hwake, or_false,
      or_assoc]
  · have hexit : exitMode c mode pm = mode := if_pos hret
    rw [if_pos hret, hexit]
    simp only [List.mem_append, mem_notified, or_assoc]

theorem resume_mem_pass (hmode : mode ≠ 0) : Call.resume i m ∈ pass c mode pm ↔
    m = mode ∧ ∃ d, pm.devicePm[i]? = some d ∧ d.resume := by
  have hsuspend : Call.resume i m ∉ (pmDeviceSuspend mode 0 pm.devicePm).1 := fun h ↦ by
    obtain ⟨_, _, heq⟩ := mem_pmDeviceSuspend_imp h
    cases heq
  rw [mem_pass hmode rfl, mem_pmDeviceResume]
  simp [hsuspend]

theorem suspend_mem_pass (hmode : mode ≠ 0) : Call.suspend i m 0 ∈ pass c mode pm ↔
    m = mode ∧ ∃ d, pm.devicePm[i]? = some d ∧ d.suspend.isSome ∧
      ∀ e ∈ pm.devicePm.take (i + 1), Succeeds mode e := by
  have hresume : Call.suspend i m 0 ∉ pmDeviceResume mode 0 pm.devicePm := fun h ↦ by
    obtain ⟨_, heq⟩ := mem_pmDeviceResume_imp h
    cases heq
  rw [mem_pass hmode rfl, mem_pmDeviceSuspend]
  simp [hresume]

theorem enterSleep_mem_pass (hmode : mode ≠ 0) :
    Call.enterSleep m ∈ pass c mode pm ↔ pm.notify ∧ m = mode := by
  have hsuspend : Call.enterSleep m ∉ (pmDeviceSuspend mode 0 pm.devicePm).1 := fun h ↦ by
    obtain ⟨_, _, heq⟩ := mem_pmDeviceSuspend_imp h
    cases heq
  have hresume : Call.enterSleep m ∉ pmDeviceResume mode 0 pm.devicePm := fun h ↦ by
    obtain ⟨_, heq⟩ := mem_pmDeviceResume_imp h
    cases heq
  rw [mem_pass hmode rfl]
  simp [hsuspend, hresume]

theorem exitSleep_mem_pass (hmode : mode ≠ 0) :
    Call.exitSleep m ∈ pass c mode pm ↔ pm.notify ∧ m = exitMode c mode pm := by
  have hsuspend : Call.exitSleep m ∉ (pmDeviceSuspend mode 0 pm.devicePm).1 := fun h ↦ by
    obtain ⟨_, _, heq⟩ := mem_pmDeviceSuspend_imp h
    cases heq
  have hresume : Call.exitSleep m ∉ pmDeviceResume mode 0 pm.devicePm := fun h ↦ by
    obtain ⟨_, heq⟩ := mem_pmDeviceResume_imp h
    cases heq
  rw [mem_pass hmode rfl]
  simp [hsuspend, hresume]

theorem tickless_eq_iff : (tickless c mode pm).1 = mode ↔ ¬TooClose c mode pm := by
  unfold tickless
  by_cases hmask : pm.timerMask.getLsbD mode
  · rw [if_pos hmask]
    by_cases hmax : c.nextTimeoutTick = tickMax
    · rw [if_pos hmax]
      exact ⟨fun _ h ↦ h.2.1 hmax, fun _ ↦ rfl⟩
    · rw [if_neg hmax]
      by_cases hclose : (c.nextTimeoutTick - c.tick).toNat < pmTicklessThresh
      · rw [if_pos hclose]
        exact ⟨fun h h' ↦ h'.2.2.2 h.symm,
          fun h ↦ (not_not.mp fun hne ↦ h ⟨hmask, hmax, hclose, hne⟩).symm⟩
      · rw [if_neg hclose]
        exact ⟨fun _ h ↦ hclose h.2.2.1, fun _ ↦ rfl⟩
  · rw [if_neg hmask]
    exact ⟨fun _ h ↦ hmask h.1, fun _ ↦ rfl⟩

theorem exitMode_eq_iff : exitMode c mode pm = mode ↔
    ((∀ e ∈ pm.devicePm, Succeeds mode e) → ¬TooClose c mode pm) := by
  rw [exitMode, ← pmDeviceSuspend_ret 0]
  split_ifs with hret
  · exact ⟨fun _ hzero ↦ absurd hzero hret, fun _ ↦ rfl⟩
  · simp only [not_not.mp hret, forall_const, tickless_eq_iff]

theorem paired_iff (c : Clock) (mode : ℕ) (pm : RtPm) :
    Paired mode pm.devicePm (pass c mode pm) ↔ Undisturbed c mode pm := by
  obtain rfl | hmode := eq_or_ne mode 0
  · have hpass : pass c 0 pm = [.sleep 0] := rfl
    refine ⟨fun _ h ↦ absurd rfl h, fun _ ↦ ⟨fun i d _ _ ↦ ?_, ?_, ?_⟩⟩
    · unfold Suspended
      cases d.suspend <;> simp [hpass]
    · simp [hpass]
    · simp [hpass]
  constructor
  · intro h _
    refine ⟨fun i d hd hsuspend hresume ↦ ?_, fun hall hnotify ↦ ?_⟩
    · have hresumed : ∃ m, Call.resume i m ∈ pass c mode pm :=
        ⟨mode, (resume_mem_pass hmode).mpr ⟨rfl, d, hd, hresume⟩⟩
      obtain ⟨m, hm⟩ := (suspended_iff hmode).mp ((h.resumed i d hd hresume).mp hresumed) hsuspend
      obtain ⟨-, _, -, -, hsucceed⟩ := (suspend_mem_pass hmode).mp hm
      exact hsucceed
    · have hexit := h.notices mode (exitMode c mode pm)
        ((enterSleep_mem_pass hmode).mpr ⟨hnotify, rfl⟩)
        ((exitSleep_mem_pass hmode).mpr ⟨hnotify, rfl⟩)
      exact exitMode_eq_iff.mp hexit.symm hall
  · intro h
    obtain ⟨hpaired, hclose⟩ := h hmode
    refine ⟨fun i d hd hresume ↦ ?_, fun i m m' hm hm' ↦ ?_, fun m m' hm hm' ↦ ?_⟩
    · rw [suspended_iff hmode]
      refine ⟨fun _ hsuspend ↦ ?_, fun _ ↦ ⟨mode, (resume_mem_pass hmode).mpr ⟨rfl, d, hd, hresume⟩⟩⟩
      exact ⟨mode, (suspend_mem_pass hmode).mpr ⟨rfl, d, hd, hsuspend, hpaired i d hd hsuspend hresume⟩⟩
    · rw [((resume_mem_pass hmode).mp hm).1, ((suspend_mem_pass hmode).mp hm').1]
    · obtain ⟨hnotify, rfl⟩ := (enterSleep_mem_pass hmode).mp hm
      obtain ⟨-, rfl⟩ := (exitSleep_mem_pass hmode).mp hm'
      exact (exitMode_eq_iff.mpr fun hall ↦ hclose hall hnotify).symm

/-- Three devices, the second of which fails to suspend. -/
theorem not_paired : ¬Paired 3 [⟨some fun _ ↦ 0, true⟩, ⟨some fun _ ↦ -1, true⟩,
    ⟨some fun _ ↦ 0, true⟩]
    (pass ⟨tickMax, 0, 0, 0⟩ 3 ⟨1, [⟨some fun _ ↦ 0, true⟩, ⟨some fun _ ↦ -1, true⟩,
      ⟨some fun _ ↦ 0, true⟩], 0, false, false⟩) := by
  intro h
  obtain ⟨m, hm⟩ := (h.resumed 2 _ rfl rfl).mp ⟨3, by decide⟩
  obtain ⟨-, d, -, -, hsucceed⟩ := (suspend_mem_pass (by decide)).mp hm
  have hzero : (-1 : ℤ) = 0 := hsucceed ⟨some fun _ ↦ -1, true⟩ (by simp) _ rfl
  cases hzero

def slept (prodRev : ℕ) (chip : Chip) (calls : List Call) : Chip :=
  calls.foldl
    (fun chip call ↦
      match call with
      | .sleep mode => sleep prodRev mode chip
      | _ => chip)
    chip

theorem slept_append (prodRev : ℕ) (chip : Chip) (l l' : List Call) :
    slept prodRev chip (l ++ l') = slept prodRev (slept prodRev chip l) l' := List.foldl_append

theorem slept_of_awake {l : List Call} (h : ∀ m, Call.sleep m ∉ l) (prodRev : ℕ) (chip : Chip) :
    slept prodRev chip l = chip := by
  induction l generalizing chip with
  | nil => rfl
  | cons call l ih =>
    have hrest : slept prodRev chip l = chip := ih (fun m hm ↦ h m (List.mem_cons_of_mem call hm)) chip
    cases call with
    | sleep m => exact absurd List.mem_cons_self (h m)
    | _ => exact hrest

theorem slept_pass (prodRev : ℕ) (hmask : pm.timerMask = 0) (s : PowerManager.System) :
    slept prodRev s.chip (pass c mode pm) = (PowerManager.pmChangeSleepMode prodRev mode
      (decide ((pmDeviceSuspend mode 0 pm.devicePm).2 = 0)) s).chip := by
  obtain rfl | hmode := eq_or_ne mode 0
  · rfl
  have hsuspend : ∀ m, Call.sleep m ∉ (pmDeviceSuspend mode 0 pm.devicePm).1 := fun m h ↦ by
    obtain ⟨_, _, heq⟩ := mem_pmDeviceSuspend_imp h
    cases heq
  have hresume : ∀ m, Call.sleep m ∉ pmDeviceResume mode 0 pm.devicePm := fun m h ↦ by
    obtain ⟨_, heq⟩ := mem_pmDeviceResume_imp h
    cases heq
  have henter : ∀ m, Call.sleep m ∉ notified (.enterSleep mode) { pm with sleepMode := mode } :=
    fun m h ↦ by cases (mem_notified.mp h).2
  have hexit : ∀ m, Call.sleep m ∉ notified (.exitSleep mode) { pm with sleepMode := mode } :=
    fun m h ↦ by cases (mem_notified.mp h).2
  have htickless : tickless c mode { pm with sleepMode := mode } = (mode, []) := by
    simp [tickless, hmask]
  have hwake : wake c mode { pm with sleepMode := mode } = [] := by
    simp [wake, hmask]
  simp only [pass, pmChangeSleepMode, PowerManager.pmChangeSleepMode, hmode, if_false, false_or,
    decide_eq_true_eq]
  by_cases hret : (pmDeviceSuspend mode 0 pm.devicePm).2 = 0
  · rw [if_neg (not_not.mpr hret), if_pos hret, htickless]
    simp only [slept_append, hwake, slept_of_awake henter, slept_of_awake hsuspend,
      slept_of_awake hresume, slept_of_awake hexit]
    rfl
  · rw [if_pos hret, if_neg hret]
    simp only [slept_append, slept_of_awake henter, slept_of_awake hsuspend, slept_of_awake hresume,
      slept_of_awake hexit]

end GiantGecko.Pm.DevicePairing
