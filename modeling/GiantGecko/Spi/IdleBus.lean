import GiantGecko.Spi.Operation

namespace GiantGecko.Spi.IdleBus

open Dma Driver SpiCore Operation

inductive Request
  | transfer (x : Buffers)
  | sendThenSend (b b' : Buffer)
  | sendThenRecv (b b' : Buffer)

def begin (d : Device) : Bus := ⟨d, false, false, []⟩

def invoke (p : Port) (takes : Takes) (d : Device) : Request → Option (BitVec 32 × Bus)
  | .transfer x => rtSpiTransfer p x takes (begin d)
  | .sendThenSend b b' => rtSpiSendThenSend p b b' takes (begin d)
  | .sendThenRecv b b' => rtSpiSendThenRecv p b b' takes (begin d)

def lengths : Request → List (BitVec 32)
  | .transfer x => [x.length]
  | .sendThenSend b b' | .sendThenRecv b b' => [b.length, b'.length]

/-- `rt_spi_transfer` returns 0 for an error, the other calls return `RT_EOK` for success. -/
def Succeeds (result : BitVec 32) : Request → Prop
  | .transfer _ => result ≠ 0
  | _ => result = 0

def AllTransferred (q : Request) (s : Bus) : Prop :=
  ∀ i length, (lengths q)[i]? = some length → length.toNat ≤ s.clocked.getD i 0

structure Idle (p : Port) (s : Bus) : Prop where
  inactive : csLevel p s = !s.selectByHigh
  mutex : s.mutexHeld = false
  lock : s.lockHeld = false

/-- The call returns, leaves the bus idle and reports whether it has done its work. -/
def LeavesIdle (p : Port) (takes : Takes) (d : Device) (q : Request) : Prop :=
  ∃ result s, invoke p takes d q = some (result, s) ∧ Idle p s ∧
    (Succeeds result q ↔ AllTransferred q s)

def Refused (p : Port) (takes : Takes) (d : Device) : Prop :=
  takes.mutex ≠ 0 ∨ d.owner = false ∧ p.cfg.dataWidth ≠ 8 ∧ p.cfg.dataWidth ≠ 16

def Fits (p : Port) (length : BitVec 32) : Prop :=
  0 < length.toNat ∧ length.toNat ≤ if p.usingDma then 2 ^ 31 - 128 else 2 ^ 31 - 1

/-- With the DMA a message without the lock counts as sent, and so does one that is negative as
an `rt_int32_t`; the second message then makes up for it by chance. -/
def Coincides (p : Port) (takes : Takes) (b b' : BitVec 32) : Prop :=
  p.usingDma = true ∧ takes.second = 0 ∧
    (takes.first ≠ 0 ∧ b = 0 ∧ Fits p b' ∨
      (takes.first ≠ 0 ∧ b ≠ 0 ∨ takes.first = 0 ∧ 2 ^ 31 ≤ b.toNat) ∧ b' = 0)

def Proper (p : Port) (takes : Takes) (q : Request) : Prop :=
  match q with
  | .transfer x => takes.first = 0 ∧ Fits p x.length
  | .sendThenSend b b' | .sendThenRecv b b' =>
    takes.first = 0 ∧ takes.second = 0 ∧ Fits p b.length ∧ Fits p b'.length ∨
      Coincides p takes b.length b'.length

/-- A call that is refused finds the chip select inactive, and has something to transfer;
otherwise the locks are taken and the lengths can be moved. -/
def LeavesIdleWhen (p : Port) (takes : Takes) (d : Device) (q : Request) : Prop :=
  Refused p takes d ∧ csLevel p (begin d) = (!d.selectByHigh) ∧ (∃ length ∈ lengths q, length ≠ 0) ∨
    ¬Refused p takes d ∧ Proper p takes q

theorem toNat_eq_zero_iff (length : BitVec 32) : length.toNat = 0 ↔ length = 0 := by
  rw [← BitVec.toNat_inj]
  rfl

theorem fits_iff (p : Port) (length : BitVec 32) :
    Fits p length ↔ ¬Overflows p length ∧ length ≠ 0 ∧ length.toNat < 2 ^ 31 := by
  rw [Fits, Overflows, ne_eq, ← toNat_eq_zero_iff]
  split_ifs <;> omega

section Returns

def Returns (p : Port) (success : BitVec 32 → Prop) (all : Bus → Prop)
    (returned : Option (BitVec 32 × Bus)) : Prop :=
  ∃ result s, returned = some (result, s) ∧ Idle p s ∧ (success result ↔ all s)

variable {p : Port} {success : BitVec 32 → Prop} {all : Bus → Prop}

theorem returns_none : ¬Returns p success all none := by
  rintro ⟨result, s, hnone, -⟩
  cases hnone

theorem returns_some {result : BitVec 32} {s : Bus} :
    Returns p success all (some (result, s)) ↔ Idle p s ∧ (success result ↔ all s) := by
  constructor
  · rintro ⟨result', s', hsome, h⟩
    cases hsome
    exact h
  · exact fun h ↦ ⟨result, s, rfl, h⟩

theorem idle_setErrno {s : Bus} {errno : BitVec 32} : Idle p (s.setErrno errno) ↔ Idle p s :=
  ⟨fun h ↦ ⟨h.inactive, h.mutex, h.lock⟩, fun h ↦ ⟨h.inactive, h.mutex, h.lock⟩⟩

theorem idle_unlock {s s' : Bus} {n : ℕ} (h : Moved p s s' (!s.selectByHigh) n) :
    Idle p s'.unlock :=
  ⟨h.level.trans (congrArg not h.selectByHigh.symm), rfl, h.lock⟩

theorem not_idle_unlock {s s' : Bus} {n : ℕ} (h : Moved p s s' s.selectByHigh n) :
    ¬Idle p s'.unlock := by
  intro hidle
  have hlevel : s.selectByHigh = !s.selectByHigh :=
    h.level.symm.trans (hidle.inactive.trans (congrArg not h.selectByHigh))
  cases hsel : s.selectByHigh <;> rw [hsel] at hlevel <;> cases hlevel

theorem not_overflows_zero : ¬Overflows p 0 := by
  rw [Overflows]
  split_ifs <;> decide

theorem second_iff {m : Message} {errCode : BitVec 32} {s : Bus} {length n : ℕ}
    (htake : m.csTake = false) (hrelease : m.csRelease = true)
    (hsel : csLevel p s = s.selectByHigh) (hlock : s.lockHeld = false) (hclocked : s.clocked = [n])
    (hall : ∀ s, all s ↔ length ≤ s.clocked.getD 0 0 ∧ m.length.toNat ≤ s.clocked.getD 1 0) :
    Returns p (· = 0) all ((xfer p m errCode s).map fun r ↦
        if r.1 = 0 then (-rtEio, r.2.unlock) else (0, r.2.unlock)) ↔
      errCode = 0 ∧ (length ≤ n ∧ Fits p m.length ∨ ¬length ≤ n ∧ m.length = 0) := by
  by_cases herr : errCode = 0
  · subst herr
    by_cases hover : Overflows p m.length
    · rw [overflowing hover, Option.map_none]
      refine iff_of_false returns_none ?_
      rintro ⟨-, ⟨-, hfits⟩ | ⟨-, hzero⟩⟩
      · exact ((fits_iff ..).mp hfits).1 hover
      · exact not_overflows_zero (hzero ▸ hover)
    · obtain ⟨s', n', hx, hmoved, hint⟩ := xfer_locked (s := s) hover
      rw [if_pos hrelease] at hmoved
      have hall' : all s'.unlock ↔ length ≤ n ∧ m.length.toNat ≤ n' := by
        have hboth : s'.unlock.clocked = [n, n'] :=
          hmoved.clocked.trans (congrArg (· ++ [n']) hclocked)
        rw [hall, hboth]
        rfl
      have hidle : Idle p s'.unlock := idle_unlock hmoved
      rw [hx, Option.map_some]
      by_cases hzero : m.length = 0
      · have hfail : -rtEio ≠ 0 := by decide
        have hle : m.length.toNat ≤ n' := hint.mpr (hzero ▸ Nat.two_pow_pos 31)
        rw [if_pos hzero, returns_some, hall', and_iff_left hle, fits_iff]
        simp only [hidle, hzero, eq_false hfail, ne_eq, not_true_eq_false, true_and, and_true,
          and_false, false_and, false_or, false_iff]
      · rw [if_neg hzero, returns_some, hall', hint, fits_iff]
        simp only [hidle, hover, hzero, ne_eq, not_false_eq_true, true_and, and_false, or_false,
          true_iff]
  · obtain ⟨s', hx, hmoved⟩ := xfer_unlocked (p := p) (m := m) herr hlock
    rw [htake, if_neg Bool.false_ne_true, hsel] at hmoved
    rw [hx, Option.map_some]
    refine iff_of_false ?_ fun h ↦ herr h.1
    split_ifs <;> rw [returns_some] <;> exact fun h ↦ not_idle_unlock hmoved h.1

theorem own_succeeds {s : Bus}
    (h : ¬(s.owner = false ∧ p.cfg.dataWidth ≠ 8 ∧ p.cfg.dataWidth ≠ 16)) :
    ∃ s', own p s = (true, s') ∧ s'.clocked = s.clocked ∧ s'.lockHeld = s.lockHeld := by
  cases howner : s.owner with
  | true => exact ⟨s, by rw [own, if_pos howner], rfl, rfl⟩
  | false =>
    have hwidth : ¬(p.cfg.dataWidth ≠ 8 ∧ p.cfg.dataWidth ≠ 16) := fun hw ↦ h ⟨howner, hw⟩
    have hfree : ¬s.owner = true := by rw [howner]; exact Bool.false_ne_true
    rw [own, if_neg hfree, spiConfigure, if_neg hwidth]
    exact ⟨_, rfl, rfl, rfl⟩

theorem own_fails {s : Bus}
    (h : s.owner = false ∧ p.cfg.dataWidth ≠ 8 ∧ p.cfg.dataWidth ≠ 16) : own p s = (false, s) := by
  have hfree : ¬s.owner = true := by rw [h.1]; exact Bool.false_ne_true
  rw [own, if_neg hfree, spiConfigure, if_pos h.2]
  rfl

theorem coincides_locked {takes : Takes} {length length' : BitVec 32} (h : takes.first = 0) :
    Coincides p takes length length' ↔
      p.usingDma = true ∧ takes.second = 0 ∧ 2 ^ 31 ≤ length.toNat ∧ length' = 0 := by
  simp only [Coincides, h, ne_eq, not_true_eq_false, false_and, false_or, true_and]

theorem coincides_unlocked {takes : Takes} {length length' : BitVec 32} (h : takes.first ≠ 0) :
    Coincides p takes length length' ↔ p.usingDma = true ∧ takes.second = 0 ∧
      (length = 0 ∧ Fits p length' ∨ length ≠ 0 ∧ length' = 0) := by
  simp only [Coincides, h, ne_eq, not_false_eq_true, true_and, false_and, or_false]

theorem sendThen_iff {m m' : Message} {takes : Takes} {s : Bus} (hmutex : takes.mutex = 0)
    (hown : ¬(s.owner = false ∧ p.cfg.dataWidth ≠ 8 ∧ p.cfg.dataWidth ≠ 16))
    (hlock : s.lockHeld = false) (hclocked : s.clocked = [])
    (htake : m.csTake = true) (hrelease : m.csRelease = false)
    (htake' : m'.csTake = false) (hrelease' : m'.csRelease = true)
    (hall : ∀ s, all s ↔ m.length.toNat ≤ s.clocked.getD 0 0 ∧ m'.length.toNat ≤ s.clocked.getD 1 0) :
    Returns p (· = 0) all (sendThen p m m' takes s) ↔
      takes.first = 0 ∧ takes.second = 0 ∧ Fits p m.length ∧ Fits p m'.length ∨
        Coincides p takes m.length m'.length := by
  obtain ⟨s₁, hs₁, hclocked₁, hlock₁⟩ := own_succeeds (s := { s with mutexHeld := true }) hown
  rw [sendThen, if_neg (not_not.mpr hmutex), hs₁, if_pos rfl]
  have hthen (s₂ : Bus) (n : ℕ) (hmoved : Moved p s₁ s₂ s₁.selectByHigh n) :
      Returns p (· = 0) all ((xfer p m' takes.second s₂).map fun r ↦
          if r.1 = 0 then (-rtEio, r.2.unlock) else (0, r.2.unlock)) ↔
        takes.second = 0 ∧ (m.length.toNat ≤ n ∧ Fits p m'.length ∨
          ¬m.length.toNat ≤ n ∧ m'.length = 0) := by
    refine second_iff htake' hrelease' ?_ hmoved.lock ?_ hall
    · exact hmoved.level.trans hmoved.selectByHigh.symm
    · rw [hmoved.clocked, hclocked₁, hclocked]
      rfl
  by_cases herr : takes.first = 0
  · rw [herr, coincides_locked herr, fits_iff p m.length]
    by_cases hover : Overflows p m.length
    · rw [overflowing hover, Option.bind_none]
      refine iff_of_false returns_none ?_
      rintro (⟨-, -, hfits, -⟩ | ⟨hdma, -, hneg, -⟩)
      · exact hfits.1 hover
      · rw [Overflows, if_pos hdma] at hover
        omega
    · obtain ⟨s₂, n, hx, hmoved, hint⟩ := xfer_locked (s := s₁) hover
      rw [hrelease, htake, if_neg Bool.false_ne_true, if_pos rfl] at hmoved
      rw [hx, Option.bind_some]
      by_cases hzero : m.length = 0
      · rw [if_pos hzero, returns_some]
        refine iff_of_false (fun h ↦ not_idle_unlock hmoved h.1) ?_
        rintro (⟨-, -, hfits, -⟩ | ⟨-, -, hneg, -⟩)
        · exact hfits.2.1 hzero
        · rw [hzero] at hneg
          exact absurd hneg (by decide)
      · have hdma (hneg : 2 ^ 31 ≤ m.length.toNat) : p.usingDma = true := by
          by_contra hpoll
          rw [Overflows, if_neg hpoll] at hover
          exact hover hneg
        rw [if_neg hzero, hthen s₂ n hmoved, hint]
        obtain hneg | hpos := le_or_gt (2 ^ 31) m.length.toNat
        · simp only [hdma hneg, hneg, hneg.not_gt, false_and, false_or, and_false, not_false_eq_true,
            true_and]
        · simp only [hpos, hpos.not_ge, hover, hzero, ne_eq, not_false_eq_true, not_true_eq_false,
            true_and, false_and, and_false, or_false]
  · obtain ⟨s₂, hx, hmoved⟩ := xfer_unlocked (p := p) (m := m) herr (hlock₁.trans hlock)
    rw [htake, if_pos rfl] at hmoved
    rw [hx, Option.bind_some]
    by_cases hdma : p.usingDma = true
    · rw [if_pos hdma, if_neg herr, hthen s₂ 0 hmoved, Nat.le_zero, toNat_eq_zero_iff,
        coincides_unlocked herr]
      simp only [herr, hdma, false_and, false_or, true_and, ne_eq]
    · rw [if_neg hdma, if_pos rfl, returns_some]
      exact iff_of_false (fun h ↦ not_idle_unlock hmoved h.1)
        fun h ↦ h.elim (fun h ↦ herr h.1) (fun h ↦ hdma h.1)

theorem transfer_iff {x : Buffers} {takes : Takes} {s : Bus} (hmutex : takes.mutex = 0)
    (hown : ¬(s.owner = false ∧ p.cfg.dataWidth ≠ 8 ∧ p.cfg.dataWidth ≠ 16))
    (hlock : s.lockHeld = false) (hclocked : s.clocked = [])
    (hall : ∀ s, all s ↔ x.length.toNat ≤ s.clocked.getD 0 0) :
    Returns p (· ≠ 0) all (rtSpiTransfer p x takes s) ↔ takes.first = 0 ∧ Fits p x.length := by
  obtain ⟨s₁, hs₁, hclocked₁, hlock₁⟩ := own_succeeds (s := { s with mutexHeld := true }) hown
  rw [rtSpiTransfer, if_neg (not_not.mpr hmutex), hs₁, if_pos rfl]
  by_cases herr : takes.first = 0
  · rw [herr]
    by_cases hover : Overflows p x.length
    · rw [overflowing (m := x.message) hover, Option.map_none]
      exact iff_of_false returns_none fun h ↦ ((fits_iff ..).mp h.2).1 hover
    · obtain ⟨s₂, n, hx, hmoved, hint⟩ := xfer_locked (m := x.message) (s := s₁) hover
      have hall' (s' : Bus) (hs' : s'.clocked = s₂.clocked) : all s' ↔ x.length.toNat < 2 ^ 31 := by
        have hone : s'.clocked = [n] :=
          hs'.trans (hmoved.clocked.trans (congrArg (· ++ [n]) (hclocked₁.trans hclocked)))
        rw [hall, hone]
        exact hint
      replace hx : xfer p x.message 0 s₁ = some (x.length, s₂) := hx
      rw [hx, Option.map_some, returns_some, hall' _ (by split_ifs <;> rfl)]
      dsimp only
      by_cases hzero : x.length = 0
      · refine iff_of_false (fun h ↦ ?_) fun h ↦ ((fits_iff ..).mp h.2).2.1 hzero
        exact h.2.mpr (hzero ▸ Nat.two_pow_pos 31) hzero
      · have hidle : Idle p s₂.unlock := idle_unlock hmoved
        rw [if_neg hzero, fits_iff]
        simp only [hidle, hover, ne_eq, hzero, not_false_eq_true, true_and, true_iff]
  · obtain ⟨s₂, hx, hmoved⟩ := xfer_unlocked (p := p) (m := x.message) herr (hlock₁.trans hlock)
    replace hmoved : Moved p s₁ s₂ s₁.selectByHigh 0 := hmoved
    rw [hx, Option.map_some, returns_some]
    refine iff_of_false (fun h ↦ not_idle_unlock hmoved ?_) fun h ↦ herr h.1
    by_cases hfail : (if p.usingDma then takes.first else 0) = 0
    · rw [if_pos hfail] at h
      exact idle_setErrno.mp h.1
    · rw [if_neg hfail] at h
      exact h.1

theorem invoke_refused {takes : Takes} {d : Device} (h : Refused p takes d) (q : Request) :
    ∃ result s, invoke p takes d q = some (result, s) ∧ ¬Succeeds result q ∧ s.clocked = [] ∧
      (Idle p s ↔ csLevel p (begin d) = !d.selectByHigh) := by
  have hidle : Idle p (begin d) ↔ csLevel p (begin d) = !d.selectByHigh :=
    ⟨fun h ↦ h.inactive, fun h ↦ ⟨h, rfl, rfl⟩⟩
  have hpair (m m' : Message) : sendThen p m m' takes (begin d) = some (-rtEio, begin d) := by
    obtain hmutex | hown := h
    · rw [sendThen, if_pos hmutex]
    · rw [sendThen, own_fails (s := { begin d with mutexHeld := true }) hown]
      exact ite_self _
  have htransfer (x : Buffers) :
      rtSpiTransfer p x takes (begin d) = some (0, (begin d).setErrno (-rtEio)) := by
    obtain hmutex | hown := h
    · rw [rtSpiTransfer, if_pos hmutex]
    · rw [rtSpiTransfer, own_fails (s := { begin d with mutexHeld := true }) hown]
      exact ite_self _
  have hfail : -rtEio ≠ 0 := by decide
  cases q with
  | transfer x => exact ⟨_, _, htransfer x, not_not.mpr rfl, rfl, idle_setErrno.trans hidle⟩
  | sendThenSend b b' => exact ⟨_, _, hpair _ _, hfail, rfl, hidle⟩
  | sendThenRecv b b' => exact ⟨_, _, hpair _ _, hfail, rfl, hidle⟩

theorem allTransferred_nil {q : Request} {s : Bus} (h : s.clocked = []) :
    AllTransferred q s ↔ ¬∃ length ∈ lengths q, length ≠ 0 := by
  simp only [AllTransferred, h, List.getD_nil, Nat.le_zero, toNat_eq_zero_iff, not_exists, not_and, not_not,
    List.mem_iff_getElem?, forall_exists_index]
  exact forall_comm

theorem allTransferred_pair {q : Request} {s : Bus} {length length' : BitVec 32}
    (hq : lengths q = [length, length']) : AllTransferred q s ↔
      length.toNat ≤ s.clocked.getD 0 0 ∧ length'.toNat ≤ s.clocked.getD 1 0 := by
  rw [AllTransferred, hq]
  constructor
  · exact fun h ↦ ⟨h 0 _ rfl, h 1 _ rfl⟩
  · rintro ⟨hfirst, hsecond⟩ (_ | _ | i) l hl
    · cases hl
      exact hfirst
    · cases hl
      exact hsecond
    · cases hl

end Returns

/-- Exactly these calls leave the bus idle and tell whether they have done their work. -/
theorem leavesIdle_iff (p : Port) (takes : Takes) (d : Device) (q : Request) :
    LeavesIdle p takes d q ↔ LeavesIdleWhen p takes d q := by
  rw [LeavesIdleWhen]
  by_cases hrefused : Refused p takes d
  · obtain ⟨result, s, hcall, hfails, hclocked, hidle⟩ := invoke_refused hrefused q
    rw [LeavesIdle, hcall]
    refine returns_some.trans ?_
    rw [hidle, iff_false_left hfails, allTransferred_nil hclocked, not_not]
    simp only [hrefused, not_true_eq_false, false_and, or_false, true_and]
  · have hmutex : takes.mutex = 0 := not_not.mp fun h ↦ hrefused (.inl h)
    have hown : ¬(d.owner = false ∧ p.cfg.dataWidth ≠ 8 ∧ p.cfg.dataWidth ≠ 16) :=
      fun h ↦ hrefused (.inr h)
    simp only [hrefused, false_and, false_or, not_false_eq_true, true_and]
    cases q with
    | transfer x =>
      refine transfer_iff hmutex hown rfl rfl fun s ↦ ⟨fun h ↦ h 0 _ rfl, ?_⟩
      rintro h (_ | i) l hl
      · cases hl
        exact h
      · cases hl
    | sendThenSend b b' =>
      exact sendThen_iff hmutex hown rfl rfl rfl rfl rfl rfl fun s ↦ allTransferred_pair rfl
    | sendThenRecv b b' =>
      exact sendThen_iff hmutex hown rfl rfl rfl rfl rfl rfl fun s ↦ allTransferred_pair rfl

def portWith (usingDma : Bool) : Port where
  line := ⟨fun _ ↦ 0, 2, fun _ _ ↦ true⟩
  pin := 5
  cfg := ⟨0, 8⟩
  usingDma := usingDma

def idleDevice : Device where
  world := ⟨fun _ ↦ 0, [], [(5, true)], 0⟩
  hspi := dmaConfiguration ⟨0x4000C000, ⟨0, 0, 0⟩, ⟨0, 0, 0⟩⟩
  owner := true
  selectByHigh := false

def oneByte : Buffers := ⟨0x20000200, 0x20000300, 1, by decide, by decide⟩

def command (length : BitVec 32) (h : length.toNat ≤ 4) : Buffer :=
  ⟨0x20000000, length, fun _ ↦ (Nat.add_le_add_left h _).trans (by decide)⟩

/-- Without the lock the error code comes back as a count and the chip select stays low; and so
it does after an empty first message, of which nothing is missing. -/
theorem not_leavesIdle :
    (∃ s, invoke (portWith true) ⟨0, -1, 0⟩ idleDevice (.transfer oneByte) = some (-1, s) ∧
      csLevel (portWith true) s = false ∧ s.clocked = [0]) ∧
    (∃ s, invoke (portWith false) ⟨0, 0, 0⟩ idleDevice
        (.sendThenSend (command 0 (by decide)) (command 4 (by decide))) = some (-rtEio, s) ∧
      csLevel (portWith false) s = false) ∧
    ¬LeavesIdle (portWith true) ⟨0, -1, 0⟩ idleDevice (.transfer oneByte) ∧
    ¬LeavesIdle (portWith false) ⟨0, 0, 0⟩ idleDevice
      (.sendThenSend (command 0 (by decide)) (command 4 (by decide))) := by
  refine ⟨⟨_, rfl, rfl, rfl⟩, ⟨_, rfl, rfl⟩, ?_, ?_⟩
  · rintro ⟨result, s, hcall, hidle, -⟩
    cases hcall
    exact Bool.false_ne_true hidle.inactive
  · rintro ⟨result, s, hcall, hidle, -⟩
    cases hcall
    exact Bool.false_ne_true hidle.inactive

end GiantGecko.Spi.IdleBus
