import GiantGecko.Drivers.Serial

namespace GiantGecko.Drivers.SerialModes

open Serial Foundation.Transition

variable {s : SerialDevice} {oflag x y f : Flags} {memory : Memory}

@[simp] theorem has_or : Has (x ||| y) f ↔ Has x f ∨ Has y f := by
  have hdistrib : (x ||| y) &&& f = x &&& f ||| y &&& f := by
    rw [BitVec.and_comm, BitVec.and_or_distrib_left, BitVec.and_comm f x, BitVec.and_comm f y]
  simp only [Has, hdistrib, ne_eq, BitVec.ofNat_eq_ofNat, BitVec.or_eq_zero_iff, not_and_or]

theorem not_has_and (h : y &&& f = 0) : ¬ Has (x &&& y) f := by
  intro hx
  apply hx
  rw [BitVec.and_assoc, h]
  exact BitVec.and_zero

@[simp] theorem low_intRx : ¬ Has (oflag &&& 255#16) rtDeviceFlagIntRx := not_has_and (by decide)

@[simp] theorem low_intTx : ¬ Has (oflag &&& 255#16) rtDeviceFlagIntTx := not_has_and (by decide)

@[simp] theorem streamFlag_intRx : ¬ Has (streamFlag x y) rtDeviceFlagIntRx := by
  rw [streamFlag]
  split_ifs <;> decide

@[simp] theorem streamFlag_intTx : ¬ Has (streamFlag x y) rtDeviceFlagIntTx := by
  rw [streamFlag]
  split_ifs <;> decide

structure Receiver (flag : Flags) : Prop where
  intRx : Has flag rtDeviceFlagIntRx
  dmaRx : ¬ Has flag rtDeviceFlagDmaRx
  dmaTx : ¬ Has flag rtDeviceFlagDmaTx
  intTx : ¬ Has flag rtDeviceFlagIntTx
  shared : ¬ Has flag rtDeviceFlagStandalone

theorem receiver_registered : Receiver (rtDeviceFlagRdwr ||| rtDeviceFlagIntRx) := by
  constructor <;> decide

theorem Receiver.activated (h : Receiver x) : Receiver (x ||| rtDeviceFlagActivated) where
  intRx := has_or.mpr (.inl h.intRx)
  dmaRx := fun hd ↦ (has_or.mp hd).elim h.dmaRx (by decide)
  dmaTx := fun hd ↦ (has_or.mp hd).elim h.dmaTx (by decide)
  intTx := fun hd ↦ (has_or.mp hd).elim h.intTx (by decide)
  shared := fun hd ↦ (has_or.mp hd).elim h.shared (by decide)

/-- The receive mode of the device: either no FIFO, or one FIFO with the flag
and the interrupt that go with it. -/
structure Mode (s : SerialDevice) : Prop where
  flag : Has s.openFlag rtDeviceFlagIntRx ↔ s.serialRx.isSome = true
  irq : s.rxIrq = s.serialRx.isSome
  allocated : s.allocated = s.serialRx.toList.length
  intTx : ¬ Has s.openFlag rtDeviceFlagIntTx
  serialTx : s.serialTx = false

/-- What `rt_serial_open` makes of a device without a transmit FIFO, where the
device has the modes that are asked for. -/
inductive Opened (oflag : Flags) (s : SerialDevice) : SerialDevice → Prop
  | polls (h : ¬ Has oflag rtDeviceFlagIntRx) : Opened oflag s
      { s with openFlag := oflag &&& 0xff ||| streamFlag oflag s.openFlag }
  | shares (h : Has oflag rtDeviceFlagIntRx) (hrx : s.serialRx.isSome = true) : Opened oflag s
      { s with
        openFlag := oflag &&& 0xff ||| rtDeviceFlagIntRx ||| streamFlag oflag s.openFlag }
  | allocates (h : Has oflag rtDeviceFlagIntRx) (hrx : s.serialRx = none) : Opened oflag s
      { s with
        serialRx := some ⟨List.replicate s.bufsz 0, 0, 0, false⟩
        openFlag := oflag &&& 0xff ||| rtDeviceFlagIntRx ||| streamFlag oflag s.openFlag
        allocated := s.allocated + 1
        rxIrq := true }
  | fails (hrx : s.serialRx = none) : Opened oflag s
      { s with openFlag := oflag &&& 0xff, halted := true }

theorem openTx_idle (htx : s.serialTx = false) (h : ¬ Has oflag rtDeviceFlagIntTx)
    (memory : Bool) : openTx oflag memory s = s := by
  rw [openTx, htx, if_neg (by decide), if_neg h]

theorem serialOpen_eq {rx : SerialDevice} (hsup : Supports s.flag oflag)
    (hno : ¬ Has oflag rtDeviceFlagIntTx)
    (hopen : openRx oflag memory.rx { s with openFlag := oflag &&& 0xff } = rx)
    (htx : rx.serialTx = false) :
    rtSerialOpen oflag memory s = (.eok, if rx.halted = true then rx else
      { rx with openFlag := rx.openFlag ||| streamFlag oflag s.openFlag }) := by
  rw [rtSerialOpen, if_neg (not_not.mpr hsup)]
  simp only [hopen, openTx_idle htx hno]
  split_ifs <;> rfl

theorem openRx_polls (h : ¬ Has oflag rtDeviceFlagIntRx) (memory : Bool) :
    openRx oflag memory s = s := by
  rw [openRx]
  split <;> exact if_neg h

theorem openRx_shares (h : Has oflag rtDeviceFlagIntRx) (hrx : s.serialRx.isSome = true)
    (memory : Bool) :
    openRx oflag memory s = { s with openFlag := s.openFlag ||| rtDeviceFlagIntRx } := by
  rw [openRx]
  split
  · rename_i hnone
    simp [hnone] at hrx
  · exact if_pos h

theorem openRx_none (h : Has oflag rtDeviceFlagIntRx) (hrx : s.serialRx = none) (memory : Bool) :
    openRx oflag memory s = if memory = true then
      { s with
        serialRx := some ⟨List.replicate s.bufsz 0, 0, 0, false⟩
        openFlag := s.openFlag ||| rtDeviceFlagIntRx
        allocated := s.allocated + 1
        rxIrq := true }
    else { s with halted := true } := by
  rw [openRx, hrx]
  exact (if_pos h).trans rfl

theorem opened_serialOpen (hr : Receiver s.flag) (hsup : Supports s.flag oflag)
    (htx : s.serialTx = false) (hrun : s.halted = false) (memory : Memory) :
    ∃ d, rtSerialOpen oflag memory s = (.eok, d) ∧ Opened oflag s d := by
  have hno : ¬ Has oflag rtDeviceFlagIntTx := mt hsup.2.2.2 hr.intTx
  have hgoes : ¬ s.halted = true := by simp [hrun]
  by_cases h : Has oflag rtDeviceFlagIntRx
  · obtain hrx | hrx := Bool.eq_false_or_eq_true s.serialRx.isSome
    · have hopen := openRx_shares (s := { s with openFlag := oflag &&& 0xff }) h hrx memory.rx
      rw [serialOpen_eq hsup hno hopen htx, if_neg hgoes]
      exact ⟨_, rfl, .shares h hrx⟩
    · have hnone : s.serialRx = none := by simpa using hrx
      have hopen := openRx_none (s := { s with openFlag := oflag &&& 0xff }) h hnone memory.rx
      by_cases hmem : memory.rx = true
      · rw [if_pos hmem] at hopen
        rw [serialOpen_eq hsup hno hopen htx, if_neg hgoes]
        exact ⟨_, rfl, .allocates h hnone⟩
      · rw [if_neg hmem] at hopen
        rw [serialOpen_eq hsup hno hopen htx, if_pos rfl]
        exact ⟨_, rfl, .fails hnone⟩
  · rw [serialOpen_eq hsup hno (openRx_polls h _) htx, if_neg hgoes]
    exact ⟨_, rfl, .polls h⟩

/-- The mode stays as it should while no open without the receive flag finds
the FIFO there. -/
theorem Opened.mode {s' : SerialDevice} (h : Opened oflag s s') (hm : Mode s)
    (hkeep : s.serialRx.isSome = true → Has oflag rtDeviceFlagIntRx) : Mode s' := by
  have htx : ¬ Has rtDeviceFlagIntRx rtDeviceFlagIntTx := by decide
  have hrx : Has rtDeviceFlagIntRx rtDeviceFlagIntRx := by decide
  obtain ⟨hflag, hirq, hallocated, hintTx, hserialTx⟩ := hm
  cases h with
  | polls h =>
    have hnone : s.serialRx = none := Option.not_isSome_iff_eq_none.mp (mt hkeep h)
    exact ⟨by simp [hnone], hirq, hallocated, by simp, hserialTx⟩
  | shares h hsome => exact ⟨by simp [hsome, hrx], hirq, hallocated, by simp [htx], hserialTx⟩
  | allocates h hnone =>
    rw [hnone] at hallocated
    exact ⟨by simp [hrx], rfl, by simp [hallocated], by simp [htx], hserialTx⟩
  | fails hnone => exact ⟨by simp [hnone], hirq, hallocated, low_intTx, hserialTx⟩

structure Traffic (s s' : SerialDevice) : Prop where
  flag : s'.flag = s.flag
  openFlag : s'.openFlag = s.openFlag
  refCount : s'.refCount = s.refCount
  isSome : s'.serialRx.isSome = s.serialRx.isSome
  serialTx : s'.serialTx = s.serialTx
  rxIrq : s'.rxIrq = s.rxIrq
  allocated : s'.allocated = s.allocated
  halted : s'.halted = s.halted

theorem Traffic.refl (s : SerialDevice) : Traffic s s := ⟨rfl, rfl, rfl, rfl, rfl, rfl, rfl, rfl⟩

theorem Traffic.trans {s' s'' : SerialDevice} (h : Traffic s s') (h' : Traffic s' s'') :
    Traffic s s'' where
  flag := h'.flag.trans h.flag
  openFlag := h'.openFlag.trans h.openFlag
  refCount := h'.refCount.trans h.refCount
  isSome := h'.isSome.trans h.isSome
  serialTx := h'.serialTx.trans h.serialTx
  rxIrq := h'.rxIrq.trans h.rxIrq
  allocated := h'.allocated.trans h.allocated
  halted := h'.halted.trans h.halted

theorem traffic_interrupt (hirq : s.rxIrq = true → s.serialRx.isSome = true)
    (chars : List UInt8) : Traffic s (interrupt s chars) := by
  rw [interrupt]
  split_ifs with hon
  · obtain ⟨fifo, hfifo⟩ := Option.isSome_iff_exists.mp (hirq hon)
    simp only [rtHwSerialIsr, hfifo]
    exact ⟨rfl, rfl, rfl, by simp [hfifo], rfl, rfl, rfl, rfl⟩
  · exact .refl s

theorem traffic_interrupts (hirq : s.rxIrq = true → s.serialRx.isSome = true)
    (interrupts : List (List UInt8)) : Traffic s (interrupts.foldl interrupt s) := by
  induction interrupts generalizing s with
  | nil => exact .refl s
  | cons chars interrupts ih =>
    have h := traffic_interrupt hirq chars
    have hirq' : (interrupt s chars).rxIrq = true → (interrupt s chars).serialRx.isSome = true := by
      rw [h.rxIrq, h.isSome]
      exact hirq
    exact h.trans (ih hirq')

theorem traffic_intRx (line : ℕ → Turn) {n : ℕ} (hsome : s.serialRx.isSome = true) :
    Traffic s (serialIntRx line n s).2 := by
  induction n generalizing s with
  | zero => exact .refl s
  | succ n ih =>
    have h := traffic_interrupts (fun _ ↦ hsome) (line n).interrupts
    obtain ⟨fifo, hfifo⟩ := Option.isSome_iff_exists.mp (h.isSome.trans hsome)
    simp only [serialIntRx, hfifo]
    cases hchar : getChar ((line n).interrupts.foldl interrupt s).bufsz fifo with
    | none => exact h
    | some p =>
      obtain ⟨ch, fifo'⟩ := p
      refine h.trans (Traffic.trans ?_ (ih rfl))
      exact ⟨rfl, rfl, rfl, by simp [hfifo], rfl, rfl, rfl, rfl⟩

theorem traffic_pollRx (line : ℕ → Turn) {n : ℕ}
    (hirq : s.rxIrq = true → s.serialRx.isSome = true) :
    Traffic s (serialPollRx line n s).2 := by
  induction n generalizing s with
  | zero => exact .refl s
  | succ n ih =>
    have h := traffic_interrupts hirq (line n).interrupts
    simp only [serialPollRx]
    cases hchar : (line n).getc with
    | none => exact h
    | some ch =>
      simp only
      split_ifs
      · exact h
      · refine h.trans (ih ?_)
        rw [h.rxIrq, h.isSome]
        exact hirq

theorem traffic_read (hm : Mode s) (size : ℕ) (line : ℕ → Turn) :
    Traffic s (rtDeviceRead size line s).2 := by
  have hirq : s.rxIrq = true → s.serialRx.isSome = true := fun h ↦ hm.irq ▸ h
  simp only [rtDeviceRead, rtSerialRead]
  split_ifs with _ _ hflag
  · exact .refl s
  · exact .refl s
  · exact traffic_intRx line (hm.flag.mp hflag)
  · exact traffic_pollRx line hirq

theorem Mode.traffic {s' : SerialDevice} (h : Traffic s s') (hm : Mode s) : Mode s' where
  flag := by rw [h.openFlag, h.isSome]; exact hm.flag
  irq := by rw [h.rxIrq, h.isSome]; exact hm.irq
  allocated := by
    have hlength (o : Option RxFifo) : o.toList.length = o.isSome.toNat := by cases o <;> rfl
    rw [h.allocated, hm.allocated, hlength, hlength, h.isSome]
  intTx := by rw [h.openFlag]; exact hm.intTx
  serialTx := h.serialTx.trans hm.serialTx

theorem read_eq (hm : Mode s) (hsome : s.serialRx.isSome = true) (hopen : s.refCount ≠ 0)
    (size : ℕ) (line : ℕ → Turn) : rtDeviceRead size line s = serialIntRx line size s := by
  rw [rtDeviceRead, if_neg hopen, rtSerialRead, if_pos (hm.flag.mpr hsome)]
  split_ifs with hsize
  · rw [hsize, serialIntRx]
  · rfl

theorem Opened.flag {s' : SerialDevice} (h : Opened oflag s s') : s'.flag = s.flag := by
  cases h <;> rfl

theorem Opened.refCount {s' : SerialDevice} (h : Opened oflag s s') :
    s'.refCount = s.refCount := by
  cases h <;> rfl

theorem Opened.keeps {s' : SerialDevice} (h : Opened oflag s s')
    (hsome : s.serialRx.isSome = true) : s'.serialRx.isSome = true := by
  cases h with
  | allocates => rfl
  | _ => exact hsome

theorem Opened.asked {s' : SerialDevice} (h : Opened oflag s s') (hrun : s'.halted = false)
    (hask : Has oflag rtDeviceFlagIntRx) : s'.serialRx.isSome = true := by
  cases h with
  | polls hno => exact absurd hask hno
  | shares _ hsome => exact hsome
  | allocates => rfl
  | fails => simp at hrun

theorem Opened.failed {s' : SerialDevice} (h : Opened oflag s s') (hrun : s.halted = false)
    (hfail : s'.halted = true) : s'.serialRx.isSome = false := by
  cases h with
  | fails hnone => simp [hnone]
  | _ => simp [hrun] at hfail

structure Unused (s : SerialDevice) : Prop where
  openFlag : s.openFlag = 0
  irq : s.rxIrq = false
  allocated : s.allocated = 0
  refCount : s.refCount = 0

structure Inv (s : System) : Prop where
  receiver : Receiver s.dev.flag
  mode : Has s.dev.flag rtDeviceFlagActivated → Mode s.dev
  unused : ¬ Has s.dev.flag rtDeviceFlagActivated → Unused s.dev ∧ s.openers = []
  held : Has s.dev.flag rtDeviceFlagActivated → s.dev.serialRx.isSome = true → s.openers ≠ []
  served : true ∈ s.openers → s.dev.serialRx.isSome = true
  count : s.dev.halted = false → s.dev.refCount.toNat = s.openers.length

theorem inv_init (ind : Bool) (bufsz : ℕ) : Inv (rtHwSerialInitSystem ind bufsz) where
  receiver := receiver_registered
  mode := by
    intro h
    exact absurd h (by show ¬ Has (rtDeviceFlagRdwr ||| rtDeviceFlagIntRx) _; decide)
  unused := fun _ ↦ ⟨⟨rfl, rfl, rfl, rfl⟩, rfl⟩
  held := by
    intro h
    exact absurd h (by show ¬ Has (rtDeviceFlagRdwr ||| rtDeviceFlagIntRx) _; decide)
  served := by
    intro h
    simp [rtHwSerialInitSystem] at h
  count := fun _ ↦ rfl

theorem has_activate (s : SerialDevice) : Has (activate s).flag rtDeviceFlagActivated := by
  rw [activate]
  split_ifs with h
  · exact h
  · exact has_or.mpr (.inr (by decide))

theorem inv_activate {s : System} (h : Inv s) : Inv ⟨activate s.dev, s.openers⟩ := by
  by_cases hact : Has s.dev.flag rtDeviceFlagActivated
  · have hsame : activate s.dev = s.dev := by rw [activate, if_pos hact]
    rw [hsame]
    exact h
  · obtain ⟨⟨hopenFlag, hirq, hallocated, hrefCount⟩, hopeners⟩ := h.unused hact
    have hmode : Mode (activate s.dev) := by
      rw [activate, if_neg hact]
      refine ⟨?_, hirq, hallocated, ?_, rfl⟩
      · simp only [rtSerialInit, hopenFlag]
        decide
      · simp only [rtSerialInit, hopenFlag]
        decide
    refine ⟨?_, fun _ ↦ hmode, fun hno ↦ absurd (has_activate s.dev) hno, ?_, ?_, ?_⟩
    · rw [activate, if_neg hact]
      exact h.receiver.activated
    · intro _ hsome
      rw [activate, if_neg hact] at hsome
      simp [rtSerialInit] at hsome
    · intro htrue
      simp [hopeners] at htrue
    · rw [activate, if_neg hact]
      exact h.count

/-- An open for which the device has a FIFO asks to receive by interrupt, or
is refused. -/
def Keeps (s : System) : Event → Prop
  | .opens oflag _ =>
    s.dev.allocated ≠ 0 → Supports s.dev.flag oflag → Has oflag rtDeviceFlagIntRx
  | _ => True

theorem supports_activate {s : SerialDevice} (oflag : Flags) (hr : Receiver s.flag) :
    Supports (activate s).flag oflag ↔ Supports s.flag oflag := by
  rw [activate]
  split_ifs
  · exact Iff.rfl
  · have h := hr.activated
    simp only [Supports, h.dmaRx, h.dmaTx, h.intRx, h.intTx, hr.dmaRx, hr.dmaTx, hr.intRx, hr.intTx]

theorem Mode.present (hm : Mode s) : s.allocated ≠ 0 ↔ s.serialRx.isSome = true := by
  rw [hm.allocated]
  cases s.serialRx <;> simp

theorem Mode.addFlag (hm : Mode s) (hrx : ¬ Has f rtDeviceFlagIntRx)
    (htx : ¬ Has f rtDeviceFlagIntTx) (count : BitVec 8) (halted : Bool) :
    Mode { s with openFlag := s.openFlag ||| f, refCount := count, halted := halted } where
  flag := by simpa [hrx] using hm.flag
  irq := hm.irq
  allocated := hm.allocated
  intTx := by simpa [htx] using hm.intTx
  serialTx := hm.serialTx

theorem inv_opens {s : System} (h : Inv s) (hrun : s.dev.halted = false)
    (hkeep : Keeps s (.opens oflag memory)) : Inv (turn s (.opens oflag memory)) := by
  have hact := inv_activate h
  have hhas := has_activate s.dev
  have hshared := hact.receiver.shared
  have hmode := hact.mode hhas
  have hrun' : (activate s.dev).halted = false := by
    rw [activate]
    split_ifs <;> exact hrun
  have hkeep' (hsup : Supports (activate s.dev).flag oflag)
      (hsome : (activate s.dev).serialRx.isSome = true) : Has oflag rtDeviceFlagIntRx := by
    refine hkeep ?_ ((supports_activate oflag h.receiver).mp hsup)
    have hpresent := hmode.present.mpr hsome
    rw [activate] at hpresent
    split_ifs at hpresent <;> exact hpresent
  simp only [turn, rtDeviceOpen, hshared, false_and, if_false]
  by_cases hsup : Supports (activate s.dev).flag oflag
  · obtain ⟨d, hserial, hopened⟩ :=
      opened_serialOpen hact.receiver hsup hmode.serialTx hrun' memory
    have hd := hopened.mode hmode (hkeep' hsup)
    have hcount : d.refCount.toNat = s.openers.length := by
      rw [hopened.refCount]
      exact hact.count hrun'
    simp only [hserial, true_and]
    cases hfail : d.halted with
    | true =>
      have hnone := hopened.failed hrun' hfail
      have hopeners : true ∉ s.openers := by
        intro htrue
        simp [hopened.keeps (hact.served htrue)] at hnone
      simp only [hfail, Bool.true_eq_false, if_false, and_false]
      refine ⟨hopened.flag ▸ hact.receiver, fun _ ↦ hd, ?_, ?_, ?_, ?_⟩
      · exact fun hno ↦ absurd (hopened.flag ▸ hhas) hno
      · intro _ hsome
        simp [hnone] at hsome
      · exact fun htrue ↦ absurd htrue hopeners
      · intro hgoes
        simp [hfail] at hgoes
    | false =>
      have hflags := hd.addFlag (f := rtDeviceOflagOpen) (by decide) (by decide) (d.refCount + 1)
        (decide (d.refCount + 1 = 0))
      by_cases hwrap : d.refCount + 1 = 0
      · have hmany : s.openers ≠ [] := by
          intro hnil
          rw [hnil, List.length_nil] at hcount
          have hzero : d.refCount = 0 := BitVec.eq_of_toNat_eq hcount
          rw [hzero] at hwrap
          exact absurd hwrap (by decide)
        simp only [hwrap, decide_true, Bool.true_eq_false, if_true, if_false, true_and]
        rw [hwrap] at hflags
        refine ⟨hopened.flag ▸ hact.receiver, fun _ ↦ hflags, ?_, fun _ _ ↦ hmany, ?_, ?_⟩
        · exact fun hno ↦ absurd (hopened.flag ▸ hhas) hno
        · exact fun htrue ↦ hopened.keeps (hact.served htrue)
        · intro hgoes
          simp at hgoes
      · simp only [hwrap, decide_false, if_true, true_and]
        simp only [hwrap, decide_false] at hflags
        refine ⟨hopened.flag ▸ hact.receiver, fun _ ↦ hflags, ?_, ?_, ?_, ?_⟩
        · exact fun hno ↦ absurd (hopened.flag ▸ hhas) hno
        · exact fun _ _ ↦ List.append_ne_nil_of_right_ne_nil _ (List.cons_ne_nil _ _)
        · intro htrue
          obtain hold | hnew := List.mem_append.mp htrue
          · exact hopened.keeps (hact.served hold)
          · exact hopened.asked hfail (by simpa using hnew)
        · intro _
          have hlt := (d.refCount + 1).isLt
          have hne : (d.refCount + 1).toNat ≠ 0 := fun hzero ↦ hwrap (BitVec.eq_of_toNat_eq hzero)
          simp only [BitVec.toNat_add, List.length_append, List.length_singleton] at *
          simp at hne ⊢
          omega
  · have hrefused : rtSerialOpen oflag memory (activate s.dev) = (.eio, activate s.dev) := by
      rw [rtSerialOpen, if_pos hsup]
    simp only [hrefused, reduceCtorEq, false_and, if_false]
    exact hact

theorem has_of_and (h : Has (x &&& y) f) : Has x f := by
  intro hx
  apply h
  have hswap : x &&& y &&& f = x &&& f &&& y := by
    rw [BitVec.and_assoc, BitVec.and_comm y, ← BitVec.and_assoc]
  rw [hswap, hx]
  exact BitVec.zero_and

theorem closeTx_idle (h : ¬ Has s.openFlag rtDeviceFlagIntTx) : closeTx s = s := by
  rw [closeTx, if_neg h]

theorem closeRx_eq (hm : Mode s) :
    ∃ openFlag, ¬ Has openFlag rtDeviceFlagIntTx ∧ closeRx s =
      { s with openFlag := openFlag, serialRx := none, rxIrq := false, allocated := 0 } := by
  have hallocated := hm.allocated
  obtain hsome | hnone := Bool.eq_false_or_eq_true s.serialRx.isSome
  · obtain ⟨fifo, hfifo⟩ := Option.isSome_iff_exists.mp hsome
    rw [hfifo] at hallocated
    refine ⟨s.openFlag &&& ~~~rtDeviceFlagIntRx, mt has_of_and hm.intTx, ?_⟩
    rw [closeRx, if_pos (hm.flag.mpr hsome), hfifo]
    simp only [hallocated]
    rfl
  · have hnil : s.serialRx = none := by simpa using hnone
    have hirq : s.rxIrq = false := hm.irq.trans hnone
    rw [hnil] at hallocated
    refine ⟨s.openFlag, hm.intTx, ?_⟩
    rw [closeRx, if_neg (mt hm.flag.mp (by simp [hnone]))]
    obtain ⟨⟩ := s
    simp only [List.length_nil, Option.toList_none] at hnil hirq hallocated
    rw [hnil, hirq, hallocated]

theorem serialClose_eq (hm : Mode s) (hrun : s.halted = false)
    (hcount : ¬ 1 < s.refCount.toNat) :
    ∃ openFlag, rtSerialClose s =
      { s with openFlag := openFlag, serialRx := none, rxIrq := false, allocated := 0 } := by
  obtain ⟨openFlag, hno, hrx⟩ := closeRx_eq hm
  have hgoes : ¬ (closeRx s).halted = true := by simp [hrx, hrun]
  have htx : closeTx (closeRx s) = closeRx s := closeTx_idle (by rw [hrx]; exact hno)
  refine ⟨openFlag, ?_⟩
  rw [rtSerialClose, if_neg hcount]
  exact (if_neg hgoes).trans (htx.trans hrx)

theorem Mode.counted (hm : Mode s) (count : BitVec 8) : Mode { s with refCount := count } :=
  ⟨hm.flag, hm.irq, hm.allocated, hm.intTx, hm.serialTx⟩

theorem deviceClose_shared (hopen : s.refCount ≠ 0) (hmore : s.refCount - 1 ≠ 0) :
    rtDeviceClose s = (.eok, { s with refCount := s.refCount - 1 }) := by
  rw [rtDeviceClose, if_neg hopen]
  exact if_pos hmore

theorem deviceClose_last (hm : Mode s) (hrun : s.halted = false) (hopen : s.refCount ≠ 0)
    (hlast : s.refCount - 1 = 0) :
    rtDeviceClose s = (.eok, { s with
      openFlag := rtDeviceOflagClose
      refCount := s.refCount - 1
      serialRx := none
      rxIrq := false
      allocated := 0 }) := by
  have hcount : ¬ 1 < (s.refCount - 1).toNat := by
    rw [hlast]
    decide
  obtain ⟨openFlag, hclose⟩ := serialClose_eq (hm.counted (s.refCount - 1)) hrun hcount
  have hgoes : ¬ (rtSerialClose { s with refCount := s.refCount - 1 }).halted = true := by
    rw [hclose, hrun]
    exact Bool.false_ne_true
  rw [rtDeviceClose, if_neg hopen]
  refine (if_neg (not_not.mpr hlast)).trans ((if_neg hgoes).trans ?_)
  rw [hclose]

theorem closed_intRx : ¬ Has rtDeviceOflagClose rtDeviceFlagIntRx := by decide

theorem closed_intTx : ¬ Has rtDeviceOflagClose rtDeviceFlagIntTx := by decide

theorem Mode.closed (hm : Mode s) (count : BitVec 8) :
    Mode { s with
      openFlag := rtDeviceOflagClose
      refCount := count
      serialRx := none
      rxIrq := false
      allocated := 0 } where
  flag := by
    simp only [Option.isSome_none, Bool.false_eq_true, iff_false]
    exact closed_intRx
  irq := rfl
  allocated := rfl
  intTx := closed_intTx
  serialTx := hm.serialTx

theorem inv_closes {s : System} (h : Inv s) (hrun : s.dev.halted = false) (i : ℕ) :
    Inv (turn s (.closes i)) := by
  have hcount := h.count hrun
  simp only [turn]
  split_ifs with hi
  · by_cases hzero : s.dev.refCount = 0
    · have hnil : s.openers = [] := by
        rw [hzero] at hcount
        exact List.length_eq_zero_iff.mp hcount.symm
      have hsame : rtDeviceClose s.dev = (.error, s.dev) := by rw [rtDeviceClose, if_pos hzero]
      simp only [hsame, hnil, List.eraseIdx_nil]
      exact hnil ▸ h
    · have hpos : s.openers ≠ [] := by
        intro hnil
        rw [hnil] at hcount
        exact hzero (BitVec.eq_of_toNat_eq hcount)
      have hact : Has s.dev.flag rtDeviceFlagActivated :=
        not_not.mp fun hno ↦ hpos (h.unused hno).2
      have hi' : i < s.openers.length := hi.resolve_right hpos
      have hlength := List.length_eraseIdx_of_lt hi'
      have hone : (1 : BitVec 8).toNat ≤ s.dev.refCount.toNat := by
        rw [hcount]
        exact List.length_pos_iff.mpr hpos
      have hless : (s.dev.refCount - 1).toNat = (s.openers.eraseIdx i).length := by
        rw [BitVec.toNat_sub_of_le hone, hcount, hlength]
        rfl
      by_cases hlast : s.dev.refCount - 1 = 0
      · have hnil : s.openers.eraseIdx i = [] := by
          rw [hlast] at hless
          exact List.length_eq_zero_iff.mp hless.symm
        rw [deviceClose_last (h.mode hact) hrun hzero hlast, hnil]
        refine ⟨h.receiver, fun _ ↦ (h.mode hact).closed _, fun hno ↦ absurd hact hno, ?_, ?_, ?_⟩
        · intro _ hsome
          simp at hsome
        · intro htrue
          simp at htrue
        · intro _
          rw [hlast]
          rfl
      · rw [deviceClose_shared hzero hlast]
        refine ⟨h.receiver, fun _ ↦ (h.mode hact).counted _, fun hno ↦ absurd hact hno, ?_, ?_,
          fun _ ↦ hless⟩
        · intro _ _ hnil
          exact hlast (BitVec.eq_of_toNat_eq (hless.trans (congrArg List.length hnil)))
        · exact fun htrue ↦ h.served (List.mem_of_mem_eraseIdx htrue)
  · exact h

theorem Inv.traffic {s : System} {d : SerialDevice} (h : Inv s) (ht : Traffic s.dev d) :
    Inv ⟨d, s.openers⟩ where
  receiver := ht.flag ▸ h.receiver
  mode := fun hact ↦ (h.mode (ht.flag ▸ hact)).traffic ht
  unused := by
    intro hno
    obtain ⟨⟨hopenFlag, hirq, hallocated, hrefCount⟩, hnil⟩ := h.unused (ht.flag ▸ hno)
    exact ⟨⟨ht.openFlag.trans hopenFlag, ht.rxIrq.trans hirq, ht.allocated.trans hallocated,
      ht.refCount.trans hrefCount⟩, hnil⟩
  held := fun hact hsome ↦ h.held (ht.flag ▸ hact) (ht.isSome ▸ hsome)
  served := fun htrue ↦ ht.isSome.trans (h.served htrue)
  count := by
    intro hrun
    rw [ht.refCount]
    exact h.count (ht.halted ▸ hrun)

theorem Inv.irq {s : System} (h : Inv s) (hirq : s.dev.rxIrq = true) :
    s.dev.serialRx.isSome = true := by
  by_cases hact : Has s.dev.flag rtDeviceFlagActivated
  · exact (h.mode hact).irq ▸ hirq
  · simp [(h.unused hact).1.irq] at hirq

theorem inv_step (s : System) (e : Event) (h : Inv s) (hkeep : Keeps s e) : Inv (step s e) := by
  rw [step]
  split_ifs with hhalt
  · exact h
  · have hrun : s.dev.halted = false := by simpa using hhalt
    cases e with
    | opens oflag memory => exact inv_opens h hrun hkeep
    | closes i => exact inv_closes h hrun i
    | receives chars => exact h.traffic (traffic_interrupt h.irq chars)
    | reads size line =>
      by_cases hact : Has s.dev.flag rtDeviceFlagActivated
      · exact h.traffic (traffic_read (h.mode hact) size line)
      · refine h.traffic ?_
        rw [rtDeviceRead, if_pos (h.unused hact).1.refCount]
        exact .refl s.dev

/-- The receive mode serves every opener that asked for it, and is over when
the device has been used and nobody has it open. -/
structure Served (s : System) : Prop where
  receives : true ∈ s.openers → ∃ fifo, s.dev.serialRx = some fifo
  reads : true ∈ s.openers → s.dev.halted = false →
    ∀ size line, rtDeviceRead size line s.dev = serialIntRx line size s.dev
  released : s.openers = [] → Has s.dev.flag rtDeviceFlagActivated →
    s.dev.serialRx = none ∧ s.dev.allocated = 0 ∧ s.dev.rxIrq = false

theorem Inv.serves {s : System} (h : Inv s) : Served s where
  receives := fun htrue ↦ Option.isSome_iff_exists.mp (h.served htrue)
  reads := by
    intro htrue hrun size line
    have hact : Has s.dev.flag rtDeviceFlagActivated := by
      by_contra hno
      simp [(h.unused hno).2] at htrue
    refine read_eq (h.mode hact) (h.served htrue) ?_ size line
    intro hzero
    have hcount := h.count hrun
    rw [hzero] at hcount
    rw [List.length_eq_zero_iff.mp hcount.symm] at htrue
    simp at htrue
  released := by
    intro hnil hact
    have hm := h.mode hact
    have hnone : s.dev.serialRx = none := by
      by_contra hsome
      exact h.held hact (Option.isSome_iff_ne_none.mpr hsome) hnil
    refine ⟨hnone, ?_, ?_⟩
    · rw [hm.allocated, hnone]
      rfl
    · rw [hm.irq, hnone]
      rfl

theorem served_run {ind : Bool} {bufsz : ℕ} {es : List Event}
    (hkeep : Along step Keeps (rtHwSerialInitSystem ind bufsz) es) :
    Served (es.foldl step (rtHwSerialInitSystem ind bufsz)) :=
  (run_invariant inv_step (inv_init ind bufsz) hkeep).serves

def plenty : Memory := ⟨true, true⟩

def quiet (_ : ℕ) : Turn := ⟨[], none⟩

def sharing : List Event :=
  [.opens 0x103 plenty, .receives [0x41], .opens 0x103 plenty, .reads 1 quiet, .closes 0,
    .closes 0]

theorem served_sharing : Served (sharing.foldl step (rtHwSerialInitSystem false 64)) := by
  refine served_run ?_
  simp only [sharing, along_cons, along_nil, and_true, Keeps]
  decide

/-- The second open asks for no receive mode. The character that came for the
first opener is not read, and after both closes the FIFO and the interrupt
are left. -/
def dropping : List Event := [.opens 0x103 plenty, .receives [0x41], .opens 0x003 plenty]

theorem not_served :
    ¬ Served (dropping.foldl step (rtHwSerialInitSystem false 64)) ∧
      ¬ Served ((dropping ++ [Event.closes 0, Event.closes 0]).foldl step
        (rtHwSerialInitSystem false 64)) := by
  constructor
  · intro h
    have hread := congrArg Prod.fst (h.reads (by decide) (by decide) 1 quiet)
    exact absurd hread (by decide)
  · intro h
    have hirq := (h.released (by decide) (by decide)).2.2
    exact absurd hirq (by decide)

end GiantGecko.Drivers.SerialModes
