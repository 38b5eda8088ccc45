import GiantGecko.Leuart.Reception

namespace GiantGecko.Leuart.Balance

open Driver Reception Foundation.Transition

structure Device where
  leuart : LeuartDevice
  refCount : UInt8
  activated : Bool

/-- `rt_device_open` on a device that is not stand-alone: the driver is opened
every time. A reference count that wraps fails an assertion. -/
def rtDeviceOpen (a : Alloc) (dev : Device) : Device :=
  let leuart := if dev.activated then dev.leuart else rtLeuartInit dev.leuart
  match rtLeuartOpen a leuart with
  | (false, leuart) => { dev with leuart := leuart, activated := true }
  | (true, leuart) =>
    if dev.refCount + 1 = 0 then ⟨{ leuart with halted := true }, 0, true⟩
    else ⟨leuart, dev.refCount + 1, true⟩

def rtDeviceClose (dev : Device) : Device :=
  if dev.refCount = 0 then dev
  else if dev.refCount - 1 ≠ 0 then { dev with refCount := dev.refCount - 1 }
  else { dev with refCount := dev.refCount - 1, leuart := rtLeuartClose dev.leuart }

inductive Event
  | traffic (t : Traffic)
  | deviceOpen (a : Alloc)
  | deviceClose

def step (dev : Device) (e : Event) : Device :=
  if dev.leuart.halted then dev
  else match e with
    | .traffic t => { dev with leuart := traffic dev.leuart t }
    | .deviceOpen a => rtDeviceOpen a dev
    | .deviceClose => rtDeviceClose dev

def registered (ind : Bool) (size : UInt8) (r w : ℕ) : Device := ⟨unitInit ind size r w, 0, false⟩

def allocated (s : LeuartDevice) : List (List UInt8) := s.rx.dataPtr.toList ++ s.leaked

/-- At most one buffer is allocated, and none with the counter back at 0 when
every open has been matched by a close. -/
structure Balanced (dev : Device) : Prop where
  single : (allocated dev.leuart).length ≤ 1
  closed : dev.refCount = 0 → allocated dev.leuart = [] ∧ dev.leuart.counter = 0

def SurvivesOpen (dev : Device) : Event → Prop
  | .deviceOpen a =>
    dev.refCount ≠ 0 → unread (step dev (.deviceOpen a)).leuart.rx = unread dev.leuart.rx
  | _ => True

def Unnested (dev : Device) : Event → Prop
  | .deviceOpen _ => dev.refCount = 0
  | _ => True

/-- The two counts agree, and a buffer is allocated exactly while they are 1. -/
def Agreeing (dev : Device) : Prop :=
  dev.leuart.leaked = [] ∧
    (dev.refCount = 0 ∧ dev.leuart.counter = 0 ∧ dev.leuart.rx.dataPtr.isSome = false ∨
      dev.refCount = 1 ∧ dev.leuart.counter = 1 ∧ dev.leuart.rx.dataPtr.isSome = true)

theorem Agreeing.balanced {dev : Device} (h : Agreeing dev) : Balanced dev := by
  obtain ⟨hleaked, h⟩ := h
  rcases h with ⟨href, hcounter, hptr⟩ | ⟨href, hcounter, hptr⟩
  · rw [Option.isSome_eq_false_iff, Option.isNone_iff_eq_none] at hptr
    have hnone : allocated dev.leuart = [] := by rw [allocated, hptr, hleaked]; rfl
    exact ⟨by simp [hnone], fun _ ↦ ⟨hnone, hcounter⟩⟩
  · obtain ⟨block, hptr⟩ := Option.isSome_iff_exists.mp hptr
    refine ⟨by simp [allocated, hptr, hleaked], fun hzero ↦ ?_⟩
    rw [href] at hzero
    exact absurd hzero (by decide)

theorem traffic_frame (s : LeuartDevice) (t : Traffic) :
    (traffic s t).counter = s.counter ∧ (traffic s t).leaked = s.leaked ∧
      (traffic s t).rx.dataPtr.isSome = s.rx.dataPtr.isSome := by
  have hloop (bytes : List UInt8) : (bytes.foldl saveChar s).counter = s.counter ∧
      (bytes.foldl saveChar s).leaked = s.leaked ∧
      (bytes.foldl saveChar s).rx.dataPtr.isSome = s.rx.dataPtr.isSome := by
    induction bytes generalizing s with
    | nil => exact ⟨rfl, rfl, rfl⟩
    | cons b bytes ih =>
      obtain ⟨hcounter, hleaked, hptr⟩ := ih (saveChar s b)
      exact ⟨hcounter, hleaked, hptr.trans (by simp [saveChar])⟩
  cases t with
  | isr bytes =>
    simp only [traffic, rtHwLeuartRxIsr]
    split_ifs
    · exact ⟨rfl, rfl, rfl⟩
    · exact ⟨rfl, rfl, rfl⟩
    · exact hloop bytes
    · exact hloop bytes
  | readBegin interrupt size =>
    simp only [traffic, readBegin]
    split_ifs
    · exact ⟨rfl, rfl, rfl⟩
    · split <;> exact ⟨rfl, rfl, rfl⟩
    · split <;> exact ⟨rfl, rfl, rfl⟩
  | readTurn =>
    simp only [traffic, readTurn]
    split_ifs
    · exact ⟨rfl, rfl, rfl⟩
    · split <;> exact ⟨rfl, rfl, rfl⟩
    · split <;> exact ⟨rfl, rfl, rfl⟩

theorem agreeing_open {dev : Device} (h : Agreeing dev) (href : dev.refCount = 0) (a : Alloc) :
    Agreeing (rtDeviceOpen a dev) := by
  obtain ⟨hleaked, ⟨-, hcounter, hptr⟩ | ⟨hone, -, -⟩⟩ := h
  · rw [Option.isSome_eq_false_iff, Option.isNone_iff_eq_none] at hptr
    have hinit : (if dev.activated then dev.leuart else rtLeuartInit dev.leuart) = dev.leuart := by
      split_ifs
      · rfl
      · rw [rtLeuartInit, ← hptr]
    have hone : dev.refCount + 1 = 1 := by rw [href]; rfl
    have hopened : dev.leuart.counter + 1 = 1 := by rw [hcounter]; rfl
    have hnowrap : ¬ dev.refCount + 1 = 0 := by
      rw [hone]
      decide
    simp only [rtDeviceOpen, hinit, rtLeuartOpen]
    cases rtMalloc leuartRxBufferSize a with
    | none => exact ⟨by simp [hleaked, hptr], .inl ⟨href, hcounter, rfl⟩⟩
    | some block =>
      simp only [if_neg hnowrap]
      exact ⟨by simp [hleaked, hptr], .inr ⟨hone, hopened, rfl⟩⟩
  · rw [href] at hone
    exact absurd hone (by decide)

theorem agreeing_close {dev : Device} (h : Agreeing dev) : Agreeing (rtDeviceClose dev) := by
  obtain ⟨hleaked, ⟨href, hcounter, hptr⟩ | ⟨href, hcounter, hptr⟩⟩ := h
  · rw [rtDeviceClose, if_pos href]
    exact ⟨hleaked, .inl ⟨href, hcounter, hptr⟩⟩
  · have hlast : ¬ dev.refCount - 1 ≠ 0 := by
      rw [href]
      decide
    have hfree : dev.leuart.counter - 1 = 0 := by
      rw [hcounter]
      decide
    rw [rtDeviceClose, if_neg (by rw [href]; decide), if_neg hlast]
    simp only [rtLeuartClose, if_pos hfree]
    exact ⟨hleaked, .inl ⟨not_not.mp hlast, hfree, rfl⟩⟩

theorem agreeing_step (dev : Device) (e : Event) (h : Agreeing dev) (hc : Unnested dev e) :
    Agreeing (step dev e) := by
  cases e with
  | traffic t =>
    obtain ⟨hcounter, hleaked, hptr⟩ := traffic_frame dev.leuart t
    simp only [step]
    split_ifs
    · exact h
    · simpa only [Agreeing, hcounter, hleaked, hptr] using h
  | deviceOpen a =>
    simp only [step]
    split_ifs
    · exact h
    · exact agreeing_open h hc a
  | deviceClose =>
    simp only [step]
    split_ifs
    · exact h
    · exact agreeing_close h

/-- In a run without nested opens the two layers keep one buffer while the
device is open and none afterwards, and no open loses unread bytes. -/
theorem balanced_of_unnested (ind : Bool) (size : UInt8) (r w : ℕ) (es : List Event)
    (h : Along step Unnested (registered ind size r w) es) :
    Balanced (es.foldl step (registered ind size r w)) ∧
      Along step SurvivesOpen (registered ind size r w) es := by
  have hinit : Agreeing (registered ind size r w) := ⟨rfl, .inl ⟨rfl, rfl, rfl⟩⟩
  refine ⟨(run_invariant agreeing_step hinit h).balanced, along_of_invariant agreeing_step ?_ hinit h⟩
  intro dev e _ hc
  cases e with
  | deviceOpen a => exact fun href ↦ absurd hc href
  | traffic t => trivial
  | deviceClose => trivial

theorem balanced_open_close_open :
    Balanced ([.deviceOpen (some fun _ ↦ 0), .traffic (.isr [65]), .deviceClose, .deviceOpen none,
        .deviceOpen (some fun _ ↦ 0)].foldl step (registered true 0 0 0)) ∧
      Along step SurvivesOpen (registered true 0 0 0)
        [.deviceOpen (some fun _ ↦ 0), .traffic (.isr [65]), .deviceClose, .deviceOpen none,
          .deviceOpen (some fun _ ↦ 0)] :=
  balanced_of_unnested true 0 0 0 _ ⟨rfl, trivial, trivial, rfl, rfl, trivial⟩

/-- The shell opens the console a second time: the byte that had arrived is
gone, two buffers are allocated, and two closes free one of them and leave the
counter at 1. -/
theorem nested_open_leaks :
    ¬ SurvivesOpen ([.deviceOpen (some fun _ ↦ 0), .traffic (.isr [65])].foldl step
        (registered true 0 0 0)) (.deviceOpen (some fun _ ↦ 0)) ∧
      ¬ Balanced ([.deviceOpen (some fun _ ↦ 0), .traffic (.isr [65]),
        .deviceOpen (some fun _ ↦ 0)].foldl step (registered true 0 0 0)) ∧
      ¬ Balanced ([.deviceOpen (some fun _ ↦ 0), .deviceOpen (some fun _ ↦ 0), .deviceClose,
        .deviceClose].foldl step (registered true 0 0 0)) := by
  refine ⟨fun h ↦ ?_, fun h ↦ ?_, fun h ↦ ?_⟩
  · exact absurd (h (by decide)) (by decide)
  · exact absurd h.single (by decide)
  · exact absurd (h.closed (by decide)).2 (by decide)

end GiantGecko.Leuart.Balance
