import GiantGecko.Ymodem.Reception
import GiantGecko.Ymodem.Streams

namespace GiantGecko.Ymodem.Cleanup

open Foundation.Transition Receiver Sender Session Reception Streams
open Update (rtTickPerSecond)

inductive RxIndicate
  | rymRxInd
  | other (address : BitVec 32)
  deriving DecidableEq

structure Device where
  flag : BitVec 16
  openFlag : BitVec 16
  refCount : BitVec 8
  rxIndicate : RxIndicate
  deriving DecidableEq

/-- The driver of a device, whose operations may change it in any way. -/
structure DeviceOps where
  init : Option (Device → ℤ × Device)
  open_ : Option (BitVec 16 → Device → ℤ × Device)
  close : Option (Device → ℤ × Device)

def flagStandalone : BitVec 16 := 0x008
def flagActivated : BitVec 16 := 0x010
def flagStream : BitVec 16 := 0x040
def oflagRdwr : BitVec 16 := 0x003
def oflagOpen : BitVec 16 := 0x008
def oflagMask : BitVec 16 := 0xF0F
def rtEnosys : ℤ := 6
def rtEbusy : ℤ := 7

section Devices

variable (ops : DeviceOps)

def activate (dev : Device) : ℤ × Device :=
  if dev.flag &&& flagActivated ≠ 0 then (0, dev)
  else
    match ops.init with
    | none => (0, { dev with flag := dev.flag ||| flagActivated })
    | some init =>
      let r := init dev
      if r.1 ≠ 0 then r else (0, { r.2 with flag := r.2.flag ||| flagActivated })

def rtDeviceOpen (oflag : BitVec 16) (dev : Device) : Option (ℤ × Device) :=
  let a := activate ops dev
  if a.1 ≠ 0 then some a
  else if a.2.flag &&& flagStandalone ≠ 0 ∧ a.2.openFlag &&& oflagOpen ≠ 0 then some (-rtEbusy, a.2)
  else
    let r := match ops.open_ with
      | some f => f oflag a.2
      | none => (0, { a.2 with openFlag := oflag &&& oflagMask })
    if r.1 = 0 ∨ r.1 = -rtEnosys then
      if r.2.refCount + 1 = 0 then none
      else some (r.1, { r.2 with
        openFlag := r.2.openFlag ||| oflagOpen, refCount := r.2.refCount + 1 })
    else some r

def rtDeviceClose (dev : Device) : Device :=
  if dev.refCount = 0 then dev
  else
    let dev := { dev with refCount := dev.refCount - 1 }
    if dev.refCount ≠ 0 then dev
    else
      let r := match ops.close with
        | some close => close dev
        | none => (0, dev)
      if r.1 = 0 ∨ r.1 = -rtEnosys then { r.2 with openFlag := 0 } else r.2

end Devices

inductive Outcome
  | device (err : ℤ)
  | receiver (err : RtErr)

/-- What `rym_recv_on_device` finds: whether a session is on, the console, what the
buffer pointer of the context holds, which nothing has set, and what `rt_malloc` is going
to return. -/
structure World where
  theCtx : Bool
  device : Device
  ctxBuf : BitVec 32
  malloc : BitVec 32
  mem : ℕ → UInt8
  tick : UInt32

/-- What it leaves. What it has got from `rt_malloc`, and what `rt_free` has been called
on, is not in the source. -/
structure Returned (σ : Type) where
  res : Outcome
  theCtx : Bool
  device : Device
  allocated : List (BitVec 32)
  freed : List (BitVec 32)
  user : Ota σ

def heapCall (p : BitVec 32) : List (BitVec 32) := if p = 0 then [] else [p]

variable {σ : Type} (c : Stdio σ) (ops : DeviceOps) (used : Device → Device)

def leave (w : World) (res : Outcome) (allocated : List (BitVec 32)) (buf : BitVec 32)
    (user : Ota σ) (dev : Device) : Returned σ where
  res := res
  theCtx := false
  device := { dev with flag := w.device.flag, rxIndicate := w.device.rxIndicate }
  allocated := allocated
  freed := heapCall buf
  user := user

def attached (dev : Device) : Device :=
  { dev with rxIndicate := .rymRxInd, flag := dev.flag &&& ~~~flagStream }

/-- `_rym_do_recv` from its start, with all callbacks and no stream open. -/
def receiver (w : World) (u : Ota σ) : Machine (Ota σ) :=
  rymDoRecv rtTickPerSecond (if w.malloc = 0 then none else some w.mem) { u with streams := [] } w.tick

/-- As `ymodem_ota` calls it, with what comes in. Nothing is returned while the receiver
waits for more, or where an assertion fails; `used` is what reading and writing makes of
the device. -/
def rymRecvOnDevice (w : World) (u : Ota σ) (es : List Input) : Option (Returned σ) :=
  if w.theCtx then none
  else
    match rtDeviceOpen ops oflagRdwr (attached w.device) with
    | none => none
    | some (res, dev) =>
      if res ≠ 0 then
        some (leave w (.device res) [] w.ctxBuf { u with streams := [] } dev)
      else
        let m := es.foldl (step (callbacks c) rtTickPerSecond) (receiver w u)
        match m.wait with
        | .returned err =>
          some (leave w (.receiver err) (heapCall w.malloc) w.malloc m.ctx.user
            (rtDeviceClose ops (used dev)))
        | _ => none

/-- Nothing is left behind, and nothing is freed but what was allocated, once. -/
structure Clean (w : World) (r : Returned σ) : Prop where
  flag : r.device.flag = w.device.flag
  rxIndicate : r.device.rxIndicate = w.device.rxIndicate
  theCtx : r.theCtx = false
  freed : r.freed = r.allocated
  closed : r.user.streams = []

def Opens (dev : Device) : Prop := (rtDeviceOpen ops oflagRdwr (attached dev)).map Prod.fst = some 0

instance (dev : Device) : Decidable (Opens ops dev) := inferInstanceAs (Decidable (_ = _))

theorem clean_leave_iff (w : World) (res : Outcome) (allocated : List (BitVec 32))
    (buf : BitVec 32) (user : Ota σ) (dev : Device) :
    Clean w (leave w res allocated buf user dev) ↔ heapCall buf = allocated ∧ user.streams = [] :=
  ⟨fun h ↦ ⟨h.freed, h.closed⟩, fun h ↦ ⟨rfl, rfl, rfl, h.1, h.2⟩⟩

/-- A session cleans up just if the device is opened and each file gets to its end, or the
device is not opened and the pointer to the buffer happens to be null. -/
theorem clean_iff {w : World} {u : Ota σ} {es : List Input} {r : Returned σ}
    (hr : rymRecvOnDevice c ops used w u es = some r) :
    Clean w r ↔ Opens ops w.device ∧
        Along (step (callbacks c) rtTickPerSecond) (Carries c) (receiver w u) es ∨
      ¬Opens ops w.device ∧ w.ctxBuf = 0 := by
  rw [rymRecvOnDevice] at hr
  by_cases hbusy : w.theCtx = true
  · rw [if_pos hbusy] at hr
    cases hr
  rw [if_neg hbusy] at hr
  cases hopen : rtDeviceOpen ops oflagRdwr (attached w.device) with
  | none =>
    rw [hopen] at hr
    cases hr
  | some opened =>
    obtain ⟨res, dev⟩ := opened
    simp only [hopen] at hr
    by_cases hres : res = 0
    · have hopens : Opens ops w.device := by
        rw [Opens, hopen, hres]
        rfl
      rw [if_neg (not_not.mpr hres)] at hr
      generalize hm : es.foldl (step (callbacks c) rtTickPerSecond) (receiver w u) = m at hr
      cases hwait : m.wait with
      | code k =>
        simp only [hwait] at hr
        cases hr
      | data k len readlen =>
        simp only [hwait] at hr
        cases hr
      | returned err =>
        simp only [hwait, Option.some.injEq] at hr
        subst hr hm
        have htidy : Tidy (receiver w u) := tidy_rymDoRecv rtTickPerSecond _ rfl w.tick
        have hclosed := htidy.closed_iff (c := c) rtTickPerSecond es (by rw [hwait]; exact fun h ↦ h)
        rw [clean_leave_iff, hclosed]
        simp [hopens]
    · have hopens : ¬Opens ops w.device := by
        rw [Opens, hopen]
        exact fun h ↦ hres (Option.some.inj h)
      rw [if_pos hres, Option.some.injEq] at hr
      subst hr
      rw [clean_leave_iff, heapCall]
      simp [hopens]

section Console

def stdio : Stdio Unit where
  opendir _ u := (true, u)
  mkdir _ u := u
  closedir _ u := u
  fopen _ u := (true, u)
  fwrite _ buf u := (buf.length, u)
  fclose _ u := u

def console : Device := ⟨0x343, 0, 0, .other 0x8001⟩

def lowMemory : World := ⟨false, console, 0x20001234, 0, fun _ ↦ 0, 0⟩

def idle : Ota Unit := ⟨[], 0, 0, none, (), [], 0⟩

def Stores (m : Machine (Ota Unit)) : Prop :=
  m.wait = .code .trans ∧ ∃ f, m.ctx.user.curF = some f ∧ m.ctx.user.streams = [f]

theorem feed_header (ctx : RymCtx (Ota Unit)) (hstreams : ctx.user.streams = []) (pace : ℕ → UInt32)
    (htick : ctx.tick + pace 0 ≤ ctx.tick + pace 0 + 100) (i : ℕ) (header : Payload) :
    Stores (feed (callbacks stdio) rtTickPerSecond ⟨ctx, .code (.handshake i)⟩ pace
      (blockBytes 0 header)) := by
  obtain ⟨buf, tick, ⟨-, hfeed⟩ | ⟨hlimit, -⟩⟩ :=
    feed_handshake (callbacks stdio) rtTickPerSecond ctx i pace header
  · rw [hfeed]
    refine ⟨rfl, ctx.user.opened, rfl, ?_⟩
    change ctx.user.opened :: ctx.user.streams = _
    rw [hstreams]
  · exact absurd htick hlimit

theorem fwrite_stdio {u : Ota Unit} {f : ℕ} (h : u.curF = some f) (buf : List UInt8) :
    fwrite stdio u buf = (buf.length, u) := by
  obtain ⟨_, _, _, curF, _, _, _⟩ := u
  obtain rfl : curF = some f := h
  rfl

theorem feed_file {m : Machine (Ota Unit)} (h : Stores m) (seq : UInt8) (hseq : seq ≠ 0)
    (pace : ℕ → UInt32) (block : Payload) :
    Stores (feed (callbacks stdio) rtTickPerSecond m pace (blockBytes seq block)) := by
  obtain ⟨ctx, wait⟩ := m
  obtain ⟨rfl, f, hcurF, hstreams⟩ := h
  obtain ⟨buf, tick, hfeed⟩ := trans_delivers (callbacks stdio) rtTickPerSecond
    (ymodemOnData stdio) rfl (fun h : ctx.stage = .established ∧ seq = 0 ↦ hseq h.2) pace block
  rw [hfeed, ymodemOnData, fwrite_stdio hcurF, if_neg (not_not.mpr rfl)]
  exact ⟨rfl, f, hcurF, hstreams⟩

theorem feed_end {m : Machine (Ota Unit)} (h : Stores m) (pace₁ pace₂ pace₃ : ℕ → UInt32) :
    ∃ ctx, feed (callbacks stdio) rtTickPerSecond (feed (callbacks stdio) rtTickPerSecond
      (feed (callbacks stdio) rtTickPerSecond m pace₁ [0x04]) pace₂ [0x04]) pace₃
        (blockBytes 0 nullPayload) = ⟨ctx, .returned .eok⟩ ∧ ctx.user.streams = [] := by
  obtain ⟨ctx, wait⟩ := m
  obtain ⟨rfl, f, hcurF, hstreams⟩ := h
  have hclosed (left : List UInt8) : (ymodemOnEnd stdio ctx.user left).2.streams = [] := by
    rw [ymodemOnEnd, fwrite_stdio hcurF, if_neg (not_not.mpr rfl), fclose, hcurF]
    change ctx.user.streams.erase f = []
    rw [hstreams, List.erase_cons_head]
  obtain ⟨buf, tick, heot⟩ := trans_eot (callbacks stdio) rtTickPerSecond ctx pace₁
  obtain ⟨buf₂, tick₂, hagain⟩ := finEot_eot (callbacks stdio) rtTickPerSecond
    (rymDoFin (callbacks stdio) (ctx.fill buf tick)).ctx pace₂
  obtain ⟨buf₃, tick₃, -, hclose⟩ := feed_finHeader (callbacks stdio) rtTickPerSecond
    _ pace₃ nullPayload rfl
  have hnull : nullPayload.bytes.head? = some 0 := rfl
  have hfin : rymDoFin (callbacks stdio) (ctx.fill buf tick) =
      ⟨(rymDoFin (callbacks stdio) (ctx.fill buf tick)).ctx, .code .finEot⟩ := rfl
  rw [heot, hfin, hagain, hclose, if_neg (not_not.mpr hnull)]
  exact ⟨_, rfl, hclosed _⟩

def oneBlock (header block : Payload) : List Input :=
  timed (fun _ ↦ 1) (blockBytes 0 header) ++ timed (fun _ ↦ 1) (blockBytes 1 block) ++
    timed (fun _ ↦ 1) [0x04] ++ timed (fun _ ↦ 1) [0x04] ++
      timed (fun _ ↦ 1) (blockBytes 0 nullPayload)

theorem foldl_oneBlock (header block : Payload) {w : World} (u : Ota Unit) (hmalloc : w.malloc ≠ 0)
    (htick : w.tick + 1 ≤ w.tick + 1 + 100) : ∃ ctx,
    (oneBlock header block).foldl (step (callbacks stdio) rtTickPerSecond) (receiver w u) =
      ⟨ctx, .returned .eok⟩ ∧ ctx.user.streams = [] := by
  have hreceiver : receiver w u = ⟨⟨.establishing, w.mem, { u with streams := [] }, w.tick, [.c],
      []⟩, .code (.handshake 0)⟩ := by
    rw [receiver, if_neg hmalloc]
    rfl
  rw [hreceiver, oneBlock, List.foldl_append, List.foldl_append, List.foldl_append,
    List.foldl_append]
  have hheader := feed_header ⟨.establishing, w.mem, { u with streams := [] }, w.tick, [.c], []⟩
    rfl (fun _ ↦ 1) htick 0 header
  obtain ⟨ctx, hend, hstreams⟩ := feed_end
    (feed_file hheader 1 (by decide) (fun _ ↦ 1) block) (fun _ ↦ 1) (fun _ ↦ 1) fun _ ↦ 1
  simp only [feed] at hend
  exact ⟨ctx, hend, hstreams⟩

def served : World := ⟨false, console, 0, 0x20002000, fun _ ↦ 0, 0⟩

def fileHeader : Payload := ⟨.soh, [0x61, 0x00, 0x32] ++ List.replicate 125 0, by simp [Framing.size]⟩

def fileBlock : Payload := ⟨.soh, [0x68, 0x69] ++ List.replicate 126 0x1A, rfl⟩

theorem received_oneBlock (header block : Payload) (u : Ota Unit) : ∃ r,
    rymRecvOnDevice stdio ⟨none, none, none⟩ id served u (oneBlock header block) = some r ∧
      Clean served r := by
  obtain ⟨ctx, hend, hstreams⟩ := foldl_oneBlock header block (w := served) u (by decide) (by decide)
  refine ⟨leave served (.receiver .eok) (heapCall 0x20002000) 0x20002000 ctx.user
    (rtDeviceClose ⟨none, none, none⟩ (attached ⟨0x353, 0x00B, 1, .rymRxInd⟩)), ?_,
    (clean_leave_iff _ _ _ _ _ _).mpr ⟨rfl, hstreams⟩⟩
  rw [rymRecvOnDevice, if_neg (by decide)]
  simp only [hend]
  rfl

theorem clean_oneBlock : Along (step (callbacks stdio) rtTickPerSecond) (Carries stdio)
    (receiver served idle) (oneBlock fileHeader fileBlock) := by
  have hreceived := received_oneBlock fileHeader fileBlock idle
  generalize oneBlock fileHeader fileBlock = es at hreceived ⊢
  obtain ⟨r, hr, hclean⟩ := hreceived
  exact (((clean_iff stdio ⟨none, none, none⟩ id hr).mp hclean).resolve_right
    fun h ↦ h.1 (by decide)).2

/-- The console cannot be opened, and what the context holds by chance is freed. -/
theorem not_clean :
    ¬ ∀ (c : Stdio Unit) (ops : DeviceOps) (used : Device → Device) (w : World) (u : Ota Unit)
      (es : List Input) (r : Returned Unit), rymRecvOnDevice c ops used w u es = some r → Clean w r := by
  intro hall
  have hclean := hall stdio ⟨some fun dev ↦ (-1, dev), none, none⟩ id lowMemory idle [] _ rfl
  exact absurd hclean.freed (by decide)

end Console

end GiantGecko.Ymodem.Cleanup
