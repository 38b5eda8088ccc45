import GiantGecko.Foundation.Transition
import Mathlib.Data.BitVec

namespace GiantGecko.Drivers.Serial

abbrev Flags := BitVec 16

def rtDeviceFlagRdwr : Flags := 0x003
def rtDeviceFlagStandalone : Flags := 0x008
def rtDeviceFlagActivated : Flags := 0x010
def rtDeviceFlagStream : Flags := 0x040
def rtDeviceFlagIntRx : Flags := 0x100
def rtDeviceFlagDmaRx : Flags := 0x200
def rtDeviceFlagIntTx : Flags := 0x400
def rtDeviceFlagDmaTx : Flags := 0x800

def rtDeviceOflagClose : Flags := 0x000
def rtDeviceOflagOpen : Flags := 0x008

def Has (x f : Flags) : Prop := x &&& f ≠ 0

instance (x f : Flags) : Decidable (Has x f) := inferInstanceAs (Decidable (x &&& f ≠ 0))

inductive RtErr
  | eok
  | error
  | eio
  | ebusy
  deriving DecidableEq

structure RxFifo where
  buffer : List UInt8
  putIndex : ℕ
  getIndex : ℕ
  isFull : Bool
  deriving DecidableEq

/-- The device with its receive interrupt in the NVIC, the calls made of
`rx_indicate`, and the number of receive FIFOs that have been allocated and not
freed. `halted` is the endless loop of a failed assertion. -/
structure SerialDevice where
  flag : Flags
  openFlag : Flags
  refCount : BitVec 8
  rxIndicate : Bool
  bufsz : ℕ
  serialRx : Option RxFifo
  serialTx : Bool
  rxIrq : Bool
  indicated : List ℕ
  allocated : ℕ
  halted : Bool
  deriving DecidableEq

/-- A device of `rt_hw_serial_init`, whose `serial_rx` is a static FIFO until
the device is initialized. -/
def rtHwSerialInit (rxIndicate : Bool) (bufsz : ℕ) : SerialDevice where
  flag := rtDeviceFlagRdwr ||| rtDeviceFlagIntRx
  openFlag := 0
  refCount := 0
  rxIndicate := rxIndicate
  bufsz := bufsz
  serialRx := some ⟨[], 0, 0, false⟩
  serialTx := false
  rxIrq := false
  indicated := []
  allocated := 0
  halted := false

/-- The commands of `usart_control` look at no argument. -/
def usartControlSetInt (s : SerialDevice) : SerialDevice := { s with rxIrq := true }

def usartControlClrInt (s : SerialDevice) : SerialDevice := { s with rxIrq := false }

def rtSerialInit (s : SerialDevice) : SerialDevice :=
  { s with serialRx := none, serialTx := false }

structure Memory where
  rx : Bool
  tx : Bool

def openRx (oflag : Flags) (memory : Bool) (s : SerialDevice) : SerialDevice :=
  match s.serialRx with
  | none =>
    if Has oflag rtDeviceFlagIntRx then
      if memory then
        usartControlSetInt { s with
          serialRx := some ⟨List.replicate s.bufsz 0, 0, 0, false⟩
          openFlag := s.openFlag ||| rtDeviceFlagIntRx
          allocated := s.allocated + 1 }
      else { s with halted := true }
    else s
  | some _ =>
    if Has oflag rtDeviceFlagIntRx then
      { s with openFlag := s.openFlag ||| rtDeviceFlagIntRx }
    else s

def openTx (oflag : Flags) (memory : Bool) (s : SerialDevice) : SerialDevice :=
  if s.serialTx then
    if Has oflag rtDeviceFlagIntTx then
      { s with openFlag := s.openFlag ||| rtDeviceFlagIntTx }
    else s
  else if Has oflag rtDeviceFlagIntTx then
    if memory then
      usartControlSetInt { s with
        serialTx := true
        openFlag := s.openFlag ||| rtDeviceFlagIntTx }
    else { s with halted := true }
  else s

def Supports (flag oflag : Flags) : Prop :=
  (Has oflag rtDeviceFlagDmaRx → Has flag rtDeviceFlagDmaRx) ∧
  (Has oflag rtDeviceFlagDmaTx → Has flag rtDeviceFlagDmaTx) ∧
  (Has oflag rtDeviceFlagIntRx → Has flag rtDeviceFlagIntRx) ∧
  (Has oflag rtDeviceFlagIntTx → Has flag rtDeviceFlagIntTx)

instance (flag oflag : Flags) : Decidable (Supports flag oflag) := by
  unfold Supports
  infer_instance

def streamFlag (oflag openFlag : Flags) : Flags :=
  if Has oflag rtDeviceFlagStream ∨ Has openFlag rtDeviceFlagStream then rtDeviceFlagStream else 0

/-- The open flags of all openers are replaced, but for the stream flag. -/
def rtSerialOpen (oflag : Flags) (memory : Memory) (s : SerialDevice) : RtErr × SerialDevice :=
  if ¬ Supports s.flag oflag then (.eio, s)
  else
    let stream := streamFlag oflag s.openFlag
    let rx := openRx oflag memory.rx { s with openFlag := oflag &&& 0xff }
    if rx.halted then (.eok, rx)
    else
      let tx := openTx oflag memory.tx rx
      if tx.halted then (.eok, tx)
      else (.eok, { tx with openFlag := tx.openFlag ||| stream })

def activate (s : SerialDevice) : SerialDevice :=
  if Has s.flag rtDeviceFlagActivated then s
  else { rtSerialInit s with flag := s.flag ||| rtDeviceFlagActivated }

def rtDeviceOpen (oflag : Flags) (memory : Memory) (s : SerialDevice) : RtErr × SerialDevice :=
  let s := activate s
  if Has s.flag rtDeviceFlagStandalone ∧ Has s.openFlag rtDeviceOflagOpen then (.ebusy, s)
  else
    let (result, s) := rtSerialOpen oflag memory s
    if result = .eok ∧ s.halted = false then
      (result, { s with
        openFlag := s.openFlag ||| rtDeviceOflagOpen
        refCount := s.refCount + 1
        halted := s.refCount + 1 = 0 })
    else (result, s)

def closeRx (s : SerialDevice) : SerialDevice :=
  if Has s.openFlag rtDeviceFlagIntRx then
    match s.serialRx with
    | none => { s with halted := true }
    | some _ =>
      usartControlClrInt { s with
        serialRx := none
        openFlag := s.openFlag &&& ~~~rtDeviceFlagIntRx
        allocated := s.allocated - 1 }
  else s

def closeTx (s : SerialDevice) : SerialDevice :=
  if Has s.openFlag rtDeviceFlagIntTx then
    if s.serialTx then
      usartControlClrInt { s with
        serialTx := false
        openFlag := s.openFlag &&& ~~~rtDeviceFlagIntTx }
    else { s with halted := true }
  else s

def rtSerialClose (s : SerialDevice) : SerialDevice :=
  if 1 < s.refCount.toNat then s
  else
    let rx := closeRx s
    if rx.halted then rx else closeTx rx

def rtDeviceClose (s : SerialDevice) : RtErr × SerialDevice :=
  if s.refCount = 0 then (.error, s)
  else
    let s := { s with refCount := s.refCount - 1 }
    if s.refCount ≠ 0 then (.eok, s)
    else
      let s := rtSerialClose s
      if s.halted then (.eok, s) else (.eok, { s with openFlag := rtDeviceOflagClose })

def wrap (bufsz i : ℕ) : ℕ := if i ≥ bufsz then 0 else i

/-- One turn of the loop of `rt_hw_serial_isr`. A character that reaches the
read index takes the place of the oldest one. -/
def putChar (bufsz : ℕ) (fifo : RxFifo) (ch : UInt8) : RxFifo :=
  let put := wrap bufsz (fifo.putIndex + 1)
  let fifo := { fifo with buffer := fifo.buffer.set fifo.putIndex ch, putIndex := put }
  if put = fifo.getIndex then
    { fifo with getIndex := wrap bufsz (fifo.getIndex + 1), isFull := true }
  else fifo

def rxLength (bufsz : ℕ) (fifo : RxFifo) : ℕ :=
  if fifo.putIndex ≥ fifo.getIndex then fifo.putIndex - fifo.getIndex
  else bufsz - (fifo.getIndex - fifo.putIndex)

def rtHwSerialIsr (chars : List UInt8) (s : SerialDevice) : SerialDevice :=
  match s.serialRx with
  | none => { s with halted := true }
  | some fifo =>
    let fifo := chars.foldl (putChar s.bufsz) fifo
    let length := rxLength s.bufsz fifo
    { s with
      serialRx := some fifo
      indicated :=
        if s.rxIndicate = true ∧ length ≠ 0 then s.indicated ++ [length] else s.indicated }

def interrupt (s : SerialDevice) (chars : List UInt8) : SerialDevice :=
  if s.rxIrq then rtHwSerialIsr chars s else s

/-- What happens before one turn of a read: the interrupts, each with its
characters, and what `getc` gives to a read that polls. -/
structure Turn where
  interrupts : List (List UInt8)
  getc : Option UInt8

def getChar (bufsz : ℕ) (fifo : RxFifo) : Option (UInt8 × RxFifo) :=
  if fifo.getIndex = fifo.putIndex ∧ fifo.isFull = false then none
  else some (fifo.buffer.getD fifo.getIndex 0,
    { fifo with getIndex := wrap bufsz (fifo.getIndex + 1), isFull := false })

/-- `_serial_int_rx`; `line n` is what comes before the turn that leaves `n`
characters to be read. -/
def serialIntRx (line : ℕ → Turn) : ℕ → SerialDevice → List UInt8 × SerialDevice
  | 0, s => ([], s)
  | n + 1, s =>
    let s := (line n).interrupts.foldl interrupt s
    match s.serialRx with
    | none => ([], { s with halted := true })
    | some fifo =>
      match getChar s.bufsz fifo with
      | none => ([], s)
      | some (ch, fifo) =>
        let (data, s) := serialIntRx line n { s with serialRx := some fifo }
        (ch :: data, s)

def serialPollRx (line : ℕ → Turn) : ℕ → SerialDevice → List UInt8 × SerialDevice
  | 0, s => ([], s)
  | n + 1, s =>
    let s := (line n).interrupts.foldl interrupt s
    match (line n).getc with
    | none => ([], s)
    | some ch =>
      if ch = 10 then ([ch], s)
      else
        let (data, s) := serialPollRx line n s
        (ch :: data, s)

def rtSerialRead (size : ℕ) (line : ℕ → Turn) (s : SerialDevice) : List UInt8 × SerialDevice :=
  if size = 0 then ([], s)
  else if Has s.openFlag rtDeviceFlagIntRx then serialIntRx line size s
  else serialPollRx line size s

def rtDeviceRead (size : ℕ) (line : ℕ → Turn) (s : SerialDevice) : List UInt8 × SerialDevice :=
  if s.refCount = 0 then ([], s) else rtSerialRead size line s

/-- The device with its openers: for each open that has not been closed,
whether it asked for `RT_DEVICE_FLAG_INT_RX`. -/
structure System where
  dev : SerialDevice
  openers : List Bool

inductive Event
  | opens (oflag : Flags) (memory : Memory)
  | closes (i : ℕ)
  | receives (chars : List UInt8)
  | reads (size : ℕ) (line : ℕ → Turn)

def rtHwSerialInitSystem (rxIndicate : Bool) (bufsz : ℕ) : System :=
  ⟨rtHwSerialInit rxIndicate bufsz, []⟩

/-- Each close is that of an opener, or comes when there is none. An open that
fails an assertion does not return. -/
def turn (s : System) : Event → System
  | .opens oflag memory =>
    let (result, dev) := rtDeviceOpen oflag memory s.dev
    if result = .eok ∧ dev.halted = false then
      ⟨dev, s.openers ++ [decide (Has oflag rtDeviceFlagIntRx)]⟩
    else ⟨dev, s.openers⟩
  | .closes i =>
    if i < s.openers.length ∨ s.openers = [] then
      ⟨(rtDeviceClose s.dev).2, s.openers.eraseIdx i⟩
    else s
  | .receives chars => ⟨interrupt s.dev chars, s.openers⟩
  | .reads size line => ⟨(rtDeviceRead size line s.dev).2, s.openers⟩

def step (s : System) (e : Event) : System := if s.dev.halted then s else turn s e

end GiantGecko.Drivers.Serial
