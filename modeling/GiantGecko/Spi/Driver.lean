import GiantGecko.Spi.Dma
import Mathlib.Logic.Function.Basic

namespace GiantGecko.Spi.Driver

open Dma

/-- The fields of `struct rt_spi_message` that an xfer operation reads. A
buffer that is not NULL is an object, so it does not run past the end of the
address space. -/
structure Message where
  sendBuf : Addr
  recvBuf : Addr
  length : BitVec 32
  csTake : Bool
  csRelease : Bool
  sendFits : sendBuf ≠ 0 → sendBuf.toNat + length.toNat ≤ 2 ^ 32
  recvFits : recvBuf ≠ 0 → recvBuf.toNat + length.toNat ≤ 2 ^ 32

structure HwSpiCs where
  pin : BitVec 32
  selectByHigh : Bool

structure EfmSpi where
  usart : Addr
  tx : Descriptor
  rx : Descriptor

def EfmSpi.rxData (hspi : EfmSpi) : Addr := hspi.usart + 0x1C
def EfmSpi.txData (hspi : EfmSpi) : Addr := hspi.usart + 0x34

def dmaConfiguration (hspi : EfmSpi) : EfmSpi :=
  { hspi with
    rx := dmaCfgDescr dmaDataIncNone 0 hspi.rx
    tx := dmaCfgDescr 0 dmaDataIncNone hspi.tx }

structure Call where
  sndb : Addr
  rcvb : Addr
  length : BitVec 32

structure Transfer where
  tx : Cycle
  rx : Option Cycle

/-- `_dmaxfer`: the NULL test decides whether the receive channel runs; the
transmit channel always does. -/
def dmaxfer (hspi : EfmSpi) (c : Call) : Transfer × EfmSpi :=
  let rx := if c.rcvb ≠ 0 then dmaActivateBasic hspi.rx c.rcvb hspi.rxData (c.length - 1) else hspi.rx
  let tx := dmaActivateBasic hspi.tx hspi.txData c.sndb (c.length - 1)
  (⟨srcCycle tx, if c.rcvb ≠ 0 then some (dstCycle rx) else none⟩, { hspi with tx := tx, rx := rx })

def program : EfmSpi → List Call → List Transfer × EfmSpi
  | hspi, [] => ([], hspi)
  | hspi, c :: cs =>
    let (t, hspi') := dmaxfer hspi c
    let (ts, hspi'') := program hspi' cs
    (t :: ts, hspi'')

def swapSize : ℕ := 128

/-- The `for` loop of `spiDmaXfer`, `none` where `i + SWAP_SIZE` leaves the
range of an `int`. -/
def chunkCalls (sndb rcvb : Addr) (length i : ℕ) : Option (List Call) :=
  if i < length then
    if 2 ^ 31 ≤ i + swapSize then none
    else if i + swapSize > length then
      (chunkCalls sndb rcvb length (i + swapSize)).map
        (⟨sndb + BitVec.ofNat 32 i, rcvb + BitVec.ofNat 32 i,
          BitVec.ofNat 32 (length % swapSize)⟩ :: ·)
    else
      (chunkCalls sndb rcvb length (i + swapSize)).map
        (⟨sndb + BitVec.ofNat 32 i, rcvb + BitVec.ofNat 32 i, BitVec.ofNat 32 swapSize⟩ :: ·)
  else some []
  termination_by length - i
  decreasing_by all_goals simp only [swapSize] at *; omega

/-- The `_dmaxfer` calls of `spiDmaXfer` once it holds the lock. The length
is compared as an `rt_int32_t`. -/
def dmaCalls (m : Message) : Option (List Call) :=
  if m.length.toInt < swapSize then some [⟨m.sendBuf, m.recvBuf, m.length⟩]
  else chunkCalls m.sendBuf m.recvBuf m.length.toNat 0

structure World where
  mem : Addr → UInt8
  mosi : List UInt8
  cs : List (BitVec 32 × Bool)
  errno : BitVec 32

def World.pinWrite (w : World) (pin : BitVec 32) (level : Bool) : World :=
  { w with cs := w.cs ++ [(pin, level)] }

def World.takeCs (w : World) (cs : HwSpiCs) (m : Message) : World :=
  if m.csTake then w.pinWrite cs.pin cs.selectByHigh else w

def World.releaseCs (w : World) (cs : HwSpiCs) (m : Message) : World :=
  if m.csRelease then w.pinWrite cs.pin (!cs.selectByHigh) else w

def World.send (w : World) (b : UInt8) : World := { w with mosi := w.mosi ++ [b] }

def World.store (w : World) (a : Addr) (b : UInt8) : World :=
  { w with mem := Function.update w.mem a b }

/-- The far side of the bus: the slave's answer to the byte at each position
of MOSI, how many bytes the transmitter may take ahead of the answers stored,
and whether the controller stores answer `r` before it fetches byte `t` when
both are due. -/
structure Line where
  slave : ℕ → UInt8
  depth : ℕ
  storeFirst : ℕ → ℕ → Bool

/-- The two channels at work: `t` bytes have been fetched and `r` answers
stored, and at most `n` of these steps are left. -/
def duplex (line : Line) (tr : Transfer) (start : ℕ) : ℕ → ℕ → ℕ → World → World
  | 0, _, _, w => w
  | n + 1, t, r, w =>
    match tr.rx with
    | some rx =>
      if r < t ∧ r < rx.count ∧
          (line.storeFirst (start + t) (start + r) ∨ tr.tx.count ≤ t ∨ r + line.depth ≤ t) then
        duplex line tr start n t (r + 1) (w.store (rx.addr r) (line.slave (start + r)))
      else if t < tr.tx.count then
        duplex line tr start n (t + 1) r (w.send (w.mem (tr.tx.addr t)))
      else w
    | none =>
      if t < tr.tx.count then duplex line tr start n (t + 1) r (w.send (w.mem (tr.tx.addr t)))
      else w

def exchange (line : Line) (w : World) (tr : Transfer) : World :=
  duplex line tr w.mosi.length (tr.tx.count + (tr.rx.map Cycle.count).getD 0) 0 0 w

def spiDmaXfer (line : Line) (cs : HwSpiCs) (m : Message) (errCode : BitVec 32)
    (hspi : EfmSpi) (w : World) : Option (BitVec 32 × World × EfmSpi) :=
  let w := w.takeCs cs m
  if errCode ≠ 0 then some (errCode, w, hspi)
  else
    (dmaCalls m).map fun calls ↦
      let w := { (program hspi calls).1.foldl (exchange line) w with errno := errCode }
      (m.length, w.releaseCs cs m, (program hspi calls).2)

def xferByte (line : Line) (m : Message) (index : ℕ) (w : World) : World :=
  let txbuf := if m.sendBuf ≠ 0 then w.mem (m.sendBuf + BitVec.ofNat 32 index) else 0xFF
  let w' := w.send txbuf
  w'.store (m.recvBuf + BitVec.ofNat 32 index) (line.slave w.mosi.length)

def xferLoop (line : Line) (m : Message) : ℕ → World → World
  | 0, w => w
  | length + 1, w => xferLoop line m length (xferByte line m (m.length.toNat - (length + 1)) w)

/-- `spiXfer`: a length that is negative as an `rt_int32_t` counts down past
`INT_MIN`. -/
def spiXfer (line : Line) (cs : HwSpiCs) (m : Message) (errCode : BitVec 32) (w : World) :
    Option (BitVec 32 × World) :=
  let w := w.takeCs cs m
  if errCode ≠ 0 then some (0, w)
  else if m.length.toInt < 0 then none
  else
    let w := { xferLoop line m m.length.toNat w with errno := errCode }
    some (m.length - 0, w.releaseCs cs m)

@[simp] theorem takeCs_mem (w : World) (cs : HwSpiCs) (m : Message) :
    (w.takeCs cs m).mem = w.mem := by
  rw [World.takeCs]
  split_ifs <;> rfl

@[simp] theorem takeCs_mosi (w : World) (cs : HwSpiCs) (m : Message) :
    (w.takeCs cs m).mosi = w.mosi := by
  rw [World.takeCs]
  split_ifs <;> rfl

@[simp] theorem releaseCs_mem (w : World) (cs : HwSpiCs) (m : Message) :
    (w.releaseCs cs m).mem = w.mem := by
  rw [World.releaseCs]
  split_ifs <;> rfl

@[simp] theorem releaseCs_mosi (w : World) (cs : HwSpiCs) (m : Message) :
    (w.releaseCs cs m).mosi = w.mosi := by
  rw [World.releaseCs]
  split_ifs <;> rfl

theorem spiXfer_locked {line : Line} {m : Message} (hlen : ¬ m.length.toInt < 0) (cs : HwSpiCs)
    (w : World) : spiXfer line cs m 0 w = some (m.length,
      { xferLoop line m m.length.toNat (w.takeCs cs m) with errno := 0 }.releaseCs cs m) := by
  simp [spiXfer, hlen]

theorem spiDmaXfer_locked {line : Line} {m : Message} {calls : List Call}
    (hcalls : dmaCalls m = some calls) (cs : HwSpiCs) (hspi : EfmSpi) (w : World) :
    spiDmaXfer line cs m 0 hspi w = some (m.length,
      { (program hspi calls).1.foldl (exchange line) (w.takeCs cs m) with errno := 0 }.releaseCs cs m,
      (program hspi calls).2) := by
  simp only [spiDmaXfer, hcalls, ne_eq, not_true_eq_false, if_false, Option.map_some]

end GiantGecko.Spi.Driver
