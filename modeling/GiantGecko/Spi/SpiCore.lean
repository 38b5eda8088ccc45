import GiantGecko.Spi.Driver

namespace GiantGecko.Spi.SpiCore

open Dma Driver

def rtEio : BitVec 32 := 8

def rtSpiCsHigh : BitVec 8 := 1 <<< 4

/-- The fields of `struct rt_spi_configuration` that reach the chip select or make
`spi_configure` fail. -/
structure Configuration where
  mode : BitVec 8
  dataWidth : BitVec 8

structure Port where
  line : Line
  pin : BitVec 32
  cfg : Configuration
  usingDma : Bool

/-- What lasts from call to call; `owner` is whether the bus has been configured for the
device last. -/
structure Device where
  world : World
  hspi : EfmSpi
  owner : Bool
  selectByHigh : Bool

structure Bus extends Device where
  mutexHeld : Bool
  lockHeld : Bool
  clocked : List ℕ

/-- The level of the device's chip select; `rt_pin_mode` leaves it low. -/
def csLevel (p : Port) (s : Bus) : Bool :=
  ((s.world.cs.filter (·.1 = p.pin)).getLast?.map Prod.snd).getD false

def Bus.setErrno (s : Bus) (errno : BitVec 32) : Bus :=
  { s with world := { s.world with errno := errno } }

def Bus.unlock (s : Bus) : Bus := { s with mutexHeld := false }

/-- `spi_configure`, as far as it can fail or concerns the chip select and the channels. -/
def spiConfigure (p : Port) (s : Bus) : BitVec 32 × Bus :=
  if p.cfg.dataWidth ≠ 8 ∧ p.cfg.dataWidth ≠ 16 then (rtEio, s)
  else
    let high := decide (p.cfg.mode &&& rtSpiCsHigh ≠ 0)
    (0, { s with
      selectByHigh := high
      world := s.world.pinWrite p.pin (!high)
      hspi := if p.usingDma then dmaConfiguration s.hspi else s.hspi })

def Bus.semTake (errCode : BitVec 32) (s : Bus) : Bus :=
  if errCode = 0 then { s with lockHeld := true } else s

def Bus.semRelease (errCode : BitVec 32) (s : Bus) : Bus :=
  if errCode = 0 then { s with lockHeld := false } else s

def Bus.record (w : World) (hspi : EfmSpi) (s : Bus) : Bus :=
  { s with
    world := w
    hspi := hspi
    clocked := s.clocked ++ [w.mosi.length - s.world.mosi.length] }

def xfer (p : Port) (m : Message) (errCode : BitVec 32) (s : Bus) : Option (BitVec 32 × Bus) :=
  let cs : HwSpiCs := ⟨p.pin, s.selectByHigh⟩
  if p.usingDma then
    (spiDmaXfer p.line cs m errCode s.hspi s.world).map fun r ↦
      (r.1, ((s.semTake errCode).record r.2.1 r.2.2).semRelease errCode)
  else
    (spiXfer p.line cs m errCode s.world).map fun r ↦
      (r.1, ((s.semTake errCode).record r.2 s.hspi).semRelease errCode)

def own (p : Port) (s : Bus) : Bool × Bus :=
  if s.owner then (true, s)
  else
    let r := spiConfigure p s
    if r.1 = 0 then (true, { r.2 with owner := true }) else (false, r.2)

/-- What `rt_mutex_take` returns, and `rt_sem_take` for each message. -/
structure Takes where
  mutex : BitVec 32
  first : BitVec 32
  second : BitVec 32

structure Buffer where
  addr : Addr
  length : BitVec 32
  fits : addr ≠ 0 → addr.toNat + length.toNat ≤ 2 ^ 32

def Buffer.sends (b : Buffer) (csTake csRelease : Bool) : Message :=
  ⟨b.addr, 0, b.length, csTake, csRelease, b.fits, fun h ↦ absurd rfl h⟩

def Buffer.receives (b : Buffer) (csTake csRelease : Bool) : Message :=
  ⟨0, b.addr, b.length, csTake, csRelease, fun h ↦ absurd rfl h, b.fits⟩

structure Buffers where
  sendBuf : Addr
  recvBuf : Addr
  length : BitVec 32
  sendFits : sendBuf ≠ 0 → sendBuf.toNat + length.toNat ≤ 2 ^ 32
  recvFits : recvBuf ≠ 0 → recvBuf.toNat + length.toNat ≤ 2 ^ 32

def Buffers.message (x : Buffers) : Message :=
  ⟨x.sendBuf, x.recvBuf, x.length, true, true, x.sendFits, x.recvFits⟩

def rtSpiTransfer (p : Port) (x : Buffers) (takes : Takes) (s : Bus) :
    Option (BitVec 32 × Bus) :=
  if takes.mutex ≠ 0 then some (0, s.setErrno (-rtEio))
  else
    let r := own p { s with mutexHeld := true }
    if r.1 then
      (xfer p x.message takes.first r.2).map fun r ↦
        (r.1, (if r.1 = 0 then r.2.setErrno (-rtEio) else r.2).unlock)
    else some (0, (r.2.setErrno (-rtEio)).unlock)

def sendThen (p : Port) (m m' : Message) (takes : Takes) (s : Bus) : Option (BitVec 32 × Bus) :=
  if takes.mutex ≠ 0 then some (-rtEio, s)
  else
    let r := own p { s with mutexHeld := true }
    if r.1 then
      (xfer p m takes.first r.2).bind fun r ↦
        if r.1 = 0 then some (-rtEio, r.2.unlock)
        else
          (xfer p m' takes.second r.2).map fun r ↦
            if r.1 = 0 then (-rtEio, r.2.unlock) else (0, r.2.unlock)
    else some (-rtEio, r.2.unlock)

def rtSpiSendThenSend (p : Port) (b b' : Buffer) (takes : Takes) (s : Bus) :
    Option (BitVec 32 × Bus) :=
  sendThen p (b.sends true false) (b'.sends false true) takes s

def rtSpiSendThenRecv (p : Port) (b b' : Buffer) (takes : Takes) (s : Bus) :
    Option (BitVec 32 × Bus) :=
  sendThen p (b.sends true false) (b'.receives false true) takes s

end GiantGecko.Spi.SpiCore
