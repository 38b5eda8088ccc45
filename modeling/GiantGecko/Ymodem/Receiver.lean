import GiantGecko.Foundation.Crc

namespace GiantGecko.Ymodem.Receiver

def ccittTable : List (BitVec 16) :=
  [0x0000, 0x1021, 0x2042, 0x3063, 0x4084, 0x50A5, 0x60C6, 0x70E7,
   0x8108, 0x9129, 0xA14A, 0xB16B, 0xC18C, 0xD1AD, 0xE1CE, 0xF1EF,
   0x1231, 0x0210, 0x3273, 0x2252, 0x52B5, 0x4294, 0x72F7, 0x62D6,
   0x9339, 0x8318, 0xB37B, 0xA35A, 0xD3BD, 0xC39C, 0xF3FF, 0xE3DE,
   0x2462, 0x3443, 0x0420, 0x1401, 0x64E6, 0x74C7, 0x44A4, 0x5485,
   0xA56A, 0xB54B, 0x8528, 0x9509, 0xE5EE, 0xF5CF, 0xC5AC, 0xD58D,
   0x3653, 0x2672, 0x1611, 0x0630, 0x76D7, 0x66F6, 0x5695, 0x46B4,
   0xB75B, 0xA77A, 0x9719, 0x8738, 0xF7DF, 0xE7FE, 0xD79D, 0xC7BC,
   0x48C4, 0x58E5, 0x6886, 0x78A7, 0x0840, 0x1861, 0x2802, 0x3823,
   0xC9CC, 0xD9ED, 0xE98E, 0xF9AF, 0x8948, 0x9969, 0xA90A, 0xB92B,
   0x5AF5, 0x4AD4, 0x7AB7, 0x6A96, 0x1A71, 0x0A50, 0x3A33, 0x2A12,
   0xDBFD, 0xCBDC, 0xFBBF, 0xEB9E, 0x9B79, 0x8B58, 0xBB3B, 0xAB1A,
   0x6CA6, 0x7C87, 0x4CE4, 0x5CC5, 0x2C22, 0x3C03, 0x0C60, 0x1C41,
   0xEDAE, 0xFD8F, 0xCDEC, 0xDDCD, 0xAD2A, 0xBD0B, 0x8D68, 0x9D49,
   0x7E97, 0x6EB6, 0x5ED5, 0x4EF4, 0x3E13, 0x2E32, 0x1E51, 0x0E70,
   0xFF9F, 0xEFBE, 0xDFDD, 0xCFFC, 0xBF1B, 0xAF3A, 0x9F59, 0x8F78,
   0x9188, 0x81A9, 0xB1CA, 0xA1EB, 0xD10C, 0xC12D, 0xF14E, 0xE16F,
   0x1080, 0x00A1, 0x30C2, 0x20E3, 0x5004, 0x4025, 0x7046, 0x6067,
   0x83B9, 0x9398, 0xA3FB, 0xB3DA, 0xC33D, 0xD31C, 0xE37F, 0xF35E,
   0x02B1, 0x1290, 0x22F3, 0x32D2, 0x4235, 0x5214, 0x6277, 0x7256,
   0xB5EA, 0xA5CB, 0x95A8, 0x8589, 0xF56E, 0xE54F, 0xD52C, 0xC50D,
   0x34E2, 0x24C3, 0x14A0, 0x0481, 0x7466, 0x6447, 0x5424, 0x4405,
   0xA7DB, 0xB7FA, 0x8799, 0x97B8, 0xE75F, 0xF77E, 0xC71D, 0xD73C,
   0x26D3, 0x36F2, 0x0691, 0x16B0, 0x6657, 0x7676, 0x4615, 0x5634,
   0xD94C, 0xC96D, 0xF90E, 0xE92F, 0x99C8, 0x89E9, 0xB98A, 0xA9AB,
   0x5844, 0x4865, 0x7806, 0x6827, 0x18C0, 0x08E1, 0x3882, 0x28A3,
   0xCB7D, 0xDB5C, 0xEB3F, 0xFB1E, 0x8BF9, 0x9BD8, 0xABBB, 0xBB9A,
   0x4A75, 0x5A54, 0x6A37, 0x7A16, 0x0AF1, 0x1AD0, 0x2AB3, 0x3A92,
   0xFD2E, 0xED0F, 0xDD6C, 0xCD4D, 0xBDAA, 0xAD8B, 0x9DE8, 0x8DC9,
   0x7C26, 0x6C07, 0x5C64, 0x4C45, 0x3CA2, 0x2C83, 0x1CE0, 0x0CC1,
   0xEF1F, 0xFF3E, 0xCF5D, 0xDF7C, 0xAF9B, 0xBFBA, 0x8FD9, 0x9FF8,
   0x6E17, 0x7E36, 0x4E55, 0x5E74, 0x2E93, 0x3EB2, 0x0ED1, 0x1EF0]

def crc16 (q : List UInt8) : BitVec 16 :=
  q.foldl (fun crc b ↦ crc <<< 8 ^^^
    ccittTable.getD ((crc >>> 8 ^^^ b.toBitVec.setWidth 16) &&& 0xFF#16).toNat 0) 0

/-- `enum rym_code`: what is cast to it need not be one of its names. -/
inductive RymCode
  | none
  | soh
  | stx
  | eot
  | ack
  | nak
  | can
  | c
  | other (b : UInt8)
  deriving DecidableEq

def RymCode.ofByte (b : UInt8) : RymCode :=
  match b with
  | 0x00 => .none
  | 0x01 => .soh
  | 0x02 => .stx
  | 0x04 => .eot
  | 0x06 => .ack
  | 0x15 => .nak
  | 0x18 => .can
  | 0x43 => .c
  | b => .other b

inductive RtErr
  | eok
  | enomem
  | tmo
  | code
  | seq
  | crc
  | dsz
  | can
  deriving DecidableEq

inductive RymStage
  | none
  | establishing
  | established
  | transmitting
  | finishing
  | finished
  deriving DecidableEq

abbrev RymCallback (υ : Type) := υ → List UInt8 → RymCode × υ

structure Callbacks (υ : Type) where
  onBegin : Option (RymCallback υ)
  onData : Option (RymCallback υ)
  onEnd : Option (RymCallback υ)

/-- `struct rym_ctx`, with the tick counter, what the callbacks keep in `user`,
what has been written to the device and the sender has not read yet in `tx`,
and the payloads passed to `on_data` so far. -/
structure RymCtx (υ : Type) where
  stage : RymStage
  buf : ℕ → UInt8
  user : υ
  tick : UInt32
  tx : List RymCode
  delivered : List (List UInt8)

inductive CodeWait
  | handshake (i : ℕ)
  | trans
  | finEot
  | finHeader
  deriving DecidableEq

inductive DataWait
  | handshake (dataSz i : ℕ) (limit : UInt32)
  | trans (dataSz : ℕ)
  | fin (dataSz : ℕ)
  deriving DecidableEq

inductive Wait
  | code (k : CodeWait)
  | data (k : DataWait) (len readlen : ℕ)
  | returned (err : RtErr)
  deriving DecidableEq

structure Machine (υ : Type) where
  ctx : RymCtx υ
  wait : Wait

/-- The next byte from the device, or a wait for one that times out; `elapsed`
ticks after the last input. -/
inductive Input
  | byte (elapsed : UInt32) (b : UInt8)
  | gap (elapsed : UInt32)

section Context

variable {υ : Type} (ctx : RymCtx υ)

def RymCtx.elapse (ticks : UInt32) : RymCtx υ := { ctx with tick := ctx.tick + ticks }

def RymCtx.put (i : ℕ) (b : UInt8) : RymCtx υ := { ctx with buf := Function.update ctx.buf i b }

def RymCtx.rymPutchar (code : RymCode) : RymCtx υ := { ctx with tx := ctx.tx ++ [code] }

def RymCtx.slice (start len : ℕ) : List UInt8 := (List.range len).map fun i ↦ ctx.buf (start + i)

def RymCtx.recvCrc (start : ℕ) : BitVec 16 :=
  (ctx.buf start).toBitVec.setWidth 16 <<< 8 ||| (ctx.buf (start + 1)).toBitVec.setWidth 16

end Context

def rymSohPkgSz : ℕ := 1 + 2 + 128 + 2
def rymStxPkgSz : ℕ := 1 + 2 + 1024 + 2
def rymEndSessionSendCanNum : ℕ := 7

variable {υ : Type} (cb : Callbacks υ) (tmSec : ℕ)

/-- The test of `on_begin` on a header of `len` bytes: whether the session goes on. -/
def rymOnBegin (len : ℕ) (ctx : RymCtx υ) : Bool × RymCtx υ :=
  match cb.onBegin with
  | none => (true, ctx)
  | some onBegin =>
    let r := onBegin ctx.user (ctx.slice 3 len)
    (r.1 = .ack, { ctx with user := r.2 })

def rymDoTrans (ctx : RymCtx υ) : Machine υ :=
  ⟨{ (ctx.rymPutchar .ack).rymPutchar .c with stage := .established }, .code .trans⟩

def beginTrans (len : ℕ) (ctx : RymCtx υ) : Machine υ :=
  let r := rymOnBegin cb len ctx
  if r.1 then rymDoTrans r.2 else ⟨r.2, .returned .can⟩

def handshakeTurn (i : ℕ) (ctx : RymCtx υ) : Machine υ :=
  if i < tmSec then ⟨ctx.rymPutchar .c, .code (.handshake i)⟩ else ⟨ctx, .returned .tmo⟩

def rymDoHandshake (ctx : RymCtx υ) : Machine υ :=
  handshakeTurn tmSec 0 { ctx with stage := .establishing }

def handshakeCheck (dataSz i : ℕ) (ctx : RymCtx υ) : Machine υ :=
  if i ≠ dataSz - 1 then ⟨ctx, .returned .dsz⟩
  else if ctx.buf 1 ≠ 0 ∨ ctx.buf 2 ≠ 0xFF then ⟨ctx, .returned .seq⟩
  else if ctx.recvCrc (dataSz - 2) ≠ crc16 (ctx.slice 3 (dataSz - 5)) then ⟨ctx, .returned .crc⟩
  else beginTrans cb (dataSz - 5) ctx

def handshakeReceive (dataSz i : ℕ) (limit : UInt32) (ctx : RymCtx υ) : Machine υ :=
  if ctx.tick ≤ limit ∧ i < dataSz - 1 then
    ⟨ctx, .data (.handshake dataSz i limit) (dataSz - 1) 0⟩
  else handshakeCheck cb dataSz i ctx

/-- `_rym_trans_data` once `i` bytes have been received. -/
def rymTransData (dataSz i : ℕ) (ctx : RymCtx υ) : RtErr × RymCode × RymCtx υ :=
  let tsz := 2 + dataSz + 2
  if i ≠ tsz then (.dsz, .none, ctx)
  else if (ctx.buf 1).toNat + (ctx.buf 2).toNat ≠ 0xFF then (.seq, .none, ctx)
  else if ctx.stage = .established ∧ ctx.buf 1 = 0 then (.eok, .none, ctx)
  else
    let ctx := { ctx with stage := .transmitting }
    if ctx.recvCrc (tsz - 1) ≠ crc16 (ctx.slice 3 dataSz) then (.crc, .none, ctx)
    else match cb.onData with
    | none => (.eok, .ack, ctx)
    | some onData =>
      let payload := ctx.slice 3 dataSz
      let r := onData ctx.user payload
      (.eok, r.1, { ctx with user := r.2, delivered := ctx.delivered ++ [payload] })

def transReply : RtErr × RymCode × RymCtx υ → Machine υ
  | (.eok, .can, ctx) =>
    ⟨(List.replicate rymEndSessionSendCanNum RymCode.can).foldl RymCtx.rymPutchar ctx,
      .returned .can⟩
  | (.eok, .ack, ctx) => ⟨ctx.rymPutchar .ack, .code .trans⟩
  | (.eok, _, ctx) => ⟨ctx, .code .trans⟩
  | (err, _, ctx) => ⟨ctx, .returned err⟩

def rymDoFin (ctx : RymCtx υ) : Machine υ :=
  let ctx := { ctx with stage := .finishing }
  let ctx := match cb.onEnd with
    | none => ctx
    | some onEnd => { ctx with user := (onEnd ctx.user (ctx.slice 3 128)).2 }
  ⟨ctx.rymPutchar .nak, .code .finEot⟩

/-- `_rym_do_fin` once `i` bytes of the header have been received. The header is
read and checked as a 128-byte one whatever `dataSz` is. -/
def finCheck (dataSz i : ℕ) (ctx : RymCtx υ) : Machine υ :=
  if i ≠ rymSohPkgSz - 1 then ⟨ctx, .returned .dsz⟩
  else if ctx.buf 1 ≠ 0 ∨ ctx.buf 2 ≠ 0xFF then ⟨ctx, .returned .seq⟩
  else if ctx.recvCrc (rymSohPkgSz - 2) ≠ crc16 (ctx.slice 3 (rymSohPkgSz - 5)) then
    ⟨ctx, .returned .crc⟩
  else if ctx.buf 3 ≠ 0 then beginTrans cb (dataSz - 5) ctx
  else ⟨{ ctx with stage := .finished }.rymPutchar .ack, .returned .eok⟩

def afterCode (ctx : RymCtx υ) : CodeWait → RymCode → Machine υ
  | .handshake _, .soh => handshakeReceive cb rymSohPkgSz 0 (ctx.tick + 100) ctx
  | .handshake _, .stx => handshakeReceive cb rymStxPkgSz 0 (ctx.tick + 100) ctx
  | .handshake i, _ => handshakeTurn tmSec (i + 1) ctx
  | .trans, .soh => ⟨ctx, .data (.trans 128) (2 + 128 + 2) 0⟩
  | .trans, .stx => ⟨ctx, .data (.trans 1024) (2 + 1024 + 2) 0⟩
  | .trans, .eot => rymDoFin cb ctx
  | .finEot, .eot => ⟨(ctx.rymPutchar .ack).rymPutchar .c, .code .finHeader⟩
  | .finHeader, .soh => ⟨ctx, .data (.fin rymSohPkgSz) (rymSohPkgSz - 1) 0⟩
  | .finHeader, .stx => ⟨ctx, .data (.fin rymStxPkgSz) (rymSohPkgSz - 1) 0⟩
  | _, _ => ⟨ctx, .returned .code⟩

def afterData (i : ℕ) (ctx : RymCtx υ) : DataWait → Machine υ
  | .handshake dataSz i₀ limit => handshakeReceive cb dataSz (i₀ + i) limit (ctx.elapse 5)
  | .trans dataSz => transReply (rymTransData cb dataSz i ctx)
  | .fin dataSz => finCheck cb dataSz i ctx

def step (m : Machine υ) : Input → Machine υ
  | .byte elapsed b =>
    match m.wait with
    | .code k => afterCode cb tmSec ((m.ctx.elapse elapsed).put 0 b) k (.ofByte b)
    | .data k len readlen =>
      let ctx := (m.ctx.elapse elapsed).put (1 + readlen) b
      if len ≤ readlen + 1 then afterData cb (readlen + 1) ctx k
      else ⟨ctx, .data k len (readlen + 1)⟩
    | .returned _ => m
  | .gap elapsed =>
    match m.wait with
    | .code k => afterCode cb tmSec (m.ctx.elapse elapsed) k .none
    | .data k _ readlen => afterData cb readlen (m.ctx.elapse elapsed) k
    | .returned _ => m

/-- `_rym_do_recv` up to its first wait; `mem` is what `rt_malloc` finds in the
memory it hands out. -/
def rymDoRecv (mem : Option (ℕ → UInt8)) (user : υ) (tick : UInt32) : Machine υ :=
  match mem with
  | none => ⟨⟨.none, fun _ ↦ 0, user, tick, [], []⟩, .returned .enomem⟩
  | some buf => rymDoHandshake tmSec ⟨.none, buf, user, tick, [], []⟩

end GiantGecko.Ymodem.Receiver
