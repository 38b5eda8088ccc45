import Mathlib.Algebra.Ring.Int.Defs
import Mathlib.Data.Int.Basic
import Mathlib.Data.List.Basic
import Mathlib.Logic.Function.Basic

namespace GiantGecko.MemLcd.Driver

def mlcdWr : UInt8 := 0x80
def mlcdCm : UInt8 := 0x20
def mlcdNo : UInt8 := 0x00
def mlcdX : ℕ := 400
def mlcdY : ℕ := 240
def mlcdBytesLine : ℕ := mlcdX / 8
def mlcdBufSize : ℕ := mlcdY * mlcdBytesLine
def vcomMask : UInt8 := 0x40

/-- `mlcd->buf` with the memory behind it, which an index may reach. -/
abbrev FrameBuffer := ℕ → UInt8

structure Transfer where
  bytes : List UInt8
  buf : FrameBuffer

/-- The driver's state and the transfers it has made. -/
structure Memlcd where
  buf : FrameBuffer
  vcom : UInt8
  sent : List Transfer
  vcomValid : vcom = 0 ∨ vcom = vcomMask

theorem vcom_toggle {vcom : UInt8} (h : vcom = 0 ∨ vcom = vcomMask) :
    vcom ^^^ vcomMask = 0 ∨ vcom ^^^ vcomMask = vcomMask := by
  rcases h with rfl | rfl
  · exact .inr (by decide)
  · exact .inl (by decide)

def memlcdClear (mlcd : Memlcd) : Memlcd where
  buf := fun pos ↦ if pos < mlcdBufSize then 0xFF else mlcd.buf pos
  vcom := mlcd.vcom ^^^ vcomMask
  sent := mlcd.sent ++ [⟨[mlcdCm ||| (mlcd.vcom ^^^ vcomMask), mlcdNo], mlcd.buf⟩]
  vcomValid := vcom_toggle mlcd.vcomValid

def lineToAddr (line : UInt8) : UInt8 :=
  let line := line + 1
  let bit (test set : UInt8) : UInt8 := if line &&& test ≠ 0 then set else 0
  bit 0x80 0x01 ||| bit 0x40 0x02 ||| bit 0x20 0x04 ||| bit 0x10 0x08 ||| bit 0x08 0x10 |||
    bit 0x04 0x20 ||| bit 0x02 0x40 ||| bit 0x01 0x80

/-- The low byte of `1 << (7 - bx)`, all that reaches the frame buffer. -/
def pointMask (bx : ℕ) : UInt8 := if bx ≤ 7 then 1 <<< UInt8.ofNat (7 - bx) else 0

def truncate (w : ℕ) (i : ℤ) : ℕ := (i % 2 ^ w).toNat

/-- `memlcd_refresh` for the screen mounted upside down. -/
def memlcdRefresh (mlcd : Memlcd) (line : UInt8) : Memlcd :=
  let row := truncate 8 (mlcdY - line.toNat - 1)
  { mlcd with
    vcom := mlcd.vcom ^^^ vcomMask
    sent := mlcd.sent ++ [⟨(mlcdWr ||| (mlcd.vcom ^^^ vcomMask)) :: lineToAddr (UInt8.ofNat row) ::
      (List.range mlcdBytesLine).map (fun i ↦ mlcd.buf (i + row * mlcdBytesLine)) ++ [0, 0],
      mlcd.buf⟩]
    vcomValid := vcom_toggle mlcd.vcomValid }

def drawpoint (buf : FrameBuffer) (x y : UInt16) (bDraw : Bool) : FrameBuffer :=
  let pos := truncate 16 (((mlcdX - x.toNat - 1 : ℤ).tdiv 8) + (mlcdY - y.toNat - 1) * mlcdBytesLine)
  let tmp := pointMask (truncate 16 ((mlcdX - x.toNat - 1 : ℤ).tmod 8))
  Function.update buf pos (if bDraw then buf pos &&& ~~~tmp else buf pos ||| tmp)

def memlcdDrawpoint (mlcd : Memlcd) (x y : UInt16) (bDraw : Bool) : Memlcd :=
  memlcdRefresh { mlcd with buf := drawpoint mlcd.buf x y bDraw } (UInt8.ofNat y.toNat)

def fillLine (buf : FrameBuffer) (x y : UInt16) (width : ℕ) (bDraw : Bool) : FrameBuffer :=
  (List.range width).foldl (fun buf w ↦ drawpoint buf (x + UInt16.ofNat w) y bDraw) buf

def fillLines (mlcd : Memlcd) (x y : UInt16) (width height : ℕ) (bDraw : Bool) : Memlcd :=
  (List.range height).foldl (fun mlcd h ↦
    memlcdRefresh { mlcd with buf := fillLine mlcd.buf x (y + UInt16.ofNat h) width bDraw }
      (UInt8.ofNat (y + UInt16.ofNat h).toNat)) mlcd

def memlcdFillRect (mlcd : Memlcd) (x y width height : UInt16) (bDraw : Bool) : Memlcd :=
  fillLines mlcd x y width.toNat height.toNat bDraw

def setPixel (mlcd : Memlcd) (pixel : UInt8) (x y : ℤ) : Memlcd :=
  memlcdDrawpoint mlcd (UInt16.ofNat (truncate 16 x)) (UInt16.ofNat (truncate 16 y)) (pixel = 0)

def blitLine (mlcd : Memlcd) (pixel : List UInt8) (x y : ℤ) : Memlcd :=
  memlcdRefresh
    { mlcd with
      buf := pixel.zipIdx.foldl (fun buf p ↦ drawpoint buf (UInt16.ofNat (truncate 16 (x + p.2)))
        (UInt16.ofNat (truncate 16 y)) (p.1 = 0)) mlcd.buf }
    (UInt8.ofNat (truncate 8 y))

def rtguiRgb (r g b : UInt8) : BitVec 32 :=
  0xFF000000 ||| r.toNat <<< 16 ||| g.toNat <<< 8 ||| b.toNat

def black : BitVec 32 := rtguiRgb 0 0 0
def white : BitVec 32 := rtguiRgb 0xFF 0xFF 0xFF

def rtguiColorToMono (c : BitVec 32) : UInt8 :=
  if (c >>> 16) &&& 0xFF ||| (c >>> 8) &&& 0xFF ||| c &&& 0xFF ≠ 0 then 1 else 0

def getPixel (mlcd : Memlcd) (x y : ℤ) : UInt8 :=
  let pos := truncate 16 (x.tdiv 8 + y * mlcdBytesLine)
  let tmp := pointMask (truncate 16 (x.tmod 8))
  if mlcd.buf pos &&& tmp = 0 then rtguiColorToMono black else rtguiColorToMono white

inductive Op
  | clear
  | drawpoint (x y : UInt16) (bDraw : Bool)
  | fillRect (x y width height : UInt16) (bDraw : Bool)
  | setPixel (pixel : UInt8) (x y : ℤ)
  | blitLine (pixel : List UInt8) (x y : ℤ)

def draw (mlcd : Memlcd) : Op → Memlcd
  | .clear => memlcdClear mlcd
  | .drawpoint x y bDraw => memlcdDrawpoint mlcd x y bDraw
  | .fillRect x y width height bDraw => memlcdFillRect mlcd x y width height bDraw
  | .setPixel pixel x y => setPixel mlcd pixel x y
  | .blitLine pixel x y => blitLine mlcd pixel x y

def Op.Inside : Op → Prop
  | .clear => True
  | .drawpoint x y _ => x.toNat < mlcdX ∧ y.toNat < mlcdY
  | .fillRect x y width height _ =>
    x.toNat + width.toNat ≤ mlcdX ∧ y.toNat + height.toNat ≤ mlcdY
  | .setPixel _ x y => 0 ≤ x ∧ x < mlcdX ∧ 0 ≤ y ∧ y < mlcdY
  | .blitLine pixel x y => 0 ≤ x ∧ x + pixel.length ≤ mlcdX ∧ 0 ≤ y ∧ y < mlcdY

end GiantGecko.MemLcd.Driver
