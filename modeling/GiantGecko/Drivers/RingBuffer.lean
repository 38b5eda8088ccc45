import Mathlib.Algebra.Group.Nat.Defs
import Mathlib.Data.List.Basic

namespace GiantGecko.Drivers.RingBuffer

/-- `struct rt_ringbuffer`. The indices have 15 bits, the mirrors one. -/
structure RtRingbuffer where
  buffer : ℕ → UInt8
  readMirror : Bool
  readIndex : ℕ
  writeMirror : Bool
  writeIndex : ℕ
  bufferSize : ℕ

inductive State
  | empty
  | full
  | halffull
  deriving DecidableEq

def rtRingbufferStatus (rb : RtRingbuffer) : State :=
  if rb.readIndex = rb.writeIndex then
    if rb.readMirror = rb.writeMirror then .empty else .full
  else .halffull

def rtAlignSize : ℕ := 4

def rtRingbufferInit (pool : ℕ → UInt8) (size : ℕ) : RtRingbuffer where
  buffer := pool
  readMirror := false
  readIndex := 0
  writeMirror := false
  writeIndex := 0
  bufferSize := size / rtAlignSize * rtAlignSize

def rtRingbufferDataLen (rb : RtRingbuffer) : ℕ :=
  match rtRingbufferStatus rb with
  | .empty => 0
  | .full => rb.bufferSize
  | .halffull =>
    if rb.writeIndex > rb.readIndex then rb.writeIndex - rb.readIndex
    else rb.bufferSize - (rb.readIndex - rb.writeIndex)

def spaceLen (rb : RtRingbuffer) : ℕ := rb.bufferSize - rtRingbufferDataLen rb

def copy (buffer : ℕ → UInt8) (i : ℕ) (ptr : ℕ → UInt8) (n : ℕ) : ℕ → UInt8 := fun j ↦
  if i ≤ j ∧ j < i + n then ptr (j - i) else buffer j

def toIndex (i : ℕ) : ℕ := i % 2 ^ 15

def writeOn (rb : RtRingbuffer) (ptr : ℕ → UInt8) (length : ℕ) : RtRingbuffer :=
  { rb with
    buffer := copy rb.buffer rb.writeIndex ptr length
    writeIndex := toIndex (rb.writeIndex + length) }

/-- The write index goes into the other side of the mirror. -/
def writeOver (rb : RtRingbuffer) (ptr : ℕ → UInt8) (length : ℕ) : RtRingbuffer :=
  let room := rb.bufferSize - rb.writeIndex
  { rb with
    buffer := copy (copy rb.buffer rb.writeIndex ptr room) 0 (fun i ↦ ptr (room + i))
      (length - room)
    writeMirror := !rb.writeMirror
    writeIndex := toIndex (length - room) }

def rtRingbufferPut (rb : RtRingbuffer) (ptr : ℕ → UInt8) (length : ℕ) : RtRingbuffer × ℕ :=
  let size := spaceLen rb
  if size = 0 then (rb, 0)
  else
    let length := if size < length then size else length
    if rb.bufferSize - rb.writeIndex > length then (writeOn rb ptr length, length)
    else (writeOver rb ptr length, length)

def rtRingbufferPutForce (rb : RtRingbuffer) (ptr : ℕ → UInt8) (length : ℕ) : RtRingbuffer × ℕ :=
  let spaceLength := spaceLen rb
  let skip := if length > rb.bufferSize then length - rb.bufferSize else 0
  let ptr := fun i ↦ ptr (skip + i)
  let length := if length > rb.bufferSize then rb.bufferSize else length
  if rb.bufferSize - rb.writeIndex > length then
    let rb := writeOn rb ptr length
    (if length > spaceLength then { rb with readIndex := rb.writeIndex } else rb, length)
  else
    let rb := writeOver rb ptr length
    (if length > spaceLength then
      { rb with readMirror := !rb.readMirror, readIndex := rb.writeIndex }
    else rb, length)

def rtRingbufferGet (rb : RtRingbuffer) (length : ℕ) : RtRingbuffer × ℕ × List UInt8 :=
  let size := rtRingbufferDataLen rb
  if size = 0 then (rb, 0, [])
  else
    let length := if size < length then size else length
    let room := rb.bufferSize - rb.readIndex
    if room > length then
      ({ rb with readIndex := toIndex (rb.readIndex + length) }, length,
        (List.range length).map fun i ↦ rb.buffer (rb.readIndex + i))
    else
      ({ rb with readMirror := !rb.readMirror, readIndex := toIndex (length - room) }, length,
        ((List.range room).map fun i ↦ rb.buffer (rb.readIndex + i)) ++
          (List.range (length - room)).map rb.buffer)

def rtRingbufferPutchar (rb : RtRingbuffer) (ch : UInt8) : RtRingbuffer × ℕ :=
  if spaceLen rb = 0 then (rb, 0)
  else
    let rb := { rb with buffer := Function.update rb.buffer rb.writeIndex ch }
    if rb.writeIndex = rb.bufferSize - 1 then
      ({ rb with writeMirror := !rb.writeMirror, writeIndex := 0 }, 1)
    else ({ rb with writeIndex := toIndex (rb.writeIndex + 1) }, 1)

def rtRingbufferPutcharForce (rb : RtRingbuffer) (ch : UInt8) : RtRingbuffer × ℕ :=
  let oldState := rtRingbufferStatus rb
  let rb := { rb with buffer := Function.update rb.buffer rb.writeIndex ch }
  if rb.writeIndex = rb.bufferSize - 1 then
    let rb := { rb with writeMirror := !rb.writeMirror, writeIndex := 0 }
    (if oldState = .full then
      { rb with readMirror := !rb.readMirror, readIndex := rb.writeIndex }
    else rb, 1)
  else
    let rb := { rb with writeIndex := toIndex (rb.writeIndex + 1) }
    (if oldState = .full then { rb with readIndex := rb.writeIndex } else rb, 1)

def rtRingbufferGetchar (rb : RtRingbuffer) : RtRingbuffer × ℕ × List UInt8 :=
  if rtRingbufferDataLen rb = 0 then (rb, 0, [])
  else
    let ch := rb.buffer rb.readIndex
    if rb.readIndex = rb.bufferSize - 1 then
      ({ rb with readMirror := !rb.readMirror, readIndex := 0 }, 1, [ch])
    else ({ rb with readIndex := toIndex (rb.readIndex + 1) }, 1, [ch])

/-- A call, with what it is given. Lengths have 16 bits. -/
inductive Op
  | put (ptr : ℕ → UInt8) (length : UInt16)
  | putForce (ptr : ℕ → UInt8) (length : UInt16)
  | putchar (ch : UInt8)
  | putcharForce (ch : UInt8)
  | get (length : UInt16)
  | getchar

def invoke (rb : RtRingbuffer) : Op → RtRingbuffer × ℕ × List UInt8
  | .put ptr length =>
    let (rb, n) := rtRingbufferPut rb ptr length.toNat
    (rb, n, [])
  | .putForce ptr length =>
    let (rb, n) := rtRingbufferPutForce rb ptr length.toNat
    (rb, n, [])
  | .putchar ch =>
    let (rb, n) := rtRingbufferPutchar rb ch
    (rb, n, [])
  | .putcharForce ch =>
    let (rb, n) := rtRingbufferPutcharForce rb ch
    (rb, n, [])
  | .get length => rtRingbufferGet rb length.toNat
  | .getchar => rtRingbufferGetchar rb

end GiantGecko.Drivers.RingBuffer
