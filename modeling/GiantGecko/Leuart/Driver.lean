import GiantGecko.Foundation.Ring
import Mathlib.Data.BitVec

namespace GiantGecko.Leuart.Driver

open Foundation.Ring

def leuartRxBufferSize : ℕ := 64

theorem leuartRxBufferSize_pos : 0 < leuartRxBufferSize := by decide

/-- The bytes an allocator finds in the memory it hands out, `none` where it
has none left. -/
abbrev Alloc := Option (ℕ → UInt8)

/-- `rt_malloc`: the bytes that were asked for, of a block that the heap gives for size 0, too. -/
def rtMalloc (size : ℕ) (a : Alloc) : Option (List UInt8) :=
  a.map fun old ↦ (List.range size).map old

/-- `rt_realloc` to a size other than 0 of a block that is allocated: a block
that cannot be had leaves the old one allocated. -/
def rtRealloc (block : List UInt8) (size : ℕ) (a : Alloc) : Option (List UInt8) :=
  a.map fun old ↦ block.take size ++ ((List.range size).map old).drop block.length

structure IntMode where
  dataPtr : Option (List UInt8)
  dataSize : UInt8
  readIndex : ℕ
  saveIndex : ℕ

structure Reader where
  size : ℕ
  copied : List UInt8

/-- The driver's state, with a record of what it has done: the calls of
`rx_indicate`, the results of reads, each index used on the buffer beside the
size of the buffer then, and the blocks still allocated that no pointer leads
to. `halted` is the endless loop of a failed assertion. -/
structure LeuartDevice where
  counter : BitVec 32
  rx : IntMode
  rxIndicate : Bool
  reader : Option Reader
  indicated : List ℕ
  results : List (List UInt8)
  accesses : List (ℕ × ℕ)
  leaked : List (List UInt8)
  halted : Bool

def bufferSize (rx : IntMode) : ℕ := (rx.dataPtr.map List.length).getD 0

def rtLeuartInit (s : LeuartDevice) : LeuartDevice :=
  { s with rx := { s.rx with dataPtr := none } }

/-- `rt_leuart_open` in interrupt mode; `true` for `RT_EOK`. The pointer of a
buffer that is still allocated is overwritten. -/
def rtLeuartOpen (a : Alloc) (s : LeuartDevice) : Bool × LeuartDevice :=
  let leaked := s.leaked ++ s.rx.dataPtr.toList
  match rtMalloc leuartRxBufferSize a with
  | none => (false, { s with rx := { s.rx with dataPtr := none }, leaked := leaked })
  | some block =>
    (true, { s with
      rx := ⟨some (block.map fun _ ↦ 0), UInt8.ofNat leuartRxBufferSize, 0, 0⟩
      leaked := leaked
      counter := s.counter + 1 })

def rtLeuartClose (s : LeuartDevice) : LeuartDevice :=
  let s := { s with counter := s.counter - 1 }
  if s.counter = 0 then { s with rx := { s.rx with dataPtr := none } } else s

/-- `rt_leuart_control` with `RT_DEVICE_CTRL_LEUART_RBUFFER`; `false` for
`-RT_ENOMEM`. The result of `rt_realloc` goes to `data_ptr` before it is
tested. -/
def rtLeuartControlRbuffer (size : UInt8) (a : Alloc) (s : LeuartDevice) : Bool × LeuartDevice :=
  let done (block : Option (List UInt8)) : Bool × LeuartDevice :=
    (true, { s with rx := ⟨block, size, 0, 0⟩ })
  match s.rx.dataPtr with
  | some block =>
    if size = 0 then done none
    else if size ≠ s.rx.dataSize then
      match rtRealloc block size.toNat a with
      | none =>
        (false, { s with rx := { s.rx with dataPtr := none }, leaked := s.leaked ++ [block] })
      | some block' => done (some block')
    else done (some block)
  | none =>
    match rtMalloc size.toNat a with
    | none => (false, s)
    | some block => done (some block)

def saveChar (s : LeuartDevice) (b : UInt8) : LeuartDevice :=
  let save := next leuartRxBufferSize s.rx.saveIndex
  { s with
    rx := { s.rx with
      dataPtr := s.rx.dataPtr.map fun block ↦ block.set s.rx.saveIndex b
      saveIndex := save
      readIndex :=
        if save = s.rx.readIndex then next leuartRxBufferSize s.rx.readIndex else s.rx.readIndex }
    accesses := s.accesses ++ [(s.rx.saveIndex, bufferSize s.rx)] }

def rxLength (rx : IntMode) : ℕ := count leuartRxBufferSize rx.readIndex rx.saveIndex

def rtHwLeuartRxIsr (bytes : List UInt8) (s : LeuartDevice) : LeuartDevice :=
  if s.rx.dataPtr = none then { s with halted := true }
  else
    let s := bytes.foldl saveChar s
    if s.rxIndicate then { s with indicated := s.indicated ++ [rxLength s.rx] } else s

/-- `rt_leuart_read` up to the lock. A thread that finds it taken waits, so
its call is still to come; an interrupt handler gets 0. -/
def readBegin (interrupt : Bool) (size : ℕ) (s : LeuartDevice) : LeuartDevice :=
  match s.reader with
  | none => { s with reader := some ⟨size, []⟩ }
  | some _ => if interrupt then { s with results := s.results ++ [[]] } else s

def readTurn (s : LeuartDevice) : LeuartDevice :=
  match s.reader with
  | none => s
  | some ⟨0, copied⟩ => { s with reader := none, results := s.results ++ [copied] }
  | some ⟨size + 1, copied⟩ =>
    if s.rx.readIndex ≠ s.rx.saveIndex then
      let b := (s.rx.dataPtr.getD []).getD s.rx.readIndex default
      { s with
        reader := some ⟨size, copied ++ [b]⟩
        rx := { s.rx with readIndex := next leuartRxBufferSize s.rx.readIndex }
        accesses := s.accesses ++ [(s.rx.readIndex, bufferSize s.rx)] }
    else { s with reader := none, results := s.results ++ [copied] }

inductive Traffic
  | isr (bytes : List UInt8)
  | readBegin (interrupt : Bool) (size : ℕ)
  | readTurn

def traffic (s : LeuartDevice) (t : Traffic) : LeuartDevice :=
  if s.halted then s
  else match t with
    | .isr bytes => rtHwLeuartRxIsr bytes s
    | .readBegin interrupt size => readBegin interrupt size s
    | .readTurn => readTurn s

/-- The device as `rt_hw_leuart_unit_init` leaves it: the fields of the receive
structure other than `data_ptr` are what the allocator found there. -/
def unitInit (rxIndicate : Bool) (dataSize : UInt8) (readIndex saveIndex : ℕ) : LeuartDevice where
  counter := 0
  rx := ⟨none, dataSize, readIndex, saveIndex⟩
  rxIndicate := rxIndicate
  reader := none
  indicated := []
  results := []
  accesses := []
  leaked := []
  halted := false

end GiantGecko.Leuart.Driver
