import GiantGecko.Foundation.BoundedStore
import Mathlib.Data.Int.Init

namespace GiantGecko.Rtos.Format

open Foundation.BoundedStore

def ch (c : Char) : UInt8 := c.toUInt8

def int (x : ℤ) : ℤ := Int.bmod x (2 ^ 32)

/-- The bytes of a string up to its end; no object takes more than half of the address
space. -/
structure CString where
  bytes : List UInt8
  nonzero : 0 ∉ bytes
  fits : bytes.length < 2 ^ 31

/-- A word of the argument list; that of a string is its address, zero for `RT_NULL`. -/
inductive Arg
  | int (v : BitVec 32)
  | str (address : BitVec 32) (s : CString)

/-- An argument is missing or of another type, or the turns of the loop are too few. -/
inductive Fault
  | args
  | turns
  deriving DecidableEq

structure Flags where
  zeropad : Bool := false
  sign : Bool := false
  plus : Bool := false
  space : Bool := false
  left : Bool := false
  special : Bool := false
  large : Bool := false
  deriving DecidableEq

def isdigit (c : UInt8) : Bool := c - ch '0' < 10

def peek : List UInt8 → UInt8
  | [] => 0
  | c :: _ => c

def divide (n : BitVec 32) (base : ℕ) : ℕ × BitVec 32 :=
  if base = 10 then ((n % 10).toNat, n / 10) else ((n % 16).toNat, n / 16)

def skipAtoi (i : ℤ) : List UInt8 → ℤ × List UInt8
  | [] => (i, [])
  | c :: fmt =>
    if isdigit c then skipAtoi (int (i * 10 + c.toNat - (ch '0').toNat)) fmt else (i, c :: fmt)

def smallDigits : List UInt8 := "0123456789abcdef".toList.map ch

def largeDigits : List UInt8 := "0123456789ABCDEF".toList.map ch

/-- `tmp[0..i)` when the number has been divided up. -/
def digitLoop (digits : List UInt8) (base : ℕ) : ℕ → BitVec 32 → List UInt8 → List UInt8
  | 0, _, tmp => tmp
  | turns + 1, num, tmp =>
    if num ≠ 0 then
      let (res, num) := divide num base
      digitLoop digits base turns num (tmp ++ [digits.getD res 0])
    else tmp

def vaInt : List Arg → Except Fault (BitVec 32 × List Arg)
  | .int v :: args => .ok (v, args)
  | _ => .error .args

def vaStr : List Arg → Except Fault (List UInt8 × List Arg)
  | .str address s :: args =>
    .ok (if address = 0 then "(NULL)".toList.map ch else s.bytes, args)
  | _ => .error .args

def vaPointer : List Arg → Except Fault (BitVec 32 × List Arg)
  | .int v :: args => .ok (v, args)
  | .str address _ :: args => .ok (address, args)
  | [] => .error .args

def getSign (type : Flags) (num : BitVec 32) : Option UInt8 × BitVec 32 :=
  if type.sign then
    if num.toInt < 0 then (some (ch '-'), -num)
    else if type.plus then (some (ch '+'), num)
    else if type.space then (some (ch ' '), num)
    else (none, num)
  else (none, num)

section Code

/-! All that the formatter writes goes through `if (str < end) *str = c; ++str;`, which is
`put`: `Store.put end`, where the text goes to memory. -/

variable {σ : Type} (put : UInt8 → σ → σ)

def putWhile (c : UInt8) (bound : ℤ) : ℕ → ℤ → σ → ℤ × σ
  | 0, n, o => (n, o)
  | turns + 1, n, o =>
    if bound < n then putWhile c bound turns (int (n - 1)) (put c o) else (int (n - 1), o)

def putWhileDown (c : UInt8) : ℕ → ℤ → σ → ℤ × σ
  | 0, n, o => (n, o)
  | turns + 1, n, o =>
    if 0 < int (n - 1) then putWhileDown c turns (int (n - 1)) (put c o) else (int (n - 1), o)

def padWhile (c : UInt8) (bound n : ℤ) (o : σ) : ℤ × σ :=
  putWhile put c bound ((n - bound).toNat + 1) n o

def padWhileDown (c : UInt8) (n : ℤ) (o : σ) : ℤ × σ :=
  putWhileDown put c ((int (n - 1)).toNat + 1) n o

def putSign (sign : Option UInt8) (size : ℤ) (o : σ) : ℤ × σ :=
  match sign with
  | some c => (int (size - 1), put c o)
  | none => (size, o)

def writeNumber (sign : Option UInt8) (tmp : List UInt8) (type : Flags)
    (size precision precisionBak : ℤ) (o : σ) : σ :=
  let c := if type.zeropad then ch '0' else ch ' '
  let (size, o) :=
    if ¬(type.zeropad ∨ type.left) then
      padWhile put (ch ' ') 0 (if sign.isSome ∧ 0 < size then int (size - 1) else size) o
    else (size, o)
  let (size, o) := putSign put sign size o
  let (size, o) := if ¬type.left then padWhile put c 0 size o else (size, o)
  let (_, o) := padWhile put (ch '0') tmp.length precision o
  let o := if precisionBak ≠ 0 then emit put tmp.reverse o else o
  (padWhile put (ch ' ') 0 size o).2

def printNumber (num : BitVec 32) (base : ℕ) (s precision : ℤ) (type : Flags) (o : σ) : σ :=
  let digits := if type.large then largeDigits else smallDigits
  let type := if type.left then { type with zeropad := false } else type
  let (sign, num) := getSign type num
  let tmp := if num = 0 then [ch '0'] else digitLoop digits base 32 num []
  let precisionBak := precision
  let precision := if precision < tmp.length then (tmp.length : ℤ) else precision
  writeNumber put sign tmp type (int (s - precision)) precision precisionBak o

def flagLoop (flags : Flags) : List UInt8 → Flags × List UInt8
  | [] => (flags, [])
  | c :: fmt =>
    if c = ch '-' then flagLoop { flags with left := true } fmt
    else if c = ch '+' then flagLoop { flags with plus := true } fmt
    else if c = ch ' ' then flagLoop { flags with space := true } fmt
    else if c = ch '#' then flagLoop { flags with special := true } fmt
    else if c = ch '0' then flagLoop { flags with zeropad := true } fmt
    else (flags, c :: fmt)

def getFieldWidth (flags : Flags) (fmt : List UInt8) (args : List Arg) :
    Except Fault (ℤ × Flags × List UInt8 × List Arg) :=
  if isdigit (peek fmt) then
    let (fieldWidth, fmt) := skipAtoi 0 fmt
    .ok (fieldWidth, flags, fmt, args)
  else if peek fmt = ch '*' then do
    let (v, args) ← vaInt args
    if v.toInt < 0 then .ok (int (-v.toInt), { flags with left := true }, fmt.tail, args)
    else .ok (v.toInt, flags, fmt.tail, args)
  else .ok (-1, flags, fmt, args)

def getDigits (fmt : List UInt8) (args : List Arg) : Except Fault (ℤ × List UInt8 × List Arg) :=
  if isdigit (peek fmt) then
    let (precision, fmt) := skipAtoi 0 fmt
    .ok (precision, fmt, args)
  else if peek fmt = ch '*' then do
    let (v, args) ← vaInt args
    .ok (v.toInt, fmt.tail, args)
  else .ok (-1, fmt, args)

def getPrecision (fmt : List UInt8) (args : List Arg) : Except Fault (ℤ × List UInt8 × List Arg) :=
  if peek fmt = ch '.' then do
    let (precision, fmt, args) ← getDigits fmt.tail args
    .ok (if precision < 0 then 0 else precision, fmt, args)
  else .ok (-1, fmt, args)

def getQualifier (fmt : List UInt8) : UInt8 × List UInt8 :=
  if peek fmt = ch 'h' ∨ peek fmt = ch 'l' then (peek fmt, fmt.tail) else (0, fmt)

def convertChar (flags : Flags) (fieldWidth : ℤ) (args : List Arg) (o : σ) :
    Except Fault (List Arg × σ) := do
  let (fieldWidth, o) :=
    if ¬flags.left then padWhileDown put (ch ' ') fieldWidth o else (fieldWidth, o)
  let (v, args) ← vaInt args
  let o := put (v.toNat.toUInt8) o
  .ok (args, (padWhileDown put (ch ' ') fieldWidth o).2)

def convertString (flags : Flags) (fieldWidth precision : ℤ) (args : List Arg) (o : σ) :
    Except Fault (List Arg × σ) := do
  let (s, args) ← vaStr args
  let len := int s.length
  let len := if 0 < precision ∧ precision < len then precision else len
  let (fieldWidth, o) :=
    if ¬flags.left then padWhile put (ch ' ') len fieldWidth o else (fieldWidth, o)
  let o := emit put (s.take len.toNat) o
  .ok (args, (padWhile put (ch ' ') len fieldWidth o).2)

def convertPointer (flags : Flags) (fieldWidth precision : ℤ) (args : List Arg) (o : σ) :
    Except Fault (List Arg × σ) := do
  let (fieldWidth, flags) :=
    if fieldWidth = -1 then (8, { flags with zeropad := true }) else (fieldWidth, flags)
  let (v, args) ← vaPointer args
  .ok (args, printNumber put v 16 fieldWidth precision flags o)

def convertNumber (base : ℕ) (flags : Flags) (fieldWidth precision : ℤ) (qualifier : UInt8)
    (args : List Arg) (o : σ) : Except Fault (List Arg × σ) := do
  let (v, args) ← vaInt args
  let num :=
    if qualifier = ch 'h' then
      if flags.sign then (v.setWidth 16).signExtend 32 else (v.setWidth 16).setWidth 32
    else v
  .ok (args, printNumber put num base fieldWidth precision flags o)

/-- The conversion at `*fmt`, and where the format goes on. -/
def convert (flags : Flags) (fieldWidth precision : ℤ) (qualifier : UInt8) (fmt : List UInt8)
    (args : List Arg) (o : σ) : Except Fault (List UInt8 × List Arg × σ) :=
  let c := peek fmt
  if c = ch 'c' then (fmt.tail, ·) <$> convertChar put flags fieldWidth args o
  else if c = ch 's' then (fmt.tail, ·) <$> convertString put flags fieldWidth precision args o
  else if c = ch 'p' then (fmt.tail, ·) <$> convertPointer put flags fieldWidth precision args o
  else if c = ch '%' then .ok (fmt.tail, args, put (ch '%') o)
  else if c = ch 'o' then
    (fmt.tail, ·) <$> convertNumber put 8 flags fieldWidth precision qualifier args o
  else if c = ch 'X' then
    (fmt.tail, ·) <$>
      convertNumber put 16 { flags with large := true } fieldWidth precision qualifier args o
  else if c = ch 'x' then
    (fmt.tail, ·) <$> convertNumber put 16 flags fieldWidth precision qualifier args o
  else if c = ch 'd' ∨ c = ch 'i' then
    (fmt.tail, ·) <$>
      convertNumber put 10 { flags with sign := true } fieldWidth precision qualifier args o
  else if c = ch 'u' then
    (fmt.tail, ·) <$> convertNumber put 10 flags fieldWidth precision qualifier args o
  else if c ≠ 0 then .ok (fmt.tail, args, put c (put (ch '%') o))
  else .ok (fmt, args, put (ch '%') o)

def directive (fmt : List UInt8) (args : List Arg) (o : σ) :
    Except Fault (List UInt8 × List Arg × σ) := do
  let (flags, fmt) := flagLoop {} fmt
  let (fieldWidth, flags, fmt, args) ← getFieldWidth flags fmt args
  let (precision, fmt, args) ← getPrecision fmt args
  let (qualifier, fmt) := getQualifier fmt
  convert put flags fieldWidth precision qualifier fmt args o

def formatLoop : ℕ → List UInt8 → List Arg → σ → Except Fault σ
  | 0, _, _, _ => .error .turns
  | turns + 1, fmt, args, o =>
    if peek fmt = 0 then .ok o
    else if peek fmt ≠ ch '%' then formatLoop turns fmt.tail args (put (peek fmt) o)
    else do
      let (fmt, args, o) ← directive put fmt.tail args o
      formatLoop turns fmt args o

def format (fmt : List UInt8) (args : List Arg) (o : σ) : Except Fault σ :=
  formatLoop put (fmt.length + 1) fmt args o

end Code

/-- The end of the buffer, which does not come before it, and its size. -/
def bufferEnd (buf size : BitVec 32) : BitVec 32 × BitVec 32 :=
  if buf + size < buf then (-1, -1 - buf) else (buf + size, size)

def rtVsnprintf (buf size : BitVec 32) (fmt : List UInt8) (args : List Arg)
    (mem : BitVec 32 → UInt8) : Except Fault (ℤ × (BitVec 32 → UInt8)) := do
  let (stop, size) := bufferEnd buf size
  let o ← format (Store.put stop) fmt args ⟨buf, mem⟩
  let mem :=
    if 0 < size then
      if o.next < stop then Function.update o.mem o.next 0 else Function.update o.mem (stop - 1) 0
    else o.mem
  .ok ((o.next - buf).toInt, mem)

def consolebufSize : ℕ := 128

def rtKprintf (rtLogBuf : BitVec 32) (fmt : List UInt8) (args : List Arg)
    (mem : BitVec 32 → UInt8) : Except Fault (List UInt8) := do
  let (ret, mem) ← rtVsnprintf rtLogBuf (BitVec.ofNat 32 (consolebufSize - 1)) fmt args mem
  let length := (BitVec.ofInt 32 ret).toNat
  let length := if consolebufSize - 1 < length then consolebufSize - 1 else length
  .ok ((List.range length).map fun i ↦ mem (rtLogBuf + BitVec.ofNat 32 i))

end GiantGecko.Rtos.Format
