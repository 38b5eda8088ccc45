import GiantGecko.Rtos.FormatEmits
import Mathlib.Data.Nat.Digits.Defs

namespace GiantGecko.Rtos.Format

/-! The text that the C standard prescribes for a format, which is given as the pieces that
it is put together from. -/

inductive Conv
  | d
  | i
  | u
  | o
  | x
  | X
  | c
  | s
  deriving DecidableEq

inductive Flag
  | minus
  | zero
  | plus
  deriving DecidableEq

inductive Size
  | digits (ds : List (Fin 10))
  | star
  deriving DecidableEq

structure Directive where
  flags : List Flag
  width : Option Size
  precision : Option Size
  conv : Conv

inductive Piece
  | char (c : UInt8)
  | percent
  | directive (d : Directive)

def Conv.char : Conv → UInt8
  | .d => ch 'd'
  | .i => ch 'i'
  | .u => ch 'u'
  | .o => ch 'o'
  | .x => ch 'x'
  | .X => ch 'X'
  | .c => ch 'c'
  | .s => ch 's'

def Flag.char : Flag → UInt8
  | .minus => ch '-'
  | .zero => ch '0'
  | .plus => ch '+'

def digitChar (d : Fin 10) : UInt8 := ch '0' + UInt8.ofNat d.val

def Size.bytes : Size → List UInt8
  | .digits ds => ds.map digitChar
  | .star => [ch '*']

def widthBytes : Option Size → List UInt8
  | none => []
  | some size => size.bytes

def precisionBytes : Option Size → List UInt8
  | none => []
  | some size => ch '.' :: size.bytes

def Directive.bytes (d : Directive) : List UInt8 :=
  d.flags.map Flag.char ++ (widthBytes d.width ++ (precisionBytes d.precision ++ [d.conv.char]))

def Piece.bytes : Piece → List UInt8
  | .char c => [c]
  | .percent => [ch '%', ch '%']
  | .directive d => ch '%' :: d.bytes

def value (ds : List (Fin 10)) : ℕ := ds.foldl (fun n d ↦ n * 10 + d.val) 0

def Size.WellFormed : Size → Prop
  | .digits ds => value ds < 2 ^ 31
  | .star => True

/-- A field width does not begin with a zero, which would be a flag. -/
def Directive.WellFormed (d : Directive) : Prop :=
  (∀ ds, d.width = some (.digits ds) → ∃ c cs, ds = c :: cs ∧ c ≠ 0) ∧
    (∀ size ∈ d.width, size.WellFormed) ∧ ∀ size ∈ d.precision, size.WellFormed

def Piece.WellFormed : Piece → Prop
  | .char c => c ≠ 0 ∧ c ≠ ch '%'
  | .percent => True
  | .directive d => d.WellFormed

structure Conversion where
  conv : Conv
  left : Bool
  zero : Bool
  plus : Bool
  width : Option ℕ
  precision : Option ℤ
  arg : Arg

def readSize : Option Size → List Arg → Option (Option ℤ × List Arg)
  | none, args => some (none, args)
  | some (.digits ds), args => some (some (value ds), args)
  | some .star, .int v :: args => some (some v.toInt, args)
  | some .star, _ => none

/-- A negative field width is a `-` flag followed by a positive one. -/
def Directive.read (d : Directive) (args : List Arg) : Option (Conversion × List Arg) :=
  match readSize d.width args with
  | none => none
  | some (width, args) =>
    match readSize d.precision args with
    | none => none
    | some (_, []) => none
    | some (precision, arg :: args) => some (
      { conv := d.conv
        left := Flag.minus ∈ d.flags ∨ width.getD 0 < 0
        zero := Flag.zero ∈ d.flags
        plus := Flag.plus ∈ d.flags
        width := width.map Int.natAbs
        precision := precision
        arg := arg }, args)

def Conv.signed : Conv → Bool
  | .d | .i => true
  | _ => false

def Conv.digits : Conv → List UInt8
  | .X => largeDigits
  | _ => smallDigits

def Conv.base : Conv → ℕ
  | .o => 8
  | .x | .X => 16
  | _ => 10

def numeral (digits : List UInt8) (base n : ℕ) : List UInt8 :=
  ((Nat.digits base n).map fun d ↦ digits.getD d 0).reverse

def Conversion.sign (r : Conversion) (v : BitVec 32) : List UInt8 :=
  if r.conv.signed then
    if v.toInt < 0 then [ch '-'] else if r.plus then [ch '+'] else []
  else []

def Conversion.magnitude (r : Conversion) (v : BitVec 32) : ℕ :=
  if r.conv.signed then v.toInt.natAbs else v.toNat

def Conversion.pad (r : Conversion) (text : List UInt8) : List UInt8 :=
  if r.left then text.rightpad (r.width.getD 0) (ch ' ') else text.leftpad (r.width.getD 0) (ch ' ')

/-- A number has as many digits at least as the precision says, and one where there is none. -/
def Conversion.body (r : Conversion) (base : ℕ) (v : BitVec 32) : List UInt8 :=
  (numeral r.conv.digits base (r.magnitude v)).leftpad (r.precision.getD 1).toNat (ch '0')

/-- Zeros that fill up the field come behind the sign. -/
def Conversion.number (r : Conversion) (base : ℕ) (v : BitVec 32) : List UInt8 :=
  if r.zero ∧ r.left = false then
    r.sign v ++ (r.body base v).leftpad (r.width.getD 0 - (r.sign v).length) (ch '0')
  else r.pad (r.sign v ++ r.body base v)

/-- A string is cut to the precision, where that is not negative. -/
def Conversion.string (r : Conversion) (s : List UInt8) : List UInt8 :=
  r.pad (match r.precision with
    | none => s
    | some p => if p < 0 then s else s.take p.toNat)

/-- The argument and the precision are among those that the text is prescribed for. -/
def Conversion.text (r : Conversion) : Option (List UInt8) :=
  match r.conv, r.arg with
  | .c, .int v => if r.zero = false ∧ r.precision = none then some (r.pad [v.toNat.toUInt8]) else none
  | .c, .str _ _ => none
  | .s, .str address s =>
    if r.zero = false ∧ address ≠ 0 ∧ r.precision ≠ some 0 then some (r.string s.bytes) else none
  | .s, .int _ => none
  | _, .int v =>
    if (r.zero → r.precision = none) ∧ ∀ p ∈ r.precision, 1 ≤ p then some (r.number r.conv.base v)
    else none
  | _, .str _ _ => none

inductive Part
  | byte (c : UInt8)
  | conversion (r : Conversion)

def Part.text : Part → Option (List UInt8)
  | .byte c => some [c]
  | .conversion r => r.text

def Piece.read : Piece → List Arg → Option (Part × List Arg)
  | .char c, args => some (.byte c, args)
  | .percent, args => some (.byte (ch '%'), args)
  | .directive d, args => (d.read args).map fun (r, args) ↦ (.conversion r, args)

def readPieces : List Piece → List Arg → Option (List Part)
  | [], _ => some []
  | piece :: pieces, args =>
    match piece.read args with
    | none => none
    | some (part, args) => (readPieces pieces args).map (part :: ·)

def partsText : List Part → Option (List UInt8)
  | [] => some []
  | part :: parts =>
    match part.text, partsText parts with
    | some text, some texts => some (text ++ texts)
    | _, _ => none

def formatBytes (pieces : List Piece) : List UInt8 := pieces.flatMap Piece.bytes

end GiantGecko.Rtos.Format
