import GiantGecko.Foundation.Machine
import Mathlib.Data.BitVec
import Mathlib.Logic.Function.Basic

namespace GiantGecko.Finsh.Vm

open Foundation.Machine

abbrev Byte := BitVec 8

abbrev Word := BitVec 32

abbrev Memory := Word → Byte

def stackMax : ℕ := 64

def textMax : ℕ := 128

/-- The members of `finsh_value`, of which the smaller ones are the low bytes of the larger. -/
inductive Width
  | byte
  | word
  | dword
  deriving DecidableEq

def Width.mask : Width → Word
  | .byte => 0xff
  | .word => 0xffff
  | .dword => 0xffffffff

def Width.low (w : Width) (x : Word) : Word := x &&& w.mask

/-- A slot whose member is written, which leaves the bytes above it. -/
def Width.put (w : Width) (x old : Word) : Word := (old &&& ~~~w.mask) ||| (x &&& w.mask)

/-- A member as an `int`; `char` has no sign. -/
def Width.read (w : Width) (x : Word) : Word :=
  match w with
  | .byte => w.low x
  | .word => (x.setWidth 16).signExtend 32
  | .dword => x

def load (w : Width) (mem : Memory) (a : Word) : Word :=
  match w with
  | .byte => (mem a).setWidth 32
  | .word => (mem (a + 1) ++ mem a).setWidth 32
  | .dword => mem (a + 3) ++ mem (a + 2) ++ mem (a + 1) ++ mem a

def byteOf (i : ℕ) (x : Word) : Byte := x.extractLsb' (8 * i) 8

def store (w : Width) (mem : Memory) (a x : Word) : Memory :=
  match w with
  | .byte => Function.update mem a (byteOf 0 x)
  | .word => Function.update (Function.update mem a (byteOf 0 x)) (a + 1) (byteOf 1 x)
  | .dword =>
    Function.update (Function.update (Function.update (Function.update mem a (byteOf 0 x))
      (a + 1) (byteOf 1 x)) (a + 2) (byteOf 2 x)) (a + 3) (byteOf 3 x)

inductive BinOp
  | add
  | sub
  | div
  | mod
  | mul
  | and
  | or
  | xor
  | shl
  | shr
  deriving DecidableEq

def BinOp.apply (x y : Word) : BinOp → Option Word
  | .add => some (x + y)
  | .sub => some (x - y)
  | .div => if y = 0 ∨ x = 0x80000000 ∧ y = -1 then none else some (x.sdiv y)
  | .mod => if y = 0 ∨ x = 0x80000000 ∧ y = -1 then none else some (x.srem y)
  | .mul => some (x * y)
  | .and => some (x &&& y)
  | .or => some (x ||| y)
  | .xor => some (x ^^^ y)
  | .shl => if y.toNat < 32 then some (x <<< y.toNat) else none
  | .shr => if y.toNat < 32 then some (x.sshiftRight y.toNat) else none

inductive Op
  | noop
  | bin (o : BinOp) (w : Width)
  | bw (w : Width)
  | ld (w : Width)
  | ldValue (w : Width)
  | st (w : Width)
  | pop
  | call
  | ldValueStack (w : Width)
  deriving DecidableEq

def opTable : List Op := [.noop,
  .bin .add .byte, .bin .add .word, .bin .add .dword,
  .bin .sub .byte, .bin .sub .word, .bin .sub .dword,
  .bin .div .byte, .bin .div .word, .bin .div .dword,
  .bin .mod .byte, .bin .mod .word, .bin .mod .dword,
  .bin .mul .byte, .bin .mul .word, .bin .mul .dword,
  .bin .and .byte, .bin .and .word, .bin .and .dword,
  .bin .or .byte, .bin .or .word, .bin .or .dword,
  .bin .xor .byte, .bin .xor .word, .bin .xor .dword,
  .bw .byte, .bw .word, .bw .dword,
  .bin .shl .byte, .bin .shl .word, .bin .shl .dword,
  .bin .shr .byte, .bin .shr .word, .bin .shr .dword,
  .ld .byte, .ld .word, .ld .dword,
  .ldValue .byte, .ldValue .word, .ldValue .dword,
  .st .byte, .st .word, .st .dword, .pop, .call,
  .ldValueStack .byte, .ldValueStack .word, .ldValueStack .dword]

/-- `finsh_pc` is what it has in front of it of the text segment. -/
structure Machine where
  pc : List Byte
  stack : ℕ → Word
  sp : ℕ
  mem : Memory

/-- `*finsh_pc`, `FINSH_GET16` and `FINSH_GET32`, and `finsh_pc` behind it. -/
def immediate : Width → List Byte → Option (Word × List Byte)
  | .byte, a :: pc => some (a.setWidth 32, pc)
  | .word, a :: b :: pc => some ((b ++ a).setWidth 32, pc)
  | .dword, a :: b :: c :: d :: pc => some (d ++ c ++ b ++ a, pc)
  | _, _ => none

section

/-! `call` stands for the functions of the firmware, given the parameters and the memory. -/

variable (call : Word → List Word → Memory → Option (Word × Memory))

def Machine.put (s : Machine) (w : Width) (x : Word) (slot sp : ℕ) : Machine :=
  { s with
    stack := Function.update s.stack slot (w.put x (s.stack slot))
    sp := sp }

def Machine.push (s : Machine) (w : Width) (x : Word) : Option Machine :=
  if s.sp < stackMax then some (s.put w x s.sp (s.sp + 1)) else none

/-- An operation that reaches beyond an end of the stack or of the text gets stuck, as does
`OP_call` with more than the 16 parameters that it has room for. -/
def exec (op : Op) (s : Machine) : Option Machine :=
  match op with
  | .noop => some s
  | .bin o w =>
    if 2 ≤ s.sp then
      (o.apply (w.read (s.stack (s.sp - 2))) (w.read (s.stack (s.sp - 1)))).map fun x ↦
        s.put w x (s.sp - 2) (s.sp - 1)
    else none
  | .bw w =>
    if 1 ≤ s.sp then some (s.put w (~~~w.read (s.stack (s.sp - 1))) (s.sp - 1) s.sp) else none
  | .ld w =>
    (immediate w s.pc).bind fun (x, pc) ↦ { s with pc := pc }.push w x
  | .ldValue w =>
    (immediate .dword s.pc).bind fun (a, pc) ↦ { s with pc := pc }.push w (load w s.mem a)
  | .st w =>
    if 2 ≤ s.sp then
      some { s with
        mem := store w s.mem (s.stack (s.sp - 2)) (s.stack (s.sp - 1))
        sp := s.sp - 1 }
    else none
  | .pop => if 1 ≤ s.sp then some { s with sp := s.sp - 1 } else none
  | .call =>
    match s.pc with
    | [] => none
    | parameters :: pc =>
      let n := parameters.toNat
      if n ≤ 16 ∧ n < s.sp then
        let parameterv := (List.range n).map fun i ↦ s.stack (s.sp - n + i)
        -- a function without parameters is given 0
        (call (s.stack (s.sp - n - 1)) (if n = 0 then [0] else parameterv) s.mem).map
          fun (r, mem) ↦ { s with pc := pc, mem := mem }.put .dword r (s.sp - n - 1) (s.sp - n)
      else none
  | .ldValueStack w =>
    if 1 ≤ s.sp then
      some (s.put w (load w s.mem (s.stack (s.sp - 1))) (s.sp - 1) s.sp)
    else none

def step (s : Machine) : Option Machine :=
  match s.pc with
  | [] => none
  | op :: pc => opTable[op.toNat]?.bind fun op ↦ exec call op { s with pc := pc }

def finshVmRun (text : List Byte) (stack : ℕ → Word) (mem : Memory) : Option Machine :=
  loop (fun s ↦ s.pc.isEmpty) (step call) text.length ⟨text, stack, 0, mem⟩

end

end GiantGecko.Finsh.Vm
