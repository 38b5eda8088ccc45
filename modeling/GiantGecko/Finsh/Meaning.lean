import GiantGecko.Finsh.Compiler

namespace GiantGecko.Finsh.Compiler

open Vm

/-! The expressions of the shell, and what they mean. -/

inductive Constant
  | int
  | long
  | string
  | null
  deriving DecidableEq

inductive Expr
  | char (c : Byte)
  | const (k : Constant) (v : Word)
  | id (symbol : Symbol)
  | bin (o : BinOp) (a b : Expr)
  | bitwise (a : Expr)
  | assign (symbol : Symbol) (e : Expr)
  | assignAt (p e : Expr)
  | pre (o : BinOp) (symbol : Symbol)
  | post (o : BinOp) (symbol : Symbol)
  | valueAt (p : Expr)
  | address (symbol : Symbol)
  | addressAt (p : Expr)
  | call (f : Expr) (args : List Expr)

def Constant.nodeType (v : Word) : Constant → NodeType
  | .int => .valueInt v
  | .long => .valueLong v
  | .string => .valueString v
  | .null => .valueNull v

def preType : BinOp → NodeType
  | .sub => .sysPredec
  | _ => .sysPreinc

def postType : BinOp → NodeType
  | .sub => .sysDec
  | _ => .sysInc

mutual

def Expr.node : Expr → Node
  | .char c => .new (.valueChar c) []
  | .const k v => .new (k.nodeType v) []
  | .id symbol => .new (.id symbol) []
  | .bin o a b => .new (.sysBin o) [a.node, b.node]
  | .bitwise a => .new .sysBitwise [a.node]
  | .assign symbol e => .new .sysAssign [.new (.id symbol) [], e.node]
  | .assignAt p e => .new .sysAssign [.new .sysGetvalue [p.node], e.node]
  | .pre o symbol => .new (preType o) [.new (.id symbol) []]
  | .post o symbol => .new (postType o) [.new (.id symbol) []]
  | .valueAt p => .new .sysGetvalue [p.node]
  | .address symbol => .new .sysGetaddr [.new (.id symbol) []]
  | .addressAt p => .new .sysGetaddr [.new .sysGetvalue [p.node]]
  | .call f args => .new .sysFunc (f.node :: nodes args)

def nodes : List Expr → List Node
  | [] => []
  | e :: es => e.node :: nodes es

end

def Symbol.address : Symbol → Word
  | .var pointer _ => valueAddress pointer
  | .sysvar _ _ value => value
  | .syscall _ func => func

def Symbol.width : Symbol → Option Width
  | .var _ type => type.load
  | .sysvar _ type _ => type.load
  | .syscall _ _ => none

/-- What operators on the expression work with; the value of a pointer has the type of the
pointer, and that of a call has none. -/
def Expr.type : Expr → DataType
  | .char _ => some .byte
  | .const _ _ => some .dword
  | .id symbol => symbol.width
  | .bin _ a _ => a.type
  | .bitwise a => a.type
  | .assign symbol _ => symbol.width
  | .assignAt p _ => p.type
  | .pre _ symbol => symbol.width
  | .post _ symbol => symbol.width
  | .valueAt p => p.type
  | .address symbol => symbol.width
  | .addressAt p => p.type
  | .call f _ => f.type

/-- How much of the value is defined. -/
def Expr.extent : Expr → Width
  | .char _ => .byte
  | .const _ _ => .dword
  | .id symbol => symbol.width.getD .dword
  | .bin _ a _ => a.type.getD .dword
  | .bitwise a => a.type.getD .dword
  | .assign symbol _ => symbol.width.getD .dword
  | .assignAt p _ => p.type.getD .dword
  | .pre _ symbol => symbol.width.getD .dword
  | .post _ symbol => symbol.width.getD .dword
  | .valueAt p => p.type.getD .dword
  | .address _ => .dword
  | .addressAt _ => .dword
  | .call _ _ => .dword

def Width.bits : Width → ℕ
  | .byte => 8
  | .word => 16
  | .dword => 32

def Within (type : DataType) (extent : Width) : Prop :=
  ∃ w, type = some w ∧ Width.bits w ≤ Width.bits extent

mutual

/-- Each operand is as wide as its operator needs it: the machine does not convert a narrower
one. -/
def Expr.WellTyped : Expr → Prop
  | .char _ => True
  | .const _ _ => True
  | .id symbol => isSyscall (.id symbol) = true ∨ ∃ w, symbol.width = some w
  | .bin _ a b => a.WellTyped ∧ b.WellTyped ∧ Within a.type a.extent ∧ Within a.type b.extent
  | .bitwise a => a.WellTyped ∧ Within a.type a.extent
  | .assign symbol e => e.WellTyped ∧ Within symbol.width e.extent
  | .assignAt p e => p.WellTyped ∧ e.WellTyped ∧ p.extent = .dword ∧ Within p.type e.extent
  | .pre o symbol => (o = .add ∨ o = .sub) ∧
    ∃ pointer type w, symbol = .var pointer type ∧ type.load = some w
  | .post o symbol => (o = .add ∨ o = .sub) ∧
    ∃ pointer type w, symbol = .var pointer type ∧ type.load = some w
  | .valueAt p => p.WellTyped ∧ p.extent = .dword ∧ ∃ w, p.type = some w
  | .address symbol => ∃ w, symbol.width = some w
  | .addressAt p => p.WellTyped ∧ p.extent = .dword
  | .call f args => f.WellTyped ∧ f.extent = .dword ∧ args.length ≤ 16 ∧ AllWellTyped args

def AllWellTyped : List Expr → Prop
  | [] => True
  | e :: es => (e.WellTyped ∧ e.extent = .dword) ∧ AllWellTyped es

end

mutual

def Expr.depth : Expr → ℕ
  | .char _ => 1
  | .const _ _ => 1
  | .id _ => 1
  | .bin _ a b => max a.depth (b.depth + 1)
  | .bitwise a => a.depth
  | .assign _ e => e.depth + 1
  | .assignAt p e => max p.depth (e.depth + 1)
  | .pre _ _ => 3
  | .post _ _ => 4
  | .valueAt p => p.depth
  | .address _ => 1
  | .addressAt p => p.depth
  | .call f args => max f.depth (argsDepth args + 1)

def argsDepth : List Expr → ℕ
  | [] => 0
  | e :: es => max e.depth (argsDepth es + 1)

end

section

variable (call : Word → List Word → Memory → Option (Word × Memory))

mutual

/-- The value and the memory afterwards, in the machine's arithmetic: signed, and as wide as the
left operand. The stack and the text segment are outside the memory. -/
def Expr.eval : Expr → Memory → Option (Word × Memory)
  | .char c, mem => some (c.setWidth 32, mem)
  | .const _ v, mem => some (v, mem)
  | .id symbol, mem => match symbol.width with
    | some w => some (load w mem symbol.address, mem)
    | none => some (symbol.address, mem)
  | .bin o a b, mem => do
    let (x, mem) ← a.eval mem
    let (y, mem) ← b.eval mem
    let w ← a.type
    let r ← o.apply (w.read x) (w.read y)
    some (w.low r, mem)
  | .bitwise a, mem => do
    let (x, mem) ← a.eval mem
    let w ← a.type
    some (w.low (~~~w.read x), mem)
  | .assign symbol e, mem => do
    let (x, mem) ← e.eval mem
    let w ← symbol.width
    let mem := store w mem symbol.address x
    some (load w mem symbol.address, mem)
  | .assignAt p e, mem => do
    let (a, mem) ← p.eval mem
    let (x, mem) ← e.eval mem
    let w ← p.type
    let mem := store w mem a x
    some (load w mem a, mem)
  | .pre o symbol, mem => do
    let w ← symbol.width
    let r ← o.apply (w.read (load w mem symbol.address)) 1
    let mem := store w mem symbol.address r
    some (load w mem symbol.address, mem)
  | .post o symbol, mem => do
    let w ← symbol.width
    let r ← o.apply (w.read (load w mem symbol.address)) 1
    some (load w mem symbol.address, store w mem symbol.address r)
  | .valueAt p, mem => do
    let (a, mem) ← p.eval mem
    let w ← p.type
    some (load w mem a, mem)
  | .address symbol, mem => some (symbol.address, mem)
  | .addressAt p, mem => p.eval mem
  | .call f args, mem => do
    let (f, mem) ← f.eval mem
    let (xs, mem) ← evalArgs args mem
    call f (if xs = [] then [0] else xs) mem

def evalArgs : List Expr → Memory → Option (List Word × Memory)
  | [], mem => some ([], mem)
  | e :: es, mem => do
    let (x, mem) ← e.eval mem
    let (xs, mem) ← evalArgs es mem
    some (x :: xs, mem)

end

end

end GiantGecko.Finsh.Compiler
