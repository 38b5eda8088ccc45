import GiantGecko.Finsh.Vm

namespace GiantGecko.Finsh.Compiler

open Vm

inductive FinshType
  | unknown
  | void
  | voidp
  | char
  | uchar
  | charp
  | short
  | ushort
  | shortp
  | int
  | uint
  | intp
  | long
  | ulong
  | longp
  deriving DecidableEq

/-- What a `FINSH_NODE_ID` points to, where that is, and for a variable of the firmware where
its value is. -/
inductive Symbol
  | var (pointer : Word) (type : FinshType)
  | sysvar (pointer : Word) (type : FinshType) (var : Word)
  | syscall (pointer : Word) (func : Word)
  deriving DecidableEq

def Symbol.pointer : Symbol → Word
  | .var a _ => a
  | .sysvar a _ _ => a
  | .syscall a _ => a

/-- `&(var->value)` of a `finsh_var`: the value is behind the 17 bytes of the name and the
type. -/
def valueAddress (var : Word) : Word := var + 20

inductive NodeType
  | id (symbol : Symbol)
  | valueChar (c : Byte)
  | valueInt (v : Word)
  | valueLong (v : Word)
  | valueString (ptr : Word)
  | valueNull (ptr : Word)
  | sysBin (o : BinOp)
  | sysBitwise
  | sysFunc
  | sysAssign
  | sysCast
  | sysPreinc
  | sysPredec
  | sysInc
  | sysDec
  | sysGetvalue
  | sysGetaddr
  | sysNull
  deriving DecidableEq

/-- `FINSH_DATA_TYPE_VOID` is none. -/
abbrev DataType := Option Width

/-- A node with its children; of `idtype` what the type check adds, `FINSH_IDTYPE_ADDRESS`. -/
inductive Node
  | mk (type : NodeType) (address : Bool) (dataType : DataType) (child : List Node)

def Node.type : Node → NodeType
  | .mk type _ _ _ => type

def Node.dataType : Node → DataType
  | .mk _ _ dataType _ => dataType

def Node.new (type : NodeType) (child : List Node) : Node := .mk type false none child

mutual

def Node.count : Node → ℕ
  | .mk _ _ _ child => countAll child + 1

def countAll : List Node → ℕ
  | [] => 0
  | node :: sibling => node.count + countAll sibling

end

def nodeMax : ℕ := 16

def FinshType.dataType : FinshType → Option DataType
  | .unknown => none
  | .void => some none
  | .char | .uchar => some (some .byte)
  | .short | .ushort => some (some .word)
  | .int | .uint | .long | .ulong | .charp | .voidp | .shortp | .intp | .longp => some (some .dword)

/-- What the compiler loads for a variable; it has no case for `void *`. -/
def FinshType.load : FinshType → Option Width
  | .char | .uchar => some .byte
  | .short | .ushort => some .word
  | .int | .uint | .long | .ulong | .charp | .shortp | .intp | .longp => some .dword
  | .unknown | .void | .voidp => none

def childAddress (type : NodeType) (isAddr : Bool) : Bool :=
  match type with
  | .sysAssign | .sysPreinc | .sysPredec | .sysGetaddr => true
  | .sysGetvalue => false
  | _ => isAddr

def leafType (type : NodeType) (dataType : DataType) : Option DataType :=
  match type with
  | .id (.var _ t) => t.dataType
  | .id (.sysvar _ t _) => t.dataType
  | .valueChar _ => some (some .byte)
  | .valueInt _ | .valueLong _ | .valueString _ | .valueNull _ => some (some .dword)
  | _ => some dataType

def isSyscall : NodeType → Bool
  | .id (.syscall _ _) => true
  | _ => false

mutual

def typeCheck (isAddr : Bool) : Node → Option Node
  | .mk type address dataType child => do
    let child ← typeCheckList (childAddress type isAddr) child
    let address := if isSyscall type then address else address || isAddr
    match child with
    | first :: _ => some (.mk type address first.dataType child)
    | [] => (leafType type dataType).map fun dataType ↦ .mk type address dataType []

def typeCheckList (isAddr : Bool) : List Node → Option (List Node)
  | [] => some []
  | node :: sibling => do
    let node ← typeCheck isAddr node
    let sibling ← typeCheckList false sibling
    some (node :: sibling)

end

def binBase : BinOp → ℕ
  | .add => 0x01
  | .sub => 0x04
  | .div => 0x07
  | .mod => 0x0A
  | .mul => 0x0D
  | .and => 0x10
  | .or => 0x13
  | .xor => 0x16
  | .shl => 0x1C
  | .shr => 0x1F

def Width.offset : Width → ℕ
  | .byte => 0
  | .word => 1
  | .dword => 2

def code : Op → Byte
  | .noop => 0x00
  | .bin o w => BitVec.ofNat 8 (binBase o + Width.offset w)
  | .bw w => BitVec.ofNat 8 (0x19 + Width.offset w)
  | .ld w => BitVec.ofNat 8 (0x22 + Width.offset w)
  | .ldValue w => BitVec.ofNat 8 (0x25 + Width.offset w)
  | .st w => BitVec.ofNat 8 (0x28 + Width.offset w)
  | .pop => 0x2B
  | .call => 0x2C
  | .ldValueStack w => BitVec.ofNat 8 (0x2D + Width.offset w)

def codeOf (w : Width) (x : Word) : List Byte :=
  match w with
  | .byte => [byteOf 0 x]
  | .word => [byteOf 0 x, byteOf 1 x]
  | .dword => [byteOf 0 x, byteOf 1 x, byteOf 2 x, byteOf 3 x]

def codeLd (w : Width) (x : Word) : List Byte := code (.ld w) :: codeOf w x

def codeLdValue (w : Width) (a : Word) : List Byte := code (.ldValue w) :: codeOf .dword a

def codeId (address : Bool) : Symbol → List Byte
  | .syscall _ func => codeLd .dword func
  | .sysvar _ type var => match type.load with
    | some w => if address then codeLd .dword var else codeLdValue w var
    | none => []
  | .var a type => match type.load with
    | some w =>
      if address then codeLd .dword (valueAddress a) else codeLdValue w (valueAddress a)
    | none => []

def codePre (o : BinOp) (w : Width) (a : Word) : List Byte :=
  codeLdValue w a ++ codeLd w 1 ++ [code (.bin o w), code (.st w), code (.ldValueStack .dword)]

def codePost (o : BinOp) (w : Width) (a : Word) : List Byte :=
  codeLd .dword a ++ codeLdValue w a ++ codeLd w 1 ++ [code (.bin o w), code (.st w), code .pop]

/-- The four operators on a variable take what the node points to for a `finsh_var`, whatever
it is. -/
def codeStep (f : Width → Word → List Byte) (dataType : DataType) (child : List Node) :
    List Byte :=
  match child, dataType with
  | .mk (.id symbol) _ _ _ :: _, some w => f w (valueAddress symbol.pointer)
  | _, _ => []

/-- What `finsh_compile` puts behind the code of the children; none after
`finsh_error_set`. -/
def codeNode (type : NodeType) (address : Bool) (dataType : DataType) (child : List Node) :
    Option (List Byte) :=
  match type with
  | .id symbol => some (codeId address symbol)
  | .valueChar c => some [code (.ld .byte), c]
  | .valueInt v | .valueLong v | .valueString v | .valueNull v => some (codeLd .dword v)
  | .sysBin o => some (dataType.toList.map fun w ↦ code (.bin o w))
  | .sysBitwise => some (dataType.toList.map fun w ↦ code (.bw w))
  | .sysFunc => match child with
    | [] => some []
    | _ :: parameters => some [code .call, BitVec.ofNat 8 parameters.length]
  | .sysAssign => match child with
    | .mk (.id _) _ d _ :: _ | .mk .sysGetvalue _ d _ :: _ =>
      d.map fun w ↦ [code (.st w), code (.ldValueStack w)]
    | _ => some []
  | .sysPreinc => some (codeStep (codePre .add) dataType child)
  | .sysPredec => some (codeStep (codePre .sub) dataType child)
  | .sysInc => some (codeStep (codePost .add) dataType child)
  | .sysDec => some (codeStep (codePost .sub) dataType child)
  | .sysNull => some (codeOf .dword 0)
  | .sysGetvalue =>
    some (if address then [] else dataType.toList.map fun w ↦ code (.ldValueStack w))
  | .sysGetaddr => some []
  | .sysCast => none

mutual

def compile : Node → Option (List Byte)
  | .mk type address dataType child => do
    let children ← compileList child
    let own ← codeNode type address dataType child
    some (children ++ own)

def compileList : List Node → Option (List Byte)
  | [] => some []
  | node :: sibling => do
    let first ← compile node
    let rest ← compileList sibling
    some (first ++ rest)

end

/-- The value of each statement but the last one is popped. -/
def joinStatements : List (List Byte) → List Byte
  | [] => []
  | [last] => last
  | first :: rest => first ++ code .pop :: joinStatements rest

/-- What is written to the text segment from its beginning on; none with an error set. -/
def finshCompilerRun (root : List Node) : Option (List Byte) := do
  let root ← typeCheckList false root
  let statements ← root.mapM compile
  some (joinStatements statements)

/-- The machine after the line; the text segment has zeros behind the code. -/
def finshRunLine (call : Word → List Word → Memory → Option (Word × Memory)) (root : List Node)
    (stack : ℕ → Word) (mem : Memory) : Option Machine := do
  let text ← finshCompilerRun root
  if text.length ≤ textMax then
    finshVmRun call (text ++ List.replicate (textMax - text.length) 0)
      (Function.update stack 0 0) mem
  else none

end GiantGecko.Finsh.Compiler
