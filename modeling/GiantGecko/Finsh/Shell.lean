import Mathlib.Data.List.Basic
import Mathlib.Algebra.Group.Nat.Defs

namespace GiantGecko.Finsh.Shell

def finshCmdSize : ℕ := 80

def finshHistoryLines : ℕ := 5

inductive InputStat
  | waitNormal
  | waitSpecKey
  | waitFuncKey
  deriving DecidableEq

/-- The 8 bit cursors and the 16 bit counts of the history are kept below their widths
where they are computed. -/
structure FinshShell where
  stat : InputStat
  echoMode : Bool
  currentHistory : ℕ
  historyCount : ℕ
  cmdHistory : ℕ → ℕ → UInt8
  line : ℕ → UInt8
  linePosition : ℕ
  lineCurpos : ℕ

inductive Call
  | mshExec (cmd : ℕ → UInt8) (length : ℕ)
  | finshRunLine (line : ℕ → UInt8)

/-- A byte from the device, and what `msh_is_used` says then. -/
structure Input where
  ch : UInt8
  msh : Bool

def allocated (echoMode : Bool) : FinshShell :=
  ⟨.waitNormal, echoMode, 0, 0, fun _ _ ↦ 0, fun _ ↦ 0, 0, 0⟩

section Rows

/-! The functions of the C library on `line` and the lines of `cmd_history`; there is no
result where they leave the array. -/

def put (i : ℕ) (b : UInt8) (row : ℕ → UInt8) : Option (ℕ → UInt8) :=
  if i < finshCmdSize then some (Function.update row i b) else none

def memmove (dst src n : ℕ) (row : ℕ → UInt8) : Option (ℕ → UInt8) :=
  if dst + n ≤ finshCmdSize ∧ src + n ≤ finshCmdSize then
    some fun i ↦ if dst ≤ i ∧ i < dst + n then row (src + (i - dst)) else row i
  else none

def memcpy (n : ℕ) (src dst : ℕ → UInt8) : Option (ℕ → UInt8) :=
  if n ≤ finshCmdSize then some fun i ↦ if i < n then src i else dst i else none

def clear (row : ℕ → UInt8) : ℕ → UInt8 := fun i ↦ if i < finshCmdSize then 0 else row i

def Same (a b : ℕ → UInt8) : Prop := ∀ i < finshCmdSize, a i = b i

instance (a b : ℕ → UInt8) : Decidable (Same a b) :=
  inferInstanceAs (Decidable (∀ i < finshCmdSize, a i = b i))

def strend (row : ℕ → UInt8) (i : ℕ) : Option ℕ :=
  (List.range finshCmdSize).find? fun j ↦ i ≤ j ∧ row j = 0

end Rows

variable (s : FinshShell)

def historyRow (index : ℕ) : Option (ℕ → UInt8) :=
  if index < finshHistoryLines then some (s.cmdHistory index) else none

def storeHistory (index : ℕ) : Option FinshShell := do
  let row ← historyRow s index
  let row ← memcpy s.linePosition s.line (clear row)
  return { s with cmdHistory := Function.update s.cmdHistory index row }

def moveRow (rows : ℕ → ℕ → UInt8) (index : ℕ) : ℕ → ℕ → UInt8 :=
  Function.update rows index fun i ↦
    if i < finshCmdSize then rows (index + 1) i else rows index i

def moveHistory : FinshShell :=
  { s with cmdHistory := (List.range (finshHistoryLines - 1)).foldl moveRow s.cmdHistory }

def pushLine : Option FinshShell :=
  if s.linePosition = 0 then some s
  else if finshHistoryLines ≤ s.historyCount then
    if Same (s.cmdHistory (finshHistoryLines - 1)) s.line then some s
    else do
      let s ← storeHistory (moveHistory s) (finshHistoryLines - 1)
      return { s with historyCount := finshHistoryLines }
  else if s.historyCount ≠ 0 ∧ Same (s.cmdHistory (s.historyCount - 1)) s.line then some s
  else do
    let s ← storeHistory { s with currentHistory := s.historyCount } s.historyCount
    return { s with historyCount := (s.historyCount + 1) % 2 ^ 16 }

def shellPushHistory : Option FinshShell := do
  let s ← pushLine s
  return { s with currentHistory := s.historyCount }

def shellHandleHistory : Option ℕ := strend s.line 0

def recallLine : Option FinshShell := do
  let row ← historyRow s s.currentHistory
  let line ← memcpy finshCmdSize row s.line
  let length ← strend line 0
  let s := { s with line := line, lineCurpos := length % 2 ^ 8, linePosition := length % 2 ^ 8 }
  let _ ← shellHandleHistory s
  return s

def upKey : Option FinshShell :=
  if 0 < s.currentHistory then recallLine { s with currentHistory := s.currentHistory - 1 }
  else some { s with currentHistory := 0 }

def downKey : Option FinshShell :=
  if (s.currentHistory : ℤ) < s.historyCount - 1 then
    recallLine { s with currentHistory := (s.currentHistory + 1) % 2 ^ 16 }
  else if s.historyCount ≠ 0 then recallLine { s with currentHistory := s.historyCount - 1 }
  else some s

def leftKey : Option FinshShell :=
  if s.lineCurpos ≠ 0 then some { s with lineCurpos := s.lineCurpos - 1 } else some s

def rightKey : Option FinshShell :=
  if s.lineCurpos < s.linePosition then
    if s.lineCurpos < finshCmdSize then some { s with lineCurpos := (s.lineCurpos + 1) % 2 ^ 8 }
    else none
  else some s

/-- `shell_auto_complete`, which leaves the line as it is here, prints it. -/
def tabKey : Option FinshShell := do
  let _ ← strend s.line 0
  let length ← strend s.line 0
  return { s with lineCurpos := length % 2 ^ 8, linePosition := length % 2 ^ 8 }

def closeGap (curpos position : ℕ) : Option (ℕ → UInt8) := do
  let line ← memmove curpos (curpos + 1) (position - curpos) s.line
  let line ← put position 0 line
  let _ ← strend line curpos
  return line

def eraseChar (curpos position : ℕ) : Option (ℕ → UInt8) :=
  if curpos < position then closeGap s curpos position else put position 0 s.line

def backspaceKey : Option FinshShell :=
  if s.lineCurpos = 0 then some s
  else do
    let position := (s.linePosition + (2 ^ 8 - 1)) % 2 ^ 8
    let curpos := s.lineCurpos - 1
    let line ← eraseChar s curpos position
    return { s with line := line, linePosition := position, lineCurpos := curpos }

def clearLine : FinshShell := { s with line := clear s.line, lineCurpos := 0, linePosition := 0 }

def endOfLine (msh : Bool) : Option (FinshShell × Option Call) := do
  let s ← shellPushHistory s
  if msh then return (clearLine s, some (.mshExec s.line s.linePosition))
  let line ← put s.linePosition 0x3b s.line
  if s.linePosition = 0 then return (clearLine s, none)
  let _ ← strend line 0
  return (clearLine s, some (.finshRunLine line))

def openGap (ch : UInt8) : Option (ℕ → UInt8) := do
  let line ← memmove (s.lineCurpos + 1) s.lineCurpos (s.linePosition - s.lineCurpos) s.line
  let line ← put s.lineCurpos ch line
  if s.echoMode then
    let _ ← strend line s.lineCurpos
    return line
  return line

def writeChar (ch : UInt8) : Option (ℕ → UInt8) :=
  if s.lineCurpos < s.linePosition then openGap s ch else put s.linePosition ch s.line

def discardLarge : FinshShell :=
  if finshCmdSize ≤ s.linePosition then { s with linePosition := 0 } else s

def insertChar (ch : UInt8) : Option FinshShell := do
  let line ← writeChar s ch
  let position := (s.linePosition + 1) % 2 ^ 8
  if finshCmdSize ≤ position then
    return { s with line := line, linePosition := 0, lineCurpos := 0 }
  return { s with line := line, linePosition := position, lineCurpos := (s.lineCurpos + 1) % 2 ^ 8 }

def quiet (result : Option FinshShell) : Option (FinshShell × Option Call) := do
  let s ← result
  return (s, none)

def character (i : Input) : Option (FinshShell × Option Call) :=
  if i.ch = 0 ∨ i.ch = 0xFF then some (s, none)
  else if i.ch = 0x09 then quiet (tabKey s)
  else if i.ch = 0x7f ∨ i.ch = 0x08 then quiet (backspaceKey s)
  else if i.ch = 0x0d ∨ i.ch = 0x0a then endOfLine s i.msh
  else quiet (insertChar (discardLarge s) i.ch)

def finshThreadEntry (i : Input) : Option (FinshShell × Option Call) :=
  if i.ch = 0x1b then some ({ s with stat := .waitSpecKey }, none)
  else if s.stat = .waitSpecKey then
    if i.ch = 0x5b then some ({ s with stat := .waitFuncKey }, none)
    else character { s with stat := .waitNormal } i
  else if s.stat = .waitFuncKey then
    let s := { s with stat := .waitNormal }
    if i.ch = 0x41 then quiet (upKey s)
    else if i.ch = 0x42 then quiet (downKey s)
    else if i.ch = 0x44 then quiet (leftKey s)
    else if i.ch = 0x43 then quiet (rightKey s)
    else character s i
  else character s i

end GiantGecko.Finsh.Shell
