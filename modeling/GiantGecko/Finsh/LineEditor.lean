import GiantGecko.Foundation.CursorText
import GiantGecko.Foundation.Transition
import GiantGecko.Finsh.Shell

namespace GiantGecko.Finsh.LineEditor

open Foundation.CursorText Foundation.Transition Shell

inductive Key
  | up
  | down
  | left
  | right
  | tab
  | backspace
  | enter
  | char (ch : UInt8)
  | ignored
  deriving DecidableEq

def plainKey (ch : UInt8) : Key :=
  if ch = 0 ∨ ch = 0xFF then .ignored
  else if ch = 0x09 then .tab
  else if ch = 0x7f ∨ ch = 0x08 then .backspace
  else if ch = 0x0d ∨ ch = 0x0a then .enter
  else .char ch

def functionKey (ch : UInt8) : Key :=
  if ch = 0x41 then .up
  else if ch = 0x42 then .down
  else if ch = 0x44 then .left
  else if ch = 0x43 then .right
  else plainKey ch

def decode (stat : InputStat) (ch : UInt8) : InputStat × Key :=
  if ch = 0x1b then (.waitSpecKey, .ignored)
  else match stat with
    | .waitNormal => (.waitNormal, plainKey ch)
    | .waitSpecKey => if ch = 0x5b then (.waitFuncKey, .ignored) else (.waitNormal, plainKey ch)
    | .waitFuncKey => (.waitNormal, functionKey ch)

structure Editor where
  stat : InputStat
  cursor : Zipper UInt8
  history : List (List UInt8)
  current : ℕ

/-- An empty line is not kept, nor one that was entered last. -/
def push (text : List UInt8) (history : List (List UInt8)) : List (List UInt8) :=
  if text = [] ∨ history.getLast? = some text then history
  else (if history.length < finshHistoryLines then history else history.tail) ++ [text]

namespace Editor

variable (e : Editor)

def recallLine (i : ℕ) : Editor :=
  { e with current := i, cursor := .atEnd (e.history.getD i []) }

def enter : Editor :=
  { e with
    cursor := ⟨[], []⟩
    history := push e.cursor.text e.history
    current := (push e.cursor.text e.history).length }

def press : Key → Editor
  | .up => if e.current = 0 then e else e.recallLine (e.current - 1)
  | .down => if e.history = [] then e else e.recallLine (min (e.current + 1) (e.history.length - 1))
  | .left => { e with cursor := e.cursor.left }
  | .right => { e with cursor := e.cursor.right }
  | .tab => { e with cursor := .atEnd e.cursor.text }
  | .backspace => { e with cursor := e.cursor.delete }
  | .enter => e.enter
  | .char ch =>
    -- a line that has become too large is discarded
    if e.cursor.text.length + 1 < finshCmdSize then { e with cursor := e.cursor.insert ch }
    else { e with cursor := ⟨[], []⟩ }
  | .ignored => e

def input (ch : UInt8) : Editor :=
  { e with stat := (decode e.stat ch).1 }.press (decode e.stat ch).2

end Editor

def Holds (row : ℕ → UInt8) (text : List UInt8) : Prop :=
  (List.range text.length).map row = text ∧ row text.length = 0

structure Sound (s : FinshShell) (e : Editor) : Prop where
  cursor : s.lineCurpos ≤ s.linePosition
  position : s.linePosition < finshCmdSize
  length : s.linePosition = e.cursor.text.length
  line : Holds s.line e.cursor.text
  count : s.historyCount = e.history.length
  history : ∀ i text, e.history[i]? = some text → Holds (s.cmdHistory i) text

/-- At the end of a line the text is handed on, and nothing else at other times. -/
def Handed (key : Key) (msh : Bool) (text : List UInt8) (call : Option Call) : Prop :=
  match key, call with
  | .enter, some (.mshExec cmd length) => msh ∧ Holds cmd text ∧ length = text.length
  | .enter, some (.finshRunLine line) => ¬msh ∧ text ≠ [] ∧ Holds line (text ++ [0x3b])
  | .enter, none => ¬msh ∧ text = []
  | _, call => call = none

structure System where
  shell : FinshShell
  editor : Editor

def start (echoMode : Bool) : System :=
  ⟨allocated echoMode, ⟨.waitNormal, ⟨[], []⟩, [], 0⟩⟩

def step (x : System) (i : Input) : System :=
  ⟨((finshThreadEntry x.shell i).map Prod.fst).getD x.shell, x.editor.input i.ch⟩

/-- A byte is handled without leaving an array, and as in the editor. -/
def Faithful (x : System) (i : Input) : Prop :=
  ∃ s call, finshThreadEntry x.shell i = some (s, call) ∧ Sound s (x.editor.input i.ch) ∧
    Handed (decode x.editor.stat i.ch).2 i.msh x.editor.cursor.text call

/-- A character leaves room for the end of the line, and so does the semicolon that is put
behind the line when `msh` is not used. -/
def Fits (s : FinshShell) (i : Input) : Prop :=
  match (decode s.stat i.ch).2 with
  | .char _ => s.linePosition + 1 < finshCmdSize
  | .enter => i.msh = true ∨ s.linePosition + 1 < finshCmdSize
  | _ => True

section Rows

structure Row (row : ℕ → UInt8) (text : List UInt8) : Prop where
  short : text.length < finshCmdSize
  nonzero : 0 ∉ text
  getD : ∀ i < finshCmdSize, row i = text.getD i 0

variable {row row' : ℕ → UInt8} {text text' : List UInt8} {i : ℕ}

theorem Row.ends (h : Row row text) : row text.length = 0 := by
  rw [h.getD _ h.short, List.getD_eq_getElem?_getD, List.getElem?_eq_none (Nat.le_refl _),
    Option.getD_none]

theorem Row.getElem (h : Row row text) (hi : i < text.length) : row i = text[i] := by
  rw [h.getD i (Nat.lt_trans hi h.short), List.getD_eq_getElem?_getD, List.getElem?_eq_getElem hi,
    Option.getD_some]

theorem Row.ne_zero (h : Row row text) (hi : i < text.length) : row i ≠ 0 := by
  rw [h.getElem hi]
  exact fun heq ↦ h.nonzero (heq ▸ List.getElem_mem hi)

theorem Row.holds (h : Row row text) : Holds row text := by
  refine ⟨?_, h.ends⟩
  refine List.ext_getElem (by simp) fun i _ hi ↦ ?_
  rw [List.getElem_map, List.getElem_range, h.getElem hi]

theorem Row.strend (h : Row row text) (hi : i ≤ text.length) :
    strend row i = some text.length := by
  rw [Shell.strend, List.find?_range_eq_some]
  refine ⟨by simpa using ⟨hi, h.ends⟩, List.mem_range.mpr h.short, fun j hj ↦ ?_⟩
  simpa using .inr (h.ne_zero hj)

theorem Row.same_iff (h : Row row text) (h' : Row row' text') : Same row row' ↔ text = text' := by
  constructor
  · intro hsame
    have hlength : text.length = text'.length := by
      rcases Nat.lt_trichotomy text.length text'.length with hlt | heq | hgt
      · exact absurd ((hsame _ h.short).symm.trans h.ends) (h'.ne_zero hlt)
      · exact heq
      · exact absurd ((hsame _ h'.short).trans h'.ends) (h.ne_zero hgt)
    refine List.ext_getElem hlength fun i hi hi' ↦ ?_
    rw [← h.getElem hi, ← h'.getElem hi']
    exact hsame i (Nat.lt_trans hi h.short)
  · rintro rfl i hi
    rw [h.getD i hi, h'.getD i hi]

theorem Row.congr (h : Row row text) (heq : ∀ i < finshCmdSize, row' i = row i) :
    Row row' text :=
  ⟨h.short, h.nonzero, fun i hi ↦ (heq i hi).trans (h.getD i hi)⟩

theorem row_clear : Row (clear row) [] :=
  ⟨by decide, List.not_mem_nil, fun i hi ↦ if_pos hi⟩

theorem getD_of_le (h : text.length ≤ i) : text.getD i 0 = 0 := by
  rw [List.getD_eq_getElem?_getD, List.getElem?_eq_none h, Option.getD_none]

variable {z : Zipper UInt8} {ch : UInt8}

theorem Row.delete (h : Row row z.text) (hne : z.before ≠ [])
    (heq : ∀ i < finshCmdSize, row' i =
      if i = z.text.length - 1 then 0
      else if z.before.length ≤ i + 1 ∧ i < z.text.length - 1 then row (i + 1) else row i) :
    Row row' z.delete.text := by
  have hlength := length_delete hne
  have hbefore := before_le (z := z)
  have hpos := List.length_pos_iff.mpr hne
  have hshort := h.short
  refine ⟨by omega, fun hmem ↦ h.nonzero (text_delete_subset hmem), fun i hi ↦ ?_⟩
  rw [heq i hi, getD_delete hne]
  by_cases hlast : i = z.text.length - 1
  · rw [if_pos hlast, if_neg (by omega), getD_of_le (by omega)]
  · rw [if_neg hlast]
    by_cases hmoved : z.before.length ≤ i + 1 ∧ i < z.text.length - 1
    · rw [if_pos hmoved, if_neg (by omega)]
      exact h.getD _ (by omega)
    · rw [if_neg hmoved, h.getD i hi]
      by_cases hlt : i + 1 < z.before.length
      · rw [if_pos hlt]
      · rw [if_neg hlt, getD_of_le (by omega), getD_of_le (by omega)]

theorem Row.insert (h : Row row z.text) (hroom : z.text.length + 1 < finshCmdSize) (hch : ch ≠ 0)
    (heq : ∀ i < finshCmdSize, row' i =
      if i = z.before.length then ch
      else if z.before.length < i ∧ i ≤ z.text.length then row (i - 1) else row i) :
    Row row' (z.insert ch).text := by
  have hbefore := before_le (z := z)
  refine ⟨by rwa [length_insert], ?_, fun i hi ↦ ?_⟩
  · rw [text_insert_perm.mem_iff, List.mem_cons]
    rintro (heq | hmem)
    · exact hch heq.symm
    · exact h.nonzero hmem
  · rw [heq i hi, getD_insert]
    by_cases hcursor : i = z.before.length
    · rw [if_pos hcursor, if_neg (by omega), if_pos hcursor]
    · rw [if_neg hcursor]
      by_cases hmoved : z.before.length < i ∧ i ≤ z.text.length
      · rw [if_pos hmoved, if_neg (by omega), if_neg hcursor]
        exact h.getD _ (by omega)
      · rw [if_neg hmoved, h.getD i hi]
        by_cases hlt : i < z.before.length
        · rw [if_pos hlt]
        · rw [if_neg hlt, if_neg hcursor, getD_of_le (by omega), getD_of_le (by omega)]

end Rows

/-- What the editor's state says about the shell's. -/
structure Inv (s : FinshShell) (e : Editor) : Prop where
  stat : s.stat = e.stat
  line : Row s.line e.cursor.text
  position : s.linePosition = e.cursor.text.length
  curpos : s.lineCurpos = e.cursor.before.length
  count : s.historyCount = e.history.length
  lines : e.history.length ≤ finshHistoryLines
  current : s.currentHistory = e.current
  recalled : e.current ≤ e.history.length
  rows : ∀ i text, e.history[i]? = some text → Row (s.cmdHistory i) text

variable {s : FinshShell} {e : Editor} {i : Input} {ch : UInt8}

theorem Inv.sound (h : Inv s e) : Sound s e where
  cursor := by rw [h.curpos, h.position]; exact before_le
  position := h.position ▸ h.line.short
  length := h.position
  line := h.line.holds
  count := h.count
  history i text hi := (h.rows i text hi).holds

theorem inv_start (echoMode : Bool) : Inv (start echoMode).shell (start echoMode).editor where
  stat := rfl
  line := ⟨show 0 < finshCmdSize by decide, List.not_mem_nil, fun _ _ ↦ rfl⟩
  position := rfl
  curpos := rfl
  count := rfl
  lines := Nat.zero_le _
  current := rfl
  recalled := Nat.le_refl _
  rows i text hi := by simp [start] at hi

theorem Inv.listens (h : Inv s e) (stat : InputStat) :
    Inv { s with stat := stat } { e with stat := stat } :=
  ⟨rfl, h.line, h.position, h.curpos, h.count, h.lines, h.current, h.recalled, h.rows⟩

section Keys

theorem Inv.recallLine (h : Inv s e) {n : ℕ} (hn : n < e.history.length) :
    ∃ s', Shell.recallLine { s with currentHistory := n } = some s' ∧ Inv s' (e.recallLine n) := by
  have hget := List.getElem?_eq_getElem hn
  have hrow := h.rows n _ hget
  have hline : Row (fun i ↦ if i < finshCmdSize then s.cmdHistory n i else s.line i)
      e.history[n] := hrow.congr fun i hi ↦ if_pos hi
  have hshort := hrow.short
  have hlength : e.history[n].length % 2 ^ 8 = e.history[n].length :=
    Nat.mod_eq_of_lt (Nat.lt_trans hshort (by decide))
  have hend := hline.strend (Nat.zero_le _)
  have htext : (e.recallLine n).cursor.text = e.history[n] := by
    rw [Editor.recallLine, text_atEnd, List.getD_eq_getElem?_getD, hget, Option.getD_some]
  refine ⟨{ s with
      currentHistory := n
      line := fun i ↦ if i < finshCmdSize then s.cmdHistory n i else s.line i
      lineCurpos := e.history[n].length
      linePosition := e.history[n].length }, ?_, ?_⟩
  · simp only [Shell.recallLine, historyRow, if_pos (Nat.lt_of_lt_of_le hn h.lines), memcpy,
      Nat.le_refl, if_true, Option.bind_eq_bind, Option.bind_some, hend, hlength,
      shellHandleHistory, Option.pure_def]
  · refine ⟨h.stat, ?_, ?_, ?_, h.count, h.lines, rfl, Nat.le_of_lt hn, h.rows⟩
    · rw [htext]
      exact hline
    · rw [htext]
    · rw [Editor.recallLine, before_atEnd, List.getD_eq_getElem?_getD, hget, Option.getD_some]

theorem Inv.upKey (h : Inv s e) : ∃ s', upKey s = some s' ∧ Inv s' (e.press .up) := by
  rw [Shell.upKey, h.current, Editor.press]
  by_cases hzero : e.current = 0
  · rw [if_neg (by omega), if_pos hzero]
    refine ⟨_, rfl, ?_⟩
    exact ⟨h.stat, h.line, h.position, h.curpos, h.count, h.lines, hzero.symm, h.recalled, h.rows⟩
  · rw [if_pos (by omega), if_neg hzero]
    have hle := h.recalled
    exact h.recallLine (by omega)

theorem Inv.downKey (h : Inv s e) : ∃ s', downKey s = some s' ∧ Inv s' (e.press .down) := by
  have hle := h.recalled
  have hlines := h.lines
  have hcount := h.count
  have hcurrent := h.current
  rw [finshHistoryLines] at hlines
  rw [Shell.downKey, Editor.press]
  by_cases hnil : e.history = []
  · have hzero : e.history.length = 0 := List.length_eq_zero_iff.mpr hnil
    rw [if_neg (by omega), if_neg (by omega), if_pos hnil]
    exact ⟨s, rfl, h⟩
  · have hpos : 0 < e.history.length := List.length_pos_iff.mpr hnil
    rw [if_neg hnil]
    by_cases hlt : e.current + 1 < e.history.length
    · rw [if_pos (by omega), Nat.mod_eq_of_lt (by omega), Nat.min_eq_left (by omega), hcurrent]
      exact h.recallLine hlt
    · have hlast : s.historyCount - 1 = e.history.length - 1 := by omega
      rw [if_neg (by omega), if_pos (by omega), Nat.min_eq_right (by omega), hlast]
      exact h.recallLine (by omega)

theorem Inv.leftKey (h : Inv s e) : ∃ s', leftKey s = some s' ∧ Inv s' (e.press .left) := by
  have hinv : Inv { s with lineCurpos := s.lineCurpos - 1 } (e.press .left) := by
    refine ⟨h.stat, ?_, ?_, ?_, h.count, h.lines, h.current, h.recalled, h.rows⟩
    · simpa only [Editor.press, text_left] using h.line
    · simpa only [Editor.press, text_left] using h.position
    · simp only [Editor.press, before_left, h.curpos]
  rw [Shell.leftKey]
  by_cases hzero : s.lineCurpos = 0
  · rw [if_neg (not_not.mpr hzero)]
    refine ⟨s, rfl, ?_⟩
    have hsame : s.lineCurpos - 1 = s.lineCurpos := by omega
    rwa [hsame] at hinv
  · exact ⟨_, if_pos hzero, hinv⟩

theorem Inv.rightKey (h : Inv s e) : ∃ s', rightKey s = some s' ∧ Inv s' (e.press .right) := by
  have hle := before_le (z := e.cursor)
  have hshort := h.line.short
  have hsize : finshCmdSize = 80 := rfl
  have hinv : Inv { s with lineCurpos := min (s.lineCurpos + 1) s.linePosition }
      (e.press .right) := by
    refine ⟨h.stat, ?_, ?_, ?_, h.count, h.lines, h.current, h.recalled, h.rows⟩
    · simpa only [Editor.press, text_right] using h.line
    · simpa only [Editor.press, text_right] using h.position
    · simp only [Editor.press, before_right, h.curpos, h.position]
  have hcurpos := h.curpos
  have hposition := h.position
  rw [Shell.rightKey]
  by_cases hlt : s.lineCurpos < s.linePosition
  · rw [if_pos hlt, if_pos (by omega), Nat.mod_eq_of_lt (by omega)]
    refine ⟨_, rfl, ?_⟩
    rwa [Nat.min_eq_left (by omega)] at hinv
  · rw [if_neg hlt]
    refine ⟨s, rfl, ?_⟩
    have hsame : min (s.lineCurpos + 1) s.linePosition = s.lineCurpos := by omega
    rwa [hsame] at hinv

theorem Inv.tabKey (h : Inv s e) : ∃ s', tabKey s = some s' ∧ Inv s' (e.press .tab) := by
  have hend := h.line.strend (Nat.zero_le _)
  have hlength : e.cursor.text.length % 2 ^ 8 = e.cursor.text.length :=
    Nat.mod_eq_of_lt (Nat.lt_trans h.line.short (by decide))
  refine ⟨{ s with lineCurpos := e.cursor.text.length, linePosition := e.cursor.text.length },
    ?_, ?_⟩
  · simp only [Shell.tabKey, hend, Option.bind_eq_bind, Option.bind_some, hlength, Option.pure_def]
  · refine ⟨h.stat, ?_, ?_, ?_, h.count, h.lines, h.current, h.recalled, h.rows⟩
    · simpa only [Editor.press, text_atEnd] using h.line
    · rw [Editor.press, text_atEnd]
    · rw [Editor.press, before_atEnd]

def inserted (s : FinshShell) (ch : UInt8) : ℕ → UInt8 := fun i ↦
  if i = s.lineCurpos then ch
  else if s.lineCurpos < i ∧ i ≤ s.linePosition then s.line (i - 1) else s.line i

theorem openGap_eq (hlt : s.lineCurpos < s.linePosition) (hpos : s.linePosition < finshCmdSize) :
    openGap s ch = if s.echoMode then (strend (inserted s ch) s.lineCurpos).map fun _ ↦ inserted s ch
      else some (inserted s ch) := by
  have hline : Function.update (fun i ↦
      if s.lineCurpos + 1 ≤ i ∧ i < s.lineCurpos + 1 + (s.linePosition - s.lineCurpos) then
        s.line (s.lineCurpos + (i - (s.lineCurpos + 1))) else s.line i) s.lineCurpos ch =
      inserted s ch := by
    funext i
    rw [Function.update_apply, inserted]
    refine if_congr Iff.rfl rfl ?_
    by_cases hmoved : s.lineCurpos < i ∧ i ≤ s.linePosition
    · rw [if_pos (by omega), if_pos hmoved]
      congr 1
      omega
    · rw [if_neg (by omega), if_neg hmoved]
  rw [openGap, memmove, if_pos (by omega), Option.bind_eq_bind, Option.bind_some, put,
    if_pos (by omega), Option.bind_eq_bind, Option.bind_some, hline]
  rcases s.echoMode
  · rfl
  · simp only [if_true, Option.pure_def, Option.map_eq_bind, Function.comp_def]

theorem writeChar_end (heq : s.lineCurpos = s.linePosition) (hpos : s.linePosition < finshCmdSize) :
    writeChar s ch = some (inserted s ch) := by
  rw [writeChar, if_neg (by omega), put, if_pos hpos]
  congr 1
  funext i
  rw [Function.update_apply, inserted, heq]
  exact if_congr Iff.rfl rfl (if_neg (by omega)).symm

theorem Inv.discardLarge (h : Inv s e) : discardLarge s = s :=
  if_neg (by rw [h.position]; exact Nat.not_le.mpr h.line.short)

theorem Inv.insertChar (h : Inv s e) (hch : ch ≠ 0) (hroom : s.linePosition + 1 < finshCmdSize) :
    ∃ s', insertChar s ch = some s' ∧ Inv s' (e.press (.char ch)) := by
  have hroom' : e.cursor.text.length + 1 < finshCmdSize := h.position ▸ hroom
  have hsize : finshCmdSize = 80 := rfl
  have hle : s.lineCurpos ≤ s.linePosition := h.sound.cursor
  have hrow : Row (inserted s ch) (e.cursor.insert ch).text := by
    refine h.line.insert hroom' hch fun i _ ↦ ?_
    rw [inserted, h.curpos, h.position]
  have hend : strend (inserted s ch) s.lineCurpos = some (e.cursor.insert ch).text.length := by
    refine hrow.strend ?_
    rw [length_insert, ← h.position]
    omega
  have hwrite : writeChar s ch = some (inserted s ch) := by
    rcases Nat.eq_or_lt_of_le hle with heq | hlt
    · exact writeChar_end heq (by omega)
    · rw [writeChar, if_pos hlt, openGap_eq hlt (by omega), hend]
      split <;> rfl
  refine ⟨{ s with
      line := inserted s ch
      linePosition := s.linePosition + 1
      lineCurpos := s.lineCurpos + 1 }, ?_, ?_⟩
  · rw [Shell.insertChar, hwrite, Option.bind_eq_bind, Option.bind_some]
    rw [Nat.mod_eq_of_lt (by omega), if_neg (by omega), Nat.mod_eq_of_lt (by omega)]
    rfl
  · rw [Editor.press, if_pos hroom']
    refine ⟨h.stat, hrow, ?_, ?_, h.count, h.lines, h.current, h.recalled, h.rows⟩
    · rw [length_insert, ← h.position]
    · rw [h.curpos]
      rfl

/-- The 80th character leaves the line full of characters, and empties it. -/
theorem Inv.overflows (h : Inv s e) (hch : ch ≠ 0) (hfull : ¬s.linePosition + 1 < finshCmdSize)
    {s' : FinshShell} (hs' : Shell.insertChar s ch = some s') : s'.linePosition = 0 ∧ s'.line 0 ≠ 0 := by
  have hsize : finshCmdSize = 80 := rfl
  have hlt : s.linePosition < finshCmdSize := h.sound.position
  have hle : s.lineCurpos ≤ s.linePosition := h.sound.cursor
  have hzero : inserted s ch 0 ≠ 0 := by
    rw [inserted]
    by_cases hcursor : 0 = s.lineCurpos
    · rwa [if_pos hcursor]
    · rw [if_neg hcursor, if_neg (by omega)]
      exact h.line.ne_zero (by rw [← h.position]; omega)
  have hwrite : ∀ line, writeChar s ch = some line → line = inserted s ch := by
    intro line hline
    rcases Nat.eq_or_lt_of_le hle with heq | hlt'
    · rw [writeChar_end heq hlt] at hline
      exact (Option.some.inj hline).symm
    · rw [writeChar, if_pos hlt', openGap_eq hlt' hlt] at hline
      split at hline
      · obtain ⟨_, _, hline⟩ := Option.map_eq_some_iff.mp hline
        exact hline.symm
      · exact (Option.some.inj hline).symm
  rw [Shell.insertChar] at hs'
  obtain ⟨line, hline, hs'⟩ := Option.bind_eq_some_iff.mp hs'
  rw [Nat.mod_eq_of_lt (by omega), if_pos (by omega)] at hs'
  have hs' := Option.some.inj hs'
  subst hs'
  exact ⟨rfl, by rwa [hwrite line hline]⟩

theorem Inv.eraseChar (h : Inv s e) (hne : e.cursor.before ≠ []) :
    ∃ line, eraseChar s (s.lineCurpos - 1) (s.linePosition - 1) = some line ∧
      Row line e.cursor.delete.text := by
  have hsize : finshCmdSize = 80 := rfl
  have hlt : s.linePosition < finshCmdSize := h.sound.position
  have hle : s.lineCurpos ≤ s.linePosition := h.sound.cursor
  have hpos : 0 < e.cursor.before.length := List.length_pos_iff.mpr hne
  have hlength := length_delete hne
  have hcurpos := h.curpos
  have hposition := h.position
  rw [Shell.eraseChar]
  by_cases hinside : s.lineCurpos - 1 < s.linePosition - 1
  · have hrow : Row (Function.update (fun i ↦
        if s.lineCurpos - 1 ≤ i ∧
            i < s.lineCurpos - 1 + (s.linePosition - 1 - (s.lineCurpos - 1)) then
          s.line (s.lineCurpos - 1 + 1 + (i - (s.lineCurpos - 1))) else s.line i)
          (s.linePosition - 1) 0) e.cursor.delete.text := by
      refine h.line.delete hne fun i _ ↦ ?_
      rw [Function.update_apply, hposition]
      refine if_congr Iff.rfl rfl ?_
      by_cases hmoved : e.cursor.before.length ≤ i + 1 ∧ i < e.cursor.text.length - 1
      · rw [if_pos (by omega), if_pos hmoved]
        congr 1
        omega
      · rw [if_neg (by omega), if_neg hmoved]
    have hend := hrow.strend (i := s.lineCurpos - 1) (by omega)
    refine ⟨_, ?_, hrow⟩
    rw [if_pos hinside, closeGap, memmove, if_pos (by omega), Option.bind_eq_bind,
      Option.bind_some, put, if_pos (by omega), Option.bind_eq_bind, Option.bind_some, hend]
    rfl
  · refine ⟨Function.update s.line (s.linePosition - 1) 0, ?_, ?_⟩
    · rw [if_neg hinside, put, if_pos (by omega)]
    · refine h.line.delete hne fun i _ ↦ ?_
      rw [Function.update_apply, hposition]
      exact if_congr Iff.rfl rfl (if_neg (by omega)).symm

theorem Inv.backspaceKey (h : Inv s e) :
    ∃ s', backspaceKey s = some s' ∧ Inv s' (e.press .backspace) := by
  rw [Shell.backspaceKey]
  by_cases hzero : s.lineCurpos = 0
  · rw [if_pos hzero]
    have hnil : e.cursor.before = [] := List.eq_nil_of_length_eq_zero (h.curpos.symm.trans hzero)
    have hsame : e.press .backspace = e := by
      rw [Editor.press, Zipper.delete, hnil, List.tail_nil, ← hnil]
    exact ⟨s, rfl, by rwa [hsame]⟩
  · have hne : e.cursor.before ≠ [] := fun hnil ↦ hzero (by rw [h.curpos, hnil]; rfl)
    have hle : s.lineCurpos ≤ s.linePosition := h.sound.cursor
    have hlt : s.linePosition < 80 := h.sound.position
    have hback : (s.linePosition + (2 ^ 8 - 1)) % 2 ^ 8 = s.linePosition - 1 := by omega
    obtain ⟨line, herase, hrow⟩ := h.eraseChar hne
    have hlength := length_delete hne
    rw [if_neg hzero, hback]
    refine ⟨{ s with
        line := line, linePosition := s.linePosition - 1, lineCurpos := s.lineCurpos - 1 }, ?_, ?_⟩
    · simp only [herase, Option.bind_eq_bind, Option.bind_some, Option.pure_def]
    · refine ⟨h.stat, hrow, ?_, ?_, h.count, h.lines, h.current, h.recalled, h.rows⟩
      · show s.linePosition - 1 = e.cursor.delete.text.length
        rw [h.position, ← hlength, Nat.add_sub_cancel]
      · show s.lineCurpos - 1 = e.cursor.before.tail.length
        rw [List.length_tail, h.curpos]

end Keys

section History

theorem foldl_moveRow {rows : ℕ → ℕ → UInt8} {r n : ℕ} (hn : n < finshCmdSize) (k : ℕ) :
    (List.range k).foldl moveRow rows r n = if r < k then rows (r + 1) n else rows r n := by
  induction k generalizing r with
  | zero => rfl
  | succ k ih =>
    rw [List.range_succ, List.foldl_append, List.foldl_cons, List.foldl_nil, moveRow]
    by_cases heq : r = k
    · rw [heq, Function.update_self, if_pos hn, ih, if_neg (by omega), if_pos (Nat.lt_succ_self k)]
    · rw [Function.update_of_ne heq, ih]
      exact if_congr (by omega) rfl rfl

theorem storeHistory_eq {index : ℕ} {text : List UInt8} (hindex : index < finshHistoryLines)
    (hline : Row s.line text) (hlength : s.linePosition = text.length) :
    ∃ row, Row row text ∧ storeHistory s index =
      some { s with cmdHistory := Function.update s.cmdHistory index row } := by
  refine ⟨fun i ↦ if i < s.linePosition then s.line i else clear (s.cmdHistory index) i, ?_, ?_⟩
  · refine hline.congr fun i hi ↦ ?_
    by_cases hlt : i < s.linePosition
    · exact if_pos hlt
    · rw [if_neg hlt, clear, if_pos hi, hline.getD i hi, getD_of_le (by omega)]
  · have hshort := hline.short
    rw [storeHistory, historyRow, if_pos hindex, Option.bind_eq_bind, Option.bind_some, memcpy,
      if_pos (by omega)]
    rfl

structure Pushed (s : FinshShell) (text : List UInt8) (history : List (List UInt8))
    (s' : FinshShell) : Prop where
  count : s'.historyCount = (push text history).length
  lines : (push text history).length ≤ finshHistoryLines
  rows : ∀ i line, (push text history)[i]? = some line → Row (s'.cmdHistory i) line
  stat : s'.stat = s.stat
  line : s'.line = s.line
  position : s'.linePosition = s.linePosition

theorem Inv.same_last (h : Inv s e) {text : List UInt8} (hline : Row s.line text)
    (hne : e.history ≠ []) :
    Same (s.cmdHistory (e.history.length - 1)) s.line ↔ e.history.getLast? = some text := by
  have hget : e.history[e.history.length - 1]? = some (e.history.getLast hne) := by
    rw [← List.getLast?_eq_getElem?, List.getLast?_eq_some_getLast hne]
  rw [(h.rows _ _ hget).same_iff hline, List.getLast?_eq_some_getLast hne, Option.some_inj]

theorem Inv.pushed_unchanged (h : Inv s e)
    (hpush : e.cursor.text = [] ∨ e.history.getLast? = some e.cursor.text) :
    Pushed s e.cursor.text e.history s := by
  have hsame : push e.cursor.text e.history = e.history := if_pos hpush
  refine ⟨?_, ?_, ?_, rfl, rfl, rfl⟩
  · rw [hsame, h.count]
  · rw [hsame]
    exact h.lines
  · rw [hsame]
    exact h.rows

theorem Inv.pushed_full (h : Inv s e)
    (hpush : ¬(e.cursor.text = [] ∨ e.history.getLast? = some e.cursor.text))
    (hfull : e.history.length = finshHistoryLines) :
    ∃ s', storeHistory (moveHistory s) (finshHistoryLines - 1) = some s' ∧
      Pushed s e.cursor.text e.history { s' with historyCount := finshHistoryLines } := by
  have hlines : finshHistoryLines = 5 := rfl
  obtain ⟨row, hrow, hstore⟩ := storeHistory_eq (s := moveHistory s)
    (show finshHistoryLines - 1 < finshHistoryLines by omega) h.line h.position
  have hnew : push e.cursor.text e.history = e.history.tail ++ [e.cursor.text] := by
    rw [push, if_neg hpush, if_neg (by omega)]
  have hlength : e.history.tail.length = finshHistoryLines - 1 := by rw [List.length_tail, hfull]
  refine ⟨_, hstore, ?_, ?_, ?_, rfl, rfl, rfl⟩
  · rw [hnew, List.length_append, hlength]
    rfl
  · rw [hnew, List.length_append, hlength]
    exact Nat.le_refl _
  · intro i line hi
    rw [hnew] at hi
    rcases Nat.lt_trichotomy i (finshHistoryLines - 1) with hlt | heq | hgt
    · rw [List.getElem?_append_left (by omega), List.getElem?_tail] at hi
      refine (h.rows _ _ hi).congr fun n hn ↦ ?_
      show Function.update (moveHistory s).cmdHistory (finshHistoryLines - 1) row i n = _
      rw [Function.update_of_ne (by omega)]
      exact (foldl_moveRow hn _).trans (if_pos hlt)
    · rw [heq, ← hlength, List.getElem?_append_right (Nat.le_refl _), Nat.sub_self,
        List.getElem?_cons_zero] at hi
      show Row (Function.update (moveHistory s).cmdHistory (finshHistoryLines - 1) row i) line
      rw [heq, Function.update_self, ← Option.some.inj hi]
      exact hrow
    · have hle : (e.history.tail ++ [e.cursor.text]).length ≤ i := by
        rw [List.length_append, List.length_singleton, hlength]
        omega
      rw [List.getElem?_eq_none hle] at hi
      cases hi

theorem Inv.pushed_room (h : Inv s e)
    (hpush : ¬(e.cursor.text = [] ∨ e.history.getLast? = some e.cursor.text))
    (hroom : e.history.length < finshHistoryLines) :
    ∃ s', storeHistory { s with currentHistory := s.historyCount } s.historyCount = some s' ∧
      Pushed s e.cursor.text e.history
        { s' with historyCount := (s'.historyCount + 1) % 2 ^ 16 } := by
  have hlines : finshHistoryLines = 5 := rfl
  have hcount := h.count
  obtain ⟨row, hrow, hstore⟩ := storeHistory_eq (s := { s with currentHistory := s.historyCount })
    (show s.historyCount < finshHistoryLines by omega) h.line h.position
  have hnew : push e.cursor.text e.history = e.history ++ [e.cursor.text] := by
    rw [push, if_neg hpush, if_pos hroom]
  refine ⟨_, hstore, ?_, ?_, ?_, rfl, rfl, rfl⟩
  · rw [hnew, List.length_append, ← hcount]
    exact Nat.mod_eq_of_lt (show s.historyCount + 1 < 2 ^ 16 by omega)
  · rw [hnew, List.length_append]
    exact hroom
  · intro i line hi
    rw [hnew] at hi
    show Row (Function.update s.cmdHistory s.historyCount row i) line
    rcases Nat.lt_trichotomy i e.history.length with hlt | heq | hgt
    · rw [List.getElem?_append_left hlt] at hi
      rw [Function.update_of_ne (by omega)]
      exact h.rows i line hi
    · rw [heq, List.getElem?_append_right (Nat.le_refl _), Nat.sub_self,
        List.getElem?_cons_zero] at hi
      rw [heq, hcount, Function.update_self, ← Option.some.inj hi]
      exact hrow
    · rw [List.getElem?_eq_none (by rw [List.length_append]; exact hgt)] at hi
      cases hi

theorem Inv.pushLine (h : Inv s e) :
    ∃ s', pushLine s = some s' ∧ Pushed s e.cursor.text e.history s' := by
  have hlines := h.lines
  rw [Shell.pushLine]
  by_cases hnil : e.cursor.text = []
  · rw [if_pos (by rw [h.position, hnil]; rfl)]
    exact ⟨s, rfl, h.pushed_unchanged (.inl hnil)⟩
  rw [if_neg (by rw [h.position]; exact fun hzero ↦ hnil (List.length_eq_zero_iff.mp hzero)),
    h.count]
  by_cases hfull : finshHistoryLines ≤ e.history.length
  · have hlength := Nat.le_antisymm hlines hfull
    have hne : e.history ≠ [] := fun hempty ↦ by rw [hempty] at hfull; exact absurd hfull (by decide)
    have hlast := h.same_last h.line hne
    rw [hlength] at hlast
    rw [if_pos hfull]
    by_cases hsame : Same (s.cmdHistory (finshHistoryLines - 1)) s.line
    · rw [if_pos hsame]
      exact ⟨s, rfl, h.pushed_unchanged (.inr (hlast.mp hsame))⟩
    · rw [if_neg hsame]
      obtain ⟨s', hs', hpushed⟩ := h.pushed_full
        (not_or.mpr ⟨hnil, fun heq ↦ hsame (hlast.mpr heq)⟩) hlength
      exact ⟨_, by rw [hs']; rfl, hpushed⟩
  · rw [if_neg hfull]
    by_cases hsame : e.history.length ≠ 0 ∧ Same (s.cmdHistory (e.history.length - 1)) s.line
    · have hne : e.history ≠ [] := fun hempty ↦ hsame.1 (by rw [hempty]; rfl)
      rw [if_pos hsame]
      exact ⟨s, rfl, h.pushed_unchanged (.inr ((h.same_last h.line hne).mp hsame.2))⟩
    · have hpush : ¬(e.cursor.text = [] ∨ e.history.getLast? = some e.cursor.text) := by
        refine not_or.mpr ⟨hnil, fun heq ↦ ?_⟩
        have hne : e.history ≠ [] := fun hempty ↦ by rw [hempty] at heq; cases heq
        exact hsame ⟨fun hzero ↦ hne (List.length_eq_zero_iff.mp hzero),
          (h.same_last h.line hne).mpr heq⟩
      rw [if_neg hsame]
      obtain ⟨s', hs', hpushed⟩ := h.pushed_room hpush (Nat.not_le.mp hfull)
      rw [h.count] at hs'
      exact ⟨_, by rw [hs']; rfl, hpushed⟩

theorem Inv.shellPushHistory (h : Inv s e) :
    ∃ s', shellPushHistory s = some s' ∧ s'.line = s.line ∧ s'.linePosition = s.linePosition ∧
      Inv (clearLine s') e.enter := by
  obtain ⟨s', hs', hpushed⟩ := h.pushLine
  refine ⟨{ s' with currentHistory := s'.historyCount }, ?_, hpushed.line, hpushed.position, ?_⟩
  · rw [Shell.shellPushHistory, hs']
    rfl
  · exact ⟨hpushed.stat.trans h.stat, row_clear, rfl, rfl, hpushed.count, hpushed.lines,
      hpushed.count, Nat.le_refl _, hpushed.rows⟩

end History

section Ends

theorem Row.semicolon {line : ℕ → UInt8} {text : List UInt8} (h : Row line text)
    (hroom : text.length + 1 < finshCmdSize) :
    Row (Function.update line text.length 0x3b) (text ++ [0x3b]) := by
  have hend : (Zipper.insert 0x3b (.atEnd text)).text = text ++ [0x3b] := by
    simp [Zipper.insert, Zipper.atEnd, Zipper.text]
  rw [← hend]
  have hrow : Row line (Zipper.atEnd text).text := by rwa [text_atEnd]
  refine hrow.insert (by rwa [text_atEnd]) (by decide) fun i _ ↦ ?_
  rw [Function.update_apply, before_atEnd, text_atEnd]
  exact if_congr Iff.rfl rfl (if_neg (by omega)).symm

theorem strend_semicolon {line : ℕ → UInt8} {text : List UInt8} (h : Row line text)
    (hfull : ¬text.length + 1 < finshCmdSize) :
    strend (Function.update line text.length 0x3b) 0 = none := by
  have hshort := h.short
  rw [strend, List.find?_range_eq_none]
  intro i hi
  by_cases heq : i = text.length
  · rw [heq, Function.update_self]
    simp
  · rw [Function.update_of_ne heq]
    simpa using h.ne_zero (by omega)

theorem Inv.endOfLine (h : Inv s e) {msh : Bool}
    (hroom : msh = true ∨ s.linePosition + 1 < finshCmdSize) :
    ∃ s' call, endOfLine s msh = some (s', call) ∧ Inv s' e.enter ∧
      Handed .enter msh e.cursor.text call := by
  obtain ⟨s', hs', hline, hposition, hinv⟩ := h.shellPushHistory
  rw [Shell.endOfLine, hs', Option.bind_eq_bind, Option.bind_some]
  rcases msh with _ | _
  · have hroom' : e.cursor.text.length + 1 < finshCmdSize := by
      rw [← h.position]
      exact hroom.resolve_left Bool.false_ne_true
    have hrow := h.line.semicolon hroom'
    rw [if_neg Bool.false_ne_true, hposition, h.position, hline, put, if_pos h.line.short,
      Option.bind_eq_bind, Option.bind_some]
    by_cases hzero : e.cursor.text.length = 0
    · rw [if_pos hzero]
      exact ⟨_, _, rfl, hinv, Bool.false_ne_true, List.length_eq_zero_iff.mp hzero⟩
    · rw [if_neg hzero, hrow.strend (Nat.zero_le _)]
      exact ⟨_, _, rfl, hinv, Bool.false_ne_true, fun hnil ↦ hzero (by rw [hnil]; rfl), hrow.holds⟩
  · rw [if_pos rfl]
    refine ⟨_, _, rfl, hinv, rfl, ?_, hposition.trans h.position⟩
    rw [hline]
    exact h.line.holds

theorem Inv.endOfLine_full (h : Inv s e) (hfull : ¬s.linePosition + 1 < finshCmdSize) :
    Shell.endOfLine s false = none := by
  obtain ⟨s', hs', hline, hposition, -⟩ := h.shellPushHistory
  have hfull' : ¬e.cursor.text.length + 1 < finshCmdSize := h.position ▸ hfull
  have hsize : finshCmdSize = 80 := rfl
  rw [Shell.endOfLine, hs', Option.bind_eq_bind, Option.bind_some, if_neg Bool.false_ne_true,
    hposition, h.position, hline, put, if_pos h.line.short, Option.bind_eq_bind, Option.bind_some,
    if_neg (by omega), strend_semicolon h.line hfull']
  rfl

end Ends


def strike (s : FinshShell) (msh : Bool) : Key → Option (FinshShell × Option Call)
  | .up => quiet (upKey s)
  | .down => quiet (downKey s)
  | .left => quiet (leftKey s)
  | .right => quiet (rightKey s)
  | .tab => quiet (tabKey s)
  | .backspace => quiet (backspaceKey s)
  | .enter => endOfLine s msh
  | .char ch => quiet (insertChar (discardLarge s) ch)
  | .ignored => some (s, none)

theorem character_eq : character s i = strike s i.msh (plainKey i.ch) := by
  simp only [character, plainKey]
  split_ifs <;> rfl

theorem finshThreadEntry_eq : finshThreadEntry s i =
    strike { s with stat := (decode s.stat i.ch).1 } i.msh (decode s.stat i.ch).2 := by
  rcases s with ⟨stat, echoMode, currentHistory, historyCount, cmdHistory, line, position, curpos⟩
  rw [finshThreadEntry, decode.eq_def]
  by_cases hescape : i.ch = 0x1b
  · rw [if_pos hescape, if_pos hescape]
    rfl
  rw [if_neg hescape, if_neg hescape]
  cases stat with
  | waitNormal => exact character_eq
  | waitSpecKey =>
    by_cases hbracket : i.ch = 0x5b
    · simp only [if_pos hbracket, if_true]
      rfl
    · simp only [if_neg hbracket, if_true]
      exact character_eq
  | waitFuncKey =>
    simp only [functionKey, if_true, reduceCtorEq, if_false]
    split_ifs <;> first | rfl | exact character_eq

theorem plainKey_char {b : UInt8} (h : plainKey b = .char ch) : ch ≠ 0 := by
  rw [plainKey] at h
  split_ifs at h with hnone
  cases h
  exact fun hzero ↦ hnone (.inl hzero)

theorem decode_char {stat : InputStat} {b : UInt8} (h : (decode stat b).2 = .char ch) : ch ≠ 0 := by
  simp only [decode, functionKey] at h
  split at h
  · cases h
  · split at h
    · exact plainKey_char h
    · split at h
      · cases h
      · exact plainKey_char h
    · split_ifs at h
      exact plainKey_char h

theorem quiet_some {r : Option FinshShell} {e' : Editor} (h : ∃ s', r = some s' ∧ Inv s' e') :
    ∃ s' call, quiet r = some (s', call) ∧ Inv s' e' ∧ call = none := by
  obtain ⟨s', rfl, hinv⟩ := h
  exact ⟨s', none, rfl, hinv, rfl⟩

theorem Inv.strike (h : Inv s e) (key : Key) (msh : Bool)
    (hchar : ∀ ch, key = .char ch → ch ≠ 0 ∧ s.linePosition + 1 < finshCmdSize)
    (hends : key = .enter → msh = true ∨ s.linePosition + 1 < finshCmdSize) :
    ∃ s' call, strike s msh key = some (s', call) ∧ Inv s' (e.press key) ∧
      Handed key msh e.cursor.text call := by
  cases key with
  | up => exact quiet_some h.upKey
  | down => exact quiet_some h.downKey
  | left => exact quiet_some h.leftKey
  | right => exact quiet_some h.rightKey
  | tab => exact quiet_some h.tabKey
  | backspace => exact quiet_some h.backspaceKey
  | enter => exact h.endOfLine (hends rfl)
  | char ch =>
    obtain ⟨hch, hroom⟩ := hchar ch rfl
    rw [LineEditor.strike, h.discardLarge]
    exact quiet_some (h.insertChar hch hroom)
  | ignored => exact ⟨s, none, rfl, h, rfl⟩

variable {x : System}

theorem Inv.faithful (h : Inv x.shell x.editor) (hfits : Fits x.shell i) :
    Inv (step x i).shell (step x i).editor ∧ Faithful x i := by
  have hdecode : decode x.shell.stat i.ch = decode x.editor.stat i.ch := by rw [h.stat]
  rw [Fits, hdecode] at hfits
  have heq := finshThreadEntry_eq (s := x.shell) (i := i)
  rw [hdecode] at heq
  obtain ⟨s', call, hstrike, hinv, hhanded⟩ :=
    (h.listens (decode x.editor.stat i.ch).1).strike (decode x.editor.stat i.ch).2 i.msh
      (fun ch hkey ↦ ⟨decode_char hkey, by rwa [hkey] at hfits⟩) (fun hkey ↦ by rwa [hkey] at hfits)
  rw [← heq] at hstrike
  refine ⟨?_, s', call, hstrike, hinv.sound, hhanded⟩
  have hshell : (step x i).shell = s' := by rw [step, hstrike]; rfl
  rw [hshell]
  exact hinv

theorem Inv.fits_of_faithful (h : Inv x.shell x.editor) (hfaithful : Faithful x i) :
    Fits x.shell i := by
  obtain ⟨s', call, hs', hsound, -⟩ := hfaithful
  rw [finshThreadEntry_eq] at hs'
  have hinv := h.listens (decode x.shell.stat i.ch).1
  rw [Fits]
  cases hkey : (decode x.shell.stat i.ch).2 with
  | char ch =>
    rw [hkey, LineEditor.strike, hinv.discardLarge] at hs'
    obtain ⟨s'', hs'', heq⟩ := Option.bind_eq_some_iff.mp hs'
    cases heq
    by_contra hfull
    obtain ⟨hposition, hline⟩ := hinv.overflows (decode_char hkey) hfull hs''
    have hends := hsound.line.2
    rw [← hsound.length, hposition] at hends
    exact hline hends
  | enter =>
    by_contra hfull
    obtain ⟨hmsh, hroom⟩ := not_or.mp hfull
    rw [hkey, LineEditor.strike, Bool.eq_false_iff.mpr hmsh,
      hinv.endOfLine_full hroom] at hs'
    cases hs'
  | _ => trivial

/-- The line editor is faithful as long as no character would be the 80th of its line, and no
line of 79 ends while `msh` is not used. -/
theorem edits_iff (echoMode : Bool) (inputs : List Input) :
    Along step Faithful (start echoMode) inputs ↔
      Along step (fun x i ↦ Fits x.shell i) (start echoMode) inputs :=
  along_congr (I := fun x ↦ Inv x.shell x.editor) (fun _ _ h hfits ↦ (h.faithful hfits).1)
    (fun _ _ h ↦ ⟨h.fits_of_faithful, fun hfits ↦ (h.faithful hfits).2⟩) (inv_start echoMode) inputs

section Overflow

def letter : Input := ⟨0x61, true⟩

theorem decode_letter : decode .waitNormal letter.ch = (.waitNormal, .char 0x61) := by decide

theorem typed (n : ℕ) (hn : n < finshCmdSize) :
    Inv ((List.replicate n letter).foldl step (start true)).shell
        ((List.replicate n letter).foldl step (start true)).editor ∧
      ((List.replicate n letter).foldl step (start true)).editor.stat = .waitNormal ∧
      ((List.replicate n letter).foldl step (start true)).editor.cursor.text.length = n := by
  induction n with
  | zero => exact ⟨inv_start true, rfl, rfl⟩
  | succ n ih =>
    obtain ⟨hinv, hstat, hlength⟩ := ih (by omega)
    rw [List.replicate_succ', List.foldl_append, List.foldl_cons, List.foldl_nil]
    have hfits : Fits ((List.replicate n letter).foldl step (start true)).shell letter := by
      rw [Fits, hinv.stat, hstat, decode_letter]
      show _ + 1 < finshCmdSize
      rwa [hinv.position, hlength]
    refine ⟨(hinv.faithful hfits).1, ?_, ?_⟩
    · rw [step, Editor.input, hstat, decode_letter, Editor.press, if_pos (by rwa [hlength])]
    · rw [step, Editor.input, hstat, decode_letter, Editor.press, if_pos (by rwa [hlength])]
      exact length_insert.trans (congrArg (· + 1) hlength)

theorem typed_too_long {n : ℕ} (hn : n + 1 = finshCmdSize) :
    ¬Along step Faithful (start true) (List.replicate (n + 1) letter) := by
  intro hall
  have hfits := (edits_iff true _).mp hall
  obtain ⟨hinv, hstat, hlength⟩ := typed n (by omega)
  rw [List.replicate_succ', along_append, along_cons] at hfits
  obtain ⟨-, hlast, -⟩ := hfits
  rw [Fits, hinv.stat, hstat, decode_letter] at hlast
  have hlt : _ + 1 < finshCmdSize := hlast
  rw [hinv.position, hlength] at hlt
  omega

/-- A line of 80 letters. -/
theorem not_edits : ¬Along step Faithful (start true) (List.replicate 80 letter) :=
  typed_too_long rfl

end Overflow

end GiantGecko.Finsh.LineEditor
