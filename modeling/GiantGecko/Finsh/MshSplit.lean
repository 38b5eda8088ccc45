import Mathlib.Data.List.TakeWhile
import Mathlib.Logic.Function.Basic
import Mathlib.Data.Nat.Notation

namespace GiantGecko.Finsh.MshSplit

def finshArgMax : ℕ := 10

def quote : UInt8 := 34

def backslash : UInt8 := 92

def isBlank (b : UInt8) : Bool := b = 32 || b = 9

section Code

/-! `cmd` holds the bytes from the start of the line on, and `position` stands for `ptr` as well,
which moves with it. There is no result where a byte outside `cmd[0..length]` is read or one outside
`cmd[0..length)` written, or where the turns of a loop are too few. -/

variable (length : ℕ)

def load (cmd : ℕ → UInt8) (i : ℕ) : Option UInt8 := if i ≤ length then some (cmd i) else none

def store (i : ℕ) (b : UInt8) (cmd : ℕ → UInt8) : Option (ℕ → UInt8) :=
  if i < length then some (Function.update cmd i b) else none

def stripBlanks : ℕ → ℕ → (ℕ → UInt8) → Option (ℕ × (ℕ → UInt8))
  | 0, _, _ => none
  | turns + 1, position, cmd => do
    let b ← load length cmd position
    if isBlank b ∧ position < length then
      let cmd ← store length position 0 cmd
      stripBlanks turns (position + 1) cmd
    else some (position, cmd)

def skipString : ℕ → ℕ → (ℕ → UInt8) → Option ℕ
  | 0, _, _ => none
  | turns + 1, position, cmd => do
    let b ← load length cmd position
    if b ≠ quote ∧ position < length then
      if b = backslash then
        let next ← load length cmd (position + 1)
        if next = quote then skipString turns (position + 2) cmd
        else skipString turns (position + 1) cmd
      else skipString turns (position + 1) cmd
    else some position

def skipWord : ℕ → ℕ → (ℕ → UInt8) → Option ℕ
  | 0, _, _ => none
  | turns + 1, position, cmd => do
    let b ← load length cmd position
    if isBlank b = false ∧ position < length then skipWord turns (position + 1) cmd
    else some position

def cString : ℕ → ℕ → (ℕ → UInt8) → Option (List UInt8)
  | 0, _, _ => none
  | turns + 1, i, cmd => do
    let b ← load length cmd i
    if b = 0 then some [] else (cString turns (i + 1) cmd).map (b :: ·)

/-- The entries of `argv` by their places in the line, the line afterwards, and the
arguments that are printed where there are too many. -/
structure Split where
  argv : List ℕ
  cmd : ℕ → UInt8
  printed : Option (List (List UInt8))

def splitLoop : ℕ → ℕ → (ℕ → UInt8) → List ℕ → Option Split
  | 0, _, _, _ => none
  | turns + 1, position, cmd, argv =>
    if position < length then do
      let (position, cmd) ← stripBlanks length turns position cmd
      if finshArgMax ≤ argv.length then
        let printed ← argv.mapM fun i ↦ cString length (length + 1) i cmd
        some ⟨argv, cmd, some printed⟩
      else if length ≤ position then some ⟨argv, cmd, none⟩
      else
        let b ← load length cmd position
        if b = quote then
          let stop ← skipString length turns (position + 1) cmd
          if length ≤ stop then some ⟨argv ++ [position + 1], cmd, none⟩
          else
            let cmd ← store length stop 0 cmd
            splitLoop turns (stop + 1) cmd (argv ++ [position + 1])
        else
          let stop ← skipWord length turns position cmd
          if length ≤ stop then some ⟨argv ++ [position], cmd, none⟩
          else splitLoop turns stop cmd (argv ++ [position])
    else some ⟨argv, cmd, none⟩

end Code

/-- Each turn gets on by one byte at least. -/
def mshSplit (cmd : ℕ → UInt8) (length : ℕ) : Option Split := splitLoop length (length + 2) 0 cmd []

structure Token where
  start : ℕ
  text : List UInt8

/-- The bytes up to the next double quote not directly preceded by a backslash. -/
def quoted : UInt8 → List UInt8 → List UInt8
  | _, [] => []
  | before, b :: bs => if b = quote ∧ before ≠ backslash then [] else b :: quoted b bs

def unquoted (bs : List UInt8) : List UInt8 := bs.takeWhile fun b ↦ !isBlank b

/-- The tokens of a line whose first byte is at place `i`. -/
def tokens (i : ℕ) : List UInt8 → List Token
  | [] => []
  | b :: bs =>
    if isBlank b then tokens (i + 1) bs
    else if b = quote then
      ⟨i + 1, quoted quote bs⟩ ::
        tokens (i + (quoted quote bs).length + 2) (bs.drop ((quoted quote bs).length + 1))
    else
      ⟨i, b :: unquoted bs⟩ :: tokens (i + (unquoted bs).length + 1) (bs.drop (unquoted bs).length)
termination_by bs => bs.length
decreasing_by
  · exact Nat.lt_succ_self _
  · rw [List.length_drop, List.length_cons]
    omega
  · rw [List.length_drop, List.length_cons]
    omega

def lineAt (line : List UInt8) (rest : ℕ → UInt8) (i : ℕ) : UInt8 :=
  if h : i < line.length then line.get ⟨i, h⟩ else if i = line.length then 0 else rest i

structure Terminated (cmd : ℕ → UInt8) (t : Token) : Prop where
  text : ∀ j (h : j < t.text.length), cmd (t.start + j) = t.text[j]
  whole : 0 ∉ t.text
  stop : cmd (t.start + t.text.length) = 0

/-- The entries are the first tokens in order, each terminated in the line; what lies
behind the line is as before. -/
structure Splits (line : List UInt8) (cmd : ℕ → UInt8) (r : Split) : Prop where
  argv : r.argv = ((tokens 0 line).take finshArgMax).map Token.start
  inside : ∀ i ∈ r.argv, i ≤ line.length
  terminated : ∀ t ∈ (tokens 0 line).take finshArgMax, Terminated r.cmd t
  outside : ∀ i, line.length ≤ i → r.cmd i = cmd i

def Reads (length : ℕ) (cmd : ℕ → UInt8) : ℕ → List UInt8 → Prop
  | p, [] => p = length ∧ cmd p = 0
  | p, b :: bs => p < length ∧ cmd p = b ∧ Reads length cmd (p + 1) bs

variable {length p i turns : ℕ} {cmd : ℕ → UInt8} {bs : List UInt8} {b before : UInt8}

theorem Reads.length_eq (h : Reads length cmd p bs) : p + bs.length = length := by
  induction bs generalizing p with
  | nil => exact h.1
  | cons b bs ih =>
    have hrest := ih h.2.2
    rw [List.length_cons]
    omega

theorem Reads.stop (h : Reads length cmd p bs) : cmd length = 0 := by
  induction bs generalizing p with
  | nil => rw [← h.1, h.2]
  | cons b bs ih => exact ih h.2.2

theorem Reads.getElem (h : Reads length cmd p bs) {j : ℕ} (hj : j < bs.length) :
    cmd (p + j) = bs[j] := by
  induction bs generalizing p j with
  | nil => exact absurd hj (Nat.not_lt_zero j)
  | cons b bs ih =>
    cases j with
    | zero => exact h.2.1
    | succ j =>
      rw [List.getElem_cons_succ, ← ih h.2.2 (Nat.lt_of_succ_lt_succ hj)]
      congr 1
      omega

theorem Reads.drop (h : Reads length cmd p bs) {k : ℕ} (hk : k ≤ bs.length) :
    Reads length cmd (p + k) (bs.drop k) := by
  induction k generalizing p bs with
  | zero => exact h
  | succ k ih =>
    cases bs with
    | nil => exact absurd hk (Nat.not_succ_le_zero k)
    | cons b bs =>
      have hrest := ih h.2.2 (Nat.le_of_succ_le_succ hk)
      rwa [Nat.add_right_comm] at hrest

theorem Reads.congr {cmd' : ℕ → UInt8} (h : Reads length cmd p bs)
    (hsame : ∀ i, p ≤ i → cmd' i = cmd i) : Reads length cmd' p bs := by
  induction bs generalizing p with
  | nil => exact ⟨h.1, (hsame p (Nat.le_refl p)).trans h.2⟩
  | cons b bs ih =>
    exact ⟨h.1, (hsame p (Nat.le_refl p)).trans h.2.1,
      ih h.2.2 fun i hi ↦ hsame i (Nat.le_of_succ_le hi)⟩

theorem load_of_le (h : i ≤ length) : load length cmd i = some (cmd i) := if_pos h

theorem store_of_lt (h : i < length) : store length i b cmd = some (Function.update cmd i b) :=
  if_pos h

theorem stripBlanks_succ (h : p ≤ length) : stripBlanks length (turns + 1) p cmd =
    if isBlank (cmd p) ∧ p < length then
      stripBlanks length turns (p + 1) (Function.update cmd p 0)
    else some (p, cmd) := by
  simp only [stripBlanks, load_of_le h, Option.bind_eq_bind, Option.bind_some]
  split_ifs with hblank
  · rw [store_of_lt hblank.2, Option.bind_some]
  · rfl

theorem skipWord_succ (h : p ≤ length) : skipWord length (turns + 1) p cmd =
    if isBlank (cmd p) = false ∧ p < length then skipWord length turns (p + 1) cmd else some p := by
  simp only [skipWord, load_of_le h, Option.bind_eq_bind, Option.bind_some]

theorem skipString_succ (h : p ≤ length) : skipString length (turns + 1) p cmd =
    if cmd p ≠ quote ∧ p < length then
      if cmd p = backslash ∧ cmd (p + 1) = quote then skipString length turns (p + 2) cmd
      else skipString length turns (p + 1) cmd
    else some p := by
  simp only [skipString, load_of_le h, Option.bind_eq_bind, Option.bind_some]
  by_cases hgo : cmd p ≠ quote ∧ p < length
  · have hnext : p + 1 ≤ length := hgo.2
    by_cases hback : cmd p = backslash
    · simp only [hback, if_true, true_and, load_of_le hnext, Option.bind_some]
    · simp only [if_pos hgo, hback, false_and, if_false]
  · simp only [if_neg hgo]

theorem exists_turns (h : bs.length < turns) : ∃ n, turns = n + 1 ∧ bs.length ≤ n :=
  ⟨turns - 1, by omega, by omega⟩

theorem stripBlanks_eq (turns : ℕ) (h : Reads length cmd p bs) (hturns : bs.length < turns) :
    ∃ cmd', stripBlanks length turns p cmd = some (p + (bs.takeWhile isBlank).length, cmd') ∧
      Reads length cmd' (p + (bs.takeWhile isBlank).length) (bs.dropWhile isBlank) ∧
      ∀ i, cmd' i = if p ≤ i ∧ i < p + (bs.takeWhile isBlank).length then 0 else cmd i := by
  induction bs generalizing p cmd turns with
  | nil =>
    obtain ⟨turns, rfl, -⟩ := exists_turns hturns
    refine ⟨cmd, ?_, h, fun i ↦ ?_⟩
    · rw [stripBlanks_succ (Nat.le_of_eq h.1), if_neg fun hgo ↦ absurd h.1 (Nat.ne_of_lt hgo.2)]
      rfl
    · rw [if_neg]
      simp only [List.takeWhile_nil, List.length_nil]
      omega
  | cons b bs ih =>
    obtain ⟨turns, rfl, hle⟩ := exists_turns hturns
    rw [stripBlanks_succ (Nat.le_of_lt h.1), h.2.1]
    cases hblank : isBlank b with
    | false =>
      refine ⟨cmd, ?_, ?_, fun i ↦ ?_⟩
      · simp [hblank]
      · simpa [hblank] using h
      · rw [if_neg]
        simp only [List.takeWhile_cons, hblank, Bool.false_eq_true, if_false, List.length_nil]
        omega
    | true =>
      have hrest : Reads length (Function.update cmd p 0) (p + 1) bs :=
        h.2.2.congr fun i hi ↦ Function.update_of_ne (by omega) _ _
      obtain ⟨cmd', hstrip, hreads, hcmd⟩ := ih turns hrest hle
      have hcount : p + ((b :: bs).takeWhile isBlank).length =
          p + 1 + (bs.takeWhile isBlank).length := by
        simp only [List.takeWhile_cons, hblank, if_true, List.length_cons]
        omega
      rw [if_pos ⟨rfl, h.1⟩, hcount, List.dropWhile_cons, if_pos hblank]
      refine ⟨cmd', hstrip, hreads, fun i ↦ ?_⟩
      rw [hcmd]
      obtain rfl | hne := eq_or_ne i p
      · rw [if_neg (by omega), if_pos (by omega), Function.update_self]
      · rw [Function.update_of_ne hne]
        refine if_congr ?_ rfl rfl
        omega

theorem skipWord_eq (turns : ℕ) (h : Reads length cmd p bs) (hturns : bs.length < turns) :
    skipWord length turns p cmd = some (p + (unquoted bs).length) := by
  induction bs generalizing p turns with
  | nil =>
    obtain ⟨turns, rfl, -⟩ := exists_turns hturns
    rw [skipWord_succ (Nat.le_of_eq h.1), if_neg fun hgo ↦ absurd h.1 (Nat.ne_of_lt hgo.2)]
    rfl
  | cons b bs ih =>
    obtain ⟨turns, rfl, hle⟩ := exists_turns hturns
    rw [skipWord_succ (Nat.le_of_lt h.1), h.2.1, unquoted, List.takeWhile_cons]
    cases hblank : isBlank b with
    | true => simp
    | false =>
      rw [if_pos ⟨rfl, h.1⟩, ih turns h.2.2 hle, if_pos (by rfl), List.length_cons, unquoted]
      congr 1
      omega

/-- The loop never comes to a double quote that a backslash stands before. -/
theorem skipString_eq (before : UInt8) (turns : ℕ) (h : Reads length cmd p bs)
    (hturns : bs.length < turns)
    (hbefore : bs.head? = some quote → before ≠ backslash) :
    skipString length turns p cmd = some (p + (quoted before bs).length) := by
  induction hn : bs.length using Nat.strong_induction_on generalizing p bs before turns with
  | h n ih =>
    obtain ⟨turns, rfl, hle⟩ := exists_turns hturns
    cases bs with
    | nil =>
      rw [skipString_succ (Nat.le_of_eq h.1), if_neg fun hgo ↦ absurd h.1 (Nat.ne_of_lt hgo.2)]
      rfl
    | cons b bs =>
      rw [skipString_succ (Nat.le_of_lt h.1), h.2.1, quoted]
      rw [List.length_cons] at hle hn
      by_cases hquote : b = quote
      · subst hquote
        rw [if_neg fun hgo ↦ hgo.1 rfl, if_pos ⟨rfl, hbefore rfl⟩]
        rfl
      · have hbody : ¬(b = quote ∧ before ≠ backslash) := fun hend ↦ hquote hend.1
        rw [if_pos ⟨hquote, h.1⟩, if_neg hbody, List.length_cons]
        by_cases hescape : b = backslash ∧ cmd (p + 1) = quote
        · rw [if_pos hescape]
          obtain ⟨rfl, hnext⟩ := hescape
          cases bs with
          | nil =>
            rw [h.2.2.2] at hnext
            cases hnext
          | cons c cs =>
            obtain rfl : c = quote := h.2.2.2.1.symm.trans hnext
            rw [List.length_cons] at hle hn
            have hrest := ih cs.length (by omega) quote turns h.2.2.2.2 (by omega)
              (fun _ ↦ by decide) rfl
            have hbody : ¬(quote = quote ∧ backslash ≠ backslash) := fun hend ↦ hend.2 rfl
            rw [quoted, if_neg hbody, List.length_cons, hrest]
            congr 1
            omega
        · have hnext : bs.head? = some quote → b ≠ backslash := by
            intro hhead hback
            refine hescape ⟨hback, ?_⟩
            cases bs with
            | nil => cases hhead
            | cons c cs =>
              rw [h.2.2.2.1]
              exact Option.some.inj hhead
          rw [if_neg hescape, ih bs.length (by omega) b turns h.2.2 (by omega) hnext rfl]
          congr 1
          omega

theorem cString_isSome {i : ℕ} (hstop : cmd length = 0) (hi : i ≤ length) (hturns : length - i < turns) :
    (cString length turns i cmd).isSome := by
  induction turns generalizing i with
  | zero => exact absurd hturns (Nat.not_lt_zero _)
  | succ turns ih =>
    simp only [cString, load_of_le hi, Option.bind_eq_bind, Option.bind_some]
    split_ifs with hzero
    · rfl
    · have hlt : i < length := by
        refine Nat.lt_of_le_of_ne hi ?_
        rintro rfl
        exact hzero hstop
      rw [Option.isSome_map]
      exact ih hlt (by omega)

theorem exists_mapM {f : ℕ → Option (List UInt8)} {l : List ℕ} (h : ∀ i ∈ l, (f i).isSome) :
    ∃ texts, l.mapM f = some texts := by
  induction l with
  | nil => exact ⟨[], rfl⟩
  | cons i l ih =>
    obtain ⟨text, htext⟩ := Option.isSome_iff_exists.mp (h i List.mem_cons_self)
    obtain ⟨texts, htexts⟩ := ih fun j hj ↦ h j (List.mem_cons_of_mem i hj)
    exact ⟨text :: texts, by simp [htext, htexts]⟩

theorem tokens_nil (i : ℕ) : tokens i [] = [] := by rw [tokens]

theorem tokens_strip (p : ℕ) (bs : List UInt8) :
    tokens p bs = tokens (p + (bs.takeWhile isBlank).length) (bs.dropWhile isBlank) := by
  induction bs generalizing p with
  | nil => rfl
  | cons b bs ih =>
    cases hblank : isBlank b with
    | false => simp [hblank]
    | true =>
      rw [tokens, if_pos hblank, ih, List.takeWhile_cons, List.dropWhile_cons, if_pos hblank,
        if_pos hblank, List.length_cons]
      congr 1
      omega

theorem tokens_quote (p : ℕ) (bs : List UInt8) : tokens p (quote :: bs) = ⟨p + 1, quoted quote bs⟩ ::
    tokens (p + 1 + (quoted quote bs).length + 1) (bs.drop ((quoted quote bs).length + 1)) := by
  rw [tokens, if_neg (by decide), if_pos rfl]
  congr 2
  omega

theorem tokens_word (p : ℕ) (hblank : isBlank b = false) (hquote : b ≠ quote) :
    tokens p (b :: bs) = ⟨p, unquoted (b :: bs)⟩ ::
      tokens (p + (unquoted (b :: bs)).length) ((b :: bs).drop (unquoted (b :: bs)).length) := by
  have hword : unquoted (b :: bs) = b :: unquoted bs := by
    simp [unquoted, hblank]
  rw [tokens, if_neg (by simp [hblank]), if_neg hquote, hword, List.length_cons, List.drop_succ_cons]
  rfl

theorem quoted_prefix (before : UInt8) (bs : List UInt8) : quoted before bs <+: bs := by
  induction bs generalizing before with
  | nil => exact List.prefix_refl _
  | cons b bs ih =>
    rw [quoted]
    split_ifs
    · exact List.nil_prefix
    · exact List.cons_prefix_cons.mpr ⟨rfl, ih b⟩

theorem unquoted_prefix (bs : List UInt8) : unquoted bs <+: bs := List.takeWhile_prefix _

/-- Where a token has been found it ends in a NUL, or in a blank that is to become one. -/
structure Found (cmd : ℕ → UInt8) (p : ℕ) (bs : List UInt8) (t : Token) : Prop where
  text : ∀ j (h : j < t.text.length), cmd (t.start + j) = t.text[j]
  whole : 0 ∉ t.text
  before : t.start + t.text.length ≤ p
  stop : cmd (t.start + t.text.length) = 0 ∨
    t.start + t.text.length = p ∧ (bs.takeWhile isBlank).length ≠ 0

theorem Found.terminated {cmd' : ℕ → UInt8} {t : Token} (h : Found cmd p bs t)
    (hcmd : ∀ i, cmd' i = if p ≤ i ∧ i < p + (bs.takeWhile isBlank).length then 0 else cmd i) :
    Terminated cmd' t where
  text j hj := by
    have hbefore := h.before
    rw [hcmd, if_neg (by omega)]
    exact h.text j hj
  whole := h.whole
  stop := by
    rw [hcmd]
    split_ifs with hin
    · rfl
    · obtain hzero | ⟨heq, hne⟩ := h.stop
      · exact hzero
      · exact absurd ⟨by omega, by omega⟩ hin

theorem Terminated.update {t : Token} (h : Terminated cmd t) (hi : t.start + t.text.length ≤ i) :
    Terminated (Function.update cmd i 0) t where
  text j hj := by
    rw [Function.update_of_ne (by omega)]
    exact h.text j hj
  whole := h.whole
  stop := by
    obtain rfl | hne := eq_or_ne (t.start + t.text.length) i
    · rw [Function.update_self]
    · rw [Function.update_of_ne hne, h.stop]

theorem Terminated.found {t : Token} (h : Terminated cmd t) (hp : t.start + t.text.length ≤ p)
    (bs : List UInt8) : Found cmd p bs t := ⟨h.text, h.whole, hp, .inl h.stop⟩

theorem Reads.text (h : Reads length cmd p bs) {text : List UInt8} (htext : text <+: bs) (j : ℕ)
    (hj : j < text.length) : cmd (p + j) = text[j] := by
  rw [h.getElem (Nat.lt_of_lt_of_le hj htext.length_le)]
  exact (htext.getElem hj).symm

/-- What the loop makes of the rest of the line, once it has found some tokens. -/
structure Finishes (length : ℕ) (cmd : ℕ → UInt8) (ts : List Token) (r : Split) : Prop where
  argv : r.argv = ts.map Token.start
  inside : ∀ i ∈ r.argv, i ≤ length
  terminated : ∀ t ∈ ts, Terminated r.cmd t
  outside : ∀ i, length ≤ i → r.cmd i = cmd i

theorem finishes_of_terminated {cmd' : ℕ → UInt8} {ts : List Token} {printed : Option (List (List UInt8))}
    (hterm : ∀ t ∈ ts, Terminated cmd' t) (hinside : ∀ t ∈ ts, t.start ≤ length)
    (hsame : ∀ i, length ≤ i → cmd' i = cmd i) :
    Finishes length cmd ts ⟨ts.map Token.start, cmd', printed⟩ where
  argv := rfl
  inside i hi := by
    obtain ⟨t, ht, rfl⟩ := List.mem_map.mp hi
    exact hinside t ht
  terminated := hterm
  outside := hsame

theorem Finishes.trans {cmd' : ℕ → UInt8} {ts : List Token} {r : Split}
    (h : Finishes length cmd' ts r) (hsame : ∀ i, length ≤ i → cmd' i = cmd i) :
    Finishes length cmd ts r :=
  ⟨h.argv, h.inside, h.terminated, fun i hi ↦ (h.outside i hi).trans (hsame i hi)⟩

theorem take_tokens {found : List Token} {t : Token} {ts : List Token}
    (hroom : found.length < finshArgMax) :
    found ++ (t :: ts).take (finshArgMax - found.length) =
      (found ++ [t]) ++ ts.take (finshArgMax - (found ++ [t]).length) := by
  have hcount : finshArgMax - found.length = finshArgMax - (found ++ [t]).length + 1 := by
    rw [List.length_append, List.length_singleton]
    omega
  rw [hcount, List.take_succ_cons, List.append_assoc, List.singleton_append]

theorem finishes_last {cmd' : ℕ → UInt8} {found : List Token} {t : Token} {ts : List Token}
    (hroom : found.length < finshArgMax) (hts : ts = []) (hterm : ∀ u ∈ found, Terminated cmd' u)
    (hinside : ∀ u ∈ found, u.start ≤ length) (ht : Terminated cmd' t)
    (hend : t.start + t.text.length ≤ length) (hsame : ∀ i, length ≤ i → cmd' i = cmd i) :
    Finishes length cmd (found ++ (t :: ts).take (finshArgMax - found.length))
      ⟨found.map Token.start ++ [t.start], cmd', none⟩ := by
  rw [take_tokens hroom, hts, List.take_nil, List.append_nil]
  have hargv : found.map Token.start ++ [t.start] = (found ++ [t]).map Token.start := by
    rw [List.map_append, List.map_singleton]
  rw [hargv]
  refine finishes_of_terminated (fun u hu ↦ ?_) (fun u hu ↦ ?_) hsame
  · obtain hu | hu := List.mem_append.mp hu
    · exact hterm u hu
    · rwa [List.mem_singleton.mp hu]
  · obtain hu | hu := List.mem_append.mp hu
    · exact hinside u hu
    · rw [List.mem_singleton.mp hu]
      omega

theorem head_after_word (bs : List UInt8) (h : (unquoted bs).length < bs.length) :
    ((bs.drop (unquoted bs).length).takeWhile isBlank).length ≠ 0 := by
  have hsplit : bs.drop (unquoted bs).length = bs.dropWhile fun b ↦ !isBlank b := by
    have hwhole := List.takeWhile_append_dropWhile (p := fun b ↦ !isBlank b) (l := bs)
    calc bs.drop (unquoted bs).length
        = (unquoted bs ++ bs.dropWhile fun b ↦ !isBlank b).drop (unquoted bs).length :=
          congrArg (List.drop _) hwhole.symm
      _ = bs.dropWhile fun b ↦ !isBlank b := List.drop_left' rfl
  cases hrest : bs.dropWhile fun b ↦ !isBlank b with
  | nil =>
    have hlength := congrArg List.length hsplit
    rw [hrest, List.length_drop, List.length_nil] at hlength
    omega
  | cons c cs =>
    have hhead := List.head?_dropWhile_not (fun b ↦ !isBlank b) bs
    rw [hrest] at hhead
    have hblank : isBlank c = true := by simpa using hhead
    rw [hsplit, hrest, List.takeWhile_cons, if_pos hblank]
    exact Nat.succ_ne_zero _

/-- So many turns of the loop are enough for what is left of a line. -/
def Enough (length turns : ℕ) : Prop :=
  ∀ (p : ℕ) (cmd : ℕ → UInt8) (bs : List UInt8) (found : List Token), Reads length cmd p bs →
    bs.length + 1 < turns → found.length ≤ finshArgMax → 0 ∉ bs →
      (∀ t ∈ found, Found cmd p bs t) →
        ∃ r, splitLoop length turns p cmd (found.map Token.start) = some r ∧
          Finishes length cmd (found ++ (tokens p bs).take (finshArgMax - found.length)) r

structure Stripped (length : ℕ) (cmd : ℕ → UInt8) (q : ℕ) (ds : List UInt8) (found : List Token) :
    Prop where
  reads : Reads length cmd q ds
  clean : 0 ∉ ds
  terminated : ∀ t ∈ found, Terminated cmd t
  before : ∀ t ∈ found, t.start + t.text.length ≤ q
  room : found.length < finshArgMax

section Turns

variable {turns q : ℕ} {b : UInt8} {ds : List UInt8} {found : List Token}

theorem Stripped.inside (h : Stripped length cmd q ds found) :
    ∀ t ∈ found, t.start ≤ length := by
  intro t ht
  have hbefore := h.before t ht
  have hlength := h.reads.length_eq
  omega

theorem quoted_turn (ih : Enough length turns) (h : Stripped length cmd q (quote :: ds) found)
    (hturns : ds.length + 1 < turns) :
    ∃ r, ((skipString length turns (q + 1) cmd).bind fun stop ↦
        if length ≤ stop then some ⟨found.map Token.start ++ [q + 1], cmd, none⟩
        else (store length stop 0 cmd).bind fun cmd ↦
          splitLoop length turns (stop + 1) cmd (found.map Token.start ++ [q + 1])) = some r ∧
      Finishes length cmd (found ++ (tokens q (quote :: ds)).take (finshArgMax - found.length)) r := by
  have hlt := h.reads.1
  have hlength := h.reads.length_eq
  rw [List.length_cons] at hlength
  have hskip := skipString_eq quote turns h.reads.2.2 (by omega) fun _ ↦ by decide
  have hstart := quoted_prefix quote ds
  have hle := hstart.length_le
  have htext := h.reads.2.2.text hstart
  have hwhole : 0 ∉ quoted quote ds := fun hin ↦
    h.clean (List.mem_cons_of_mem quote (hstart.subset hin))
  have hrest := h.reads.2.2.drop (k := (quoted quote ds).length + 1)
  rw [hskip, Option.bind_some, tokens_quote]
  generalize quoted quote ds = body at *
  by_cases hdone : length ≤ q + 1 + body.length
  · have hall : ds.drop (body.length + 1) = [] := List.drop_eq_nil_of_le (by omega)
    rw [if_pos hdone, hall]
    refine ⟨_, rfl, finishes_last (t := ⟨q + 1, body⟩) h.room (tokens_nil _) h.terminated h.inside
      ⟨htext, hwhole, ?_⟩ (by dsimp only; omega) fun i _ ↦ rfl⟩
    have hend : q + 1 + body.length = length := by omega
    exact (congrArg cmd hend).trans h.reads.stop
  · rw [if_neg hdone, store_of_lt (Nat.lt_of_not_le hdone), Option.bind_some, take_tokens h.room]
    have hterm : ∀ u ∈ found ++ [⟨q + 1, body⟩],
        Found (Function.update cmd (q + 1 + body.length) 0) (q + 1 + body.length + 1)
          (ds.drop (body.length + 1)) u := by
      intro u hu
      obtain hu | hu := List.mem_append.mp hu
      · have hbefore := h.before u hu
        exact ((h.terminated u hu).update (by omega)).found (by omega) _
      · rw [List.mem_singleton.mp hu]
        refine ⟨fun j hj ↦ ?_, hwhole, by dsimp only; omega, .inl (Function.update_self _ _ _)⟩
        dsimp only at hj ⊢
        rw [Function.update_of_ne (by omega)]
        exact htext j hj
    obtain ⟨r, hr, hfinish⟩ := ih _ _ _ _ ((hrest (by omega)).congr fun i hi ↦
        Function.update_of_ne (by omega) 0 cmd) (by rw [List.length_drop]; omega)
      (by rw [List.length_append, List.length_singleton]; exact h.room)
      (fun hin ↦ h.clean (List.mem_cons_of_mem quote (List.mem_of_mem_drop hin))) hterm
    refine ⟨r, by rw [← hr, List.map_append]; rfl, hfinish.trans fun i hi ↦ ?_⟩
    rw [Function.update_of_ne (by omega)]

theorem word_turn (ih : Enough length turns) (h : Stripped length cmd q (b :: ds) found)
    (hturns : ds.length + 1 < turns) (hblank : isBlank b = false) (hquote : b ≠ quote) :
    ∃ r, ((skipWord length turns q cmd).bind fun stop ↦
        if length ≤ stop then some ⟨found.map Token.start ++ [q], cmd, none⟩
        else splitLoop length turns stop cmd (found.map Token.start ++ [q])) = some r ∧
      Finishes length cmd (found ++ (tokens q (b :: ds)).take (finshArgMax - found.length)) r := by
  have hlt := h.reads.1
  have hlength := h.reads.length_eq
  have hskip := skipWord_eq turns h.reads (by rw [List.length_cons]; omega)
  have hstart := unquoted_prefix (b :: ds)
  have hle := hstart.length_le
  have htext := h.reads.text hstart
  have hwhole : 0 ∉ unquoted (b :: ds) := fun hin ↦ h.clean (hstart.subset hin)
  have hrest := h.reads.drop hle
  have hpos : 0 < (unquoted (b :: ds)).length := by
    simp [unquoted, hblank]
  have hafter := head_after_word (b :: ds)
  rw [hskip, Option.bind_some, tokens_word q hblank hquote]
  generalize unquoted (b :: ds) = word at *
  rw [List.length_cons] at hle hafter hlength
  by_cases hdone : length ≤ q + word.length
  · have hall : (b :: ds).drop word.length = [] :=
      List.drop_eq_nil_of_le (by rw [List.length_cons]; omega)
    rw [if_pos hdone, hall]
    refine ⟨_, rfl, finishes_last (t := ⟨q, word⟩) h.room (tokens_nil _) h.terminated h.inside
      ⟨htext, hwhole, ?_⟩ (by dsimp only; omega) fun i _ ↦ rfl⟩
    have hend : q + word.length = length := by omega
    exact (congrArg cmd hend).trans h.reads.stop
  · rw [if_neg hdone, take_tokens h.room]
    have hterm : ∀ u ∈ found ++ [⟨q, word⟩],
        Found cmd (q + word.length) ((b :: ds).drop word.length) u := by
      intro u hu
      obtain hu | hu := List.mem_append.mp hu
      · have hbefore := h.before u hu
        exact (h.terminated u hu).found (by omega) _
      · rw [List.mem_singleton.mp hu]
        exact ⟨htext, hwhole, Nat.le_refl _, .inr ⟨rfl, hafter (by omega)⟩⟩
    obtain ⟨r, hr, hfinish⟩ := ih _ _ _ _ hrest (by rw [List.length_drop, List.length_cons]; omega)
      (by rw [List.length_append, List.length_singleton]; exact h.room)
      (fun hin ↦ h.clean (List.mem_of_mem_drop hin)) hterm
    exact ⟨r, by rw [← hr, List.map_append]; rfl, hfinish⟩

end Turns

theorem finishes_end {found : List Token} (hfound : ∀ t ∈ found, Found cmd length [] t) :
    Finishes length cmd found ⟨found.map Token.start, cmd, none⟩ := by
  refine finishes_of_terminated (fun t ht ↦ ?_) (fun t ht ↦ ?_) fun i _ ↦ rfl
  · exact (hfound t ht).terminated fun i ↦ by
      rw [if_neg]
      simp only [List.takeWhile_nil, List.length_nil]
      omega
  · have hbefore := (hfound t ht).before
    omega

theorem exists_printed {found : List Token} (hstop : cmd length = 0)
    (hinside : ∀ t ∈ found, t.start ≤ length) :
    ∃ printed, (found.map Token.start).mapM (cString length (length + 1) · cmd) = some printed := by
  refine exists_mapM fun i hi ↦ ?_
  obtain ⟨t, ht, rfl⟩ := List.mem_map.mp hi
  exact cString_isSome hstop (hinside t ht) (by omega)

/-- Induction on the turns, each of which strips blanks and takes a token. -/
theorem enough (turns : ℕ) : Enough length turns := by
  induction turns with
  | zero => exact fun _ _ _ _ _ hturns ↦ absurd hturns (Nat.not_lt_zero _)
  | succ turns ih =>
    intro p cmd bs found hreads hturns hmax hclean hfound
    have hlength := hreads.length_eq
    by_cases hlt : p < length
    case neg =>
      obtain rfl : bs = [] := List.eq_nil_of_length_eq_zero (by omega)
      obtain rfl : p = length := hreads.1
      rw [splitLoop, if_neg hlt, tokens_nil, List.take_nil, List.append_nil]
      exact ⟨_, rfl, finishes_end hfound⟩
    case pos =>
    obtain ⟨cmd', hstrip, hreads', hcmd⟩ := stripBlanks_eq turns hreads (by omega)
    have hterm : ∀ t ∈ found, Terminated cmd' t := fun t ht ↦ (hfound t ht).terminated hcmd
    have hbefore : ∀ t ∈ found, t.start + t.text.length ≤ p + (bs.takeWhile isBlank).length :=
      fun t ht ↦ Nat.le_trans (hfound t ht).before (Nat.le_add_right _ _)
    have hsame : ∀ i, length ≤ i → cmd' i = cmd i := fun i hi ↦ by
      have hlength' := hreads'.length_eq
      rw [hcmd, if_neg (by omega)]
    have hclean' : 0 ∉ bs.dropWhile isBlank := fun hin ↦ hclean ((List.dropWhile_subset _) hin)
    have hhead : ∀ c cs, bs.dropWhile isBlank = c :: cs → isBlank c = false := by
      intro c cs heq
      have hnot := List.head?_dropWhile_not isBlank bs
      rw [heq] at hnot
      simpa using hnot
    have hless : (bs.dropWhile isBlank).length ≤ bs.length := List.length_dropWhile_le ..
    rw [tokens_strip]
    simp only [splitLoop, if_pos hlt, hstrip, Option.bind_eq_bind, Option.bind_some]
    generalize p + (bs.takeWhile isBlank).length = q at *
    generalize bs.dropWhile isBlank = ds at *
    have hinside : ∀ t ∈ found, t.start ≤ length := fun t ht ↦ by
      have hlength' := hreads'.length_eq
      have hend := hbefore t ht
      omega
    by_cases hfull : finshArgMax ≤ (found.map Token.start).length
    · rw [if_pos hfull]
      rw [List.length_map] at hfull
      obtain ⟨printed, hprinted⟩ := exists_printed hreads'.stop hinside
      rw [hprinted, Nat.sub_eq_zero_of_le hfull, List.take_zero, List.append_nil]
      exact ⟨_, rfl, finishes_of_terminated hterm hinside hsame⟩
    · rw [if_neg hfull]
      rw [List.length_map, not_le] at hfull
      cases ds with
      | nil =>
        obtain rfl := hreads'.1
        rw [if_pos (Nat.le_refl _), tokens_nil, List.take_nil, List.append_nil]
        exact ⟨_, rfl, finishes_of_terminated hterm hinside hsame⟩
      | cons b ds =>
        have hlt' := hreads'.1
        rw [List.length_cons] at hless
        rw [if_neg (Nat.not_le.mpr hlt'), load_of_le (Nat.le_of_lt hlt'), Option.bind_some,
          hreads'.2.1]
        have hstripped : Stripped length cmd' q (b :: ds) found :=
          ⟨hreads', hclean', hterm, hbefore, hfull⟩
        by_cases hquote : b = quote
        · subst hquote
          rw [if_pos rfl]
          obtain ⟨r, hr, hfinish⟩ := quoted_turn ih hstripped (by omega)
          exact ⟨r, hr, hfinish.trans hsame⟩
        · rw [if_neg hquote]
          obtain ⟨r, hr, hfinish⟩ := word_turn ih hstripped (by omega) (hhead b ds rfl) hquote
          exact ⟨r, hr, hfinish.trans hsame⟩

theorem reads_lineAt (line : List UInt8) (rest : ℕ → UInt8) {k : ℕ} (hk : k ≤ line.length) :
    Reads line.length (lineAt line rest) k (line.drop k) := by
  induction hn : line.length - k generalizing k with
  | zero =>
    obtain rfl : k = line.length := by omega
    rw [List.drop_length]
    exact ⟨rfl, by simp [lineAt]⟩
  | succ n ih =>
    have hlt : k < line.length := by omega
    rw [List.drop_eq_getElem_cons hlt]
    exact ⟨hlt, dif_pos hlt, ih hlt (by omega)⟩

/-- No byte outside the line with its NUL is read and none outside the line written. -/
theorem mshSplit_splits (line : List UInt8) (rest : ℕ → UInt8) (hclean : 0 ∉ line) :
    ∃ r, mshSplit (lineAt line rest) line.length = some r ∧ Splits line (lineAt line rest) r := by
  obtain ⟨r, hr, hfinish⟩ := enough (line.length + 2) 0 (lineAt line rest) line []
    (reads_lineAt line rest (Nat.zero_le _)) (Nat.lt_succ_self _) (Nat.zero_le _) hclean
    fun t ht ↦ by cases ht
  exact ⟨r, hr, hfinish.argv, hfinish.inside, hfinish.terminated, hfinish.outside⟩

/-- The line is `a  "b \" c"d`. -/
theorem mshSplit_splits_quoted : ∃ r,
    mshSplit (lineAt [97, 32, 32, 34, 98, 32, 92, 34, 32, 99, 34, 100] fun _ ↦ 255) 12 = some r ∧
      Splits [97, 32, 32, 34, 98, 32, 92, 34, 32, 99, 34, 100]
        (lineAt [97, 32, 32, 34, 98, 32, 92, 34, 32, 99, 34, 100] fun _ ↦ 255) r :=
  mshSplit_splits _ _ (by decide)

example : (mshSplit (lineAt [97, 32, 32, 34, 98, 32, 92, 34, 32, 99, 34, 100] fun _ ↦ 255) 12).map
    Split.argv = some [0, 4, 11] := by decide

end GiantGecko.Finsh.MshSplit
