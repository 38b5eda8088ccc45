import GiantGecko.Ymodem.Sender
import GiantGecko.Ymodem.Update

namespace GiantGecko.Ymodem.FileHeader

open Sender Update

def strlen : List UInt8 → ℕ
  | b :: bs => if b = 0 then 0 else strlen bs + 1
  | [] => 0

def digitsScan : List UInt8 → ℕ
  | b :: bs => if 0x30 ≤ b ∧ b ≤ 0x39 then digitsScan bs + 1 else 0
  | [] => 0

/-- How many bytes `atol` passes before it stops at one: spaces, a sign and digits. -/
def atolScan : List UInt8 → ℕ
  | b :: bs =>
    if b = 0x20 || (0x09 ≤ b && b ≤ 0x0D) then atolScan bs + 1
    else if b = 0x2D ∨ b = 0x2B then digitsScan bs + 1
    else digitsScan (b :: bs)
  | [] => 0

/-- What a call of `ymodem_on_begin` does outside its own variables: the places of the
payload that it reads, what it puts into `file_str`, and the results of `opendir` that it
gives to `closedir`. -/
structure Accesses where
  reads : List ℕ
  fileStr : List UInt8
  closes : List Bool

/-- In the memory from the payload on. The name is read by `rt_strlen` and by `sprintf`,
with its terminator. -/
def ymodemOnBegin (recvPath : List UInt8) (opens : Bool) (mem : List UInt8) : Accesses :=
  let n := strlen mem
  let scan := atolScan (mem.drop (n + 1))
  { reads := List.range (n + 1) ++ (List.range (scan + 1)).map (n + 1 + ·) ++ List.range (n + 1)
    fileStr := fileStr recvPath (mem.take n) ++ [0]
    closes := [opens] }

structure InBounds (p : Payload) (a : Accesses) : Prop where
  reads : ∀ i ∈ a.reads, i < p.bytes.length
  fits : a.fileStr.length ≤ fileStrSize
  closes : ∀ opened ∈ a.closes, opened = true

/-- The name ends in the payload, and so does what may be the size, before a byte that is
no part of it. -/
def Terminated (p : Payload) : Prop :=
  0 ∈ p.bytes ∧
    strlen p.bytes + 1 + atolScan (p.bytes.drop (strlen p.bytes + 1)) < p.bytes.length

variable {a b : List UInt8}

theorem digitsScan_append :
    digitsScan (a ++ b) < a.length ↔ digitsScan a < a.length := by
  induction a with
  | nil => simp
  | cons c a ih =>
    simp only [List.cons_append, digitsScan, List.length_cons]
    split_ifs
    · simpa using ih
    · simp

theorem atolScan_append : atolScan (a ++ b) < a.length ↔ atolScan a < a.length := by
  induction a with
  | nil => simp
  | cons c a ih =>
    simp only [List.cons_append, atolScan]
    split_ifs
    · simpa using ih
    · simpa using digitsScan_append
    · exact digitsScan_append (a := c :: a)

theorem strlen_append_of_mem (h : 0 ∈ a) : strlen (a ++ b) = strlen a := by
  induction a with
  | nil => exact absurd h List.not_mem_nil
  | cons c a ih =>
    simp only [List.cons_append, strlen]
    split_ifs with hc
    · rfl
    · rw [ih ((List.mem_cons.mp h).resolve_left fun heq ↦ hc heq.symm)]

theorem strlen_lt_of_mem (h : 0 ∈ a) : strlen a < a.length := by
  induction a with
  | nil => exact absurd h List.not_mem_nil
  | cons c a ih =>
    simp only [strlen, List.length_cons]
    split_ifs with hc
    · exact Nat.succ_pos _
    · exact Nat.succ_lt_succ (ih ((List.mem_cons.mp h).resolve_left fun heq ↦ hc heq.symm))

theorem length_le_strlen (h : 0 ∉ a) : a.length ≤ strlen (a ++ b) := by
  induction a with
  | nil => exact Nat.zero_le _
  | cons c a ih =>
    have hc : c ≠ 0 := fun heq ↦ h (heq ▸ List.mem_cons_self)
    simp only [List.cons_append, strlen, if_neg hc, List.length_cons]
    exact Nat.succ_le_succ (ih fun hmem ↦ h (List.mem_cons_of_mem _ hmem))

theorem take_strlen (a : List UInt8) : a.take (strlen a) = a.takeWhile (· ≠ 0) := by
  induction a with
  | nil => rfl
  | cons c a ih =>
    by_cases hc : c = 0
    · simp [strlen, hc]
    · rw [strlen, if_neg hc, List.take_succ_cons, ih, List.takeWhile_cons_of_pos (by simpa using hc)]

theorem reads_iff (p : Payload) (beyond recvPath : List UInt8) (opens : Bool) :
    (∀ i ∈ (ymodemOnBegin recvPath opens (p.bytes ++ beyond)).reads, i < p.bytes.length) ↔
      Terminated p := by
  by_cases hnul : 0 ∈ p.bytes
  · have hlt := strlen_lt_of_mem hnul
    have hdrop : (p.bytes ++ beyond).drop (strlen p.bytes + 1) =
        p.bytes.drop (strlen p.bytes + 1) ++ beyond := List.drop_append_of_le_length hlt
    have hscan := atolScan_append (a := p.bytes.drop (strlen p.bytes + 1)) (b := beyond)
    rw [List.length_drop] at hscan
    simp only [ymodemOnBegin, strlen_append_of_mem hnul, hdrop, Terminated, hnul, true_and]
    constructor
    · intro hreads
      have hlast := hreads (strlen p.bytes + 1 +
        atolScan (p.bytes.drop (strlen p.bytes + 1) ++ beyond)) (by simp)
      omega
    · intro hend i hi
      simp only [List.mem_append, List.mem_range, List.mem_map] at hi
      obtain (hi | ⟨j, hj, rfl⟩) | hi := hi
      · omega
      · omega
      · omega
  · have hlen := length_le_strlen (b := beyond) hnul
    refine iff_of_false ?_ fun h ↦ hnul h.1
    intro hreads
    have hlast := hreads (strlen (p.bytes ++ beyond)) (by simp [ymodemOnBegin])
    omega

theorem fileStr_eq (p : Payload) (beyond recvPath : List UInt8) (opens : Bool)
    (h : 0 ∈ p.bytes) : (ymodemOnBegin recvPath opens (p.bytes ++ beyond)).fileStr =
      fileStr recvPath (p.bytes.takeWhile (· ≠ 0)) ++ [0] := by
  have hle := (strlen_lt_of_mem h).le
  simp only [ymodemOnBegin, strlen_append_of_mem h]
  rw [List.take_append_of_le_length hle, take_strlen]

theorem length_fileStr (p : Payload) (beyond recvPath : List UInt8) (opens : Bool)
    (h : 0 ∈ p.bytes) : (ymodemOnBegin recvPath opens (p.bytes ++ beyond)).fileStr.length =
      recvPath.length + strlen p.bytes + 2 := by
  have hle := (strlen_lt_of_mem h).le
  rw [fileStr_eq p beyond recvPath opens h, ← take_strlen, fileStr]
  simp only [List.length_append, List.length_cons, List.length_take, List.length_nil]
  omega

/-- A header is handled within bounds just if its name and its size end in the payload, the
path fits, and the directory can be opened. -/
theorem inBounds_iff (p : Payload) (beyond recvPath : List UInt8) (opens : Bool) :
    InBounds p (ymodemOnBegin recvPath opens (p.bytes ++ beyond)) ↔
      Terminated p ∧ recvPath.length + strlen p.bytes + 2 ≤ fileStrSize ∧ opens = true := by
  have hreads := reads_iff p beyond recvPath opens
  constructor
  · intro h
    have hend := hreads.mp h.reads
    have hfits := h.fits
    rw [length_fileStr p beyond recvPath opens hend.1] at hfits
    exact ⟨hend, hfits, h.closes opens (List.mem_singleton_self opens)⟩
  · rintro ⟨hend, hfits, hopens⟩
    refine ⟨hreads.mpr hend, ?_, ?_⟩
    · rw [length_fileStr p beyond recvPath opens hend.1]
      exact hfits
    · intro opened hopened
      rw [List.mem_singleton.mp hopened]
      exact hopens

theorem not_inBounds :
    ¬ ∀ (p : Payload) (beyond recvPath : List UInt8) (opens : Bool),
      InBounds p (ymodemOnBegin recvPath opens (p.bytes ++ beyond)) := by
  intro hall
  have h := hall ⟨.soh, List.replicate Framing.soh.size 0x41, List.length_replicate⟩ []
    [0x2F, 0x64] true
  have hnul : (0 : UInt8) ∈ List.replicate Framing.soh.size 0x41 :=
    ((inBounds_iff _ _ _ _).mp h).1.1
  exact absurd (List.eq_of_mem_replicate hnul) (by decide)

end GiantGecko.Ymodem.FileHeader
