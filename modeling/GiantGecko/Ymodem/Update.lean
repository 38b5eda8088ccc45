import GiantGecko.Ymodem.Receiver
import Mathlib.Logic.Function.Basic

namespace GiantGecko.Ymodem.Update

open Receiver

structure Store where
  content : List UInt8 → Option (List UInt8)
  refuses : List UInt8 → Bool

def Store.fopen (st : Store) (path : List UInt8) : Option Store :=
  if st.refuses path then none
  else some { st with content := Function.update st.content path (some []) }

def Store.fwrite (st : Store) (file : Option (List UInt8)) (buf : List UInt8) : ℕ × Store :=
  match file with
  | none => (0, st)
  | some path =>
    let old := (st.content path).getD []
    (buf.length, { st with content := Function.update st.content path (some (old ++ buf)) })

/-- The variables of `update.c`, with the path of the file open in `cur_f`, and
whether `file_str` has been written beyond its end. -/
structure Ota where
  recvPath : List UInt8
  updateFileTotalSize : UInt32
  updateFileCurSize : UInt32
  curF : Option (List UInt8)
  store : Store
  smashed : Bool

def digits : ℕ → List UInt8 → ℕ
  | n, b :: bs => if 0x30 ≤ b ∧ b ≤ 0x39 then digits (n * 10 + (b - 0x30).toNat) bs else n
  | n, [] => n

def atol (s : List UInt8) : ℤ :=
  match s.dropWhile fun b ↦ b = 0x20 || (0x09 ≤ b && b ≤ 0x0D) with
  | 0x2D :: ds => -(digits 0 ds : ℤ)
  | 0x2B :: ds => digits 0 ds
  | ds => digits 0 ds

def fileStr (recvPath fileName : List UInt8) : List UInt8 := recvPath ++ 0x2F :: fileName

def fileStrSize : ℕ := 100

def ymodemOnBegin : RymCallback Ota := fun u buf ↦
  let fileName := buf.takeWhile (· ≠ 0)
  let fileSize := buf.drop (fileName.length + 1)
  let path := fileStr u.recvPath fileName
  let u := { u with
    updateFileTotalSize := UInt32.ofInt (atol fileSize)
    updateFileCurSize := 0
    smashed := u.smashed || decide (fileStrSize < path.length + 1) }
  match u.store.fopen path with
  | none => (.can, { u with curF := none })
  | some store => (.ack, { u with curF := some path, store := store })

def ymodemOnData : RymCallback Ota := fun u buf ↦
  let (ret, store) := u.store.fwrite u.curF buf
  let u := { u with store := store }
  if ret ≠ buf.length then (.can, u) else (.ack, u)

def ymodemOnEnd : RymCallback Ota := fun u buf ↦
  let (ret, store) := u.store.fwrite u.curF buf
  let u := { u with store := store }
  if ret ≠ buf.length then (.can, u) else (.ack, { u with curF := none })

def rtTickPerSecond : ℕ := 1000

def callbacks : Callbacks Ota := ⟨some ymodemOnBegin, some ymodemOnData, some ymodemOnEnd⟩

structure Writing (u : Ota) (path content : List UInt8) : Prop where
  curF : u.curF = some path
  content : u.store.content path = some content

structure Ready (recvPath : List UInt8) (u : Ota) : Prop where
  recvPath : u.recvPath = recvPath
  refuses : ∀ path, u.store.refuses path = false

variable {u : Ota} {recvPath path content : List UInt8}

theorem ymodemOnBegin_spec (h : Ready recvPath u) (buf : List UInt8) :
    (ymodemOnBegin u buf).1 = .ack ∧ Ready recvPath (ymodemOnBegin u buf).2 ∧
      Writing (ymodemOnBegin u buf).2 (fileStr recvPath (buf.takeWhile (· ≠ 0))) [] := by
  obtain ⟨hpath, href⟩ := h
  simp only [ymodemOnBegin, Store.fopen, href, hpath, Bool.false_eq_true, if_false]
  exact ⟨trivial, ⟨rfl, href⟩, rfl, Function.update_self ..⟩

theorem ymodemOnData_spec (h : Ready recvPath u) (hw : Writing u path content)
    (buf : List UInt8) :
    (ymodemOnData u buf).1 = .ack ∧ Ready recvPath (ymodemOnData u buf).2 ∧
      Writing (ymodemOnData u buf).2 path (content ++ buf) := by
  obtain ⟨hcur, hcontent⟩ := hw
  simp only [ymodemOnData, Store.fwrite, hcur, hcontent, ne_eq, not_true_eq_false, if_false]
  exact ⟨trivial, ⟨h.recvPath, h.refuses⟩, rfl, Function.update_self ..⟩

/-- `on_end` writes what it is given, which is not part of the file. -/
theorem ymodemOnEnd_spec (h : Ready recvPath u) (hw : Writing u path content)
    (buf : List UInt8) :
    Ready recvPath (ymodemOnEnd u buf).2 ∧
      (ymodemOnEnd u buf).2.store.content path = some (content ++ buf) := by
  obtain ⟨hcur, hcontent⟩ := hw
  simp only [ymodemOnEnd, Store.fwrite, hcur, hcontent, ne_eq, not_true_eq_false, if_false]
  exact ⟨⟨h.recvPath, h.refuses⟩, Function.update_self ..⟩

end GiantGecko.Ymodem.Update
