import Mathlib.Data.BitVec
import Mathlib.Data.List.TakeWhile

namespace GiantGecko.Drivers.I2c

def rtI2cWr : BitVec 16 := 0x0000
def rtI2cRd : BitVec 16 := 1 <<< 0
def rtI2cWriteread : BitVec 16 := 1 <<< 1

inductive TransferReturn
  | inProgress
  | done
  | nack
  | busErr
  | arbLost
  | usageFault
  | swFault
  deriving DecidableEq

inductive SeqFlags
  | write
  | read
  | writeRead
  deriving DecidableEq

structure Msg where
  addr : BitVec 16
  flags : BitVec 16
  len : BitVec 16
  len2 : BitVec 16

/-- What the driver meets while it handles one message: the result of
`rt_sem_take`, the one of `I2CSPM_Transfer`, and the word that stands in an
uninitialised variable. -/
structure Reply where
  lock : BitVec 32
  bus : TransferReturn
  garbage : BitVec 32

structure TransferSeq where
  addr : BitVec 16
  flags : SeqFlags
  lens : List (BitVec 16)

abbrev Handled := BitVec 32 × Option (TransferSeq × TransferReturn)

/-- The body that the three functions share: an error code of the lock is
returned as a size, and `failed` is what the size variable holds unless the
transfer is done. -/
def transferLocked (noLen : Bool) (seq : TransferSeq) (failed : BitVec 32) (size : BitVec 16)
    (r : Reply) : Handled :=
  if noLen then (0, none)
  else if r.lock ≠ 0 then (r.lock, none)
  else (if r.bus ≠ .done then failed else size.setWidth 32, some (seq, r.bus))

def i2cRead (m : Msg) (r : Reply) : Handled :=
  transferLocked (m.len = 0) ⟨m.addr <<< 1 ||| 1, .read, [m.len]⟩ 0 m.len r

def i2cWrite (m : Msg) (r : Reply) : Handled :=
  transferLocked (m.len = 0) ⟨m.addr <<< 1, .write, [m.len]⟩ 0 m.len r

def i2cWriteread (m : Msg) (r : Reply) : Handled :=
  transferLocked (m.len = 0 ∨ m.len2 = 0) ⟨m.addr <<< 1 ||| 1, .writeRead, [m.len, m.len2]⟩
    r.garbage m.len2 r

/-- The three tests of `master_xfer`; a message that fails all of them leaves
`ret` as it was. -/
def handle (ret : BitVec 32) (x : Msg × Reply) : Handled :=
  if x.1.flags &&& rtI2cRd ≠ 0 then i2cRead x.1 x.2
  else if x.1.flags = rtI2cWr then i2cWrite x.1 x.2
  else if x.1.flags &&& rtI2cWriteread ≠ 0 then i2cWriteread x.1 x.2
  else (ret, none)

/-- The loop of `master_xfer`: the count returned, and what was done for each
message it came to. -/
def xferLoop : BitVec 32 → ℕ → List (Msg × Reply) → ℕ × List (Option (TransferSeq × TransferReturn))
  | _, index, [] => (index, [])
  | ret, index, x :: xs =>
    let (ret, transfer) := handle ret x
    if ret ≠ 0 then
      let (count, transfers) := xferLoop ret (index + 1) xs
      (count, transfer :: transfers)
    else (index, [transfer])

def masterXfer (xs : List (Msg × Reply)) : ℕ × List (Option (TransferSeq × TransferReturn)) := xferLoop 0 0 xs

def transferOf (x : Msg × Reply) : Option (TransferSeq × TransferReturn) := (handle 0 x).2

def Completed (x : Msg × Reply) : Bool := (transferOf x).any fun t ↦ t.2 = .done

/-- The messages up to the first that is not completed are counted, and no
message after it is looked at. -/
structure CountsCompleted (xs : List (Msg × Reply)) : Prop where
  count : (masterXfer xs).1 = (xs.takeWhile Completed).length
  stops : (masterXfer xs).2 = (xs.take ((xs.takeWhile Completed).length + 1)).map transferOf

/-- A message that is not completed leaves the value 0: a read or a write that
has a length has the lock, a write-read also finds 0 in the variable, and one
of no tested shape is the first. -/
def Silent (first : Prop) (x : Msg × Reply) : Prop :=
  if x.1.flags &&& rtI2cRd ≠ 0 ∨ x.1.flags = rtI2cWr then x.1.len = 0 ∨ x.2.lock = 0
  else if x.1.flags &&& rtI2cWriteread ≠ 0 then
    x.1.len = 0 ∨ x.1.len2 = 0 ∨ x.2.lock = 0 ∧ x.2.garbage = 0
  else first

theorem handle_transfer (ret : BitVec 32) (x : Msg × Reply) : (handle ret x).2 = transferOf x := by
  simp only [transferOf, handle]
  split_ifs <;> rfl

theorem setWidth_ne_zero {len : BitVec 16} (h : len ≠ 0) : len.setWidth 32 ≠ 0 := by
  intro hzero
  refine h (BitVec.eq_of_toNat_eq ?_)
  have hval := congrArg BitVec.toNat hzero
  rw [BitVec.toNat_setWidth, Nat.mod_eq_of_lt (by have := len.isLt; omega)] at hval
  exact hval

theorem transferLocked_done {noLen : Bool} {seq : TransferSeq} {failed : BitVec 32}
    {size : BitVec 16} {r : Reply} (hsize : noLen = false → size ≠ 0)
    (h : (transferLocked noLen seq failed size r).2.any fun t ↦ t.2 = .done) :
    (transferLocked noLen seq failed size r).1 ≠ 0 := by
  rw [transferLocked] at h ⊢
  split_ifs at h ⊢ with hlen hlock hbus
  · simp at h
  · simp at h
  · simp [hbus] at h
  · exact setWidth_ne_zero (hsize (by simpa using hlen))

theorem transferLocked_eq_zero_iff {noLen : Bool} {seq : TransferSeq} {failed : BitVec 32}
    {size : BitVec 16} {r : Reply}
    (h : ¬ ((transferLocked noLen seq failed size r).2.any fun t ↦ t.2 = .done)) :
    (transferLocked noLen seq failed size r).1 = 0 ↔ noLen ∨ r.lock = 0 ∧ failed = 0 := by
  rw [transferLocked] at h ⊢
  split_ifs at h ⊢ with hlen hlock hbus
  · simp [hlen]
  · simp [hlen, show ¬ r.lock = 0#32 from hlock]
  · simp [hlen, not_not.mp hlock]
  · simp [not_not.mp hbus] at h

theorem transferLocked_done_iff {noLen : Bool} {seq : TransferSeq} {failed : BitVec 32}
    {size : BitVec 16} {r : Reply} :
    ((transferLocked noLen seq failed size r).2.any fun t ↦ t.2 = .done) ↔
      noLen = false ∧ r.lock = 0 ∧ r.bus = .done := by
  rw [transferLocked]
  by_cases hlen : noLen = true
  · simp [hlen]
  · by_cases hlock : r.lock ≠ 0
    · simp [hlen, show ¬ r.lock = 0#32 from hlock]
    · simp [hlen, not_not.mp hlock]

theorem completed_iff (x : Msg × Reply) : Completed x ↔
    x.2.lock = 0 ∧ x.2.bus = .done ∧
      if x.1.flags &&& rtI2cRd ≠ 0 ∨ x.1.flags = rtI2cWr then x.1.len ≠ 0
      else x.1.flags &&& rtI2cWriteread ≠ 0 ∧ x.1.len ≠ 0 ∧ x.1.len2 ≠ 0 := by
  rw [Completed, transferOf, handle]
  by_cases hrd : x.1.flags &&& rtI2cRd ≠ 0
  · rw [if_pos hrd, if_pos (.inl hrd), i2cRead, transferLocked_done_iff, decide_eq_false_iff_not]
    tauto
  · by_cases hwr : x.1.flags = rtI2cWr
    · rw [if_neg hrd, if_pos hwr, if_pos (.inr hwr), i2cWrite, transferLocked_done_iff,
        decide_eq_false_iff_not]
      tauto
    · rw [if_neg hrd, if_neg hwr, if_neg (not_or.mpr ⟨hrd, hwr⟩)]
      split_ifs with hwrd
      · rw [i2cWriteread, transferLocked_done_iff, decide_eq_false_iff_not, not_or]
        tauto
      · simp [not_not.mp hwrd]

theorem handle_completed (ret : BitVec 32) {x : Msg × Reply} (h : Completed x) :
    (handle ret x).1 ≠ 0 := by
  rw [Completed, transferOf] at h
  rw [handle] at h ⊢
  split_ifs at h ⊢
  · exact transferLocked_done (by simp) h
  · exact transferLocked_done (by simp) h
  · exact transferLocked_done (by simp) h
  · simp at h

theorem handle_eq_zero_iff (ret : BitVec 32) {x : Msg × Reply} (h : ¬ Completed x) :
    (handle ret x).1 = 0 ↔ Silent (ret = 0) x := by
  rw [Completed, transferOf] at h
  rw [handle] at h ⊢
  rw [Silent]
  by_cases hrd : x.1.flags &&& rtI2cRd ≠ 0
  · rw [if_pos hrd] at h ⊢
    rw [if_pos (.inl hrd), i2cRead, transferLocked_eq_zero_iff h]
    simp
  · by_cases hwr : x.1.flags = rtI2cWr
    · rw [if_neg hrd, if_pos hwr] at h ⊢
      rw [if_pos (.inr hwr), i2cWrite, transferLocked_eq_zero_iff h]
      simp
    · rw [if_neg (not_or.mpr ⟨hrd, hwr⟩)]
      rw [if_neg hrd, if_neg hwr] at h ⊢
      split_ifs at h ⊢ with hwrd
      · rw [i2cWriteread, transferLocked_eq_zero_iff h]
        simp [or_assoc]
      · exact Iff.rfl

theorem le_xferLoop (xs : List (Msg × Reply)) (ret : BitVec 32) (index : ℕ) :
    index ≤ (xferLoop ret index xs).1 := by
  induction xs generalizing ret index with
  | nil => exact le_rfl
  | cons x xs ih =>
    simp only [xferLoop]
    split_ifs
    · exact (Nat.le_succ index).trans (ih _ _)
    · exact le_rfl

/-- From any value of `ret`: the count and the transfers are right just when
the first message that is not completed leaves 0. -/
theorem xferLoop_iff (xs : List (Msg × Reply)) (ret : BitVec 32) (index : ℕ) :
    ((xferLoop ret index xs).1 = index + (xs.takeWhile Completed).length ∧
      (xferLoop ret index xs).2 =
        (xs.take ((xs.takeWhile Completed).length + 1)).map transferOf) ↔
      ∀ x ∈ (xs.dropWhile Completed).head?,
        Silent (xs.takeWhile Completed = [] ∧ ret = 0) x := by
  induction xs generalizing ret index with
  | nil => simp [xferLoop]
  | cons x xs ih =>
    by_cases hx : Completed x
    · have hne := handle_completed ret hx
      simp only [xferLoop, if_pos hne, List.takeWhile_cons_of_pos hx, List.dropWhile_cons_of_pos hx,
        List.length_cons, List.take_succ_cons, List.map_cons, handle_transfer,
        List.cons.injEq, true_and, reduceCtorEq, false_and]
      have hih := ih (handle ret x).1 (index + 1)
      simp only [hne, and_false] at hih
      rw [← hih, Nat.add_right_comm, Nat.add_assoc]
    · simp only [List.takeWhile_cons_of_neg hx, List.dropWhile_cons_of_neg hx, List.length_nil,
        List.head?_cons, Option.mem_some_iff, forall_eq', true_and]
      rw [← handle_eq_zero_iff ret hx]
      constructor
      · rintro ⟨hcount, -⟩
        by_contra hne
        have hle := le_xferLoop xs (handle ret x).1 (index + 1)
        simp only [xferLoop, if_pos (show (handle ret x).1 ≠ 0 from hne)] at hcount
        omega
      · intro hzero
        simp [xferLoop, hzero, handle_transfer]

/-- The count is right just when the first message that is not completed, if
there is one, leaves 0 in `ret`. -/
theorem xfer_counts_iff (xs : List (Msg × Reply)) : CountsCompleted xs ↔
    ∀ x ∈ (xs.dropWhile Completed).head?, Silent (xs.takeWhile Completed = []) x := by
  have hloop := xferLoop_iff xs 0 0
  simp only [Nat.zero_add, and_true] at hloop
  rw [← hloop]
  exact ⟨fun h ↦ ⟨h.count, h.stops⟩, fun h ↦ ⟨h.1, h.2⟩⟩

/-- A read that is completed, and a message of no tested shape after it; a write-read that is not
acknowledged; a read that is refused the lock. -/
theorem not_countsCompleted :
    ¬CountsCompleted [(⟨0x32, 1, 7, 0⟩, ⟨0, .done, 0⟩), (⟨0x32, 0x10, 1, 0⟩, ⟨0, .done, 0⟩)] ∧
      ¬CountsCompleted [(⟨0x32, 2, 1, 7⟩, ⟨0, .nack, 0x20001000⟩)] ∧
        ¬CountsCompleted [(⟨0x32, 1, 7, 0⟩, ⟨-2, .done, 0⟩)] := by
  refine ⟨fun h ↦ ?_, fun h ↦ ?_, fun h ↦ ?_⟩
  all_goals exact absurd h.count (by decide)

end GiantGecko.Drivers.I2c
