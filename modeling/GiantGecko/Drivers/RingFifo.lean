import GiantGecko.Foundation.Transition
import GiantGecko.Foundation.Window
import GiantGecko.Drivers.RingBuffer

namespace GiantGecko.Drivers.RingBuffer

open Foundation Foundation.Ring Foundation.Transition Foundation.Window

def lastOf (n : ℕ) (l : List UInt8) : List UInt8 := l.drop (l.length - n)

def dataOf (ptr : ℕ → UInt8) (length : ℕ) : List UInt8 := (List.range length).map ptr

/-- A queue that holds so many bytes: what it holds after a call, what the call returns
and the bytes it hands out. -/
def fifo (capacity : ℕ) (q : List UInt8) : Op → List UInt8 × ℕ × List UInt8
  | .put ptr length =>
    let n := min length.toNat (capacity - q.length)
    (q ++ (dataOf ptr length.toNat).take n, n, [])
  | .putForce ptr length =>
    (lastOf capacity (q ++ dataOf ptr length.toNat), min length.toNat capacity, [])
  | .putchar ch => if q.length < capacity then (q ++ [ch], 1, []) else (q, 0, [])
  | .putcharForce ch => (lastOf capacity (q ++ [ch]), 1, [])
  | .get length => (q.drop length.toNat, min length.toNat q.length, q.take length.toNat)
  | .getchar => (q.drop 1, min 1 q.length, q.take 1)

/-- The calls return and hand out what those on the queue do, and `rt_ringbuffer_data_len`
is its length all along. -/
def Refines (capacity : ℕ) : RtRingbuffer → List UInt8 → List Op → Prop
  | rb, q, [] => rtRingbufferDataLen rb = q.length
  | rb, q, op :: ops =>
    rtRingbufferDataLen rb = q.length ∧ (invoke rb op).2 = (fifo capacity q op).2 ∧
      Refines capacity (invoke rb op).1 (fifo capacity q op).1 ops

/-- A forced put that writes over bytes that have not been read finds them wrapped around
the end of the buffer. -/
def Fits (rb : RtRingbuffer) : Op → Prop
  | .putForce _ length =>
    spaceLen rb < min length.toNat rb.bufferSize → rb.readMirror ≠ rb.writeMirror
  | _ => True

def readEnd (rb : RtRingbuffer) : ℕ × Bool := (rb.readIndex, rb.readMirror)

def writeEnd (rb : RtRingbuffer) : ℕ × Bool := (rb.writeIndex, rb.writeMirror)

/-- The write index is so many bytes ahead of the read index. -/
structure Holds (rb : RtRingbuffer) (n : ℕ) : Prop where
  size : rb.bufferSize < 2 ^ 15
  read : rb.readIndex < rb.bufferSize
  le : n ≤ rb.bufferSize
  ends : writeEnd rb = turn rb.bufferSize (readEnd rb) n

def contents (rb : RtRingbuffer) : List UInt8 :=
  window rb.bufferSize rb.buffer rb.readIndex (rtRingbufferDataLen rb)

section Steps

variable {rb rb' : RtRingbuffer} {ptr : ℕ → UInt8} {n k : ℕ}

@[simp] theorem length_contents : (contents rb).length = rtRingbufferDataLen rb := length_window

@[simp] theorem length_dataOf : (dataOf ptr k).length = k := by simp [dataOf]

theorem Holds.writeIndex (h : Holds rb n) :
    rb.writeIndex = slot rb.bufferSize rb.readIndex n := by
  have hends := congrArg Prod.fst h.ends
  rwa [turn_fst] at hends

theorem Holds.write (h : Holds rb n) : rb.writeIndex < rb.bufferSize :=
  h.writeIndex ▸ slot_lt h.read h.le

theorem Holds.dataLen (h : Holds rb n) : rtRingbufferDataLen rb = n := by
  have hread := h.read
  have hle := h.le
  have hends := h.ends
  rw [writeEnd, readEnd, turn] at hends
  simp only [rtRingbufferDataLen, rtRingbufferStatus]
  split_ifs at hends with hlt
  · obtain ⟨hw, hm⟩ := Prod.mk.inj hends
    rw [hw, hm]
    by_cases hn : n = 0
    · simp [hn]
    · rw [if_neg (by omega)]
      simp only
      rw [if_pos (by omega), Nat.add_sub_cancel_left]
  · obtain ⟨hw, hm⟩ := Prod.mk.inj hends
    rw [hw, hm]
    by_cases hn : n = rb.bufferSize
    · rw [if_pos (by omega), if_neg (by simp), hn]
    · rw [if_neg (by omega)]
      simp only
      rw [if_neg (by omega)]
      omega

structure Puts (rb rb' : RtRingbuffer) (ptr : ℕ → UInt8) (k : ℕ) : Prop where
  written : Written rb.bufferSize rb.buffer rb'.buffer rb.writeIndex ptr k
  size : rb'.bufferSize = rb.bufferSize
  ends : writeEnd rb' = turn rb.bufferSize (writeEnd rb) k

theorem Puts.append (hp : Puts rb rb' ptr k) (h : Holds rb n) (hr : readEnd rb' = readEnd rb)
    (hk : n + k ≤ rb.bufferSize) :
    Holds rb' (n + k) ∧ contents rb' = contents rb ++ dataOf ptr k := by
  have hindex : rb'.readIndex = rb.readIndex := congrArg Prod.fst hr
  have h' : Holds rb' (n + k) := by
    refine ⟨hp.size ▸ h.size, ?_, hp.size ▸ hk, ?_⟩
    · rw [hp.size, hindex]
      exact h.read
    · rw [hp.ends, h.ends, hp.size, hr]
      exact turn_turn h.read hk
  refine ⟨h', ?_⟩
  have hwritten := hp.written
  rw [h.writeIndex] at hwritten
  rw [contents, contents, h'.dataLen, h.dataLen, hp.size, hindex]
  exact hwritten.window_append h.read hk

theorem Puts.overrun (hp : Puts rb rb' ptr k) (h : Holds rb n)
    (hr : readEnd rb' = (rb'.writeIndex, !rb'.writeMirror)) (hk : k ≤ rb.bufferSize)
    (hover : rb.bufferSize ≤ n + k) :
    Holds rb' rb.bufferSize ∧
      contents rb' = lastOf rb.bufferSize (contents rb ++ dataOf ptr k) := by
  have hindex : rb'.readIndex = rb'.writeIndex := congrArg Prod.fst hr
  have hwrite : rb'.writeIndex = slot rb.bufferSize rb.writeIndex k := by
    have hends := congrArg Prod.fst hp.ends
    rwa [turn_fst] at hends
  have h' : Holds rb' rb.bufferSize := by
    refine ⟨hp.size ▸ h.size, ?_, Nat.le_of_eq hp.size.symm, ?_⟩
    · rw [hp.size, hindex, hwrite]
      exact slot_lt h.write hk
    · rw [hr, hp.size, turn_self, Bool.not_not]
      rfl
  refine ⟨h', ?_⟩
  have hwritten := hp.written
  rw [h.writeIndex] at hwritten
  rw [lastOf, contents, contents, h'.dataLen, h.dataLen, hp.size, hindex, hwrite, h.writeIndex,
    hwritten.window_overrun h.read h.le hk hover, List.length_append, length_window,
    length_dataOf]
  rfl

structure Gets (rb rb' : RtRingbuffer) (k : ℕ) : Prop where
  buffer : rb'.buffer = rb.buffer
  size : rb'.bufferSize = rb.bufferSize
  write : writeEnd rb' = writeEnd rb
  ends : readEnd rb' = turn rb.bufferSize (readEnd rb) k

theorem Gets.drop (hg : Gets rb rb' k) (h : Holds rb n) (hk : k ≤ n) :
    Holds rb' (n - k) ∧ contents rb' = (contents rb).drop k := by
  have hle := h.le
  obtain ⟨m, rfl⟩ := Nat.exists_eq_add_of_le hk
  rw [Nat.add_sub_cancel_left]
  have hindex : rb'.readIndex = slot rb.bufferSize rb.readIndex k := by
    have hends := congrArg Prod.fst hg.ends
    rwa [turn_fst] at hends
  have h' : Holds rb' m := by
    refine ⟨hg.size ▸ h.size, ?_, ?_, ?_⟩
    · rw [hg.size, hindex]
      exact slot_lt h.read (by omega)
    · rw [hg.size]
      omega
    · rw [hg.write, h.ends, hg.ends, hg.size]
      exact (turn_turn h.read h.le).symm
  refine ⟨h', ?_⟩
  rw [contents, contents, h'.dataLen, h.dataLen, hg.size, hg.buffer, hindex]
  exact (drop_window h.read h.le).symm

theorem toIndex_eq {i : ℕ} (h : Holds rb n) (hi : i < rb.bufferSize) : toIndex i = i :=
  Nat.mod_eq_of_lt (Nat.lt_trans hi h.size)

variable (ptr) in
theorem puts_write (h : Holds rb n) (hk : k ≤ rb.bufferSize) :
    Puts rb (if rb.bufferSize - rb.writeIndex > k then writeOn rb ptr k else writeOver rb ptr k)
      ptr k := by
  have hw := h.write
  split_ifs with hroom
  · have hlt : rb.writeIndex + k < rb.bufferSize := by omega
    refine ⟨⟨?_, ?_⟩, rfl, ?_⟩
    · intro i hi
      rw [slot, if_pos (by omega)]
      simp only [writeOn, copy]
      rw [if_pos (by omega), Nat.add_sub_cancel_left]
    · intro j hj
      refine if_neg fun hin ↦ hj (j - rb.writeIndex) (by omega) ?_
      rw [slot, if_pos (by omega)]
      omega
    · simp only [writeEnd, writeOn, turn, toIndex_eq h hlt]
      exact (if_pos hlt).symm
  · have hge : ¬rb.writeIndex + k < rb.bufferSize := by omega
    refine ⟨⟨?_, ?_⟩, rfl, ?_⟩
    · intro i hi
      by_cases hin : rb.writeIndex + i < rb.bufferSize
      · simp only [slot, if_pos hin, writeOver, copy]
        rw [if_neg (by omega), if_pos (by omega), Nat.add_sub_cancel_left]
      · simp only [slot, if_neg hin, writeOver, copy]
        rw [if_pos (by omega)]
        congr 1
        omega
    · intro j hj
      have hfirst : ¬(rb.writeIndex ≤ j ∧ j < rb.writeIndex + (rb.bufferSize - rb.writeIndex)) := by
        intro hin
        refine hj (j - rb.writeIndex) (by omega) ?_
        rw [slot, if_pos (by omega)]
        omega
      have hlast : ¬(0 ≤ j ∧ j < 0 + (k - (rb.bufferSize - rb.writeIndex))) := by
        intro hin
        refine hj (rb.bufferSize - rb.writeIndex + j) (by omega) ?_
        rw [slot, if_neg (by omega)]
        omega
      simp only [writeOver, copy, if_neg hfirst, if_neg hlast]
    · have hindex : k - (rb.bufferSize - rb.writeIndex) = rb.writeIndex + k - rb.bufferSize := by
        omega
      simp only [writeEnd, writeOver, turn, hindex]
      rw [toIndex_eq h (by omega)]
      exact (if_neg hge).symm

theorem take_dataOf {m : ℕ} (hm : m ≤ k) : (dataOf ptr k).take m = dataOf ptr m := by
  rw [dataOf, dataOf, ← List.map_take, List.take_range, Nat.min_eq_left hm]

def Correct (rb : RtRingbuffer) (op : Op) : Prop :=
  (∃ n, Holds (invoke rb op).1 n) ∧ (invoke rb op).1.bufferSize = rb.bufferSize ∧
    (invoke rb op).2 = (fifo rb.bufferSize (contents rb) op).2 ∧
    contents (invoke rb op).1 = (fifo rb.bufferSize (contents rb) op).1

theorem put_correct (h : Holds rb n) (length : UInt16) : Correct rb (.put ptr length) := by
  have hle := h.le
  have hspace : spaceLen rb = rb.bufferSize - n := by rw [spaceLen, h.dataLen]
  simp only [Correct, invoke, fifo, length_contents, h.dataLen, rtRingbufferPut, hspace]
  by_cases hfull : rb.bufferSize - n = 0
  · simp only [hfull, if_true, Nat.min_zero, List.take_zero, List.append_nil]
    exact ⟨⟨n, h⟩, trivial, trivial, trivial⟩
  · have hmin : (if rb.bufferSize - n < length.toNat then rb.bufferSize - n else length.toNat) =
        min length.toNat (rb.bufferSize - n) := by
      rw [Nat.min_def]
      split_ifs <;> omega
    have hput := puts_write ptr h (k := min length.toNat (rb.bufferSize - n)) (by omega)
    obtain ⟨h', hcontents⟩ := hput.append h (by split_ifs <;> rfl) (by omega)
    simp only [hfull, if_false, hmin, take_dataOf (Nat.min_le_left _ _)]
    rw [← apply_ite (fun r ↦ (r, min length.toNat (rb.bufferSize - n)))]
    exact ⟨⟨_, h'⟩, hput.size, rfl, hcontents⟩

theorem lastOf_append_dataOf (l : List UInt8) (hk : k ≤ n) :
    lastOf k (l ++ dataOf (fun i ↦ ptr (n - k + i)) k) = lastOf k (l ++ dataOf ptr n) := by
  have hsplit : dataOf ptr n =
      dataOf ptr (n - k) ++ dataOf (fun i ↦ ptr (n - k + i)) k := by
    conv_lhs => rw [← Nat.sub_add_cancel hk]
    simp only [dataOf, List.range_add, List.map_append, List.map_map]
    rfl
  rw [lastOf, lastOf, hsplit, ← List.append_assoc,
    List.drop_left' (by simp only [List.length_append, length_dataOf]; omega),
    List.drop_left' (by simp only [List.length_append, length_dataOf]; omega)]

theorem lastOf_eq_self {l : List UInt8} (hl : l.length ≤ n) : lastOf n l = l := by
  rw [lastOf, Nat.sub_eq_zero_of_le hl, List.drop_zero]

theorem putForce_eq (h : Holds rb n) (length : ℕ) :
    rtRingbufferPutForce rb ptr length =
      let k := min length rb.bufferSize
      let ptr := fun i ↦ ptr (length - k + i)
      if rb.bufferSize - rb.writeIndex > k then
        (if k > rb.bufferSize - n then
          { writeOn rb ptr k with readIndex := (writeOn rb ptr k).writeIndex }
        else writeOn rb ptr k, k)
      else
        (if k > rb.bufferSize - n then
          { writeOver rb ptr k with
            readMirror := !rb.readMirror, readIndex := (writeOver rb ptr k).writeIndex }
        else writeOver rb ptr k, k) := by
  have hspace : spaceLen rb = rb.bufferSize - n := by rw [spaceLen, h.dataLen]
  have hk : (if length > rb.bufferSize then rb.bufferSize else length) =
      min length rb.bufferSize := by
    rw [Nat.min_def]
    split_ifs <;> omega
  have hskip : (if length > rb.bufferSize then length - rb.bufferSize else 0) =
      length - min length rb.bufferSize := by
    rw [Nat.min_def]
    split_ifs <;> omega
  simp only [rtRingbufferPutForce, hspace, hk, hskip]
  rfl

theorem putForce_correct (h : Holds rb n) (length : UInt16)
    (hfits : Fits rb (.putForce ptr length)) : Correct rb (.putForce ptr length) := by
  have hle := h.le
  have hw := h.write
  have hk : min length.toNat rb.bufferSize ≤ length.toNat := Nat.min_le_left _ _
  have hkS : min length.toNat rb.bufferSize ≤ rb.bufferSize := Nat.min_le_right _ _
  simp only [Fits, spaceLen, h.dataLen] at hfits
  simp only [Correct, invoke, fifo, putForce_eq h]
  have hlast : lastOf rb.bufferSize (contents rb ++ dataOf ptr length.toNat) =
      lastOf rb.bufferSize (contents rb ++ dataOf
        (fun i ↦ ptr (length.toNat - min length.toNat rb.bufferSize + i))
        (min length.toNat rb.bufferSize)) := by
    obtain hlong | hshort := Nat.le_total rb.bufferSize length.toNat
    · rw [Nat.min_eq_right hlong]
      exact (lastOf_append_dataOf _ hlong).symm
    · simp only [Nat.min_eq_left hshort, Nat.sub_self, Nat.zero_add]
  rw [hlast]
  generalize min length.toNat rb.bufferSize = k at hk hkS hfits ⊢
  generalize (fun i ↦ ptr (length.toNat - k + i)) = ptr'
  have hput := puts_write ptr' h hkS
  by_cases hover : k > rb.bufferSize - n
  · have hmirror : rb.readMirror = !rb.writeMirror := Bool.eq_not.mpr (hfits hover)
    simp only [hover, if_true]
    split_ifs at hput ⊢ with hroom
    · have hput' : Puts rb
          { writeOn rb ptr' k with readIndex := (writeOn rb ptr' k).writeIndex } ptr' k :=
        ⟨hput.written, hput.size, hput.ends⟩
      have hends : readEnd
          { writeOn rb ptr' k with readIndex := (writeOn rb ptr' k).writeIndex } =
          ((writeOn rb ptr' k).writeIndex, !rb.writeMirror) :=
        congrArg (Prod.mk (writeOn rb ptr' k).writeIndex) hmirror
      obtain ⟨h', hcontents⟩ := hput'.overrun h hends hkS (by omega)
      exact ⟨⟨_, h'⟩, rfl, rfl, hcontents⟩
    · have hput' : Puts rb
          { writeOver rb ptr' k with
            readMirror := !rb.readMirror, readIndex := (writeOver rb ptr' k).writeIndex } ptr' k :=
        ⟨hput.written, hput.size, hput.ends⟩
      have hends : readEnd
          { writeOver rb ptr' k with
            readMirror := !rb.readMirror, readIndex := (writeOver rb ptr' k).writeIndex } =
          ((writeOver rb ptr' k).writeIndex, !!rb.writeMirror) :=
        congrArg (fun m ↦ ((writeOver rb ptr' k).writeIndex, !m)) hmirror
      obtain ⟨h', hcontents⟩ := hput'.overrun h hends hkS (by omega)
      exact ⟨⟨_, h'⟩, rfl, rfl, hcontents⟩
  · obtain ⟨h', hcontents⟩ := hput.append h (by split_ifs <;> rfl) (by omega)
    simp only [hover, if_false]
    rw [← apply_ite (fun r ↦ (r, k)), lastOf_eq_self]
    · exact ⟨⟨_, h'⟩, hput.size, rfl, hcontents⟩
    · rw [List.length_append, length_contents, length_dataOf, h.dataLen]
      omega

/-- If they are not wrapped around, the bytes are lost: the buffer that is full is taken
for empty. -/
theorem putForce_empties (h : Holds rb n) (length : UInt16)
    (hfits : ¬Fits rb (.putForce ptr length)) :
    rtRingbufferDataLen (invoke rb (.putForce ptr length)).1 = 0 := by
  have hle := h.le
  have hread := h.read
  have hends := h.ends
  simp only [Fits, spaceLen, h.dataLen, Classical.not_imp, not_not] at hfits
  obtain ⟨hover, hmirror⟩ := hfits
  rw [writeEnd, readEnd, turn] at hends
  split_ifs at hends with hlt
  · obtain ⟨hindex, -⟩ := Prod.mk.inj hends
    have hroom : ¬rb.bufferSize - rb.writeIndex > min length.toNat rb.bufferSize := by omega
    simp only [invoke, putForce_eq h, if_neg hroom, if_pos hover]
    simp only [rtRingbufferDataLen, rtRingbufferStatus, writeOver, hmirror, if_true]
  · obtain ⟨-, hm⟩ := Prod.mk.inj hends
    simp [hmirror] at hm

theorem window_eq {buf : ℕ → UInt8} {r m : ℕ} (hr : r < m) (hk : k ≤ m) :
    window m buf r k =
      if m - r > k then (List.range k).map fun i ↦ buf (r + i)
      else ((List.range (m - r)).map fun i ↦ buf (r + i)) ++ (List.range (k - (m - r))).map buf := by
  have hstraight : ∀ j ≤ m - r, window m buf r j = (List.range j).map fun i ↦ buf (r + i) := by
    intro j hj
    refine List.map_congr_left fun i hi ↦ ?_
    have hij := List.mem_range.mp hi
    rw [slot, if_pos (by omega)]
  split_ifs with hroom
  · exact hstraight k (by omega)
  · have hsplit : k = (m - r) + (k - (m - r)) := by omega
    have hstart : slot m r (m - r) = 0 := by
      rw [slot, if_neg (by omega)]
      omega
    conv_lhs => rw [hsplit]
    rw [window_append hr (by omega), hstraight _ (Nat.le_refl _), hstart]
    congr 1
    refine List.map_congr_left fun i hi ↦ ?_
    have hik := List.mem_range.mp hi
    rw [slot, if_pos (by omega), Nat.zero_add]

theorem get_correct (h : Holds rb n) (length : UInt16) : Correct rb (.get length) := by
  have hle := h.le
  have hread := h.read
  have hkn : min length.toNat n ≤ n := Nat.min_le_right _ _
  have hlen : (contents rb).length = n := by rw [length_contents, h.dataLen]
  simp only [Correct, invoke, fifo, hlen, rtRingbufferGet, h.dataLen]
  by_cases hn : n = 0
  · have hnil : contents rb = [] := List.eq_nil_of_length_eq_zero (hlen.trans hn)
    simp only [hn, if_true, Nat.min_zero, hnil, List.drop_nil, List.take_nil]
    exact ⟨⟨n, h⟩, trivial, trivial, trivial⟩
  · have hmin : (if n < length.toNat then n else length.toNat) = min length.toNat n := by
      rw [Nat.min_def]
      split_ifs <;> omega
    have htake : (contents rb).take length.toNat = window rb.bufferSize rb.buffer rb.readIndex
        (min length.toNat n) := by
      obtain ⟨m, hm⟩ := Nat.exists_eq_add_of_le hkn
      rw [List.take_eq_take_min, hlen, contents, h.dataLen]
      rw [hm] at hle
      conv_lhs =>
        rhs
        rw [hm]
      exact take_window hread hle
    have hdrop : (contents rb).drop length.toNat = (contents rb).drop (min length.toNat n) := by
      obtain hshort | hlong := Nat.le_total length.toNat n
      · rw [Nat.min_eq_left hshort]
      · rw [Nat.min_eq_right hlong, List.drop_eq_nil_of_le (hlen ▸ hlong),
          List.drop_eq_nil_of_le (Nat.le_of_eq hlen)]
    rw [htake, hdrop, window_eq hread (Nat.le_trans hkn hle)]
    simp only [hn, if_false, hmin]
    generalize min length.toNat n = k at hkn ⊢
    split_ifs with hroom
    · have hget : Gets rb { rb with readIndex := toIndex (rb.readIndex + k) } k := by
        refine ⟨rfl, rfl, rfl, ?_⟩
        have hlt : rb.readIndex + k < rb.bufferSize := by omega
        simp only [readEnd, toIndex_eq h hlt]
        exact (if_pos hlt).symm
      obtain ⟨h', hcontents⟩ := hget.drop h hkn
      exact ⟨⟨_, h'⟩, rfl, rfl, hcontents⟩
    · have hget : Gets rb
          { rb with
            readMirror := !rb.readMirror
            readIndex := toIndex (k - (rb.bufferSize - rb.readIndex)) } k := by
        refine ⟨rfl, rfl, rfl, ?_⟩
        have hge : ¬rb.readIndex + k < rb.bufferSize := by omega
        have hindex : k - (rb.bufferSize - rb.readIndex) = rb.readIndex + k - rb.bufferSize := by
          omega
        simp only [readEnd, hindex]
        rw [toIndex_eq h (by omega)]
        exact (if_neg hge).symm
      obtain ⟨h', hcontents⟩ := hget.drop h hkn
      exact ⟨⟨_, h'⟩, rfl, rfl, hcontents⟩

def pushed (rb : RtRingbuffer) (ch : UInt8) : RtRingbuffer :=
  let rb := { rb with buffer := Function.update rb.buffer rb.writeIndex ch }
  if rb.writeIndex = rb.bufferSize - 1 then
    { rb with writeMirror := !rb.writeMirror, writeIndex := 0 }
  else { rb with writeIndex := toIndex (rb.writeIndex + 1) }

theorem puts_pushed (h : Holds rb n) (ch : UInt8) : Puts rb (pushed rb ch) (fun _ ↦ ch) 1 := by
  have hw := h.write
  have hslot : slot rb.bufferSize rb.writeIndex 0 = rb.writeIndex := by
    rw [slot, Nat.add_zero, if_pos hw]
  have hbuffer : (pushed rb ch).buffer = Function.update rb.buffer rb.writeIndex ch := by
    simp only [pushed]
    split_ifs <;> rfl
  refine ⟨⟨?_, ?_⟩, ?_, ?_⟩
  · intro i hi
    rw [hbuffer, Nat.lt_one_iff.mp hi, hslot]
    exact Function.update_self _ _ _
  · intro j hj
    have hne := hj 0 Nat.one_pos
    rw [hslot] at hne
    rw [hbuffer]
    exact Function.update_of_ne hne.symm _ _
  · simp only [pushed]
    split_ifs <;> rfl
  · simp only [pushed]
    split_ifs with hlast
    · have hge : ¬rb.writeIndex + 1 < rb.bufferSize := by omega
      have hzero : rb.writeIndex + 1 - rb.bufferSize = 0 := by omega
      refine Eq.trans ?_ (if_neg hge).symm
      simp only [writeEnd, hzero]
    · have hlt : rb.writeIndex + 1 < rb.bufferSize := by omega
      refine Eq.trans ?_ (if_pos hlt).symm
      simp only [writeEnd, toIndex_eq h hlt]

theorem pushed_readEnd (ch : UInt8) : readEnd (pushed rb ch) = readEnd rb := by
  simp only [pushed]
  split_ifs <;> rfl

theorem putchar_correct (h : Holds rb n) (ch : UInt8) : Correct rb (.putchar ch) := by
  have hle := h.le
  have hspace : spaceLen rb = rb.bufferSize - n := by rw [spaceLen, h.dataLen]
  have hput : rtRingbufferPutchar rb ch =
      if rb.bufferSize - n = 0 then (rb, 0) else (pushed rb ch, 1) := by
    simp only [rtRingbufferPutchar, pushed, hspace]
    split_ifs <;> rfl
  simp only [Correct, invoke, fifo, hput, length_contents, h.dataLen]
  by_cases hfull : rb.bufferSize - n = 0
  · have hnot : ¬n < rb.bufferSize := by omega
    simp only [hfull, if_true, hnot, if_false]
    exact ⟨⟨n, h⟩, trivial, trivial, trivial⟩
  · have hlt : n < rb.bufferSize := by omega
    obtain ⟨h', hcontents⟩ := (puts_pushed h ch).append h (pushed_readEnd ch) hlt
    simp only [hfull, if_false, hlt, if_true]
    exact ⟨⟨_, h'⟩, (puts_pushed h ch).size, trivial, hcontents⟩

theorem status_full_iff (h : Holds rb n) : rtRingbufferStatus rb = .full ↔ n = rb.bufferSize := by
  constructor
  · intro hfull
    rw [← h.dataLen, rtRingbufferDataLen, hfull]
  · rintro rfl
    have hends := h.ends
    rw [turn_self] at hends
    obtain ⟨hindex, hmirror⟩ := Prod.mk.inj hends
    simp [rtRingbufferStatus, hindex, hmirror, readEnd]

theorem putcharForce_correct (h : Holds rb n) (ch : UInt8) :
    Correct rb (.putcharForce ch) := by
  have hle := h.le
  have hput := puts_pushed h ch
  have hone : dataOf (fun _ ↦ ch) 1 = [ch] := rfl
  by_cases hfull : n = rb.bufferSize
  · have hstatus := (status_full_iff h).mpr hfull
    have hmirror : rb.writeMirror = !rb.readMirror := by
      have hends := h.ends
      rw [hfull, turn_self] at hends
      exact (Prod.mk.inj hends).2
    have hforce : ∃ rb', rtRingbufferPutcharForce rb ch = (rb', 1) ∧
        rb'.buffer = (pushed rb ch).buffer ∧ rb'.bufferSize = rb.bufferSize ∧
        writeEnd rb' = writeEnd (pushed rb ch) ∧
        readEnd rb' = (rb'.writeIndex, !rb'.writeMirror) := by
      simp only [rtRingbufferPutcharForce, pushed, hstatus, if_true]
      split_ifs with hlast
      · exact ⟨_, rfl, rfl, rfl, rfl, by simp [readEnd, hmirror]⟩
      · exact ⟨_, rfl, rfl, rfl, rfl, by simp [readEnd, hmirror]⟩
    obtain ⟨rb', heq, hbuffer, hsize, hwrite, hread⟩ := hforce
    have hput' : Puts rb rb' (fun _ ↦ ch) 1 :=
      ⟨hbuffer ▸ hput.written, hsize, hwrite.trans hput.ends⟩
    obtain ⟨h', hcontents⟩ := hput'.overrun h hread (Nat.lt_of_le_of_lt (Nat.zero_le _) h.read)
      (by omega)
    simp only [Correct, invoke, fifo, heq]
    exact ⟨⟨_, h'⟩, hsize, trivial, hcontents⟩
  · have hstatus : rtRingbufferStatus rb ≠ .full := fun hs ↦ hfull ((status_full_iff h).mp hs)
    have hforce : rtRingbufferPutcharForce rb ch = (pushed rb ch, 1) := by
      simp only [rtRingbufferPutcharForce, pushed, hstatus, if_false]
      split_ifs <;> rfl
    obtain ⟨h', hcontents⟩ := hput.append h (pushed_readEnd ch) (by omega)
    simp only [Correct, invoke, fifo, hforce]
    refine ⟨⟨_, h'⟩, hput.size, trivial, ?_⟩
    rw [hcontents, hone, lastOf_eq_self]
    rw [List.length_append, length_contents, h.dataLen, List.length_singleton]
    omega

theorem getchar_correct (h : Holds rb n) : Correct rb .getchar := by
  have hread := h.read
  have hlen : (contents rb).length = n := by rw [length_contents, h.dataLen]
  simp only [Correct, invoke, fifo, hlen, rtRingbufferGetchar, h.dataLen]
  by_cases hn : n = 0
  · have hnil : contents rb = [] := List.eq_nil_of_length_eq_zero (hlen.trans hn)
    simp only [hn, if_true, Nat.min_zero, hnil, List.drop_nil, List.take_nil]
    exact ⟨⟨n, h⟩, trivial, trivial, trivial⟩
  · have hone : 1 ≤ n := Nat.pos_of_ne_zero hn
    have hget : Gets rb
        (if rb.readIndex = rb.bufferSize - 1 then
          { rb with readMirror := !rb.readMirror, readIndex := 0 }
        else { rb with readIndex := toIndex (rb.readIndex + 1) }) 1 := by
      split_ifs with hlast
      · refine ⟨rfl, rfl, rfl, ?_⟩
        have hge : ¬rb.readIndex + 1 < rb.bufferSize := by omega
        have hzero : rb.readIndex + 1 - rb.bufferSize = 0 := by omega
        refine Eq.trans ?_ (if_neg hge).symm
        simp only [readEnd, hzero]
      · refine ⟨rfl, rfl, rfl, ?_⟩
        have hlt : rb.readIndex + 1 < rb.bufferSize := by omega
        refine Eq.trans ?_ (if_pos hlt).symm
        simp only [readEnd, toIndex_eq h hlt]
    have htake : (contents rb).take 1 = [rb.buffer rb.readIndex] := by
      have hle := h.le
      obtain ⟨m, rfl⟩ := Nat.exists_eq_add_of_le hone
      rw [contents, h.dataLen, take_window hread hle]
      simp [window, slot, hread]
    obtain ⟨h', hcontents⟩ := hget.drop h hone
    simp only [hn, if_false, htake, Nat.min_eq_left hone]
    rw [← apply_ite (fun r ↦ (r, 1, [rb.buffer rb.readIndex]))]
    exact ⟨⟨_, h'⟩, hget.size, rfl, hcontents⟩

theorem invoke_correct (h : Holds rb n) {op : Op} (hfits : Fits rb op) : Correct rb op := by
  cases op with
  | put ptr length => exact put_correct h length
  | putForce ptr length => exact putForce_correct h length hfits
  | putchar ch => exact putchar_correct h ch
  | putcharForce ch => exact putcharForce_correct h ch
  | get length => exact get_correct h length
  | getchar => exact getchar_correct h

theorem Refines.length {c : ℕ} {q : List UInt8} {ops : List Op} (h : Refines c rb q ops) :
    rtRingbufferDataLen rb = q.length := by
  cases ops with
  | nil => exact h
  | cons op ops => exact h.1

theorem refines_iff_along (h : Holds rb n) (ops : List Op) :
    Refines rb.bufferSize rb (contents rb) ops ↔
      Along (fun rb op ↦ (invoke rb op).1) Fits rb ops := by
  induction ops generalizing rb n with
  | nil => simp [Refines]
  | cons op ops ih =>
    rw [along_cons]
    by_cases hfits : Fits rb op
    · obtain ⟨⟨m, h'⟩, hsize, hresult, hcontents⟩ := invoke_correct h hfits
      have hih := ih h'
      rw [hsize, hcontents] at hih
      simp only [Refines, length_contents, hresult, hih, hfits, true_and]
    · refine iff_of_false ?_ fun hall ↦ hfits hall.1
      intro hrefines
      cases op with
      | putForce ptr length =>
        have hempty := putForce_empties h length hfits
        have hlength := hrefines.2.2.length
        rw [hempty] at hlength
        have hread := h.read
        have hdata := h.dataLen
        simp only [Fits, spaceLen, hdata, Classical.not_imp, not_not] at hfits
        simp only [fifo, lastOf, List.length_drop, List.length_append, length_contents,
          length_dataOf, hdata] at hlength
        omega
      | _ => exact hfits trivial

end Steps

theorem holds_init (pool : ℕ → UInt8) {size : ℕ} (hsize : rtAlignSize ≤ size)
    (hlt : size < 2 ^ 15) : Holds (rtRingbufferInit pool size) 0 := by
  simp only [rtAlignSize] at hsize
  refine ⟨?_, ?_, Nat.zero_le _, ?_⟩
  · simp only [rtRingbufferInit, rtAlignSize]
    omega
  · simp only [rtRingbufferInit, rtAlignSize]
    omega
  · refine (if_pos ?_).symm
    simp only [readEnd, rtRingbufferInit, rtAlignSize]
    omega

/-- A ring buffer is a queue of its size as long as no forced put writes over unread bytes
that are not wrapped around its end. -/
theorem refines_iff (pool : ℕ → UInt8) {size : ℕ} (hsize : rtAlignSize ≤ size)
    (hlt : size < 2 ^ 15) (ops : List Op) :
    Refines (rtRingbufferInit pool size).bufferSize (rtRingbufferInit pool size) [] ops ↔
      Along (fun rb op ↦ (invoke rb op).1) Fits (rtRingbufferInit pool size) ops := by
  have h := holds_init pool hsize hlt
  have hempty : contents (rtRingbufferInit pool size) = [] :=
    List.eq_nil_of_length_eq_zero (length_contents.trans h.dataLen)
  rw [← refines_iff_along h ops, hempty]

/-- The unread bytes are wrapped around the end of a buffer of four, and a forced put writes over
one of them. -/
theorem refines_iff_wrapped : Refines 4 (rtRingbufferInit (fun _ ↦ 0) 4) []
    [.put (fun _ ↦ 1) 3, .get 2, .put (fun _ ↦ 2) 2, .putForce (fun _ ↦ 3) 2, .get 4] :=
  (refines_iff (fun _ ↦ 0) (Nat.le_refl 4) (show 4 < 2 ^ 15 by decide) _).mpr
    ⟨trivial, trivial, trivial, fun _ ↦ by decide, trivial, trivial⟩

/-- Two bytes are put into a buffer of four, then four by force. -/
theorem not_refines : ¬Refines 4 (rtRingbufferInit (fun _ ↦ 0) 4) []
    [.put (fun _ ↦ 1) 2, .putForce (fun _ ↦ 2) 4] := by
  intro h
  have hlength := h.2.2.2.2.length
  revert hlength
  decide

end GiantGecko.Drivers.RingBuffer
