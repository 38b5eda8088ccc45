import GiantGecko.Foundation.Transition
import GiantGecko.Spi.Dma

namespace GiantGecko.Leuart.Writing

open Foundation.Transition Spi.Dma

def lf : UInt8 := 10
def cr : UInt8 := 13

/-- A call of `rt_leuart_write`: the flags of the device, whether the lock is
had, and the memory the call finds. The buffer is not NULL and ends within the
address space. -/
structure Write where
  dmaTx : Bool
  stream : Bool
  locked : Bool
  mem : Addr → UInt8
  buffer : Addr
  size : ℕ
  notNull : buffer ≠ 0
  fits : buffer.toNat + size ≤ 2 ^ 32

def Write.addr (w : Write) (i : ℕ) : Addr := w.buffer + BitVec.ofNat 32 i

/-- What a call did: the bytes on the line, the value returned, the addresses
it and the DMA controller accessed, and the memory it leaves. -/
structure Written where
  line : List UInt8
  returned : ℕ
  touched : List Addr
  mem : Addr → UInt8

structure Handed where
  mem : Addr → UInt8
  size : ℕ
  touched : List Addr

def handed (w : Write) : Handed :=
  let last := w.addr (w.size - 1)
  let past := w.addr w.size
  if w.stream then
    if w.mem last = lf then
      ⟨Function.update (Function.update (Function.update w.mem last cr) past lf) (past + 1) 0,
        (w.size + 1) % 2 ^ 32, [last, last, past, past + 1]⟩
    else ⟨w.mem, w.size, [last]⟩
  else ⟨w.mem, w.size, []⟩

/-- The DMA branch. The controller has moved the whole cycle when
`LEUART_STATE_TX_BUSY` is cleared. -/
def writeDma (txdata : Addr) (d : Descriptor) (w : Write) : Descriptor × Written :=
  let h := handed w
  let d := dmaActivateBasic d txdata w.buffer (BitVec.ofNat 32 h.size - 1)
  let sources := (List.range (srcCycle d).count).map (srcCycle d).addr
  (d, ⟨sources.map h.mem, h.size, h.touched ++ sources, h.mem⟩)

/-- The two loops of the polled branch, from `ptr` for `size` bytes: what goes
to `TXDATA`, the addresses read and the final `ptr`. -/
def poll (stream : Bool) (mem : Addr → UInt8) : ℕ → Addr → List UInt8 × List Addr × Addr
  | 0, ptr => ([], [], ptr)
  | size + 1, ptr =>
    let (line, reads, final) := poll stream mem size (ptr + 1)
    ((if stream ∧ mem ptr = lf then [cr, mem ptr] else [mem ptr]) ++ line, ptr :: reads, final)

def writePolled (w : Write) : Written :=
  let (line, reads, final) := poll w.stream w.mem w.size w.buffer
  ⟨line, (final - w.buffer).toNat, reads, w.mem⟩

def rtLeuartWrite (txdata : Addr) (d : Descriptor) (w : Write) : Descriptor × Written :=
  if w.locked then
    if w.dmaTx ∧ 2 < w.size then writeDma txdata d w else (d, writePolled w)
  else (d, ⟨[], 0, [], w.mem⟩)

def Write.bytes (w : Write) (n : ℕ) : List UInt8 := (List.range n).map fun i ↦ w.mem (w.addr i)

def expand (stream : Bool) (bytes : List UInt8) : List UInt8 :=
  bytes.flatMap fun b ↦ if stream ∧ b = lf then [cr, b] else [b]

def Write.consumed (w : Write) : ℕ := if w.locked then w.size else 0

/-- The line carries the expanded bytes, their number before the expansion is
returned, and the call stays in the buffer and leaves it as it was. -/
structure Faithful (w : Write) (r : Written) : Prop where
  line : r.line = expand w.stream (w.bytes w.consumed)
  returned : r.returned = w.consumed
  inBuffer : ∀ a ∈ r.touched, ∃ i < w.size, a = w.addr i
  unmodified : ∀ i < w.size, r.mem (w.addr i) = w.mem (w.addr i)

/-- The transfer by DMA is short enough for one cycle, and no byte of it has to
be expanded. -/
def DmaPlain (w : Write) : Prop :=
  w.locked → w.dmaTx → 2 < w.size → w.size ≤ 1024 ∧ (w.stream → lf ∉ w.bytes w.size)

theorem length_expand (stream : Bool) (bytes : List UInt8) :
    (expand stream bytes).length =
      bytes.length + if stream then bytes.count lf else 0 := by
  induction bytes with
  | nil => cases stream <;> rfl
  | cons b bytes ih =>
    rw [expand, List.flatMap_cons, List.length_append, ← expand, ih]
    cases stream with
    | false => simp [Nat.add_comm]
    | true =>
      by_cases hb : b = lf
      · simp [hb]
        omega
      · simp [hb]
        omega

theorem expand_plain {stream : Bool} {bytes : List UInt8} (h : stream → lf ∉ bytes) :
    expand stream bytes = bytes := by
  have hone : ∀ b ∈ bytes, (if stream ∧ b = lf then [cr, b] else [b]) = [b] := by
    intro b hb
    rw [if_neg]
    rintro ⟨hs, rfl⟩
    exact h hs hb
  rw [expand, List.flatMap_congr hone]
  exact List.flatMap_singleton' bytes

theorem poll_eq (stream : Bool) (mem : Addr → UInt8) (size : ℕ) (ptr : Addr) :
    poll stream mem size ptr =
      (expand stream ((List.range size).map fun i ↦ mem (ptr + BitVec.ofNat 32 i)),
        (List.range size).map fun i ↦ ptr + BitVec.ofNat 32 i, ptr + BitVec.ofNat 32 size) := by
  induction size generalizing ptr with
  | zero => simp [poll, expand]
  | succ size ih =>
    have hnext (i : ℕ) : ptr + 1 + BitVec.ofNat 32 i = ptr + BitVec.ofNat 32 (i + 1) := by
      rw [Nat.add_comm, BitVec.ofNat_add, BitVec.add_assoc]
      rfl
    have hzero : ptr + BitVec.ofNat 32 0 = ptr := BitVec.add_zero ptr
    rw [poll, ih, List.range_succ_eq_map]
    simp only [hnext, List.map_cons, List.map_map, hzero, expand, List.flatMap_cons]
    rfl

theorem writePolled_eq (w : Write) : writePolled w =
    ⟨expand w.stream (w.bytes w.size), w.size, (List.range w.size).map w.addr, w.mem⟩ := by
  have hpos : w.buffer.toNat ≠ 0 := fun h ↦ w.notNull (BitVec.eq_of_toNat_eq h)
  have hfits := w.fits
  have hsize : (w.buffer + BitVec.ofNat 32 w.size - w.buffer).toNat = w.size := by
    rw [BitVec.add_comm, BitVec.add_sub_cancel, BitVec.toNat_ofNat]
    exact Nat.mod_eq_of_lt (by omega)
  rw [writePolled, poll_eq]
  simp only [hsize]
  rfl

theorem polled_faithful (w : Write) (hlock : w.locked) : Faithful w (writePolled w) := by
  have hconsumed : w.consumed = w.size := if_pos hlock
  rw [writePolled_eq]
  refine ⟨by rw [hconsumed], by rw [hconsumed], fun a ha ↦ ?_, fun _ _ ↦ rfl⟩
  obtain ⟨i, hi, rfl⟩ := List.mem_map.mp ha
  exact ⟨i, List.mem_range.mp hi, rfl⟩

theorem last_mem (w : Write) (hpos : 0 < w.size) : w.mem (w.addr (w.size - 1)) ∈ w.bytes w.size :=
  List.mem_map.mpr ⟨w.size - 1, List.mem_range.mpr (by omega), rfl⟩

theorem handed_plain (w : Write) (hpos : 0 < w.size)
    (h : w.stream → w.mem (w.addr (w.size - 1)) ≠ lf) :
    (handed w).mem = w.mem ∧ (handed w).size = w.size ∧
      ∀ a ∈ (handed w).touched, ∃ i < w.size, a = w.addr i := by
  rw [handed]
  by_cases hs : w.stream = true
  · rw [if_pos hs, if_neg (h hs)]
    refine ⟨rfl, rfl, fun a ha ↦ ⟨w.size - 1, by omega, ?_⟩⟩
    exact List.mem_singleton.mp ha
  · rw [if_neg hs]
    exact ⟨rfl, rfl, fun a ha ↦ absurd ha List.not_mem_nil⟩

theorem writeDma_verbatim (txdata : Addr) {d : Descriptor} (hd : Configured 0 3 d) (w : Write)
    (hpos : 0 < w.size) (hshort : w.size ≤ 1024)
    (h : w.stream → w.mem (w.addr (w.size - 1)) ≠ lf) :
    (writeDma txdata d w).2.line = w.bytes w.size ∧ (writeDma txdata d w).2.returned = w.size ∧
      (∀ a ∈ (writeDma txdata d w).2.touched, ∃ i < w.size, a = w.addr i) ∧
      (writeDma txdata d w).2.mem = w.mem ∧ Configured 0 3 (writeDma txdata d w).1 := by
  obtain ⟨hmem, hsize, htouched⟩ := handed_plain w hpos h
  obtain ⟨hcount, haddr, hconf⟩ := srcCycle_prepare hd txdata w.buffer hpos hshort
  have hsources : (List.range w.size).map (srcCycle (dmaPrepare d txdata w.buffer
      (BitVec.ofNat 32 (w.size - 1)))).addr = (List.range w.size).map w.addr :=
    List.map_congr_left fun i hi ↦ haddr w.notNull i (List.mem_range.mp hi)
  simp only [writeDma, dmaActivateBasic, hmem, hsize, ofNat_sub_one hpos, hcount, hsources]
  refine ⟨by rw [List.map_map]; rfl, trivial, fun a ha ↦ ?_, trivial, hconf⟩
  rcases List.mem_append.mp ha with ha | ha
  · exact htouched a ha
  · obtain ⟨i, hi, rfl⟩ := List.mem_map.mp ha
    exact ⟨i, List.mem_range.mp hi, rfl⟩

theorem writeDma_length (txdata : Addr) (d : Descriptor) (w : Write) :
    (writeDma txdata d w).2.line.length ≤ 1024 := by
  simp only [writeDma, List.length_map, List.length_range]
  exact count_le _

theorem length_bytes (w : Write) (n : ℕ) : (w.bytes n).length = n := by
  rw [Write.bytes, List.length_map, List.length_range]

theorem dmaPlain_of_faithful (txdata : Addr) {d : Descriptor} (hd : Configured 0 3 d) {w : Write}
    (hlock : w.locked) (hsize : 2 < w.size) (h : Faithful w (writeDma txdata d w).2) :
    w.size ≤ 1024 ∧ (w.stream → lf ∉ w.bytes w.size) := by
  have hconsumed : w.consumed = w.size := if_pos hlock
  have hlength := congrArg List.length h.line
  rw [length_expand, length_bytes, hconsumed] at hlength
  have hshort : w.size ≤ 1024 := by
    have := writeDma_length txdata d w
    omega
  refine ⟨hshort, fun hs hmem ↦ ?_⟩
  by_cases hlast : w.mem (w.addr (w.size - 1)) = lf
  · -- the last line feed is counted twice
    have hreturned : (writeDma txdata d w).2.returned = (w.size + 1) % 2 ^ 32 := by
      simp only [writeDma, handed, if_pos hs]
      exact congrArg Handed.size (if_pos hlast)
    have hr := h.returned
    rw [hreturned, hconsumed] at hr
    omega
  · -- the line feed stays alone
    obtain ⟨hline, -⟩ := writeDma_verbatim txdata hd w (by omega) hshort fun _ ↦ hlast
    rw [hline, length_bytes, if_pos hs] at hlength
    have hcount := List.count_pos_iff.mpr hmem
    omega

theorem faithful_iff (txdata : Addr) {d : Descriptor} (hd : Configured 0 3 d) (w : Write) :
    Faithful w (rtLeuartWrite txdata d w).2 ↔ DmaPlain w := by
  rw [rtLeuartWrite]
  by_cases hlock : w.locked = true
  · by_cases hdma : w.dmaTx = true ∧ 2 < w.size
    · rw [if_pos hlock, if_pos hdma]
      constructor
      · exact fun h _ _ _ ↦ dmaPlain_of_faithful txdata hd hlock hdma.2 h
      · intro h
        obtain ⟨hshort, hplain⟩ := h hlock hdma.1 hdma.2
        have hpos : 0 < w.size := by omega
        obtain ⟨hline, hreturned, htouched, hmem, -⟩ := writeDma_verbatim txdata hd w hpos hshort
          fun hs hlast ↦ hplain hs (hlast ▸ last_mem w hpos)
        have hconsumed : w.consumed = w.size := if_pos hlock
        refine ⟨?_, by rw [hreturned, hconsumed], htouched, fun i _ ↦ by rw [hmem]⟩
        rw [hline, hconsumed, expand_plain hplain]
    · rw [if_pos hlock, if_neg hdma]
      exact iff_of_true (polled_faithful w hlock) fun _ htx hsize ↦ absurd ⟨htx, hsize⟩ hdma
  · rw [if_neg hlock]
    have hconsumed : w.consumed = 0 := if_neg hlock
    refine iff_of_true ⟨?_, hconsumed.symm, fun a ha ↦ absurd ha List.not_mem_nil, fun _ _ ↦ rfl⟩
      fun h ↦ absurd h hlock
    rw [hconsumed]
    rfl

theorem configured_write (txdata : Addr) {d : Descriptor} (hd : Configured 0 3 d) {w : Write}
    (h : DmaPlain w) : Configured 0 3 (rtLeuartWrite txdata d w).1 := by
  rw [rtLeuartWrite]
  split_ifs with hlock hdma
  · obtain ⟨hshort, hplain⟩ := h hlock hdma.1 hdma.2
    have hpos : 0 < w.size := by omega
    exact (writeDma_verbatim txdata hd w hpos hshort
      fun hs hlast ↦ hplain hs (hlast ▸ last_mem w hpos)).2.2.2.2
  · exact hd
  · exact hd

/-- From the descriptor that the registration configures, all calls of a run
are right just when every transfer by DMA is short and needs no expansion. -/
theorem writes_faithful_iff (txdata : Addr) (d : Descriptor) (ws : List Write) :
    Along (fun d w ↦ (rtLeuartWrite txdata d w).1)
      (fun d w ↦ Faithful w (rtLeuartWrite txdata d w).2) (dmaCfgDescr 0 3 d) ws ↔
      ∀ w ∈ ws, DmaPlain w := by
  rw [along_congr (I := Configured 0 3) (C := fun _ w ↦ DmaPlain w)
    (fun d w hd hw ↦ configured_write txdata hd hw) (fun d w hd ↦ faithful_iff txdata hd w)
    (configured_cfgDescr d).1]
  exact along_const _ _

def newlineInside : Write where
  dmaTx := true
  stream := true
  locked := true
  mem a := if a = 0x1001 then 10 else 97
  buffer := 0x1000
  size := 3
  notNull := by decide
  fits := by decide

/-- The line feed goes out without a carriage return. -/
theorem newline_not_expanded : ¬ ∀ txdata d w,
    Faithful w (rtLeuartWrite txdata (dmaCfgDescr 0 3 d) w).2 := by
  intro h
  have hline := (h 0x40084028 ⟨0, 0, 0⟩ newlineInside).line
  exact absurd hline (by decide)

end GiantGecko.Leuart.Writing
