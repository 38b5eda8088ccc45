import GiantGecko.Foundation.Transition
import GiantGecko.Leuart.Driver

namespace GiantGecko.Leuart.Safety

open Driver Foundation.Ring Foundation.Transition

inductive Event
  | traffic (t : Traffic)
  | leuartOpen (a : Alloc)
  | leuartClose
  | rbuffer (size : UInt8) (a : Alloc)

/-- A control call waits for the lock while a read is in progress. -/
def step (s : LeuartDevice) (e : Event) : LeuartDevice :=
  if s.halted then s
  else match e with
    | .traffic t => traffic s t
    | .leuartOpen a => (rtLeuartOpen a s).2
    | .leuartClose => rtLeuartClose s
    | .rbuffer size a => if s.reader.isSome then s else (rtLeuartControlRbuffer size a s).2

/-- Every index used so far was inside the buffer of its time, and `data_size`
is the size of the buffer of now. -/
def BufferSafe (s : LeuartDevice) : Prop :=
  (∀ x ∈ s.accesses, x.1 < x.2) ∧ ∀ block ∈ s.rx.dataPtr, s.rx.dataSize.toNat = block.length

def ResizeKeeps (s : LeuartDevice) : Event → Prop
  | .rbuffer size a => (rtLeuartControlRbuffer size a s).1 = false →
      (rtLeuartControlRbuffer size a s).2.rx.dataPtr = s.rx.dataPtr ∧
        (rtLeuartControlRbuffer size a s).2.rx.dataSize = s.rx.dataSize
  | _ => True

/-- A resize gives up a buffer that is there or asks for at least 64 bytes, and its
reallocation succeeds; no byte is fetched where no buffer is allocated. -/
def Careful (s : LeuartDevice) : Event → Prop
  | .rbuffer size a => (size = 0 ∧ s.rx.dataPtr.isSome ∨ 64 ≤ size.toNat) ∧
      (s.rx.dataPtr.isSome → size ≠ 0 → size ≠ s.rx.dataSize → a.isSome)
  | .traffic .readTurn => 0 < (s.reader.map Reader.size).getD 0 → s.rx.dataPtr = none →
      s.rx.readIndex = s.rx.saveIndex
  | _ => True

structure Sized (rx : IntMode) (block : List UInt8) : Prop where
  size : rx.dataSize.toNat = block.length
  room : leuartRxBufferSize ≤ block.length
  read : rx.readIndex < leuartRxBufferSize
  save : rx.saveIndex < leuartRxBufferSize

structure Safe (s : LeuartDevice) : Prop where
  accesses : ∀ x ∈ s.accesses, x.1 < x.2
  sized : ∀ block, s.rx.dataPtr = some block → Sized s.rx block

variable {s : LeuartDevice}

theorem Safe.bufferSafe (h : Safe s) : BufferSafe s :=
  ⟨h.accesses, fun block hptr ↦ (h.sized block hptr).size⟩

theorem safe_of_none (h : ∀ x ∈ s.accesses, x.1 < x.2) (hptr : s.rx.dataPtr = none) : Safe s :=
  ⟨h, fun block hblock ↦ by simp [hptr] at hblock⟩

theorem accesses_append (h : ∀ x ∈ s.accesses, x.1 < x.2) {block : List UInt8}
    (hptr : s.rx.dataPtr = some block) {i : ℕ} (hi : i < block.length) :
    ∀ x ∈ s.accesses ++ [(i, bufferSize s.rx)], x.1 < x.2 := by
  intro x hx
  rcases List.mem_append.mp hx with hx | hx
  · exact h x hx
  · obtain rfl := List.mem_singleton.mp hx
    simpa only [bufferSize, hptr, Option.map_some, Option.getD_some] using hi

theorem length_rtMalloc {size : ℕ} {a : Alloc} {block : List UInt8}
    (h : rtMalloc size a = some block) : block.length = size := by
  obtain ⟨old, -, rfl⟩ := Option.map_eq_some_iff.mp h
  rw [List.length_map, List.length_range]

theorem length_rtRealloc {block block' : List UInt8} {size : ℕ} {a : Alloc}
    (h : rtRealloc block size a = some block') : block'.length = size := by
  obtain ⟨old, -, rfl⟩ := Option.map_eq_some_iff.mp h
  simp only [List.length_append, List.length_take, List.length_drop, List.length_map,
    List.length_range]
  omega

theorem safe_open (h : Safe s) (a : Alloc) : Safe (rtLeuartOpen a s).2 := by
  rw [rtLeuartOpen]
  cases hblock : rtMalloc leuartRxBufferSize a with
  | none => exact safe_of_none h.accesses rfl
  | some block =>
    refine ⟨h.accesses, fun block' hptr ↦ ?_⟩
    obtain rfl : block.map (fun _ ↦ 0) = block' := Option.some.inj hptr
    have hlen := length_rtMalloc hblock
    refine ⟨?_, ?_, leuartRxBufferSize_pos, leuartRxBufferSize_pos⟩
    · rw [List.length_map, hlen]
      rfl
    · rw [List.length_map, hlen]

theorem safe_close (h : Safe s) : Safe (rtLeuartClose s) := by
  simp only [rtLeuartClose]
  split_ifs
  · exact safe_of_none h.accesses rfl
  · exact ⟨h.accesses, h.sized⟩

theorem safe_rbuffer (h : Safe s) {size : UInt8} {a : Alloc}
    (hc : Careful s (.rbuffer size a)) : Safe (rtLeuartControlRbuffer size a s).2 := by
  obtain ⟨hsize, halloc⟩ := hc
  have hresized {block : List UInt8} (hlen : block.length = size.toNat) (hroom : 64 ≤ size.toNat) :
      Safe { s with rx := ⟨some block, size, 0, 0⟩ } := by
    refine ⟨h.accesses, fun block' hptr ↦ ?_⟩
    obtain rfl : block = block' := Option.some.inj hptr
    refine ⟨hlen.symm, ?_, leuartRxBufferSize_pos, leuartRxBufferSize_pos⟩
    rw [hlen]
    exact hroom
  simp only [rtLeuartControlRbuffer]
  cases hptr : s.rx.dataPtr with
  | none =>
    cases hblock : rtMalloc size.toNat a with
    | none => exact h
    | some block =>
      have hnone : ¬s.rx.dataPtr.isSome := by simp [hptr]
      exact hresized (length_rtMalloc hblock) (hsize.resolve_left fun hgive ↦ hnone hgive.2)
  | some block =>
    simp only
    split_ifs with hzero hne
    · exact safe_of_none h.accesses rfl
    · cases hblock : rtRealloc block size.toNat a with
      | none => exact safe_of_none h.accesses rfl
      | some block' =>
        exact hresized (length_rtRealloc hblock) (hsize.resolve_left fun hgive ↦ hzero hgive.1)
    · refine hresized ?_ (hsize.resolve_left fun hgive ↦ hzero hgive.1)
      rw [← (h.sized block hptr).size, not_not.mp hne]

theorem safe_saveChar (h : Safe s) {block : List UInt8} (hptr : s.rx.dataPtr = some block)
    (b : UInt8) : Safe (saveChar s b) ∧
      (saveChar s b).rx.dataPtr = some (block.set s.rx.saveIndex b) := by
  obtain ⟨hsize, hroom, hr, hw⟩ := h.sized block hptr
  have hptr' : (saveChar s b).rx.dataPtr = some (block.set s.rx.saveIndex b) := by
    simp only [saveChar, hptr, Option.map_some]
  refine ⟨⟨accesses_append h.accesses hptr (hw.trans_le hroom), fun block' hblock ↦ ?_⟩, hptr'⟩
  · obtain rfl : block.set s.rx.saveIndex b = block' := Option.some.inj (hptr'.symm.trans hblock)
    refine ⟨by rwa [List.length_set], by rwa [List.length_set], ?_, next_lt leuartRxBufferSize_pos _⟩
    simp only [saveChar]
    split_ifs
    · exact next_lt leuartRxBufferSize_pos _
    · exact hr

theorem safe_isr (h : Safe s) (bytes : List UInt8) : Safe (rtHwLeuartRxIsr bytes s) := by
  cases hptr : s.rx.dataPtr with
  | none =>
    simp only [rtHwLeuartRxIsr, hptr, if_true]
    exact ⟨h.accesses, h.sized⟩
  | some block =>
    have hloop : Safe (bytes.foldl saveChar s) := by
      induction bytes generalizing s block with
      | nil => exact h
      | cons b bytes ih =>
        obtain ⟨hsafe, hptr'⟩ := safe_saveChar h hptr b
        exact ih hsafe _ hptr'
    simp only [rtHwLeuartRxIsr, hptr, reduceCtorEq, if_false]
    split_ifs
    · exact ⟨hloop.accesses, hloop.sized⟩
    · exact hloop

theorem safe_readTurn (h : Safe s) (hc : Careful s (.traffic .readTurn)) : Safe (readTurn s) := by
  rw [readTurn]
  rcases hreader : s.reader with _ | ⟨_ | size, copied⟩
  · exact h
  · exact ⟨h.accesses, h.sized⟩
  · simp only
    split_ifs with hne
    · cases hptr : s.rx.dataPtr with
      | none => exact absurd (hc (by simp [hreader]) hptr) hne
      | some block =>
        obtain ⟨hsize, hroom, hr, hw⟩ := h.sized block hptr
        refine ⟨accesses_append h.accesses hptr (hr.trans_le hroom), fun block' hblock ↦ ?_⟩
        obtain rfl : block = block' := Option.some.inj hblock
        exact ⟨hsize, hroom, next_lt leuartRxBufferSize_pos _, hw⟩
    · exact ⟨h.accesses, h.sized⟩

theorem safe_traffic (h : Safe s) {t : Traffic} (hc : Careful s (.traffic t)) :
    Safe (traffic s t) := by
  rw [traffic.eq_def]
  split_ifs
  · exact h
  · cases t with
    | isr bytes => exact safe_isr h bytes
    | readTurn => exact safe_readTurn h hc
    | readBegin interrupt size =>
      simp only [readBegin]
      split
      · exact ⟨h.accesses, h.sized⟩
      · split_ifs
        · exact ⟨h.accesses, h.sized⟩
        · exact h

theorem safe_step (s : LeuartDevice) (e : Event) (h : Safe s) (hc : Careful s e) :
    Safe (step s e) := by
  cases e with
  | traffic t =>
    simp only [step]
    split_ifs
    · exact h
    · exact safe_traffic h hc
  | leuartOpen a =>
    simp only [step]
    split_ifs
    · exact h
    · exact safe_open h a
  | leuartClose =>
    simp only [step]
    split_ifs
    · exact h
    · exact safe_close h
  | rbuffer size a =>
    simp only [step]
    split_ifs
    · exact h
    · exact h
    · exact safe_rbuffer h hc

theorem resizeKeeps_of_careful (s : LeuartDevice) (e : Event) (hc : Careful s e) :
    ResizeKeeps s e := by
  cases e with
  | rbuffer size a =>
    intro hfail
    simp only [rtLeuartControlRbuffer] at hfail ⊢
    cases hptr : s.rx.dataPtr with
    | none =>
      cases hblock : rtMalloc size.toNat a with
      | none => simp only [hptr, and_self]
      | some block => simp [hptr, hblock] at hfail
    | some block =>
      simp only [hptr] at hfail
      split_ifs at hfail with hzero hne
      obtain ⟨old, rfl⟩ := Option.isSome_iff_exists.mp (hc.2 (by simp [hptr]) hzero hne)
      simp [rtRealloc] at hfail
  | traffic t => trivial
  | leuartOpen a => trivial
  | leuartClose => trivial

/-- In a run whose resizes and reads are careful, no index leaves the buffer,
`data_size` is its size, and no failed resize takes it away. -/
theorem buffer_safe_of_careful (ind : Bool) (size : UInt8) (r w : ℕ) (es : List Event)
    (h : Along step Careful (unitInit ind size r w) es) :
    BufferSafe (es.foldl step (unitInit ind size r w)) ∧
      Along step ResizeKeeps (unitInit ind size r w) es := by
  have hinit : Safe (unitInit ind size r w) :=
    safe_of_none (fun x hx ↦ (List.not_mem_nil hx).elim) rfl
  exact ⟨(run_invariant safe_step hinit h).bufferSafe,
    along_of_invariant safe_step (fun s e _ hc ↦ resizeKeeps_of_careful s e hc) hinit h⟩

theorem buffer_safe_after_growing :
    BufferSafe ([.leuartOpen (some fun _ ↦ 7), .rbuffer 128 (some fun _ ↦ 7),
        .traffic (.isr [65, 66]), .traffic (.readBegin false 1), .traffic .readTurn,
        .rbuffer 0 none, .leuartClose].foldl step (unitInit true 9 5 3)) ∧
      Along step ResizeKeeps (unitInit true 9 5 3)
        [.leuartOpen (some fun _ ↦ 7), .rbuffer 128 (some fun _ ↦ 7),
          .traffic (.isr [65, 66]), .traffic (.readBegin false 1), .traffic .readTurn,
          .rbuffer 0 none, .leuartClose] :=
  buffer_safe_of_careful true 9 5 3 _ ⟨trivial, ⟨.inr (by decide), fun _ _ _ ↦ rfl⟩, trivial, trivial,
    fun _ hptr ↦ (Option.some_ne_none _ hptr).elim, ⟨.inl ⟨rfl, rfl⟩, fun _ hne ↦ absurd rfl hne⟩,
    trivial, trivial⟩

/-- With 32 bytes allocated the 33rd byte of an interrupt is stored past the
end, and a resize that fails loses the buffer. -/
theorem resize_overruns_and_loses :
    ¬ BufferSafe ([.leuartOpen (some fun _ ↦ 0), .rbuffer 32 (some fun _ ↦ 0),
        .traffic (.isr (List.replicate 33 0))].foldl step (unitInit true 0 0 0)) ∧
      ¬ ResizeKeeps ([.leuartOpen (some fun _ ↦ 0)].foldl step (unitInit true 0 0 0))
        (.rbuffer 128 none) := by
  constructor
  · intro h
    exact absurd (h.1 (32, 32) (by decide)) (by decide)
  · intro h
    exact absurd (h rfl).1 (by decide)

end GiantGecko.Leuart.Safety
