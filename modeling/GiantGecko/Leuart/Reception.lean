import GiantGecko.Foundation.DropOldest
import GiantGecko.Leuart.Driver

namespace GiantGecko.Leuart.Reception

open Driver Foundation.Ring Foundation.DropOldest Foundation.Transition

def unread (rx : IntMode) : List UInt8 :=
  contents leuartRxBufferSize (rx.dataPtr.getD []) rx.readIndex rx.saveIndex

def returned (s : LeuartDevice) : List UInt8 :=
  s.results.flatten ++ (s.reader.map Reader.copied).getD []

def received : Traffic → List UInt8
  | .isr bytes => bytes
  | _ => []

def queueOps (s : LeuartDevice) : Traffic → List (Op UInt8)
  | .isr bytes => bytes.map .arrive
  | .readBegin _ _ => []
  | .readTurn =>
    match s.reader with
    | some ⟨_ + 1, _⟩ => [.take]
    | _ => []

def served (s : LeuartDevice) (ts : List Traffic) : Queue UInt8 :=
  (trace traffic queueOps s ts).foldl (step 63) .empty

structure Simulates (s : LeuartDevice) (q : Queue UInt8) : Prop where
  running : s.halted = false
  buffer : ∃ block, s.rx.dataPtr = some block ∧ block.length = leuartRxBufferSize
  read : s.rx.readIndex < leuartRxBufferSize
  save : s.rx.saveIndex < leuartRxBufferSize
  holds : unread s.rx = q.unread
  gave : returned s = q.taken

theorem simulates_open (ind : Bool) (size : UInt8) (r w : ℕ) (a : ℕ → UInt8) :
    Simulates (rtLeuartOpen (some a) (unitInit ind size r w)).2 .empty where
  running := rfl
  buffer := ⟨_, rfl, by simp [leuartRxBufferSize]⟩
  read := leuartRxBufferSize_pos
  save := leuartRxBufferSize_pos
  holds := rfl
  gave := rfl

theorem simulates_saveChar {s : LeuartDevice} {q : Queue UInt8} (h : Simulates s q) (b : UInt8) :
    Simulates (saveChar s b) (step 63 q (.arrive b)) := by
  obtain ⟨hrun, ⟨block, hptr, hlen⟩, hr, hw, hholds, hgave⟩ := h
  have hcount : q.unread.length = count leuartRxBufferSize s.rx.readIndex s.rx.saveIndex := by
    rw [← hholds, unread, length_contents]
  rw [unread, hptr, Option.getD_some] at hholds
  have hbuffer : ∃ block', (saveChar s b).rx.dataPtr = some block' ∧
      block'.length = leuartRxBufferSize :=
    ⟨block.set s.rx.saveIndex b, by simp [saveChar, hptr], by rw [List.length_set, hlen]⟩
  have hsave := next_lt leuartRxBufferSize_pos s.rx.saveIndex
  by_cases hfull : next leuartRxBufferSize s.rx.saveIndex = s.rx.readIndex
  · have hmany : ¬ q.unread.length < 63 := by
      have := (next_eq_iff hr hw).mp hfull
      simp only [leuartRxBufferSize] at this hcount
      omega
    have hpush := contents_push_full (by decide) hlen hr hw hfull b
    obtain ⟨x, rest, hq⟩ := List.exists_cons_of_length_pos (by omega : 0 < q.unread.length)
    rw [arrive_full hmany hq]
    refine ⟨hrun, hbuffer, ?_, hsave, ?_, ?_⟩
    · simp only [saveChar, if_pos hfull]
      exact next_lt leuartRxBufferSize_pos _
    · simp only [unread, saveChar, if_pos hfull, hptr, Option.map_some, Option.getD_some, hpush,
        hholds, hq, List.tail_cons]
    · change returned s = _
      simpa [Queue.taken] using hgave
  · have hroom : q.unread.length < 63 := by
      have := mt (next_eq_iff hr hw).mpr hfull
      have := count_lt hr hw
      simp only [leuartRxBufferSize] at *
      omega
    have hpush := contents_push hlen hr hw hfull b
    rw [arrive_room hroom]
    refine ⟨hrun, hbuffer, ?_, hsave, ?_, hgave⟩
    · simpa only [saveChar, if_neg hfull] using hr
    · simp only [unread, saveChar, if_neg hfull, hptr, Option.map_some, Option.getD_some, hpush,
        hholds]

theorem simulates_isr {s : LeuartDevice} {q : Queue UInt8} (h : Simulates s q)
    (bytes : List UInt8) :
    Simulates (rtHwLeuartRxIsr bytes s) ((bytes.map Op.arrive).foldl (step 63) q) := by
  have hloop : Simulates (bytes.foldl saveChar s) ((bytes.map Op.arrive).foldl (step 63) q) := by
    induction bytes generalizing s q with
    | nil => exact h
    | cons b bytes ih => exact ih (simulates_saveChar h b)
  obtain ⟨block, hptr, -⟩ := h.buffer
  simp only [rtHwLeuartRxIsr, hptr, reduceCtorEq, if_false]
  split_ifs
  · exact ⟨hloop.running, hloop.buffer, hloop.read, hloop.save, hloop.holds, hloop.gave⟩
  · exact hloop

theorem simulates_readTurn {s : LeuartDevice} {q : Queue UInt8} (h : Simulates s q) :
    Simulates (readTurn s) ((queueOps s .readTurn).foldl (step 63) q) := by
  obtain ⟨hrun, ⟨block, hptr, hlen⟩, hr, hw, hholds, hgave⟩ := h
  rcases hreader : s.reader with _ | ⟨_ | size, copied⟩
  · simp only [readTurn, queueOps, hreader]
    exact ⟨hrun, ⟨block, hptr, hlen⟩, hr, hw, hholds, hgave⟩
  · simp only [readTurn, queueOps, hreader]
    refine ⟨hrun, ⟨block, hptr, hlen⟩, hr, hw, hholds, ?_⟩
    simpa [returned, hreader] using hgave
  · simp only [returned, hreader, Option.map_some, Option.getD_some] at hgave
    rw [unread, hptr, Option.getD_some] at hholds
    by_cases hne : s.rx.readIndex ≠ s.rx.saveIndex
    · have hpop := contents_pop block hr hw hne
      rw [hholds] at hpop
      simp only [readTurn, queueOps, hreader, if_pos hne, List.foldl_cons, List.foldl_nil,
        take_cons hpop]
      refine ⟨hrun, ⟨block, hptr, hlen⟩, next_lt leuartRxBufferSize_pos _, hw, by simp [unread, hptr], ?_⟩
      simp [returned, Queue.taken, ← List.append_assoc, hgave, hptr]
    · have hempty : q.unread = [] := by
        rw [← hholds, ← List.length_eq_zero_iff, length_contents]
        exact (count_eq_zero hr).mpr (not_not.mp hne)
      simp only [readTurn, queueOps, hreader, if_neg hne, List.foldl_cons, List.foldl_nil,
        take_nil hempty]
      refine ⟨hrun, ⟨block, hptr, hlen⟩, hr, hw, by rw [unread, hptr]; exact hholds, ?_⟩
      simpa [returned] using hgave

theorem simulates_traffic (s : LeuartDevice) (q : Queue UInt8) (t : Traffic)
    (h : Simulates s q) : Simulates (traffic s t) ((queueOps s t).foldl (step 63) q) := by
  cases t with
  | isr bytes =>
    simp only [traffic, h.running, Bool.false_eq_true, if_false]
    exact simulates_isr h bytes
  | readTurn =>
    simp only [traffic, h.running, Bool.false_eq_true, if_false]
    exact simulates_readTurn h
  | readBegin interrupt size =>
    simp only [traffic, h.running, Bool.false_eq_true, if_false]
    obtain ⟨hrun, hbuffer, hr, hw, hholds, hgave⟩ := h
    rcases hreader : s.reader with _ | reader
    · simp only [readBegin, hreader]
      exact ⟨hrun, hbuffer, hr, hw, hholds, by simpa [returned, hreader, queueOps] using hgave⟩
    · simp only [readBegin, hreader]
      split_ifs
      · exact ⟨hrun, hbuffer, hr, hw, hholds, by simpa [returned, hreader, queueOps] using hgave⟩
      · exact ⟨hrun, hbuffer, hr, hw, hholds, hgave⟩

theorem simulates_run {s : LeuartDevice} (h : Simulates s .empty) (ts : List Traffic) :
    Simulates (ts.foldl traffic s) (served s ts) :=
  simulation_run simulates_traffic h ts

theorem arrivals_queueOps (s : LeuartDevice) (t : Traffic) :
    arrivals (queueOps s t) = received t := by
  cases t with
  | isr bytes => simp [queueOps, received, arrivals, List.filterMap_map]
  | readBegin interrupt size => rfl
  | readTurn =>
    simp only [queueOps, received]
    split <;> rfl

theorem arrived_served (s : LeuartDevice) (ts : List Traffic) :
    (served s ts).arrived = ts.flatMap received := by
  have htrace : arrivals (trace traffic queueOps s ts) = ts.flatMap received := by
    induction ts generalizing s with
    | nil => rfl
    | cons t ts ih =>
      rw [trace, List.flatMap_cons, ← ih (traffic s t), ← arrivals_queueOps s t]
      exact List.filterMap_append ..
  rw [served, arrived_run (by decide), htrace]
  rfl

theorem isr_indicates {s : LeuartDevice} {q : Queue UInt8} (h : Simulates s q)
    (bytes : List UInt8) : (rtHwLeuartRxIsr bytes s).indicated =
      s.indicated ++ if s.rxIndicate then [(unread (rtHwLeuartRxIsr bytes s).rx).length] else [] := by
  obtain ⟨block, hptr, -⟩ := h.buffer
  have hkeep : (bytes.foldl saveChar s).indicated = s.indicated ∧
      (bytes.foldl saveChar s).rxIndicate = s.rxIndicate := by
    clear h hptr
    induction bytes generalizing s with
    | nil => exact ⟨rfl, rfl⟩
    | cons b bytes ih => exact ih
  simp only [rtHwLeuartRxIsr, hptr, reduceCtorEq, if_false, hkeep.2]
  split_ifs with hind
  · simp only [hkeep.1, unread, length_contents, rxLength]
  · simp only [hkeep.1, List.append_nil]

/-- After open, whatever interrupts and reads follow in whatever order, the
driver is a queue of 63 bytes that drops the oldest: everything received has
either left it, in order, or is in the ring; reads return what left without
being dropped; the ring holds the last bytes since the last one read; and the
next byte pushes the oldest out only if there are 63. -/
theorem reads_in_order_of_arrival (ind : Bool) (size : UInt8) (r w : ℕ) (a : ℕ → UInt8)
    (ts : List Traffic) :
    let s₀ := (rtLeuartOpen (some a) (unitInit ind size r w)).2
    let s := ts.foldl traffic s₀
    let q := served s₀ ts
    q.left.map Prod.fst ++ q.unread = ts.flatMap received ∧
      returned s = (q.left.filter Prod.snd).map Prod.fst ∧
      unread s.rx = q.unread ∧ (unread s.rx).length = min q.since 63 ∧
      s.rx.readIndex < 64 ∧ s.rx.saveIndex < 64 ∧
      (∀ b, unread (saveChar s b).rx =
        (if (unread s.rx).length < 63 then unread s.rx else (unread s.rx).tail) ++ [b]) ∧
      ∀ bytes, (rtHwLeuartRxIsr bytes s).indicated = s.indicated ++
        if s.rxIndicate then [(unread (rtHwLeuartRxIsr bytes s).rx).length] else [] := by
  intro s₀ s q
  have hsim : Simulates s q := simulates_run (simulates_open ind size r w a) ts
  refine ⟨arrived_served s₀ ts, hsim.gave, hsim.holds, ?_, hsim.read, hsim.save, fun b ↦ ?_,
    isr_indicates hsim⟩
  · rw [hsim.holds]
    exact length_run _
  · rw [(simulates_saveChar hsim b).holds, hsim.holds]
    exact unread_arrive (by decide) q b

end GiantGecko.Leuart.Reception
