import GiantGecko.Drivers.Serial
import GiantGecko.Foundation.DropOldest
import GiantGecko.Foundation.Ring

namespace GiantGecko.Drivers.SerialFifo

open Serial Foundation.DropOldest Foundation.Ring Foundation.Transition

structure Usart where
  perr : Bool
  rxof : Bool
  rxdatav : Bool
  rxdata : UInt8

/-- `none` for -1. The flags of errors are cleared, and data are read. -/
def usartGetc (r : Usart) : Option UInt8 × Usart :=
  if r.perr ∨ r.rxof then (none, { r with perr := false, rxof := false })
  else if r.rxdatav then (some r.rxdata, { r with rxdatav := false })
  else (none, r)

/-- A call of `_serial_int_rx`: how much it may still read and what it has copied. -/
structure Reader where
  length : ℕ
  copied : List UInt8

/-- The device with its readers. `given` records what the turns of all reads have taken,
and `results` what each reader has had returned. -/
structure Reception where
  dev : SerialDevice
  reader : ℕ → Option Reader
  given : List (ℕ × UInt8)
  results : ℕ → List (List UInt8)

def indicate (fifo : RxFifo) (dev : SerialDevice) : SerialDevice :=
  if dev.rxIndicate = true ∧ rxLength dev.bufsz fifo ≠ 0 then
    { dev with indicated := dev.indicated ++ [rxLength dev.bufsz fifo] }
  else dev

def isrTurn (r : Usart) (fifo : RxFifo) (s : Reception) : Reception :=
  match (usartGetc r).1 with
  | some ch => { s with dev := { s.dev with serialRx := some (putChar s.dev.bufsz fifo ch) } }
  | none => { s with dev := indicate fifo s.dev }

def back (i : ℕ) (copied : List UInt8) (s : Reception) : Reception :=
  { s with
    reader := Function.update s.reader i none
    results := Function.update s.results i (s.results i ++ [copied]) }

def readTurn (i : ℕ) (fifo : RxFifo) (s : Reception) : Reception :=
  match s.reader i with
  | none => s
  | some ⟨0, copied⟩ => back i copied s
  | some ⟨length + 1, copied⟩ =>
    match getChar s.dev.bufsz fifo with
    | none => back i copied s
    | some (ch, fifo) =>
      { s with
        dev := { s.dev with serialRx := some fifo }
        reader := Function.update s.reader i (some ⟨length, copied ++ [ch]⟩)
        given := s.given ++ [(i, ch)] }

inductive Event
  | isrTurn (r : Usart)
  | readBegin (i length : ℕ)
  | readTurn (i : ℕ)

def react (s : Reception) (e : Event) : Reception :=
  match s.dev.serialRx with
  | none => s
  | some fifo =>
    match e with
    | .isrTurn r => isrTurn r fifo s
    | .readBegin i length =>
      match s.reader i with
      | none => { s with reader := Function.update s.reader i (some ⟨length, []⟩) }
      | some _ => s
    | .readTurn i => readTurn i fifo s

def opened (rxIndicate : Bool) (bufsz : ℕ) : Reception where
  dev := openRx rtDeviceFlagIntRx true (rtSerialInit (rtHwSerialInit rxIndicate bufsz))
  reader _ := none
  given := []
  results _ := []

/-- The handler for some characters is its turns for them and one without. -/
theorem rtHwSerialIsr_eq {dev : SerialDevice} {fifo : RxFifo} (hfifo : dev.serialRx = some fifo)
    (chars : List UInt8) :
    rtHwSerialIsr chars dev =
      indicate (chars.foldl (putChar dev.bufsz) fifo)
        { dev with serialRx := some (chars.foldl (putChar dev.bufsz) fifo) } := by
  simp only [rtHwSerialIsr, hfifo, indicate]
  split_ifs <;> rfl

def unread (bufsz : ℕ) (fifo : RxFifo) : List UInt8 :=
  contents bufsz fifo.buffer fifo.getIndex fifo.putIndex

def received : Event → List UInt8
  | .isrTurn r => (usartGetc r).1.toList
  | _ => []

def queueOps (s : Reception) : Event → List (Op UInt8)
  | .isrTurn r => (usartGetc r).1.toList.map .arrive
  | .readBegin _ _ => []
  | .readTurn i =>
    match s.reader i with
    | some ⟨_ + 1, _⟩ => [.take]
    | _ => []

def served (cap : ℕ) (s : Reception) (es : List Event) : Queue UInt8 :=
  (trace react queueOps s es).foldl (step cap) .empty

structure Indexed (bufsz : ℕ) (fifo : RxFifo) : Prop where
  length : fifo.buffer.length = bufsz
  get : fifo.getIndex < bufsz
  put : fifo.putIndex < bufsz
  full : fifo.isFull = true → count bufsz fifo.getIndex fifo.putIndex + 1 = bufsz

variable {bufsz : ℕ} {fifo : RxFifo}

theorem rxLength_eq (h : Indexed bufsz fifo) : rxLength bufsz fifo = (unread bufsz fifo).length := by
  have hget := h.get
  rw [unread, length_contents, rxLength, count]
  split_ifs <;> omega

theorem putChar_of_full (ch : UInt8) (h : next bufsz fifo.putIndex = fifo.getIndex) :
    putChar bufsz fifo ch =
      ⟨fifo.buffer.set fifo.putIndex ch, next bufsz fifo.putIndex, next bufsz fifo.getIndex, true⟩ :=
  if_pos h

theorem putChar_of_room (ch : UInt8) (h : next bufsz fifo.putIndex ≠ fifo.getIndex) :
    putChar bufsz fifo ch =
      ⟨fifo.buffer.set fifo.putIndex ch, next bufsz fifo.putIndex, fifo.getIndex, fifo.isFull⟩ :=
  if_neg h

theorem Indexed.putChar (hbufsz : 2 ≤ bufsz) (h : Indexed bufsz fifo) (ch : UInt8) :
    Indexed bufsz (putChar bufsz fifo ch) ∧
      unread bufsz (Serial.putChar bufsz fifo ch) =
        (if (unread bufsz fifo).length < bufsz - 1 then unread bufsz fifo
          else (unread bufsz fifo).tail) ++ [ch] := by
  obtain ⟨hlength, hget, hput, hflag⟩ := h
  have hpos : 0 < bufsz := by omega
  have hset : (fifo.buffer.set fifo.putIndex ch).length = bufsz := by simpa using hlength
  have hiff := next_eq_iff hget hput
  have hlt := count_lt hget hput
  simp only [unread, length_contents]
  by_cases hfull : next bufsz fifo.putIndex = fifo.getIndex
  · have hmany := hiff.mp hfull
    have hroom : ¬count bufsz fifo.getIndex fifo.putIndex < bufsz - 1 := by omega
    have hpush := contents_push_full (by omega) hlength hget hput hfull ch
    rw [putChar_of_full ch hfull, if_neg hroom]
    refine ⟨⟨hset, next_lt hpos _, next_lt hpos _, ?_⟩, hpush⟩
    intro _
    have hcount := congrArg List.length hpush
    simp only [length_contents, List.length_append, List.length_tail, List.length_singleton] at hcount
    simp only [hcount]
    omega
  · have hroom : count bufsz fifo.getIndex fifo.putIndex < bufsz - 1 := by
      have := mt hiff.mpr hfull
      omega
    rw [putChar_of_room ch hfull, if_pos hroom]
    refine ⟨⟨hset, hget, next_lt hpos _, ?_⟩, contents_push hlength hget hput hfull ch⟩
    intro hisFull
    have := hflag hisFull
    omega

/-- A character is read exactly if there is one that is unread, whatever the flag says. -/
theorem Indexed.getChar (hbufsz : 2 ≤ bufsz) (h : Indexed bufsz fifo) :
    (unread bufsz fifo = [] ∧ getChar bufsz fifo = none) ∨
      ∃ ch fifo', Serial.getChar bufsz fifo = some (ch, fifo') ∧ Indexed bufsz fifo' ∧
        unread bufsz fifo = ch :: unread bufsz fifo' := by
  obtain ⟨hlength, hget, hput, hflag⟩ := h
  by_cases hempty : fifo.getIndex = fifo.putIndex
  · have hcount := (count_eq_zero (w := fifo.putIndex) hget).mpr hempty
    refine .inl ⟨?_, ?_⟩
    · rw [unread, ← List.length_eq_zero_iff, length_contents, hcount]
    · have hisFull : fifo.isFull = false := by
        by_contra htrue
        have := hflag (by simpa using htrue)
        omega
      rw [Serial.getChar, if_pos ⟨hempty, hisFull⟩]
  · refine .inr ⟨_, _, if_neg fun hno ↦ hempty hno.1, ?_, contents_pop fifo.buffer hget hput hempty⟩
    exact ⟨hlength, next_lt (by omega) _, hput, fun hfalse ↦ Bool.noConfusion hfalse⟩

/-- What a reader has taken is what it has had returned, and what it has in hands. -/
def Booked (s : Reception) : Prop :=
  ∀ i, (s.results i).flatten ++ ((s.reader i).map Reader.copied).getD [] =
    (s.given.filter fun p ↦ p.1 = i).map Prod.snd

/-- The device is a queue that drops its oldest items. -/
structure Simulates (bufsz : ℕ) (s : Reception) (q : Queue UInt8) : Prop where
  size : s.dev.bufsz = bufsz
  ring : ∃ fifo, s.dev.serialRx = some fifo ∧ Indexed bufsz fifo ∧ unread bufsz fifo = q.unread
  gave : s.given.map Prod.snd = q.taken
  booked : Booked s

theorem simulates_opened (rxIndicate : Bool) (bufsz : ℕ) (hbufsz : 2 ≤ bufsz) :
    Simulates bufsz (opened rxIndicate bufsz) .empty where
  size := rfl
  ring := by
    refine ⟨⟨List.replicate bufsz 0, 0, 0, false⟩, rfl, ?_, rfl⟩
    exact ⟨List.length_replicate, by simp only; omega, by simp only; omega,
      fun hfalse ↦ Bool.noConfusion hfalse⟩
  gave := rfl
  booked _ := rfl

variable {s : Reception} {q : Queue UInt8} {i : ℕ} {copied : List UInt8}

theorem simulates_isrTurn (hbufsz : 2 ≤ bufsz) (h : Simulates bufsz s q)
    (hfifo : s.dev.serialRx = some fifo) (r : Usart) :
    Simulates bufsz (isrTurn r fifo s)
      (((usartGetc r).1.toList.map Op.arrive).foldl (step (bufsz - 1)) q) := by
  obtain ⟨hsize, ⟨fifo', hfifo', hindexed, hunread⟩, hgave, hbooked⟩ := h
  obtain rfl : fifo' = fifo := Option.some.inj (hfifo'.symm.trans hfifo)
  rw [isrTurn]
  cases (usartGetc r).1 with
  | none =>
    refine ⟨?_, ⟨fifo', ?_, hindexed, hunread⟩, hgave, hbooked⟩
    · simp only [indicate]
      split_ifs <;> exact hsize
    · simp only [indicate]
      split_ifs <;> exact hfifo
  | some ch =>
    obtain ⟨hindexed', hput⟩ := hindexed.putChar hbufsz ch
    have hcap : 0 < bufsz - 1 := by omega
    refine ⟨hsize, ⟨putChar bufsz fifo' ch, by simp only [hsize], hindexed', ?_⟩, ?_, hbooked⟩
    · rw [hput, hunread]
      exact (unread_arrive hcap q ch).symm
    · simp only [Option.toList_some, List.map_cons, List.map_nil, List.foldl_cons, List.foldl_nil,
        hgave]
      by_cases hroom : q.unread.length < bufsz - 1
      · rw [arrive_room hroom]
        rfl
      · obtain ⟨x, rest, hq⟩ := List.exists_cons_of_length_pos (by omega : 0 < q.unread.length)
        rw [arrive_full hroom hq]
        simp [Queue.taken]

theorem booked_back (h : Booked s) (hreader : (s.reader i).map Reader.copied = some copied) :
    Booked (back i copied s) := by
  intro j
  obtain rfl | hne := eq_or_ne j i
  · have hj := h j
    rw [hreader] at hj
    simpa [back] using hj
  · simpa [back, hne] using h j

theorem simulates_back (h : Simulates bufsz s q)
    (hreader : (s.reader i).map Reader.copied = some copied) : Simulates bufsz (back i copied s) q :=
  ⟨h.size, h.ring, h.gave, booked_back h.booked hreader⟩

theorem booked_take {length : ℕ} {ch : UInt8} {dev : SerialDevice} (h : Booked s)
    (hreader : s.reader i = some ⟨length + 1, copied⟩) :
    Booked
      { s with
        dev := dev
        reader := Function.update s.reader i (some ⟨length, copied ++ [ch]⟩)
        given := s.given ++ [(i, ch)] } := by
  intro j
  obtain rfl | hne := eq_or_ne j i
  · have hj := h j
    rw [hreader] at hj
    simp only [Option.map_some, Option.getD_some] at hj
    simp [← hj]
  · have hj := h j
    simpa [hne, hne.symm] using hj

theorem simulates_readTurn (hbufsz : 2 ≤ bufsz) (h : Simulates bufsz s q)
    (hfifo : s.dev.serialRx = some fifo) (i : ℕ) :
    Simulates bufsz (readTurn i fifo s)
      ((queueOps s (.readTurn i)).foldl (step (bufsz - 1)) q) := by
  rw [readTurn]
  rcases hreader : s.reader i with _ | ⟨_ | length, copied⟩
  · simp only [queueOps, hreader]
    exact h
  · simp only [queueOps, hreader]
    exact simulates_back h (by rw [hreader]; rfl)
  · obtain ⟨fifo', hfifo', hindexed, hunread⟩ := h.ring
    obtain rfl : fifo' = fifo := Option.some.inj (hfifo'.symm.trans hfifo)
    simp only [queueOps, hreader, List.foldl_cons, List.foldl_nil, h.size]
    obtain ⟨hempty, hnone⟩ | ⟨ch, fifo, hsome, hindexed', hcons⟩ := hindexed.getChar hbufsz
    · rw [hunread] at hempty
      rw [take_nil hempty, hnone]
      exact simulates_back h (by rw [hreader]; rfl)
    · rw [hunread] at hcons
      rw [take_cons hcons, hsome]
      refine ⟨rfl, ⟨fifo, rfl, hindexed', rfl⟩, ?_, booked_take h.booked hreader⟩
      simp [Queue.taken, h.gave]

theorem simulates_react (hbufsz : 2 ≤ bufsz) (s : Reception) (q : Queue UInt8) (e : Event)
    (h : Simulates bufsz s q) :
    Simulates bufsz (react s e) ((queueOps s e).foldl (step (bufsz - 1)) q) := by
  obtain ⟨fifo, hfifo, -, -⟩ := h.ring
  rw [react, hfifo]
  cases e with
  | isrTurn r => exact simulates_isrTurn hbufsz h hfifo r
  | readTurn i => exact simulates_readTurn hbufsz h hfifo i
  | readBegin i length =>
    simp only [queueOps, List.foldl_nil]
    cases hreader : s.reader i with
    | some reader => exact h
    | none =>
      refine ⟨h.size, h.ring, h.gave, ?_⟩
      intro j
      obtain rfl | hne := eq_or_ne j i
      · have hj := h.booked j
        rw [hreader] at hj
        simpa using hj
      · simpa [hne] using h.booked j

theorem simulates_run (rxIndicate : Bool) (hbufsz : 2 ≤ bufsz) (es : List Event) :
    Simulates bufsz (es.foldl react (opened rxIndicate bufsz))
      (served (bufsz - 1) (opened rxIndicate bufsz) es) :=
  simulation_run (simulates_react hbufsz) (simulates_opened rxIndicate bufsz hbufsz) es

theorem arrivals_queueOps (s : Reception) (e : Event) : arrivals (queueOps s e) = received e := by
  cases e with
  | isrTurn r => simp [queueOps, received, arrivals, List.filterMap_map]
  | readBegin i length => rfl
  | readTurn i =>
    simp only [queueOps, received]
    split <;> rfl

theorem arrived_served {cap : ℕ} (hcap : 0 < cap) (s : Reception) (es : List Event) :
    (served cap s es).arrived = es.flatMap received := by
  have htrace : arrivals (trace react queueOps s es) = es.flatMap received := by
    induction es generalizing s with
    | nil => rfl
    | cons e es ih =>
      rw [trace, List.flatMap_cons, ← ih (react s e), ← arrivals_queueOps s e]
      exact List.filterMap_append ..
  rw [served, arrived_run hcap, htrace]
  rfl

theorem indicate_unread {dev : SerialDevice} (h : Indexed dev.bufsz fifo) :
    (indicate fifo dev).indicated =
      dev.indicated ++
        if dev.rxIndicate = true ∧ unread dev.bufsz fifo ≠ [] then [(unread dev.bufsz fifo).length]
        else [] := by
  have hlength : rxLength dev.bufsz fifo ≠ 0 ↔ unread dev.bufsz fifo ≠ [] := by
    rw [rxLength_eq h, ne_eq, List.length_eq_zero_iff]
  rw [indicate, rxLength_eq h] at *
  simp only [hlength]
  split_ifs
  · rfl
  · rw [List.append_nil]

/-- Whatever interrupts and reads come in whatever order, the device is a queue of
`bufsz - 1` characters that drops the oldest: all that has been received has left it, in
order, or is in the FIFO; reads take what has left without being dropped; the next character
pushes the oldest out only if the FIFO is full, and none is read from an empty one. -/
theorem reads_arrivals_in_order (rxIndicate : Bool) (bufsz : ℕ) (hbufsz : 2 ≤ bufsz)
    (es : List Event) :
    let s := es.foldl react (opened rxIndicate bufsz)
    let q := served (bufsz - 1) (opened rxIndicate bufsz) es
    ∃ fifo, s.dev.serialRx = some fifo ∧
      q.left.map Prod.fst ++ q.unread = es.flatMap received ∧
      s.given.map Prod.snd = (q.left.filter Prod.snd).map Prod.fst ∧
      (∀ i, (s.results i).flatten ++ ((s.reader i).map Reader.copied).getD [] =
        (s.given.filter fun p ↦ p.1 = i).map Prod.snd) ∧
      unread bufsz fifo = q.unread ∧ (unread bufsz fifo).length = min q.since (bufsz - 1) ∧
      fifo.getIndex < bufsz ∧ fifo.putIndex < bufsz ∧
      (∀ ch, unread bufsz (putChar bufsz fifo ch) =
        (if (unread bufsz fifo).length < bufsz - 1 then unread bufsz fifo
          else (unread bufsz fifo).tail) ++ [ch]) ∧
      (unread bufsz fifo = [] → getChar bufsz fifo = none) ∧
      (indicate fifo s.dev).indicated =
        s.dev.indicated ++
          if s.dev.rxIndicate = true ∧ unread bufsz fifo ≠ [] then [(unread bufsz fifo).length]
          else [] := by
  intro s q
  have hsim : Simulates bufsz s q := simulates_run rxIndicate hbufsz es
  obtain ⟨fifo, hfifo, hindexed, hunread⟩ := hsim.ring
  have hindexed' : Indexed s.dev.bufsz fifo := by rw [hsim.size]; exact hindexed
  have hindicate := indicate_unread hindexed'
  rw [hsim.size] at hindicate
  refine ⟨fifo, hfifo, arrived_served (by omega) _ es, hsim.gave, hsim.booked, hunread, ?_,
    hindexed.get, hindexed.put, fun ch ↦ (hindexed.putChar hbufsz ch).2, ?_, hindicate⟩
  · rw [hunread]
    exact length_run _
  · intro hempty
    obtain ⟨-, hnone⟩ | ⟨ch, fifo', -, -, hcons⟩ := hindexed.getChar hbufsz
    · exact hnone
    · rw [hempty] at hcons
      cases hcons

/-- A buffer of two, which holds one character: the first is read, and the third pushes the
second out. -/
theorem reads_first_of_three :
    let s := [Event.isrTurn ⟨false, false, true, 1⟩, .readBegin 0 2, .readTurn 0,
      .isrTurn ⟨false, false, true, 2⟩, .isrTurn ⟨false, false, true, 3⟩].foldl react (opened true 2)
    ∃ fifo, s.dev.serialRx = some fifo ∧ s.given.map Prod.snd = [1] ∧ unread 2 fifo = [3] := by
  obtain ⟨fifo, hfifo, -, hgiven, -, hunread, -⟩ := reads_arrivals_in_order true 2 (by decide)
    [.isrTurn ⟨false, false, true, 1⟩, .readBegin 0 2, .readTurn 0,
      .isrTurn ⟨false, false, true, 2⟩, .isrTurn ⟨false, false, true, 3⟩]
  exact ⟨fifo, hfifo, hgiven.trans (by decide), hunread.trans (by decide)⟩

end GiantGecko.Drivers.SerialFifo
