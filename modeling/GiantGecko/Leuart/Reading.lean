import GiantGecko.Leuart.Reception
import Mathlib.Data.BitVec

namespace GiantGecko.Leuart.Reading

open Driver Reception Foundation.Ring Foundation.Transition

abbrev Addr := BitVec 32

/-- The arguments and variables of a call that holds the lock, with what it has
stored and where. `size` is what interrupt mode counts down. -/
structure ReadCall where
  buffer : Addr
  asked : BitVec 32
  size : ℕ
  ptr : Addr
  stored : List (Addr × UInt8)

/-- The device, its receive mode, the call that holds the lock, and the calls
that have returned with their values. -/
structure Port where
  dev : LeuartDevice
  intRx : Bool
  call : Option ReadCall
  returned : List (ReadCall × ℕ)

def finish (s : Port) (c : ReadCall) (readLen : ℕ) : Port :=
  { s with call := none, returned := s.returned ++ [(c, readLen)] }

def intTurn (s : Port) (c : ReadCall) : Port :=
  match c.size with
  | 0 => finish s c (c.ptr - c.buffer).toNat
  | size + 1 =>
    if s.dev.rx.readIndex ≠ s.dev.rx.saveIndex then
      let b := (s.dev.rx.dataPtr.getD []).getD s.dev.rx.readIndex default
      { s with
        dev := { s.dev with
          rx := { s.dev.rx with readIndex := next leuartRxBufferSize s.dev.rx.readIndex }
          accesses := s.dev.accesses ++ [(s.dev.rx.readIndex, bufferSize s.dev.rx)] }
        call := some
          { c with ptr := c.ptr + 1, size := size, stored := c.stored ++ [(c.ptr, b)] } }
    else finish s c (c.ptr - c.buffer).toNat

def outerTest (s : Port) (c : ReadCall) : Port :=
  if (c.ptr - c.buffer).toNat < c.asked.toNat then { s with call := some c }
  else finish s c c.asked.toNat

def pollTest (s : Port) (c : ReadCall) : Option UInt8 → Port
  | some b => { s with call := some { c with ptr := c.ptr + 1, stored := c.stored ++ [(c.ptr, b)] } }
  | none => outerTest s c

/-- `rt_leuart_read` up to its loops. A call refused the lock returns 0, one
that has to wait for it is still to come. -/
def begin (s : Port) (refused : Bool) (buffer : Addr) (size : BitVec 32) : Port :=
  let c : ReadCall := ⟨buffer, size, size.toNat, buffer, []⟩
  if refused then { s with returned := s.returned ++ [(c, 0)] }
  else match s.call with
    | some _ => s
    | none => if s.intRx then { s with call := some c } else outerTest s c

inductive Event
  | begin (refused : Bool) (buffer : Addr) (size : BitVec 32)
  | isr (bytes : List UInt8)
  | turn (shown : Option UInt8)

def step (s : Port) : Event → Port
  | .begin refused buffer size => begin s refused buffer size
  | .isr bytes => if s.intRx then { s with dev := rtHwLeuartRxIsr bytes s.dev } else s
  | .turn shown =>
    match s.call with
    | none => s
    | some c => if s.intRx then intTurn s c else pollTest s c shown

/-- A turn is the one that `readTurn` takes for the same reader. -/
theorem readTurn_intTurn (s : Port) (c : ReadCall) :
    readTurn { s.dev with reader := some ⟨c.size, c.stored.map Prod.snd⟩ } =
      { (intTurn s c).dev with
        reader := (intTurn s c).call.map fun c ↦ ⟨c.size, c.stored.map Prod.snd⟩
        results := s.dev.results ++
          if (intTurn s c).call = none then [c.stored.map Prod.snd] else [] } := by
  rcases hsize : c.size with _ | size
  · simp [readTurn, intTurn, hsize, finish]
  · by_cases hne : s.dev.rx.readIndex = s.dev.rx.saveIndex
    · simp [readTurn, intTurn, hsize, finish, hne]
    · simp [readTurn, intTurn, hsize, hne]

def storedBytes (s : Port) : List UInt8 :=
  (s.returned.flatMap fun x ↦ x.1.stored.map Prod.snd) ++
    (s.call.map fun c ↦ c.stored.map Prod.snd).getD []

def takes (s : Port) : Event → List UInt8
  | .turn shown =>
    if s.call = none then []
    else if s.intRx then
      (unread s.dev.rx).take
        ((unread s.dev.rx).length - (unread (step s (.turn shown)).dev.rx).length)
    else shown.toList
  | _ => []

/-- The call has stored at most as many bytes as it was asked for, one after
the other from the start of the buffer. -/
structure Within (c : ReadCall) : Prop where
  room : c.stored.length ≤ c.asked.toNat
  places : c.stored.map Prod.fst = (List.range c.stored.length).map fun i ↦ c.buffer + BitVec.ofNat 32 i

/-- After the event every call is within its buffer, what calls returned is the
number of bytes they stored, and what the event took has been stored. -/
structure Bounded (s : Port) (e : Event) : Prop where
  running : ∀ c ∈ (step s e).call, Within c
  ended : ∀ x ∈ (step s e).returned, Within x.1 ∧ x.2 = x.1.stored.length
  storesTaken : storedBytes (step s e) = storedBytes s ++ takes s e

/-- No byte is shown to a polling loop that has stored all it was asked for. -/
def Spare (s : Port) (e : Event) : Prop :=
  s.intRx = false → ∀ c ∈ s.call, ∀ b, e = .turn (some b) → c.stored.length < c.asked.toNat

structure RingOk (dev : LeuartDevice) : Prop where
  running : dev.halted = false
  buffer : ∃ block, dev.rx.dataPtr = some block ∧ block.length = leuartRxBufferSize
  read : dev.rx.readIndex < leuartRxBufferSize
  save : dev.rx.saveIndex < leuartRxBufferSize

structure InLoop (intRx : Bool) (c : ReadCall) : Prop where
  within : Within c
  ptr : c.ptr = c.buffer + BitVec.ofNat 32 c.stored.length
  left : intRx → c.stored.length + c.size = c.asked.toNat

structure Inv (s : Port) : Prop where
  ring : RingOk s.dev
  call : ∀ c ∈ s.call, InLoop s.intRx c
  returned : ∀ x ∈ s.returned, Within x.1 ∧ x.2 = x.1.stored.length

theorem ringOk_open (ind : Bool) (size : UInt8) (r w : ℕ) (a : ℕ → UInt8) :
    RingOk (rtLeuartOpen (some a) (unitInit ind size r w)).2 :=
  let h := simulates_open ind size r w a
  ⟨h.running, h.buffer, h.read, h.save⟩

theorem ringOk_isr {dev : LeuartDevice} (h : RingOk dev) (bytes : List UInt8) :
    RingOk (rtHwLeuartRxIsr bytes dev) := by
  have hsim : Simulates dev ⟨(returned dev).map (·, true), unread dev.rx⟩ := by
    refine ⟨h.running, h.buffer, h.read, h.save, rfl, ?_⟩
    simp [Foundation.DropOldest.Queue.taken, List.filter_map, Function.comp_def]
  have hisr := simulates_isr hsim bytes
  exact ⟨hisr.running, hisr.buffer, hisr.read, hisr.save⟩

theorem storedBytes_finish {s : Port} {c : ReadCall} (hcall : s.call = some c) (n : ℕ) :
    storedBytes (finish s c n) = storedBytes s := by
  simp [storedBytes, finish, hcall]

theorem storedBytes_push {s : Port} {c : ReadCall} (hcall : s.call = some c) (dev : LeuartDevice)
    (n : ℕ) (p a : Addr) (b : UInt8) :
    storedBytes { s with
      dev := dev
      call := some { c with ptr := p, size := n, stored := c.stored ++ [(a, b)] } } =
      storedBytes s ++ [b] := by
  simp [storedBytes, hcall]

theorem InLoop.length {intRx : Bool} {c : ReadCall} (h : InLoop intRx c) :
    (c.ptr - c.buffer).toNat = c.stored.length := by
  have hroom := h.within.room
  have hasked := c.asked.isLt
  rw [h.ptr, BitVec.add_comm, BitVec.add_sub_cancel, BitVec.toNat_ofNat]
  exact Nat.mod_eq_of_lt (by omega)

theorem InLoop.push {intRx : Bool} {c : ReadCall} (h : InLoop intRx c)
    (hroom : c.stored.length < c.asked.toNat) {size : ℕ} (hsize : intRx → size + 1 = c.size)
    (b : UInt8) :
    InLoop intRx { c with ptr := c.ptr + 1, size := size, stored := c.stored ++ [(c.ptr, b)] } := by
  have hlength (a : Addr) : (c.stored ++ [(a, b)]).length = c.stored.length + 1 := by simp
  refine ⟨⟨?_, ?_⟩, ?_, fun hint ↦ ?_⟩
  · simp only [hlength]
    omega
  · simp only [hlength, List.range_succ, List.map_append, h.within.places, List.map_singleton, h.ptr]
  · simp only [hlength, h.ptr, BitVec.ofNat_add, BitVec.add_assoc]
    rfl
  · have hleft := h.left hint
    have hsize' := hsize hint
    simp only [hlength]
    omega

theorem Inv.finish {s : Port} (h : Inv s) {c : ReadCall} (hc : Within c) {n : ℕ}
    (hn : n = c.stored.length) : Inv (finish s c n) where
  ring := h.ring
  call c' hc' := by simp [Reading.finish] at hc'
  returned x hx := by
    rcases List.mem_append.mp hx with hx | hx
    · exact h.returned x hx
    · rw [List.mem_singleton.mp hx]
      exact ⟨hc, hn⟩

theorem inv_intTurn {s : Port} (h : Inv s) {c : ReadCall} (hcall : s.call = some c)
    (hint : s.intRx = true) : Inv (intTurn s c) ∧
      storedBytes (intTurn s c) = storedBytes s ++
        (unread s.dev.rx).take
          ((unread s.dev.rx).length - (unread (intTurn s c).dev.rx).length) := by
  have hc := h.call c hcall
  obtain ⟨hrun, ⟨block, hptr, hlen⟩, hread, hsave⟩ := h.ring
  have hend : Inv (Reading.finish s c (c.ptr - c.buffer).toNat) := h.finish hc.within hc.length
  rcases hsize : c.size with _ | size
  · simp only [intTurn, hsize]
    refine ⟨hend, ?_⟩
    rw [storedBytes_finish hcall]
    simp [Reading.finish]
  · by_cases hne : s.dev.rx.readIndex ≠ s.dev.rx.saveIndex
    · have hroom : c.stored.length < c.asked.toNat := by
        have := hc.left hint
        omega
      have hpop := contents_pop (s.dev.rx.dataPtr.getD []) hread hsave hne
      simp only [intTurn, hsize, if_pos hne]
      refine ⟨⟨⟨hrun, ⟨block, hptr, hlen⟩, next_lt leuartRxBufferSize_pos _, hsave⟩, ?_, h.returned⟩,
        ?_⟩
      · intro c' hc'
        obtain rfl := Option.some.inj hc'
        exact hc.push hroom (fun _ ↦ hsize.symm) _
      · rw [storedBytes_push hcall, unread, hpop, unread]
        simp
    · simp only [intTurn, hsize, if_neg hne]
      refine ⟨hend, ?_⟩
      rw [storedBytes_finish hcall]
      simp [Reading.finish]

theorem inv_outerTest {s : Port} (h : Inv s) {c : ReadCall} (hc : InLoop false c)
    (hint : s.intRx = false) (hcall : s.call = some c ∨ s.call = none ∧ c.stored = []) :
    Inv (outerTest s c) ∧ storedBytes (outerTest s c) = storedBytes s := by
  have hroom := hc.within.room
  rw [outerTest, hc.length]
  split_ifs with hless
  · refine ⟨⟨h.ring, fun c' hc' ↦ ?_, h.returned⟩, ?_⟩
    · obtain rfl := Option.some.inj hc'
      rw [hint]
      exact hc
    · rcases hcall with hcall | ⟨hcall, hnew⟩
      · simp [storedBytes, hcall]
      · simp [storedBytes, hcall, hnew]
  · refine ⟨h.finish hc.within (by omega), ?_⟩
    rcases hcall with hcall | ⟨hcall, hnew⟩
    · exact storedBytes_finish hcall _
    · simp [storedBytes, Reading.finish, hcall, hnew]

theorem inLoop_begin (intRx : Bool) (buffer : Addr) (size : BitVec 32) :
    InLoop intRx ⟨buffer, size, size.toNat, buffer, []⟩ where
  within := ⟨Nat.zero_le _, rfl⟩
  ptr := (BitVec.add_zero buffer).symm
  left _ := Nat.zero_add _

theorem inv_begin {s : Port} (h : Inv s) (refused : Bool) (buffer : Addr) (size : BitVec 32) :
    Inv (begin s refused buffer size) ∧ storedBytes (begin s refused buffer size) = storedBytes s := by
  have hnew := inLoop_begin s.intRx buffer size
  rw [begin]
  split_ifs with hrefused hint
  · refine ⟨⟨h.ring, h.call, fun x hx ↦ ?_⟩, by simp [storedBytes]⟩
    rcases List.mem_append.mp hx with hx | hx
    · exact h.returned x hx
    · rw [List.mem_singleton.mp hx]
      exact ⟨hnew.within, rfl⟩
  · split
    · exact ⟨h, rfl⟩
    · next hcall =>
      refine ⟨⟨h.ring, fun c' hc' ↦ ?_, h.returned⟩, by simp [storedBytes, hcall]⟩
      obtain rfl := Option.some.inj hc'
      exact hnew
  · split
    · exact ⟨h, rfl⟩
    · next hcall =>
      have hint' : s.intRx = false := by simpa using hint
      exact inv_outerTest h (hint' ▸ hnew) hint' (.inr ⟨hcall, rfl⟩)

theorem inv_pollTest {s : Port} (h : Inv s) {c : ReadCall} (hcall : s.call = some c)
    (hint : s.intRx = false) (shown : Option UInt8) :
    storedBytes (pollTest s c shown) = storedBytes s ++ shown.toList ∧
      ((shown ≠ none → c.stored.length < c.asked.toNat) → Inv (pollTest s c shown)) := by
  have hc : InLoop false c := hint ▸ h.call c hcall
  cases shown with
  | none =>
    obtain ⟨hinv, hbytes⟩ := inv_outerTest h hc hint (.inl hcall)
    exact ⟨by rw [pollTest, hbytes, Option.toList_none, List.append_nil], fun _ ↦ hinv⟩
  | some b =>
    refine ⟨storedBytes_push hcall _ _ _ _ _, fun hroom ↦ ⟨h.ring, fun c' hc' ↦ ?_, h.returned⟩⟩
    obtain rfl := Option.some.inj hc'
    simp only [pollTest, hint]
    exact hc.push (hroom (by simp)) (fun hne ↦ by simp at hne) b

theorem storedBytes_step {s : Port} (h : Inv s) (e : Event) :
    storedBytes (step s e) = storedBytes s ++ takes s e := by
  cases e with
  | begin refused buffer size =>
    simp only [step, takes, List.append_nil]
    exact (inv_begin h refused buffer size).2
  | isr bytes =>
    simp only [step, takes, List.append_nil]
    split_ifs <;> rfl
  | turn shown =>
    rcases hcall : s.call with _ | c
    · simp [step, takes, hcall]
    · by_cases hint : s.intRx = true
      · simp only [takes, step, hcall, if_pos hint, reduceCtorEq, if_false]
        exact (inv_intTurn h hcall hint).2
      · have hint' : s.intRx = false := by simpa using hint
        simp only [takes, step, hcall, if_neg hint, reduceCtorEq, if_false]
        exact (inv_pollTest h hcall hint' shown).1

theorem inv_step (s : Port) (e : Event) (h : Inv s) (hspare : Spare s e) : Inv (step s e) := by
  cases e with
  | begin refused buffer size => exact (inv_begin h refused buffer size).1
  | isr bytes =>
    simp only [step]
    split_ifs
    · exact ⟨ringOk_isr h.ring bytes, h.call, h.returned⟩
    · exact h
  | turn shown =>
    rcases hcall : s.call with _ | c
    · simp only [step, hcall]
      exact h
    · by_cases hint : s.intRx = true
      · simp only [step, hcall, if_pos hint]
        exact (inv_intTurn h hcall hint).1
      · have hint' : s.intRx = false := by simpa using hint
        simp only [step, hcall, if_neg hint]
        refine (inv_pollTest h hcall hint' shown).2 fun hshown ↦ ?_
        obtain ⟨b, rfl⟩ := Option.ne_none_iff_exists'.mp hshown
        exact hspare hint' c hcall b rfl

theorem bounded_iff_spare (s : Port) (e : Event) (h : Inv s) : Bounded s e ↔ Spare s e := by
  constructor
  · rintro hbounded hint c hcall b rfl
    have hcall' : s.call = some c := hcall
    have hroom := (hbounded.running { c with ptr := c.ptr + 1, stored := c.stored ++ [(c.ptr, b)] }
      (by simp [step, hcall', hint, pollTest])).room
    simpa [Nat.succ_le_iff] using hroom
  · intro hspare
    have hinv := inv_step s e h hspare
    exact ⟨fun c hc ↦ (hinv.call c hc).within, hinv.returned, storedBytes_step h e⟩

/-- From open on, in either mode, every event leaves all calls within their
buffers just when no byte is shown to a polling loop that has stored enough. -/
theorem reads_bounded_iff (ind intRx : Bool) (size : UInt8) (r w : ℕ) (a : ℕ → UInt8)
    (es : List Event) :
    let s : Port := ⟨(rtLeuartOpen (some a) (unitInit ind size r w)).2, intRx, none, []⟩
    Along step Bounded s es ↔ Along step Spare s es := by
  refine along_congr (I := Inv) inv_step bounded_iff_spare ?_ es
  exact ⟨ringOk_open ind size r w a, fun c hc ↦ by simp at hc, fun x hx ↦ by simp at hx⟩

/-- A call for one byte that is shown two stores both and returns 1. -/
theorem poll_overruns : ¬ ∀ (ind intRx : Bool) (size : UInt8) (r w : ℕ) (a : ℕ → UInt8)
    (es : List Event), Along step Bounded
      ⟨(rtLeuartOpen (some a) (unitInit ind size r w)).2, intRx, none, []⟩ es := by
  intro h
  obtain ⟨-, -, hlast, -⟩ := h false false 0 0 0 (fun _ ↦ 0)
    [.begin false 0x1000 1, .turn (some 1), .turn (some 2)]
  have hroom := (hlast.running _ rfl).room
  exact absurd hroom (by decide)

end GiantGecko.Leuart.Reading
