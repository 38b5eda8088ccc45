import GiantGecko.Foundation.Transition
import GiantGecko.Spi.Program

namespace GiantGecko.Spi.Transmitter

open Dma Driver Program Foundation.Transition

/-- The driver's accesses to the chip select, to the USART and to the DMA controller, with
the number of the transfer they belong to. -/
inductive Action
  | writeCs (selected : Bool)
  | clearRx
  | activateRx (transfer : ℕ) (rx : Cycle)
  | clearTx
  | activateTx (transfer : ℕ) (tx : Cycle)
  | wait

def sendActions (k : ℕ) (tx : Cycle) : List Action := [.clearTx, .activateTx k tx, .wait]

def dmaxferActions (k : ℕ) (t : Transfer) : List Action :=
  match t.rx with
  | some rx => .clearRx :: .activateRx k rx :: sendActions k t.tx
  | none => sendActions k t.tx

def transfersActions : ℕ → List Transfer → List Action
  | _, [] => []
  | k, t :: ts => dmaxferActions k t ++ transfersActions (k + 1) ts

def xferActions (k : ℕ) (m : Message) (ts : List Transfer) : List Action :=
  (if m.csTake then [.writeCs true] else []) ++ (transfersActions k ts ++
    if m.csRelease then [.writeCs false] else [])

/-- A message that is only transmitted, alone or before the message that receives, with the
chip select as the calls of the bus ask for it. -/
structure Sending where
  first : Message
  next : Option Message
  sends : first.sendBuf ≠ 0
  transmitOnly : first.recvBuf = 0
  takes : first.csTake = true
  releases : first.csRelease = next.isNone
  follows : ∀ m ∈ next, m.sendBuf = 0 ∧ m.recvBuf ≠ 0 ∧ m.csTake = false ∧ m.csRelease = true

def plan (hspi : EfmSpi) (x : Sending) : Option (List Transfer × List Transfer) := do
  let calls ← dmaCalls x.first
  let (ts, hspi) := program hspi calls
  match x.next with
  | none => return (ts, [])
  | some m =>
    let calls' ← dmaCalls m
    return (ts, (program hspi calls').1)

def sendingActions (x : Sending) (ts ts' : List Transfer) : List Action :=
  xferActions 1 x.first ts ++
    match x.next with
    | none => []
    | some m => xferActions (1 + ts.length) m ts'

structure Byte where
  transfer : ℕ
  addr : Addr

structure Channel where
  transfer : ℕ
  cycle : Cycle
  done : ℕ
  irq : Bool

/-- The transmitter is listed from its shift register on; an answer in the receive buffer is
the transfer whose byte clocked it. -/
structure State where
  todo : List Action
  selected : Bool
  txActive : Bool
  rxActive : Bool
  tx : Channel
  rx : Channel
  transmitter : List Byte
  received : List ℕ
  out : List (Addr × Bool)
  stored : List (ℕ × ℕ)

def transmitterSize : ℕ := 3

def rxBufferSize : ℕ := 2

inductive Event
  | cpu
  | fetch
  | drain
  | store
  | txFinished
  | rxComplete

section Steps

variable (s : State)

def act : Action → State
  | .writeCs selected => { s with selected := selected }
  | .clearRx => { s with rxActive := true, received := [] }
  | .activateRx k rx => { s with rx := ⟨k, rx, 0, false⟩ }
  | .clearTx => { s with txActive := true, transmitter := [] }
  | .activateTx k tx => { s with tx := ⟨k, tx, 0, false⟩ }
  | .wait => s

def waiting : Prop := s.txActive = true ∨ s.rxActive = true

instance : Decidable (waiting s) := inferInstanceAs (Decidable (_ ∨ _))

def cpu : State :=
  match s.todo with
  | [] => s
  | .wait :: todo => if waiting s then s else { s with todo := todo }
  | a :: todo => { act s a with todo := todo }

def Channel.move (c : Channel) : Channel :=
  { c with done := c.done + 1, irq := decide (c.done + 1 = c.cycle.count) }

def fetch : State :=
  if s.tx.done < s.tx.cycle.count ∧ s.transmitter.length < transmitterSize then
    { s with
      tx := s.tx.move
      transmitter := s.transmitter ++ [⟨s.tx.transfer, s.tx.cycle.addr s.tx.done⟩] }
  else s

/-- A byte is shifted out and its answer in, which is lost where the buffer is full. -/
def drain : State :=
  match s.transmitter with
  | [] => s
  | b :: bs =>
    { s with
      transmitter := bs
      out := s.out ++ [(b.addr, s.selected)]
      received :=
        if s.received.length < rxBufferSize then s.received ++ [b.transfer] else s.received }

def store : State :=
  match s.received with
  | [] => s
  | k :: ks =>
    if s.rx.done < s.rx.cycle.count then
      { s with rx := s.rx.move, received := ks, stored := s.stored ++ [(s.rx.transfer, k)] }
    else s

def txFinished : State :=
  if s.tx.irq then { s with txActive := false, tx := { s.tx with irq := false } } else s

def rxComplete : State :=
  if s.rx.irq then { s with rxActive := false, rx := { s.rx with irq := false } } else s

def step : Event → State
  | .cpu => cpu s
  | .fetch => fetch s
  | .drain => drain s
  | .store => store s
  | .txFinished => txFinished s
  | .rxComplete => rxComplete s

end Steps

def quiet : Channel := ⟨0, ⟨0, fun _ ↦ 0⟩, 0, false⟩

def start (stale : List ℕ) (todo : List Action) : State :=
  ⟨todo, false, false, false, quiet, quiet, [], stale, [], []⟩

/-- What the driver clears or releases finds the transmitter empty. -/
def Moves (s : State) (e : Event) : Prop :=
  match e, s.todo with
  | .cpu, .clearRx :: _ | .cpu, .clearTx :: _ | .cpu, .writeCs false :: _ => s.transmitter = []
  | _, _ => True

/-- The busy-wait for a transfer that does not receive is not left before the transmitter
is empty. -/
def Drained (s : State) (e : Event) : Prop :=
  match e, s.todo with
  | .cpu, .wait :: _ => waiting s ∨ s.rx.transfer = s.tx.transfer ∨ s.transmitter = []
  | _, _ => True

def addrs (c : Cycle) : List Addr := (List.range c.count).map c.addr

def sent (ts : List Transfer) : List Addr := ts.flatMap fun t ↦ addrs t.tx

/-- The slave has got no other bytes than those of the buffer, in order and while it was
selected, and after them what the second message clocks out; all of them when the driver is
done. What is stored for a transfer was clocked by it. -/
structure Completed (x : Sending) (ts' : List Transfer) (s : State) : Prop where
  out : s.out.map Prod.fst <+:
    (List.range x.first.length.toNat).map (fun i ↦ x.first.sendBuf + BitVec.ofNat 32 i) ++ sent ts'
  all : s.todo = [] → s.out.map Prod.fst =
    (List.range x.first.length.toNat).map (fun i ↦ x.first.sendBuf + BitVec.ofNat 32 i) ++ sent ts'
  selected : ∀ b ∈ s.out, b.2 = true
  own : ∀ b ∈ s.stored, b.1 = b.2

structure Idle (c : Channel) : Prop where
  done : c.done = c.cycle.count
  irq : c.irq = false

/-- What is left to do from transfer `k` on, and the addresses to be fetched for it. -/
inductive Ahead : ℕ → Bool → List Action → List Addr → Prop
  | done {k : ℕ} {b : Bool} : Ahead k b [] []
  | select {k : ℕ} {b : Bool} {todo : List Action} {l : List Addr} :
      Ahead k true todo l → Ahead k b (.writeCs true :: todo) l
  | release {k : ℕ} {b : Bool} {todo : List Action} {l : List Addr} :
      Ahead k false todo l → Ahead k b (.writeCs false :: todo) l
  | transfer {k : ℕ} {t : Transfer} {todo : List Action} {l : List Addr} :
      (∀ rx ∈ t.rx, rx.count = t.tx.count) → Ahead (k + 1) true todo l →
      Ahead k true (dmaxferActions k t ++ todo) (addrs t.tx ++ l)

inductive Receives (s : State) (k n got : ℕ) : Prop
  | on : s.rx.transfer = k → s.rx.cycle.count = n →
      s.rx.done + s.received.length + s.transmitter.length ≤ got →
      (∀ j ∈ s.received, j = k) → (s.rx.irq = true → s.rx.done = n) →
      (s.rxActive = false → Idle s.rx) → Receives s k n got
  | off : s.rx.transfer < k → Idle s.rx → s.rxActive = false → Receives s k n got

structure Still (s : State) : Prop where
  empty : s.transmitter = []
  tx : Idle s.tx
  rx : s.rx.irq = false
  deaf : s.received = [] ∨ s.rx.done = s.rx.cycle.count

inductive Prepared (s : State) : List Addr → Prop
  | rest {k : ℕ} {l : List Addr} : s.txActive = false → s.rxActive = false → Idle s.rx →
      s.rx.transfer < k → Ahead k s.selected s.todo l → Prepared s l
  | cleared {k : ℕ} {c rx : Cycle} {todo : List Action} {l : List Addr} :
      s.todo = .activateRx k rx :: (sendActions k c ++ todo) → s.txActive = false →
      s.rxActive = true → s.received = [] → rx.count = c.count → s.selected = true →
      Ahead (k + 1) true todo l → Prepared s (addrs c ++ l)
  | armed {k : ℕ} {c : Cycle} {todo : List Action} {l : List Addr} :
      s.todo = sendActions k c ++ todo → Receives s k c.count 0 → s.selected = true →
      Ahead (k + 1) true todo l → Prepared s (addrs c ++ l)
  | emptied {k : ℕ} {c : Cycle} {todo : List Action} {l : List Addr} :
      s.todo = .activateTx k c :: .wait :: todo → s.txActive = true →
      Receives s k c.count 0 → s.selected = true →
      Ahead (k + 1) true todo l → Prepared s (addrs c ++ l)

structure Moving (s : State) (k : ℕ) (c : Cycle) (todo : List Action) (l : List Addr) : Prop where
  head : s.todo = .wait :: todo
  selected : s.selected = true
  ahead : Ahead (k + 1) true todo l
  transfer : s.tx.transfer = k
  cycle : s.tx.cycle = c
  done : s.tx.done ≤ c.count
  irq : s.tx.irq = true → s.tx.done = c.count
  ends : s.txActive = false → Idle s.tx
  receives : Receives s k c.count s.tx.done
  own : ∀ b ∈ s.transmitter, b.transfer = k

inductive Phase (s : State) : List Addr → Prop
  | still {l : List Addr} : Still s → Prepared s l → Phase s l
  | moving {k : ℕ} {c : Cycle} {todo : List Action} {l : List Addr} : Moving s k c todo l →
      Phase s ((addrs c).drop s.tx.done ++ l)

variable {s : State} {e : Event} {k : ℕ} {c : Cycle} {todo : List Action} {l : List Addr}

theorem Still.step (h : Still s) (he : e ≠ .cpu) : step s e = s := by
  cases e with
  | cpu => exact absurd rfl he
  | fetch => exact if_neg fun hroom ↦ Nat.lt_irrefl _ (h.tx.done ▸ hroom.1)
  | drain => rw [Transmitter.step, drain, h.empty]
  | store =>
    rw [Transmitter.step, store]
    rcases h.deaf with hnone | hdone
    · rw [hnone]
    · split
      · rfl
      · rw [if_neg (by omega)]
  | txFinished => rw [Transmitter.step, txFinished, h.tx.irq, if_neg Bool.false_ne_true]
  | rxComplete => rw [Transmitter.step, rxComplete, h.rx, if_neg Bool.false_ne_true]

theorem moves_of_empty (h : s.transmitter = []) : Moves s e := by
  unfold Moves
  split <;> first | exact h | trivial

theorem Still.cpu (h : Still s) (hp : Prepared s l) :
    Phase (cpu s) l ∧ (cpu s).out = s.out ∧ (cpu s).transmitter = [] ∧
      (cpu s).stored = s.stored := by
  have hempty := h.empty
  cases hp with
  | @rest k _ htx hrx hidle hlt hahead =>
    generalize hselected : s.selected = b at hahead
    generalize htodo : s.todo = actions at hahead
    cases hahead with
    | done =>
      have hstay : Transmitter.cpu s = s := by rw [Transmitter.cpu, htodo]
      rw [hstay]
      exact ⟨.still h (.rest htx hrx hidle hlt (by rw [htodo]; exact .done)), rfl, hempty, rfl⟩
    | select hahead =>
      rw [Transmitter.cpu, htodo]
      exact ⟨.still ⟨hempty, h.tx, h.rx, h.deaf⟩ (.rest htx hrx hidle hlt hahead), rfl, hempty, rfl⟩
    | release hahead =>
      rw [Transmitter.cpu, htodo]
      exact ⟨.still ⟨hempty, h.tx, h.rx, h.deaf⟩ (.rest htx hrx hidle hlt hahead), rfl, hempty, rfl⟩
    | @transfer _ t todo l hcount hahead =>
      rcases t with ⟨tx, _ | rx⟩
      · rw [Transmitter.cpu, htodo]
        exact ⟨.still ⟨rfl, h.tx, h.rx, h.deaf⟩
          (.emptied rfl rfl (.off hlt hidle hrx) hselected hahead), rfl, rfl, rfl⟩
      · rw [Transmitter.cpu, htodo]
        exact ⟨.still ⟨hempty, h.tx, h.rx, .inl rfl⟩
          (.cleared rfl htx rfl rfl (hcount rx rfl) hselected hahead), rfl, hempty, rfl⟩
  | cleared htodo htx hrx hreceived hcount hselected hahead =>
    rw [Transmitter.cpu, htodo]
    refine ⟨.still ⟨hempty, h.tx, rfl, .inl hreceived⟩ (.armed rfl ?_ hselected hahead), rfl, hempty, rfl⟩
    refine .on rfl hcount ?_ ?_ Bool.false_ne_true.elim fun hoff ↦ ?_
    · show 0 + s.received.length + s.transmitter.length ≤ 0
      rw [hreceived, hempty]
      exact Nat.le_refl 0
    · show ∀ j ∈ s.received, _
      rw [hreceived]
      exact fun j hj ↦ absurd hj List.not_mem_nil
    · exact absurd (hrx.symm.trans hoff) Bool.noConfusion
  | armed htodo hreceives hselected hahead =>
    rw [Transmitter.cpu, htodo]
    refine ⟨.still ⟨rfl, h.tx, h.rx, h.deaf⟩ (.emptied rfl rfl ?_ hselected hahead), rfl, rfl, rfl⟩
    cases hreceives with
    | on hk hn hle hown hirq hends =>
      refine .on hk hn ?_ hown hirq hends
      rwa [hempty] at hle
    | off hk hidle hactive => exact .off hk hidle hactive
  | @emptied k c todo l htodo htx hreceives hselected hahead =>
    rw [Transmitter.cpu, htodo]
    refine ⟨?_, rfl, hempty, rfl⟩
    refine .moving (s := { act s (.activateTx k c) with todo := .wait :: todo }) (k := k) (c := c)
      ⟨rfl, hselected, hahead, rfl, rfl, Nat.zero_le _, ?_, ?_, ?_, ?_⟩
    · exact Bool.false_ne_true.elim
    · intro hoff
      exact absurd (htx.symm.trans hoff) Bool.noConfusion
    · cases hreceives with
      | on hk hn hle hown hirq hends => exact .on hk hn hle hown hirq hends
      | off hk hidle hactive => exact .off hk hidle hactive
    · show ∀ b ∈ s.transmitter, _
      rw [hempty]
      exact fun b hb ↦ absurd hb List.not_mem_nil

theorem length_addrs : (addrs c).length = c.count := by
  rw [addrs, List.length_map, List.length_range]

theorem cpu_wait (h : s.todo = .wait :: todo) :
    cpu s = if waiting s then s else { s with todo := todo } := by
  rw [cpu, h]

theorem Moving.cpu (h : Moving s k c todo l) (hdrained : Drained s .cpu) :
    Phase (cpu s) ((addrs c).drop s.tx.done ++ l) ∧ (cpu s).out = s.out ∧
      (cpu s).transmitter = s.transmitter ∧ (cpu s).stored = s.stored := by
  simp only [Drained, h.head] at hdrained
  rw [cpu_wait h.head]
  by_cases hwaiting : waiting s
  · rw [if_pos hwaiting]
    exact ⟨.moving h, rfl, rfl, rfl⟩
  · rw [if_neg hwaiting]
    obtain ⟨htx, hrx⟩ := not_or.mp hwaiting
    have htx := h.ends (Bool.eq_false_iff.mpr htx)
    have hdone : s.tx.done = c.count := by rw [htx.done, h.cycle]
    have hall : (addrs c).drop s.tx.done ++ l = l := by
      rw [List.drop_eq_nil_of_le (by rw [length_addrs, hdone]), List.nil_append]
    obtain ⟨hidle, hlt, hempty⟩ : Idle s.rx ∧ s.rx.transfer < k + 1 ∧ s.transmitter = [] := by
      cases h.receives with
      | on hk hn hle hown hirq hends =>
        have hidle := hends (Bool.eq_false_iff.mpr hrx)
        refine ⟨hidle, by omega, List.eq_nil_of_length_eq_zero ?_⟩
        have hrxdone := hidle.done
        omega
      | off hk hidle hactive =>
        refine ⟨hidle, by omega, (hdrained.resolve_left hwaiting).resolve_left ?_⟩
        rw [h.transfer]
        omega
    rw [hall]
    refine ⟨.still ⟨hempty, htx, hidle.irq, .inr hidle.done⟩ ?_, rfl, rfl, rfl⟩
    refine .rest (Bool.eq_false_iff.mpr (not_or.mp hwaiting).1) (Bool.eq_false_iff.mpr hrx) hidle hlt ?_
    show Ahead (k + 1) s.selected todo l
    rw [h.selected]
    exact h.ahead

structure Inv (expected : List Addr) (s : State) : Prop where
  phase : ∃ l, Phase s l ∧ s.out.map Prod.fst ++ (s.transmitter.map Byte.addr ++ l) = expected
  selected : ∀ b ∈ s.out, b.2 = true
  own : ∀ b ∈ s.stored, b.1 = b.2

variable {expected : List Addr}

theorem Moving.fetch (h : Moving s k c todo l)
    (hroom : s.tx.done < s.tx.cycle.count ∧ s.transmitter.length < transmitterSize) :
    Moving (fetch s) k c todo l ∧ (fetch s).transmitter.map Byte.addr ++
        ((addrs c).drop (fetch s).tx.done ++ l) =
      s.transmitter.map Byte.addr ++ ((addrs c).drop s.tx.done ++ l) := by
  have hlt : s.tx.done < c.count := h.cycle ▸ hroom.1
  rw [Transmitter.fetch, if_pos hroom]
  refine ⟨⟨h.head, h.selected, h.ahead, h.transfer, h.cycle, hlt, ?_, ?_, ?_, ?_⟩, ?_⟩
  · intro hirq
    rw [← h.cycle]
    exact of_decide_eq_true hirq
  · intro hoff
    exact absurd (h.ends hoff).done (Nat.ne_of_lt hroom.1)
  · cases h.receives with
    | on hk hn hle hown hirq hends =>
      refine .on hk hn ?_ hown hirq hends
      show s.rx.done + s.received.length + (s.transmitter ++ [_]).length ≤ s.tx.done + 1
      rw [List.length_append, List.length_singleton]
      omega
    | off hk hidle hactive => exact .off hk hidle hactive
  · intro b hb
    rcases List.mem_append.mp hb with hb | hb
    · exact h.own b hb
    · rw [List.mem_singleton.mp hb]
      exact h.transfer
  · have hnext : (addrs c).drop s.tx.done = c.addr s.tx.done :: (addrs c).drop (s.tx.done + 1) := by
      rw [List.drop_eq_getElem_cons (by rw [length_addrs]; exact hlt)]
      simp [addrs]
    show (s.transmitter ++ [_]).map Byte.addr ++ ((addrs c).drop (s.tx.done + 1) ++ l) = _
    rw [hnext, List.map_append, List.append_assoc, h.cycle]
    rfl

theorem Moving.drain {b : Byte} {bs : List Byte} (h : Moving s k c todo l)
    (hbytes : s.transmitter = b :: bs) : Moving (drain s) k c todo l := by
  rw [Transmitter.drain, hbytes]
  refine ⟨h.head, h.selected, h.ahead, h.transfer, h.cycle, h.done, h.irq, h.ends, ?_, ?_⟩
  · cases h.receives with
    | on hk hn hle hown hirq hends =>
      rw [hbytes, List.length_cons] at hle
      refine .on hk hn ?_ ?_ hirq hends
      · show s.rx.done + (if s.received.length < rxBufferSize then s.received ++ [b.transfer]
          else s.received).length + bs.length ≤ s.tx.done
        split
        · rw [List.length_append, List.length_singleton]
          omega
        · omega
      · show ∀ j ∈ (if s.received.length < rxBufferSize then s.received ++ [b.transfer]
          else s.received), j = k
        split
        · intro j hj
          rcases List.mem_append.mp hj with hj | hj
          · exact hown j hj
          · rw [List.mem_singleton.mp hj]
            exact h.own b (by rw [hbytes]; exact List.mem_cons_self)
        · exact hown
    | off hk hidle hactive => exact .off hk hidle hactive
  · intro b' hb'
    exact h.own b' (by rw [hbytes]; exact List.mem_cons_of_mem _ hb')

theorem Moving.store {j : ℕ} {js : List ℕ} (h : Moving s k c todo l) (hreceived : s.received = j :: js)
    (hlt : s.rx.done < s.rx.cycle.count) : Moving (store s) k c todo l ∧ s.rx.transfer = j := by
  cases h.receives with
  | on hk hn hle hown hirq hends =>
    rw [Transmitter.store, hreceived]
    simp only [if_pos hlt]
    refine ⟨⟨h.head, h.selected, h.ahead, h.transfer, h.cycle, h.done, h.irq, h.ends, ?_, h.own⟩, ?_⟩
    · rw [hreceived] at hle hown
      refine .on hk hn ?_ (fun i hi ↦ hown i (List.mem_cons_of_mem _ hi)) ?_ ?_
      · show s.rx.done + 1 + js.length + s.transmitter.length ≤ s.tx.done
        rw [List.length_cons] at hle
        omega
      · intro hlast
        rw [← hn]
        exact of_decide_eq_true hlast
      · intro hoff
        exact absurd (hends hoff).done (Nat.ne_of_lt hlt)
    · rw [hk, hown j (by rw [hreceived]; exact List.mem_cons_self)]
  | off hk hidle hactive => exact absurd hidle.done (Nat.ne_of_lt hlt)

theorem Moving.txFinished (h : Moving s k c todo l) (hirq : s.tx.irq = true) :
    Moving (txFinished s) k c todo l := by
  rw [Transmitter.txFinished, if_pos hirq]
  refine ⟨h.head, h.selected, h.ahead, h.transfer, h.cycle, h.done, Bool.false_ne_true.elim,
    fun _ ↦ ⟨?_, rfl⟩, ?_, h.own⟩
  · show s.tx.done = s.tx.cycle.count
    rw [h.irq hirq, h.cycle]
  · cases h.receives with
    | on hk hn hle hown hirq hends => exact .on hk hn hle hown hirq hends
    | off hk hidle hactive => exact .off hk hidle hactive

theorem Moving.rxComplete (h : Moving s k c todo l) (hirq : s.rx.irq = true) :
    Moving (rxComplete s) k c todo l := by
  rw [Transmitter.rxComplete, if_pos hirq]
  refine ⟨h.head, h.selected, h.ahead, h.transfer, h.cycle, h.done, h.irq, h.ends, ?_, h.own⟩
  cases h.receives with
  | on hk hn hle hown hlast hends =>
    refine .on hk hn hle hown Bool.false_ne_true.elim fun _ ↦ ⟨?_, rfl⟩
    show s.rx.done = s.rx.cycle.count
    rw [hlast hirq, hn]
  | off hk hidle hactive => exact absurd (hidle.irq.symm.trans hirq) Bool.false_ne_true

section Transfers

variable (h : Inv expected s) (hmoving : Moving s k c todo l)
  (heq : s.out.map Prod.fst ++ (s.transmitter.map Byte.addr ++ ((addrs c).drop s.tx.done ++ l)) =
    expected)
include h hmoving heq

theorem Inv.fetch : Inv expected (fetch s) := by
  by_cases hroom : s.tx.done < s.tx.cycle.count ∧ s.transmitter.length < transmitterSize
  · obtain ⟨hnext, hbytes⟩ := hmoving.fetch hroom
    have hout : (Transmitter.fetch s).out = s.out := by rw [Transmitter.fetch, if_pos hroom]
    have hstored : (Transmitter.fetch s).stored = s.stored := by
      rw [Transmitter.fetch, if_pos hroom]
    refine ⟨⟨_, .moving hnext, ?_⟩, ?_, ?_⟩
    · rw [hout, hbytes, heq]
    · rw [hout]
      exact h.selected
    · rw [hstored]
      exact h.own
  · rwa [Transmitter.fetch, if_neg hroom]

theorem Inv.drain : Inv expected (drain s) := by
  cases hbytes : s.transmitter with
  | nil => rwa [Transmitter.drain, hbytes]
  | cons b bs =>
    have hnext := hmoving.drain hbytes
    rw [Transmitter.drain, hbytes] at hnext ⊢
    refine ⟨⟨_, .moving hnext, ?_⟩, ?_, h.own⟩
    · rw [← heq, hbytes, List.map_append, List.append_assoc]
      rfl
    · intro b' hb'
      rcases List.mem_append.mp hb' with hb' | hb'
      · exact h.selected b' hb'
      · rw [List.mem_singleton.mp hb']
        exact hmoving.selected

theorem Inv.store : Inv expected (store s) := by
  cases hreceived : s.received with
  | nil => rwa [Transmitter.store, hreceived]
  | cons j js =>
    by_cases hlt : s.rx.done < s.rx.cycle.count
    · obtain ⟨hnext, hj⟩ := hmoving.store hreceived hlt
      have hstore : Transmitter.store s = { s with
          rx := s.rx.move, received := js, stored := s.stored ++ [(s.rx.transfer, j)] } := by
        rw [Transmitter.store, hreceived]
        exact if_pos hlt
      rw [hstore] at hnext ⊢
      refine ⟨⟨_, .moving hnext, heq⟩, h.selected, ?_⟩
      intro b hb
      rcases List.mem_append.mp hb with hb | hb
      · exact h.own b hb
      · rw [List.mem_singleton.mp hb]
        exact hj
    · have hstore : Transmitter.store s = s := by
        rw [Transmitter.store, hreceived]
        exact if_neg hlt
      rwa [hstore]

theorem Inv.txFinished : Inv expected (txFinished s) := by
  by_cases hirq : s.tx.irq = true
  · have hnext := hmoving.txFinished hirq
    rw [Transmitter.txFinished, if_pos hirq] at hnext ⊢
    exact ⟨⟨_, .moving hnext, heq⟩, h.selected, h.own⟩
  · rwa [Transmitter.txFinished, if_neg hirq]

theorem Inv.rxComplete : Inv expected (rxComplete s) := by
  by_cases hirq : s.rx.irq = true
  · have hnext := hmoving.rxComplete hirq
    rw [Transmitter.rxComplete, if_pos hirq] at hnext ⊢
    exact ⟨⟨_, .moving hnext, heq⟩, h.selected, h.own⟩
  · rwa [Transmitter.rxComplete, if_neg hirq]

end Transfers

theorem inv_step (h : Inv expected s) (hdrained : Drained s e) :
    Inv expected (step s e) ∧ Moves s e := by
  obtain ⟨l, hl, heq⟩ := h.phase
  cases hl with
  | @still l hstill hprepared =>
    refine ⟨?_, moves_of_empty hstill.empty⟩
    by_cases he : e = .cpu
    · subst he
      obtain ⟨hphase, hout, hempty, hstored⟩ := hstill.cpu hprepared
      rw [hstill.empty] at heq
      refine ⟨⟨l, hphase, ?_⟩, ?_, ?_⟩
      · rw [step, hout, hempty, heq]
      · rw [step, hout]
        exact h.selected
      · rw [step, hstored]
        exact h.own
    · rwa [hstill.step he]
  | @moving k c todo l hmoving =>
    refine ⟨?_, by simp only [Moves, hmoving.head]⟩
    cases e with
    | cpu =>
      obtain ⟨hphase, hout, htransmitter, hstored⟩ := hmoving.cpu hdrained
      refine ⟨⟨_, hphase, ?_⟩, ?_, ?_⟩
      · rw [step, hout, htransmitter, heq]
      · rw [step, hout]
        exact h.selected
      · rw [step, hstored]
        exact h.own
    | fetch => exact h.fetch hmoving heq
    | drain => exact h.drain hmoving heq
    | store => exact h.store hmoving heq
    | txFinished => exact h.txFinished hmoving heq
    | rxComplete => exact h.rxComplete hmoving heq

theorem inv_start (stale : List ℕ) (h : Ahead 1 false todo expected) :
    Inv expected (start stale todo) where
  phase := ⟨expected, .still ⟨rfl, ⟨rfl, rfl⟩, rfl, .inr rfl⟩ (.rest rfl rfl ⟨rfl, rfl⟩ Nat.one_pos h),
    rfl⟩
  selected _ hb := absurd hb List.not_mem_nil
  own _ hb := absurd hb List.not_mem_nil

theorem ne_nil_dmaxferActions {t : Transfer} : dmaxferActions k t ++ todo ≠ [] := by
  rcases t with ⟨tx, _ | rx⟩
  · exact List.cons_ne_nil _ _
  · exact List.cons_ne_nil _ _

theorem Inv.all (h : Inv expected s) (hdone : s.todo = []) : s.out.map Prod.fst = expected := by
  obtain ⟨⟨l, hl, heq⟩, -, -⟩ := h
  cases hl with
  | still hstill hprepared =>
    rw [hstill.empty, List.map_nil, List.nil_append] at heq
    cases hprepared with
    | rest _ _ _ _ hahead =>
      generalize s.selected = b at hahead
      generalize htodo : s.todo = actions at hahead
      rw [hdone] at htodo
      cases hahead with
      | done => rwa [List.append_nil] at heq
      | select => cases htodo
      | release => cases htodo
      | transfer => exact absurd htodo.symm ne_nil_dmaxferActions
    | cleared htodo => rw [hdone] at htodo; cases htodo
    | armed htodo => rw [hdone] at htodo; cases htodo
    | emptied htodo => rw [hdone] at htodo; cases htodo
  | moving hmoving =>
    have hhead := hmoving.head
    rw [hdone] at hhead
    cases hhead

section Plan

theorem ahead_transfers {ts : List Transfer} (hts : ∀ t ∈ ts, ∀ rx ∈ t.rx, rx.count = t.tx.count)
    (h : Ahead (k + ts.length) true todo l) :
    Ahead k true (transfersActions k ts ++ todo) (sent ts ++ l) := by
  induction ts generalizing k with
  | nil => exact h
  | cons t ts ih =>
    rw [transfersActions, sent, List.flatMap_cons, List.append_assoc, List.append_assoc]
    refine .transfer (hts t List.mem_cons_self) (ih (fun t' ht' ↦ hts t' (List.mem_cons_of_mem _ ht')) ?_)
    rwa [Nat.add_assoc, Nat.add_comm 1, ← List.length_cons]

theorem ahead_sending (x : Sending) {ts ts' : List Transfer}
    (hts : ∀ t ∈ ts, ∀ rx ∈ t.rx, rx.count = t.tx.count)
    (hts' : ∀ t ∈ ts', ∀ rx ∈ t.rx, rx.count = t.tx.count) (hnone : x.next = none → ts' = []) :
    Ahead 1 false (sendingActions x ts ts') (sent ts ++ sent ts') := by
  have hreleases := x.releases
  rw [sendingActions, xferActions, if_pos x.takes]
  cases hnext : x.next with
  | none =>
    rw [hnext] at hreleases
    rw [hnone hnext, if_pos (by rw [hreleases]; rfl), List.append_nil]
    exact .select (ahead_transfers hts (.release .done))
  | some m =>
    rw [hnext] at hreleases
    obtain ⟨-, -, htake, hrelease⟩ := x.follows m hnext
    rw [if_neg (by rw [hreleases]; exact Bool.false_ne_true), List.append_nil]
    simp only [xferActions, htake, hrelease, Bool.false_eq_true, if_false, if_true, List.nil_append]
    have hrest := ahead_transfers (k := 1 + ts.length) hts' (.release .done)
    rw [List.append_nil] at hrest
    exact .select (ahead_transfers hts hrest)

theorem count_dmaxfer (hspi : EfmSpi) (call : Call) :
    ∀ rx ∈ (dmaxfer hspi call).1.rx, rx.count = (dmaxfer hspi call).1.tx.count := by
  intro rx hrx
  simp only [dmaxfer] at hrx ⊢
  split_ifs at hrx with hnull
  · cases hrx
    exact (count_prepare ..).trans (count_prepare ..).symm
  · cases hrx

theorem count_program (hspi : EfmSpi) (calls : List Call) :
    ∀ t ∈ (program hspi calls).1, ∀ rx ∈ t.rx, rx.count = t.tx.count := by
  induction calls generalizing hspi with
  | nil => exact fun t ht ↦ absurd ht List.not_mem_nil
  | cons call calls ih =>
    intro t ht
    rcases List.mem_cons.mp ht with rfl | ht
    · exact count_dmaxfer hspi call
    · exact ih _ t ht

theorem sent_pieces {m : Message} (hsends : m.sendBuf ≠ 0) {off : ℕ} {calls : List Call}
    (hp : Pieces m off calls) {hspi : EfmSpi} (hready : Ready hspi) :
    sent (program hspi calls).1 = (List.range (m.length.toNat - off)).map fun i ↦
      m.sendBuf + BitVec.ofNat 32 (off + i) := by
  induction hp generalizing hspi with
  | done hend => rw [hend, Nat.sub_self]; rfl
  | @piece off n calls hoff hn hn' hend hp ih =>
    obtain ⟨hcount, haddr, -, -, hready'⟩ := dmaxfer_spec hready
      (m.sendBuf + BitVec.ofNat 32 off) (m.recvBuf + BitVec.ofNat 32 off) hn (by omega : n ≤ 1024)
    have hfirst := haddr (add_ofNat_ne_zero hsends (m.sendFits hsends) (by omega))
    have hsplit : m.length.toNat - off = n + (m.length.toNat - (off + n)) := by omega
    rw [program, sent, List.flatMap_cons, hsplit, List.range_add, List.map_append]
    congr 1
    · rw [addrs, hcount]
      refine List.map_congr_left fun i hi ↦ ?_
      rw [hfirst i (List.mem_range.mp hi), BitVec.add_assoc, ← BitVec.ofNat_add]
    · refine (ih hready').trans ?_
      rw [List.map_map]
      refine List.map_congr_left fun i _ ↦ ?_
      rw [Function.comp_apply, Nat.add_assoc]

end Plan

theorem plan_spec {hspi : EfmSpi} (hready : Ready hspi) (x : Sending) {ts ts' : List Transfer}
    (hplan : plan hspi x = some (ts, ts')) (hpos : 0 < x.first.length.toNat)
    (hlength : x.first.length.toNat ≤ 2 ^ 31 - 128) :
    Ahead 1 false (sendingActions x ts ts') ((List.range x.first.length.toNat).map (fun i ↦
      x.first.sendBuf + BitVec.ofNat 32 i) ++ sent ts') := by
  obtain ⟨calls, hcalls, hpieces⟩ := dmaCalls_pieces x.first hpos hlength
  have hsent := sent_pieces x.sends hpieces hready
  simp only [Nat.sub_zero, Nat.zero_add] at hsent
  rw [← hsent]
  rw [plan, hcalls, Option.bind_eq_bind, Option.bind_some] at hplan
  cases hnext : x.next with
  | none =>
    simp only [hnext, Option.pure_def] at hplan
    cases hplan
    exact ahead_sending x (count_program _ _) (fun t ht ↦ absurd ht List.not_mem_nil) fun _ ↦ rfl
  | some m =>
    simp only [hnext, Option.pure_def] at hplan
    obtain ⟨calls', -, heq⟩ := Option.bind_eq_some_iff.mp hplan
    cases heq
    refine ahead_sending x (count_program _ _) (count_program _ _) fun hnone ↦ ?_
    rw [hnext] at hnone
    cases hnone

/-- The bytes of the first message have left before the driver moves on, as long as the
busy-wait for a transfer that does not receive is not left early. -/
theorem completes {hspi : EfmSpi} (hready : Ready hspi) (x : Sending) {ts ts' : List Transfer}
    (hplan : plan hspi x = some (ts, ts')) (hpos : 0 < x.first.length.toNat)
    (hlength : x.first.length.toNat ≤ 2 ^ 31 - 128) (stale : List ℕ) {es : List Event}
    (hes : Along step Drained (start stale (sendingActions x ts ts')) es) :
    Along step Moves (start stale (sendingActions x ts ts')) es ∧
      Completed x ts' (es.foldl step (start stale (sendingActions x ts ts'))) := by
  have hstart := inv_start stale (plan_spec hready x hplan hpos hlength)
  have hinv := run_invariant (C := Drained) (fun s e h he ↦ (inv_step h he).1) hstart hes
  refine ⟨along_of_invariant (C := Drained) (fun s e h he ↦ (inv_step h he).1)
    (fun s e h he ↦ (inv_step h he).2) hstart hes, ?_, hinv.all, hinv.selected, hinv.own⟩
  obtain ⟨l, -, heq⟩ := hinv.phase
  exact ⟨_, heq⟩

/-- What a transmission is to do at every timing; the chunk loops come to their end. -/
def Completes (hspi : EfmSpi) (x : Sending) : Prop :=
  ∃ ts ts', plan hspi x = some (ts, ts') ∧ ∀ (stale : List ℕ) (es : List Event),
    Along step Moves (start stale (sendingActions x ts ts')) es ∧
      Completed x ts' (es.foldl step (start stale (sendingActions x ts ts')))

section Early

variable {a : Action} {m : Message}

def Parting (a : Action) : Prop := a = .clearRx ∨ a = .clearTx ∨ a = .writeCs false

theorem not_moves (ha : Parting a) (htodo : s.todo = a :: todo) (hbytes : s.transmitter ≠ []) :
    ¬Moves s .cpu := by
  unfold Moves
  rw [htodo]
  obtain rfl | rfl | rfl := ha <;> exact hbytes

theorem parting_dmaxfer (k : ℕ) (t : Transfer) (todo : List Action) :
    ∃ a rest, dmaxferActions k t ++ todo = a :: rest ∧ Parting a := by
  rcases t with ⟨tx, _ | rx⟩
  · exact ⟨_, _, rfl, .inr (.inl rfl)⟩
  · exact ⟨_, _, rfl, .inl rfl⟩

theorem parting_transfers (k : ℕ) (ts : List Transfer) (h : ∃ a rest, todo = a :: rest ∧ Parting a) :
    ∃ a rest, transfersActions k ts ++ todo = a :: rest ∧ Parting a := by
  cases ts with
  | nil => exact h
  | cons t ts =>
    rw [transfersActions, List.append_assoc]
    exact parting_dmaxfer k t _

theorem dmaCalls_head {calls : List Call} (h : dmaCalls m = some calls) :
    ∃ n rest, calls = ⟨m.sendBuf, m.recvBuf, n⟩ :: rest := by
  unfold dmaCalls at h
  split_ifs at h with hshort
  · cases h
    exact ⟨_, _, rfl⟩
  · have hpos : 0 < m.length.toNat := by
      by_contra hzero
      refine hshort ?_
      rw [BitVec.toInt_eq_toNat_cond, Nat.eq_zero_of_not_pos hzero]
      decide
    unfold chunkCalls at h
    rw [if_pos hpos] at h
    split_ifs at h
    all_goals
      obtain ⟨rest, -, rfl⟩ := Option.map_eq_some_iff.mp h
      exact ⟨_, _, by rw [BitVec.add_zero, BitVec.add_zero]⟩

theorem parting_rest (x : Sending) (k : ℕ) (ts' : List Transfer) :
    ∃ a rest, ((if x.first.csRelease then [.writeCs false] else []) ++
      match x.next with
      | none => []
      | some m => xferActions k m ts') = a :: rest ∧ Parting a := by
  have hreleases := x.releases
  cases hnext : x.next with
  | none =>
    rw [hnext] at hreleases
    rw [hreleases]
    exact ⟨_, _, rfl, .inr (.inr rfl)⟩
  | some m =>
    rw [hnext] at hreleases
    obtain ⟨-, -, htake, hrelease⟩ := x.follows m hnext
    rw [hreleases]
    simp only [Option.isNone_some, Bool.false_eq_true, if_false, List.nil_append, xferActions, htake,
      hrelease, if_true]
    exact parting_transfers k ts' ⟨_, _, rfl, .inr (.inr rfl)⟩

theorem actions_plan {hspi : EfmSpi} (x : Sending) {ts ts' : List Transfer}
    (hplan : plan hspi x = some (ts, ts')) : ∃ c a rest, 0 < c.count ∧ Parting a ∧
      sendingActions x ts ts' = .writeCs true :: .clearTx :: .activateTx 1 c :: .wait :: a :: rest := by
  obtain ⟨calls, hcalls, hplan⟩ := Option.bind_eq_some_iff.mp hplan
  obtain ⟨n, calls, rfl⟩ := dmaCalls_head hcalls
  have hts : ts = (dmaxfer hspi ⟨x.first.sendBuf, x.first.recvBuf, n⟩).1 ::
      (program (dmaxfer hspi ⟨x.first.sendBuf, x.first.recvBuf, n⟩).2 calls).1 := by
    cases hnext : x.next with
    | none =>
      simp only [hnext, Option.pure_def, program] at hplan
      cases hplan
      rfl
    | some m =>
      simp only [hnext, Option.pure_def, program] at hplan
      obtain ⟨calls', -, heq⟩ := Option.bind_eq_some_iff.mp hplan
      cases heq
      rfl
  have hrx : (dmaxfer hspi ⟨x.first.sendBuf, x.first.recvBuf, n⟩).1.rx = none := by
    simp only [dmaxfer, x.transmitOnly, ne_eq, not_true_eq_false, if_false]
  have hcount : 0 < (dmaxfer hspi ⟨x.first.sendBuf, x.first.recvBuf, n⟩).1.tx.count :=
    Nat.succ_pos _
  obtain ⟨a, rest, hrest, ha⟩ := parting_transfers 2
    (program (dmaxfer hspi ⟨x.first.sendBuf, x.first.recvBuf, n⟩).2 calls).1
    (parting_rest x (1 + ts.length) ts')
  refine ⟨_, a, rest, hcount, ha, ?_⟩
  rw [sendingActions, xferActions, if_pos x.takes, hts, transfersActions, dmaxferActions, hrx,
    ← hrest, hts]
  simp only [sendActions, List.append_assoc, List.cons_append, List.nil_append]

structure Pumps (s : State) (c : Cycle) (todo : List Action) (k : ℕ) : Prop where
  todo : s.todo = .wait :: todo
  rx : s.rxActive = false
  cycle : s.tx.cycle = c
  done : s.tx.done = k
  empty : s.transmitter = []

theorem Pumps.fetch (h : Pumps s c todo k) (hk : k < c.count) :
    Transmitter.fetch s = { s with
      tx := s.tx.move
      transmitter := [⟨s.tx.transfer, s.tx.cycle.addr s.tx.done⟩] } := by
  have hroom : s.tx.done < s.tx.cycle.count ∧ s.transmitter.length < transmitterSize := by
    rw [h.done, h.cycle, h.empty]
    exact ⟨hk, Nat.succ_pos _⟩
  rw [Transmitter.fetch, if_pos hroom, h.empty, List.nil_append]

theorem Pumps.byte (h : Pumps s c todo k) (hk : k < c.count) :
    Pumps ([.fetch, .drain].foldl step s) c todo (k + 1) := by
  simp only [List.foldl_cons, List.foldl_nil, step, h.fetch hk, drain]
  exact ⟨h.todo, h.rx, h.cycle, congrArg (· + 1) h.done, rfl⟩

theorem Pumps.bytes (h : Pumps s c todo k) {n : ℕ} (hn : k + n < c.count) :
    Pumps ((List.replicate n [Event.fetch, .drain]).flatten.foldl step s) c todo (k + n) := by
  induction n generalizing s k with
  | zero => exact h
  | succ n ih =>
    rw [List.replicate_succ, List.flatten_cons, List.foldl_append]
    have hnext := ih (h.byte (by omega)) (by omega)
    rwa [Nat.add_right_comm] at hnext

/-- The callback comes with the last byte still in the transmitter, and the driver goes on. -/
theorem Pumps.leaves (h : Pumps s c todo k) (hk : k + 1 = c.count) :
    ([.fetch, .txFinished, .cpu].foldl step s).todo = todo ∧
      ([.fetch, .txFinished, .cpu].foldl step s).transmitter ≠ [] := by
  have hirq : s.tx.move.irq = true := by
    simp only [Channel.move, h.done, h.cycle, hk, decide_true]
  simp only [List.foldl_cons, List.foldl_nil, step, h.fetch (by omega), txFinished, hirq, if_true,
    cpu, h.todo, waiting, h.rx, Bool.false_eq_true, or_self, if_false]
  exact ⟨trivial, List.cons_ne_nil _ _⟩

/-- Whatever the message, the callback of its first chunk can come too early. -/
theorem never_completes (hspi : EfmSpi) (x : Sending) : ¬Completes hspi x := by
  rintro ⟨ts, ts', hplan, hall⟩
  obtain ⟨c, a, rest, hcount, ha, hactions⟩ := actions_plan x hplan
  rw [hactions] at hall
  have hstart : Pumps ([.cpu, .cpu, .cpu].foldl step (start []
      (.writeCs true :: .clearTx :: .activateTx 1 c :: .wait :: a :: rest))) c (a :: rest) 0 :=
    ⟨rfl, rfl, rfl, rfl, rfl⟩
  have hbytes := hstart.bytes (n := c.count - 1) (by omega)
  obtain ⟨htodo, hleft⟩ := hbytes.leaves (by omega)
  have hmoves := (hall [] ([.cpu, .cpu, .cpu] ++ ((List.replicate (c.count - 1)
    [Event.fetch, .drain]).flatten ++ ([.fetch, .txFinished, .cpu] ++ [.cpu])))).1
  rw [along_append, along_append, along_append] at hmoves
  exact not_moves ha htodo hleft hmoves.2.2.2.1

end Early

section OneByte

def oneByte : Sending where
  first := ⟨0x20000000, 0, 1, true, true, by decide, by decide⟩
  next := none
  sends := by decide
  transmitOnly := rfl
  takes := rfl
  releases := rfl
  follows m hm := by cases hm

def configured : EfmSpi := dmaConfiguration ⟨0x4000C000, ⟨0, 0, 0⟩, ⟨0, 0, 0⟩⟩

def oneTransfer : Transfer := (dmaxfer configured ⟨0x20000000, 0, 1⟩).1

def sendsByte : List Event := [.cpu, .cpu, .cpu, .fetch, .drain, .txFinished, .cpu, .cpu]

example :
    Along step Moves (start [] (sendingActions oneByte [oneTransfer] [])) sendsByte ∧
      Completed oneByte [] (sendsByte.foldl step (start [] (sendingActions oneByte [oneTransfer] []))) :=
  completes (ready_configuration ⟨0x4000C000, ⟨0, 0, 0⟩, ⟨0, 0, 0⟩⟩) oneByte rfl (by decide)
    (by decide) []
    ⟨trivial, trivial, trivial, trivial, trivial, trivial, .inr (.inr rfl), trivial, trivial⟩

/-- The callback comes before the byte has been shifted out, and the chip select is released. -/
theorem not_completes : ¬Along step Moves (start [] (sendingActions oneByte [oneTransfer] []))
    [.cpu, .cpu, .cpu, .fetch, .txFinished, .cpu, .cpu] := by
  intro h
  obtain ⟨-, -, -, -, -, -, hrelease, -⟩ := h
  exact absurd (congrArg List.length hrelease) (by decide)

end OneByte

end GiantGecko.Spi.Transmitter
