import GiantGecko.Foundation.LossyLine
import GiantGecko.Foundation.Transition
import GiantGecko.Ymodem.Sender

namespace GiantGecko.Ymodem.Session

open Foundation.LossyLine Receiver Sender

/-- A receiver and a sender of `items`. The sender has started the first `sent`
items and waits for the replies `waiting`; `forward` has the numbers of the items
whose packets are on the line, `rx.ctx.tx` the replies that are. `reached` are
the items of which the receiver has been given a packet. -/
structure System (υ : Type) where
  rx : Machine υ
  sent : ℕ
  waiting : List RymCode
  forward : List ℕ
  reached : List ℕ

/-- `pace` is how many ticks each byte takes. -/
inductive Event
  | deliver (pace : ℕ → UInt32)
  | timeout (elapsed : UInt32)
  | hear
  | resend
  | lose (i : ℕ)
  | dup (i : ℕ)
  | loseReply (i : ℕ)
  | dupReply (i : ℕ)

def timed (pace : ℕ → UInt32) (bytes : List UInt8) : List Input :=
  bytes.mapIdx fun i b ↦ .byte (pace i) b

variable {υ : Type} (cb : Callbacks υ) (tmSec : ℕ) (items : List Item)

def packet (j : ℕ) : List UInt8 := (items[j]?.map Item.bytes).getD []

def System.setTx (s : System υ) (tx : List RymCode) : System υ :=
  { s with rx := { s.rx with ctx := { s.rx.ctx with tx := tx } } }

def System.advance (s : System υ) : System υ :=
  match items[s.sent]? with
  | some a =>
    { s with sent := s.sent + 1, waiting := a.expects, forward := s.forward ++ [s.sent] }
  | none => { s with waiting := [] }

/-- The sender reads a reply. One that it does not wait for changes nothing. -/
def System.hears (s : System υ) (r : RymCode) : System υ :=
  match s.waiting with
  | [] => s
  | w :: ws =>
    if r = w then
      if ws = [] then s.advance items else { s with waiting := ws }
    else s

def step (s : System υ) : Event → System υ
  | .deliver pace =>
    match s.forward with
    | [] => s
    | j :: js =>
      { s with
        rx := (timed pace (packet items j)).foldl (Receiver.step cb tmSec) s.rx
        forward := js
        reached := s.reached ++ [j] }
  | .timeout elapsed => { s with rx := Receiver.step cb tmSec s.rx (.gap elapsed) }
  | .hear =>
    match s.rx.ctx.tx with
    | [] => s
    | r :: rs => (s.setTx rs).hears items r
  | .resend =>
    if s.sent = 0 ∨ s.waiting = [] then s else { s with forward := s.forward ++ [s.sent - 1] }
  | .lose i => { s with forward := lose i s.forward }
  | .dup i => { s with forward := dup i s.forward }
  | .loseReply i => s.setTx (lose i s.rx.ctx.tx)
  | .dupReply i => s.setTx (dup i s.rx.ctx.tx)

def start (mem : Option (ℕ → UInt8)) (user : υ) (tick : UInt32) : System υ :=
  ⟨rymDoRecv tmSec mem user tick, 0, [.c], [], []⟩

def System.Succeeded (s : System υ) : Prop := s.rx.wait = .returned .eok

instance (s : System υ) : Decidable s.Succeeded := inferInstanceAs (Decidable (_ = _))

theorem advance_rx (items : List Item) (s : System υ) : (s.advance items).rx = s.rx := by
  rw [System.advance]
  cases items[s.sent]? <;> rfl

theorem hears_rx (items : List Item) (s : System υ) (r : RymCode) :
    (s.hears items r).rx = s.rx := by
  rw [System.hears]
  cases s.waiting with
  | nil => rfl
  | cons w ws =>
    by_cases hr : r = w
    · by_cases hws : ws = []
      · simp only [if_pos hr, if_pos hws, advance_rx]
      · simp only [if_pos hr, if_neg hws]
    · simp only [if_neg hr]

end GiantGecko.Ymodem.Session
