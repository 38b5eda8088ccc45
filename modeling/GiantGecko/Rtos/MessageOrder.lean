import GiantGecko.Foundation.Transition
import GiantGecko.Rtos.MessageSlots
import GiantGecko.Rtos.Waiting

namespace GiantGecko.Rtos.MessageOrder

open Foundation.Transition Waiting MessageSlots
open Scheduler (Err IpcFlag timeLeft)
open Interleaving (rtMqInit)
open Ipc (MessageQueue)

structure Message where
  id : ℕ
  urgent : Bool
  buffer : List UInt8
  deriving Inhabited

/-- A call that has a slot in its hands: a send, before or after it has copied its buffer,
or a receive. Which message a receive has taken is not in the source. -/
inductive Op
  | send (urgent : Bool) (slot : ℕ) (buffer : List UInt8) (copied : Bool)
  | recv (slot size : ℕ) (message : Message) (copied : Option (List UInt8))

def Op.slot : Op → ℕ
  | .send _ slot _ _ => slot
  | .recv slot _ _ _ => slot

def Op.taken : Op → Option Message
  | .send _ _ _ _ => none
  | .recv _ _ message _ => some message

structure Recv where
  size : ℕ
  timeout : BitVec 32
  tickDelta : BitVec 32

/-- When and by whom a call is made, or gone on with. -/
structure Context where
  caller : Option ℕ
  tick : BitVec 32
  priority : ℕ → ℕ

/-- A message queue with the threads, and the calls that have a slot in hands. The messages
that are linked, those that have been taken, and what receives have returned of them into
buffers of which size is not in the source. -/
structure System where
  mq : MessageQueue
  maxMsgs : ℕ
  threads : Threads Unit Recv
  hands : List Op
  links : ℕ
  pending : List Message
  taken : List Message
  returned : List (Message × ℕ × List UInt8)

def rtMqSend (urgent : Bool) (buffer : List UInt8) (s : System) : Option Err × System :=
  if buffer = [] then (none, s)
  else if s.mq.msgSize < buffer.length then (some .error, s)
  else
    match s.mq.free with
    | none => (some .efull, s)
    | some slot =>
      (none,
        { s with mq := takeFree slot s.mq, hands := .send urgent slot buffer false :: s.hands })

def copySize (msgSize size : ℕ) : ℕ := if size > msgSize then msgSize else size

/-- What a call does with the slot in its hands while interrupts are enabled. -/
def copy (op : Op) (s : System) : System :=
  match op with
  | .send urgent slot buffer _ =>
    { s with
      mq := (if urgent then s.mq else s.mq.setNext slot none).write slot buffer
      hands := .send urgent slot buffer true :: s.hands }
  | .recv slot size message _ =>
    { s with
      hands :=
        .recv slot size message (some ((s.mq.data slot).take (copySize s.mq.msgSize size))) ::
          s.hands }

def link (urgent : Bool) (slot : ℕ) (buffer : List UInt8) (s : System) : System :=
  let message : Message := ⟨s.links, urgent, buffer⟩
  { s with
    mq := if urgent then s.mq.linkFirst slot else linkTail slot s.mq
    threads := rtIpcListResume () s.threads
    links := s.links + 1
    pending := if urgent then message :: s.pending else s.pending ++ [message] }

def finish (op : Op) (s : System) : System :=
  match op with
  | .send urgent slot buffer true => link urgent slot buffer s
  | .recv slot size message (some bytes) =>
    { s with mq := putFree slot s.mq, returned := (message, size, bytes) :: s.returned }
  | op => { s with hands := op :: s.hands }

/-- The slot of one of the calls, which are in no order. -/
def onHand (f : Op → System → System) (n : ℕ) (s : System) : System :=
  match s.hands[n]? with
  | some op => f op { s with hands := s.hands.eraseIdx n }
  | none => s

def take (slot size : ℕ) (s : System) : System :=
  { s with
    mq := takeHead slot s.mq
    hands := .recv slot size (s.pending.headD default) none :: s.hands
    pending := s.pending.tail
    taken := s.pending.headD default :: s.taken }

/-- From the head of the loop of `rt_mq_recv`, until it has a slot in hands. An interrupt
handler that finds no message fails an assertion; a queue that counts messages and has no
first one would have the code follow a null pointer. -/
def recvLoop (size : ℕ) (timeout tickDelta : BitVec 32) (k : Context) (s : System) :
    Option Err × System :=
  if s.mq.entry = 0 then
    match k.caller with
    | some t =>
      let x := setError t .eok s.threads
      if timeout = 0 then (some .etimeout, { s with threads := setError t .etimeout x })
      else
        (none,
          { s with
            threads := waitOn () s.mq.flag k.priority t timeout
              ⟨size, timeout, if 0 < timeout.toInt then k.tick else tickDelta⟩ x })
    | none => (none, s)
  else
    match s.mq.head with
    | none => (none, s)
    | some slot => (none, take slot size s)

def rtMqRecv (size : ℕ) (timeout : BitVec 32) (k : Context) (s : System) : Option Err × System :=
  if size = 0 then (none, s)
  else if s.mq.entry = 0 ∧ timeout = 0 then (some .etimeout, s)
  else recvLoop size timeout 0 k s

def rtMqReset (s : System) : System :=
  { s with
    mq := { dropAll s.maxMsgs s.mq with entry := 0 }
    threads := rtIpcListResumeAll () s.threads
    pending := [] }

def goOn (t : ℕ) (k : Context) (s : System) : Option Err × System :=
  match (s.threads.thread t).call with
  | some c =>
    let err := (s.threads.thread t).error
    let s := { s with threads := setCall t none s.threads }
    if err ≠ .eok then (some err, s)
    else
      recvLoop c.size (timeLeft c.timeout (k.tick - c.tickDelta)) c.tickDelta
        { k with caller := some t } s
  | none => (none, s)

inductive Event
  | send (urgent : Bool) (buffer : List UInt8)
  | copy (n : ℕ)
  | finish (n : ℕ)
  | recv (size : ℕ) (timeout : BitVec 32) (k : Context)
  | reset
  | goOn (t : ℕ) (k : Context)
  | timeout (t : ℕ)

def step (s : System) : Event → System
  | .send urgent buffer => (rtMqSend urgent buffer s).2
  | .copy n => onHand copy n s
  | .finish n => onHand finish n s
  | .recv size timeout k =>
    if callable k.caller s.threads then (rtMqRecv size timeout k s).2 else s
  | .reset => rtMqReset s
  | .goOn t k => if (s.threads.thread t).suspended then s else (goOn t k s).2
  | .timeout t => { s with threads := timerEnds t s.threads }

def init (msgSize : ℕ) (maxMsgs : Fin 0x10000) (pool : ℕ → List UInt8) (flag : IpcFlag) : System :=
  ⟨rtMqInit msgSize maxMsgs pool flag, maxMsgs, noneWaits, [], 0, [], [], []⟩

/-- Urgent messages come first, the last of them to be linked before the others; the rest
follow as they have been linked. -/
def Ahead (a b : Message) : Prop :=
  match a.urgent, b.urgent with
  | true, true => b.id < a.id
  | true, false => True
  | false, true => False
  | false, false => a.id < b.id

/-- Each slot is in one place; the message list holds the messages that are pending, with
their bytes, in order; and each that has been taken is with the receive that took it, or
has been returned, with its bytes. -/
structure Sound (s : System) : Prop where
  slots : ∃ f m, Layout s.maxMsgs s.mq f m (s.hands.map Op.slot) ∧ s.mq.entry = m.length ∧
    List.Forall₂ (fun slot message ↦ message.buffer <+: s.mq.data slot) m s.pending
  ordered : s.pending.Pairwise Ahead
  once : ((s.pending ++ s.taken).map Message.id).Nodup
  delivered : (s.hands.filterMap Op.taken ++ s.returned.map Prod.fst).Perm s.taken
  returned : ∀ r ∈ s.returned,
    r.2.2.take r.1.buffer.length = r.1.buffer.take (copySize s.mq.msgSize r.2.1)

/-- A receive takes the first of the messages that are pending. -/
def InOrder (s : System) (e : Event) : Prop :=
  (step s e).taken = s.taken ∨
    ∃ message, s.pending = message :: (step s e).pending ∧ (step s e).taken = message :: s.taken

def Ready (x : MessageQueue) : Op → Prop
  | .send urgent slot buffer copied =>
    copied = true → buffer <+: x.data slot ∧ (urgent = false → x.next slot = none)
  | .recv slot size message copied =>
    message.buffer <+: x.data slot ∧ ∀ bytes, copied = some bytes →
      bytes.take message.buffer.length = message.buffer.take (copySize x.msgSize size)

structure Stored (max : ℕ) (x : MessageQueue) (hands : List Op) (pending : List Message)
    (f m : List ℕ) : Prop where
  layout : Layout max x f m (hands.map Op.slot)
  entry : x.entry = m.length
  bytes : List.Forall₂ (fun slot message ↦ message.buffer <+: x.data slot) m pending
  ready : ∀ op ∈ hands, Ready x op

structure Inv (s : System) : Prop where
  small : s.maxMsgs < 2 ^ 16
  stored : ∃ f m, Stored s.maxMsgs s.mq s.hands s.pending f m
  ordered : s.pending.Pairwise Ahead
  known : ∀ message ∈ s.pending ++ s.taken, message.id < s.links
  once : ((s.pending ++ s.taken).map Message.id).Nodup
  delivered : (s.hands.filterMap Op.taken ++ s.returned.map Prod.fst).Perm s.taken
  returned : ∀ r ∈ s.returned,
    r.2.2.take r.1.buffer.length = r.1.buffer.take (copySize s.mq.msgSize r.2.1)

variable {s : System} {max slot : ℕ} {x y : MessageQueue} {hands hands' : List Op} {op : Op}
  {pending : List Message} {f m : List ℕ}

theorem Inv.sound (h : Inv s) : Sound s where
  slots := by
    obtain ⟨f, m, hs⟩ := h.stored
    exact ⟨f, m, hs.layout, hs.entry, hs.bytes⟩
  ordered := h.ordered
  once := h.once
  delivered := h.delivered
  returned := h.returned

theorem Ready.congr (h : Ready x op) (hdata : y.data op.slot = x.data op.slot)
    (hnext : y.next op.slot = x.next op.slot) (hsize : y.msgSize = x.msgSize) : Ready y op := by
  cases op with
  | send urgent slot buffer copied =>
    intro hcopied
    obtain ⟨hbytes, hlink⟩ := h hcopied
    exact ⟨hdata ▸ hbytes, fun hurgent ↦ hnext.trans (hlink hurgent)⟩
  | recv slot size message copied =>
    obtain ⟨hbytes, hcopy⟩ := h
    refine ⟨hdata ▸ hbytes, ?_⟩
    intro bytes hcopied
    rw [hsize]
    exact hcopy bytes hcopied

theorem bytes_congr (h : List.Forall₂ (fun slot (message : Message) ↦
      message.buffer <+: x.data slot) m pending) (hdata : ∀ slot ∈ m, y.data slot = x.data slot) :
    List.Forall₂ (fun slot (message : Message) ↦ message.buffer <+: y.data slot) m pending := by
  induction h with
  | nil => exact .nil
  | cons hbytes _ ih =>
    refine .cons ?_ (ih fun slot hslot ↦ hdata slot (List.mem_cons_of_mem _ hslot))
    rw [hdata _ List.mem_cons_self]
    exact hbytes

theorem Stored.perm (h : Stored max x hands pending f m) (hhands : hands'.Perm hands) :
    Stored max x hands' pending f m :=
  ⟨h.layout.perm (hhands.map Op.slot), h.entry, h.bytes, fun op hop ↦ h.ready op (hhands.mem_iff.mp hop)⟩

theorem Stored.apart (h : Stored max x (op :: hands) pending f m) :
    (∀ op' ∈ hands, op'.slot ≠ op.slot) ∧ op.slot ∉ m := by
  obtain ⟨-, hm, hhands⟩ := h.layout.held
  refine ⟨?_, hm⟩
  intro op' hop heq
  exact hhands (heq ▸ List.mem_map_of_mem hop)

theorem Stored.hand_not_mem (h : Stored max x hands pending f m) (hop : op ∈ hands) : op.slot ∉ m := by
  intro hmem
  exact (List.nodup_append.mp h.layout.nodup).2.2 op.slot (by simp [hmem]) op.slot
    (List.mem_map_of_mem hop) rfl

theorem Stored.touch (h : Stored max x (op :: hands) pending f m) {op' : Op}
    (hslot : op'.slot = op.slot) (hlayout : Layout max y f m (op.slot :: hands.map Op.slot))
    (hentry : y.entry = x.entry) (hsize : y.msgSize = x.msgSize)
    (hdata : ∀ i ≠ op.slot, y.data i = x.data i) (hnext : ∀ i ≠ op.slot, y.next i = x.next i)
    (hready : Ready y op') : Stored max y (op' :: hands) pending f m := by
  obtain ⟨hothers, hm⟩ := h.apart
  refine ⟨?_, hentry.trans h.entry, ?_, ?_⟩
  · rw [List.map_cons, hslot]
    exact hlayout
  · exact bytes_congr h.bytes fun i hi ↦ hdata i fun heq ↦ hm (heq ▸ hi)
  · refine List.forall_mem_cons.mpr ⟨hready, ?_⟩
    intro o ho
    have hne := hothers o ho
    exact (h.ready o (List.mem_cons_of_mem op ho)).congr (hdata _ hne) (hnext _ hne) hsize

theorem inv_send (h : Inv s) (urgent : Bool) (buffer : List UInt8) :
    Inv (rtMqSend urgent buffer s).2 := by
  rw [rtMqSend]
  split_ifs
  · exact h
  · exact h
  · cases hfree : s.mq.free with
    | none => exact h
    | some slot =>
      obtain ⟨f, m, hs⟩ := h.stored
      obtain ⟨f', hlayout⟩ := hs.layout.takeFree hfree
      refine ⟨h.small, ⟨f', m, hlayout, hs.entry, hs.bytes, ?_⟩, h.ordered, h.known, h.once,
        h.delivered, h.returned⟩
      refine List.forall_mem_cons.mpr ⟨fun hcopied ↦ Bool.noConfusion hcopied, ?_⟩
      intro o ho
      exact (hs.ready o ho).congr rfl rfl rfl

theorem take_take_prefix {buffer data : List UInt8} (h : buffer <+: data) (n : ℕ) :
    (data.take n).take buffer.length = buffer.take n := by
  obtain ⟨rest, rfl⟩ := h
  rw [List.take_take, Nat.min_comm, ← List.take_take, List.take_left]

theorem inv_copy (h : Inv { s with hands := op :: s.hands }) : Inv (copy op s) := by
  obtain ⟨f, m, hs⟩ := h.stored
  cases op with
  | send urgent slot buffer copied =>
    have hbytes : ∀ z : MessageQueue, buffer <+: (z.write slot buffer).data slot := by
      intro z
      exact ⟨_, (Function.update_self slot _ z.data).symm⟩
    cases urgent with
    | true =>
      refine ⟨h.small, ⟨f, m, ?_⟩, h.ordered, h.known, h.once, h.delivered, h.returned⟩
      refine hs.touch rfl (hs.layout.data _) rfl rfl ?_ (fun _ _ ↦ rfl) ?_
      · exact fun i hi ↦ Function.update_of_ne hi _ _
      · exact fun _ ↦ ⟨hbytes _, fun hurgent ↦ Bool.noConfusion hurgent⟩
    | false =>
      refine ⟨h.small, ⟨f, m, ?_⟩, h.ordered, h.known, h.once, h.delivered, h.returned⟩
      refine hs.touch rfl ((hs.layout.setNext none).data _) rfl rfl ?_ ?_ ?_
      · exact fun i hi ↦ Function.update_of_ne hi _ _
      · exact fun i hi ↦ Function.update_of_ne hi _ _
      · exact fun _ ↦ ⟨hbytes _, fun _ ↦ Function.update_self _ _ _⟩
  | recv slot size message copied =>
    refine ⟨h.small, ⟨f, m, ?_⟩, h.ordered, h.known, h.once, h.delivered, h.returned⟩
    obtain ⟨hbytes, -⟩ := hs.ready _ List.mem_cons_self
    refine hs.touch rfl hs.layout rfl rfl (fun _ _ ↦ rfl) (fun _ _ ↦ rfl) ⟨hbytes, ?_⟩
    rintro bytes ⟨⟩
    exact take_take_prefix hbytes _

theorem ordered_push {id : ℕ} {buffer : List UInt8} (h : pending.Pairwise Ahead)
    (hknown : ∀ message ∈ pending, message.id < id) :
    ((⟨id, true, buffer⟩ : Message) :: pending).Pairwise Ahead := by
  refine List.pairwise_cons.mpr ⟨?_, h⟩
  intro message hmessage
  have hlt := hknown message hmessage
  obtain ⟨i, urgent, bytes⟩ := message
  cases urgent with
  | true => exact hlt
  | false => trivial

theorem ordered_append {id : ℕ} {buffer : List UInt8} (h : pending.Pairwise Ahead)
    (hknown : ∀ message ∈ pending, message.id < id) :
    (pending ++ [(⟨id, false, buffer⟩ : Message)]).Pairwise Ahead := by
  refine List.pairwise_append.mpr ⟨h, List.pairwise_singleton _ _, ?_⟩
  intro message hmessage last hlast
  rw [List.mem_singleton.mp hlast]
  have hlt := hknown message hmessage
  obtain ⟨i, urgent, bytes⟩ := message
  cases urgent with
  | true => trivial
  | false => exact hlt

theorem Stored.entry_lt (h : Stored max x (op :: hands) pending f m) (hmax : max < 2 ^ 16) :
    (x.entry + 1) % 2 ^ 16 = m.length + 1 := by
  have hle := h.layout.length_le
  rw [List.map_cons, List.length_cons] at hle
  rw [h.entry]
  exact Nat.mod_eq_of_lt (by omega)

theorem Stored.rest_ready (h : Stored max x (op :: hands) pending f m) (hdata : y.data = x.data)
    (hnext : ∀ i, i ≠ op.slot → i ∉ m → y.next i = x.next i) (hsize : y.msgSize = x.msgSize) :
    ∀ o ∈ hands, Ready y o := by
  intro o ho
  have hmem := List.mem_cons_of_mem op ho
  exact (h.ready o hmem).congr (congrFun hdata _)
    (hnext _ (h.apart.1 o ho) (h.hand_not_mem hmem)) hsize

theorem linkTail_next {i : ℕ} (hi : ∀ last, x.tail = some last → i ≠ last) :
    (linkTail slot x).next i = x.next i := by
  rw [linkTail]
  cases htail : x.tail with
  | none => rfl
  | some last => exact Function.update_of_ne (hi last htail) _ _

theorem linkTail_data : (linkTail slot x).data = x.data := by
  rw [linkTail]
  cases x.tail <;> rfl

theorem linkTail_msgSize : (linkTail slot x).msgSize = x.msgSize := by
  rw [linkTail]
  cases x.tail <;> rfl

theorem linkTail_entry : (linkTail slot x).entry = (x.entry + 1) % 2 ^ 16 := by
  rw [linkTail]
  cases x.tail <;> rfl

theorem stored_linkTail {buffer : List UInt8} {message : Message}
    (h : Stored max x (.send false slot buffer true :: hands) pending f m) (hmax : max < 2 ^ 16)
    (hmessage : message.buffer = buffer) :
    Stored max (linkTail slot x) hands (pending ++ [message]) f (m ++ [slot]) := by
  obtain ⟨hbytes, hlink⟩ := h.ready _ List.mem_cons_self rfl
  refine ⟨h.layout.linkTail (hlink rfl), ?_, ?_, ?_⟩
  · rw [linkTail_entry, h.entry_lt hmax, List.length_append, List.length_singleton]
  · rw [linkTail_data]
    exact List.rel_append h.bytes (.cons (hmessage ▸ hbytes) .nil)
  · refine h.rest_ready linkTail_data ?_ linkTail_msgSize
    intro i _ him
    refine linkTail_next ?_
    rintro last htail rfl
    rw [h.layout.tail] at htail
    exact him (List.mem_of_getLast? htail)

theorem stored_linkFirst {buffer : List UInt8} {message : Message}
    (h : Stored max x (.send true slot buffer true :: hands) pending f m) (hmax : max < 2 ^ 16)
    (hmessage : message.buffer = buffer) :
    Stored max (x.linkFirst slot) hands (message :: pending) f (slot :: m) := by
  obtain ⟨hbytes, -⟩ := h.ready _ List.mem_cons_self rfl
  refine ⟨h.layout.linkFirst, h.entry_lt hmax, .cons (hmessage ▸ hbytes) h.bytes, ?_⟩
  refine h.rest_ready rfl ?_ rfl
  intro i hi _
  exact Function.update_of_ne hi _ _

theorem stored_putFree (h : Stored max x (op :: hands) pending f m) :
    Stored max (putFree op.slot x) hands pending (op.slot :: f) m := by
  refine ⟨h.layout.putFree, h.entry, h.bytes, h.rest_ready rfl ?_ rfl⟩
  intro i hi _
  exact Function.update_of_ne hi _ _

theorem known_link {l : List Message} {links : ℕ} (h : ∀ message ∈ l, message.id < links) :
    ∀ message ∈ l, message.id < links + 1 :=
  fun message hmessage ↦ Nat.lt_succ_of_lt (h message hmessage)

theorem once_link {l : List Message} (message : Message) (h : (l.map Message.id).Nodup)
    (hknown : ∀ other ∈ l, other.id < message.id) : ((message :: l).map Message.id).Nodup := by
  refine List.nodup_cons.mpr ⟨?_, h⟩
  intro hmem
  obtain ⟨other, hother, heq⟩ := List.mem_map.mp hmem
  exact (Nat.ne_of_lt (hknown other hother)) heq

theorem inv_link {urgent : Bool} {buffer : List UInt8}
    (h : Inv { s with hands := .send urgent slot buffer true :: s.hands }) :
    Inv (link urgent slot buffer s) := by
  obtain ⟨f, m, hs⟩ := h.stored
  have hknown : ∀ message ∈ s.pending, message.id < s.links :=
    fun message hmessage ↦ h.known message (List.mem_append_left _ hmessage)
  have honce := once_link ⟨s.links, urgent, buffer⟩ h.once h.known
  have hall : ∀ message ∈ (⟨s.links, urgent, buffer⟩ : Message) :: (s.pending ++ s.taken),
      message.id < s.links + 1 :=
    List.forall_mem_cons.mpr ⟨Nat.lt_succ_self _, known_link h.known⟩
  cases urgent with
  | true =>
    exact ⟨h.small, ⟨f, slot :: m, stored_linkFirst hs h.small rfl⟩,
      ordered_push h.ordered hknown, hall, honce, h.delivered, h.returned⟩
  | false =>
    have hperm : (s.pending ++ [(⟨s.links, false, buffer⟩ : Message)] ++ s.taken).Perm
        ((⟨s.links, false, buffer⟩ : Message) :: (s.pending ++ s.taken)) := by
      simp only [List.append_assoc, List.singleton_append]
      exact List.perm_middle
    refine ⟨h.small, ⟨f, m ++ [slot], stored_linkTail hs h.small rfl⟩,
      ordered_append h.ordered hknown, ?_, ?_, h.delivered, ?_⟩
    · exact fun message hmessage ↦ hall message (hperm.mem_iff.mp hmessage)
    · exact (hperm.map Message.id).nodup_iff.mpr honce
    · simp only [link, linkTail_msgSize, Bool.false_eq_true, if_false]
      exact h.returned

theorem inv_putFree {size : ℕ} {message : Message} {bytes : List UInt8}
    (h : Inv { s with hands := .recv slot size message (some bytes) :: s.hands }) :
    Inv { s with mq := putFree slot s.mq, returned := (message, size, bytes) :: s.returned } := by
  obtain ⟨f, m, hs⟩ := h.stored
  obtain ⟨-, hcopied⟩ := hs.ready _ List.mem_cons_self
  refine ⟨h.small, ⟨slot :: f, m, stored_putFree hs⟩, h.ordered, h.known, h.once, ?_, ?_⟩
  · exact List.perm_middle.trans h.delivered
  · exact List.forall_mem_cons.mpr ⟨hcopied bytes rfl, h.returned⟩

theorem inv_finish (h : Inv { s with hands := op :: s.hands }) : Inv (finish op s) := by
  cases op with
  | send urgent slot buffer copied =>
    cases copied with
    | true => exact inv_link h
    | false => exact h
  | recv slot size message copied =>
    cases copied with
    | some bytes => exact inv_putFree h
    | none => exact h

theorem inv_onHand {g : Op → System → System}
    (hg : ∀ op s, Inv { s with hands := op :: s.hands } → Inv (g op s)) (h : Inv s) (n : ℕ) :
    Inv (onHand g n s) := by
  rw [onHand]
  split
  · rename_i op hop
    obtain ⟨hn, rfl⟩ := List.getElem?_eq_some_iff.mp hop
    have hperm : (s.hands[n] :: s.hands.eraseIdx n).Perm s.hands :=
      List.getElem_cons_eraseIdx_perm hn
    obtain ⟨f, m, hs⟩ := h.stored
    refine hg _ _ ⟨h.small, ⟨f, m, hs.perm hperm⟩, h.ordered, h.known, h.once, ?_, h.returned⟩
    exact ((hperm.filterMap Op.taken).append_right _).trans h.delivered
  · exact h

theorem stored_takeHead (h : Stored max x hands pending f m) (hhead : x.head = some slot) (size : ℕ) :
    ∃ message rest m', pending = message :: rest ∧
      Stored max (takeHead slot x) (.recv slot size message none :: hands) rest f m' := by
  obtain ⟨m', rfl, hlayout⟩ := h.layout.takeHead hhead
  have hentry := h.entry
  have hready := h.ready
  have hbytes := h.bytes
  cases hbytes with
  | @cons _ message _ rest hfirst hrest =>
    refine ⟨message, rest, m', rfl, hlayout, ?_, hrest, ?_⟩
    · simp only [takeHead, hentry, List.length_cons, Nat.add_sub_cancel]
    · refine List.forall_mem_cons.mpr ⟨⟨hfirst, fun bytes hcopied ↦ by cases hcopied⟩, ?_⟩
      exact fun o ho ↦ (hready o ho).congr rfl rfl rfl

theorem inv_take (h : Inv s) (hhead : s.mq.head = some slot) (size : ℕ) :
    Inv (take slot size s) ∧ ∃ message, s.pending = message :: (take slot size s).pending ∧
      (take slot size s).taken = message :: s.taken := by
  obtain ⟨f, m, hs⟩ := h.stored
  obtain ⟨message, rest, m', hpending, hstored⟩ := stored_takeHead hs hhead size
  have hordered := h.ordered
  have hknown := h.known
  have honce := h.once
  rw [hpending] at hordered hknown honce
  have hperm : (rest ++ message :: s.taken).Perm (message :: rest ++ s.taken) := List.perm_middle
  have hhead' : s.pending.headD default = message := by rw [hpending]; rfl
  have htail : s.pending.tail = rest := by rw [hpending]; rfl
  simp only [take, hhead', htail]
  refine ⟨⟨h.small, ⟨f, m', hstored⟩, (List.pairwise_cons.mp hordered).2, ?_, ?_, ?_, h.returned⟩,
    message, hpending, rfl⟩
  · exact fun other hother ↦ hknown other (hperm.mem_iff.mp hother)
  · exact (hperm.map Message.id).nodup_iff.mpr honce
  · exact h.delivered.cons message

theorem Inv.withThreads (h : Inv s) (threads : Threads Unit Recv) :
    Inv { s with threads := threads } :=
  ⟨h.small, h.stored, h.ordered, h.known, h.once, h.delivered, h.returned⟩

structure Kept (s s' : System) : Prop where
  inv : Inv s'
  inOrder : s'.taken = s.taken ∨
    ∃ message, s.pending = message :: s'.pending ∧ s'.taken = message :: s.taken

theorem kept_of_taken {s' : System} (h : Inv s') (htaken : s'.taken = s.taken) : Kept s s' :=
  ⟨h, .inl htaken⟩

theorem kept_recvLoop (h : Inv s) (size : ℕ) (timeout tickDelta : BitVec 32) (k : Context) :
    Kept s (recvLoop size timeout tickDelta k s).2 := by
  by_cases hentry : s.mq.entry = 0
  · rw [recvLoop, if_pos hentry]
    cases k.caller with
    | none => exact kept_of_taken h rfl
    | some t =>
      by_cases htimeout : timeout = 0
      · simp only [if_pos htimeout]
        exact kept_of_taken (h.withThreads _) rfl
      · simp only [if_neg htimeout]
        exact kept_of_taken (h.withThreads _) rfl
  · rw [recvLoop, if_neg hentry]
    cases hhead : s.mq.head with
    | none => exact kept_of_taken h rfl
    | some slot =>
      obtain ⟨hinv, hfirst⟩ := inv_take h hhead size
      exact ⟨hinv, .inr hfirst⟩

theorem dropAll_next {turns i : ℕ} (h : Layout max x f m (hands.map Op.slot)) (hi : i ∉ m) :
    (dropAll turns x).next i = x.next i := by
  induction turns generalizing x f m with
  | zero => rfl
  | succ turns ih =>
    rw [dropAll]
    cases hhead : x.head with
    | none => rfl
    | some slot =>
      obtain ⟨m', rfl, hdropped⟩ := h.dropHead hhead
      rw [List.mem_cons, not_or] at hi
      exact (ih hdropped hi.2).trans (Function.update_of_ne hi.1 _ _)

theorem inv_reset (h : Inv s) : Inv (rtMqReset s) := by
  obtain ⟨f, m, hs⟩ := h.stored
  have hle := hs.layout.length_le
  obtain ⟨f', hlayout⟩ := hs.layout.dropAll (show m.length ≤ s.maxMsgs by omega)
  refine ⟨h.small, ⟨f', [], hlayout.entry 0, rfl, .nil, ?_⟩, List.Pairwise.nil, ?_, ?_, h.delivered, ?_⟩
  · intro o ho
    refine (hs.ready o ho).congr ?_ (dropAll_next hs.layout (hs.hand_not_mem ho)) ?_
    · exact congrFun (dropAll_data _) _
    · exact dropAll_msgSize _
  · exact fun message hmessage ↦ h.known message (List.mem_append_right _ hmessage)
  · have honce := h.once
    rw [List.map_append] at honce
    exact (List.nodup_append.mp honce).2.1
  · simp only [rtMqReset, dropAll_msgSize]
    exact h.returned

theorem taken_onHand {g : Op → System → System} (hg : ∀ op s, (g op s).taken = s.taken) (n : ℕ) :
    (onHand g n s).taken = s.taken := by
  rw [onHand]
  split
  · exact hg _ _
  · rfl

theorem taken_copy (op : Op) (s : System) : (copy op s).taken = s.taken := by
  cases op <;> rfl

theorem taken_finish (op : Op) (s : System) : (finish op s).taken = s.taken := by
  cases op with
  | send urgent slot buffer copied => cases copied <;> rfl
  | recv slot size message copied => cases copied <;> rfl

theorem taken_send (urgent : Bool) (buffer : List UInt8) :
    (rtMqSend urgent buffer s).2.taken = s.taken := by
  rw [rtMqSend]
  split_ifs
  · rfl
  · rfl
  · cases s.mq.free <;> rfl

theorem kept_recv (h : Inv s) {size : ℕ} {timeout : BitVec 32} {k : Context} :
    Kept s (rtMqRecv size timeout k s).2 := by
  rw [rtMqRecv]
  split_ifs
  · exact kept_of_taken h rfl
  · exact kept_of_taken h rfl
  · exact kept_recvLoop h _ _ _ _

theorem kept_goOn (h : Inv s) (t : ℕ) (k : Context) : Kept s (goOn t k s).2 := by
  rw [goOn]
  split
  · rename_i c hc
    have hback := h.withThreads (setCall t none s.threads)
    by_cases herror : (s.threads.thread t).error = .eok
    · simp only [herror, ne_eq, not_true_eq_false, if_false]
      have hkept := kept_recvLoop hback c.size (timeLeft c.timeout (k.tick - c.tickDelta))
        c.tickDelta { k with caller := some t }
      exact ⟨hkept.inv, hkept.inOrder⟩
    · simp only [ne_eq, herror, not_false_eq_true, if_true]
      exact kept_of_taken hback rfl
  · exact kept_of_taken h rfl

theorem kept_step (h : Inv s) (e : Event) : Kept s (step s e) := by
  cases e with
  | send urgent buffer => exact kept_of_taken (inv_send h urgent buffer) (taken_send urgent buffer)
  | copy n => exact kept_of_taken (inv_onHand (fun _ _ ↦ inv_copy) h n) (taken_onHand taken_copy n)
  | finish n =>
    exact kept_of_taken (inv_onHand (fun _ _ ↦ inv_finish) h n) (taken_onHand taken_finish n)
  | recv size timeout k =>
    rw [step]
    split_ifs
    · exact kept_recv h
    · exact kept_of_taken h rfl
  | reset => exact kept_of_taken (inv_reset h) rfl
  | goOn t k =>
    rw [step]
    split_ifs
    · exact kept_of_taken h rfl
    · exact kept_goOn h t k
  | timeout t => exact kept_of_taken (h.withThreads _) rfl

theorem inv_init (msgSize : ℕ) (maxMsgs : Fin 0x10000) (pool : ℕ → List UInt8) (flag : IpcFlag) :
    Inv (init msgSize maxMsgs pool flag) := by
  obtain ⟨f, hlayout⟩ := layout_rtMqInit msgSize maxMsgs pool flag
  have hentry : ∀ n, (rtMqInit msgSize n pool flag).entry = 0 := by
    intro n
    induction n with
    | zero => rfl
    | succ n ih =>
      simp only [rtMqInit, List.range_succ, List.foldl_append, List.foldl_cons,
        List.foldl_nil] at ih ⊢
      exact ih
  exact ⟨maxMsgs.isLt, ⟨f, [], hlayout, hentry _, .nil, fun _ ho ↦ absurd ho List.not_mem_nil⟩,
    List.Pairwise.nil, fun _ hm ↦ absurd hm List.not_mem_nil, List.nodup_nil, List.Perm.refl _,
    fun _ hr ↦ absurd hr List.not_mem_nil⟩

/-- However calls and resets come between each other, slots and messages are kept in order. -/
theorem ordered_run (msgSize : ℕ) (maxMsgs : Fin 0x10000) (pool : ℕ → List UInt8) (flag : IpcFlag)
    (es : List Event) :
    let s := init msgSize maxMsgs pool flag
    Sound s ∧ Along step (fun s e ↦ Sound (step s e) ∧ InOrder s e) s es := by
  intro s
  have hinit : Inv s := inv_init msgSize maxMsgs pool flag
  refine ⟨hinit.sound, ?_⟩
  refine along_of_invariant (C := fun _ _ ↦ True) (I := Inv)
    (fun _ e h _ ↦ (kept_step h e).inv) ?_ hinit (along_of_forall (fun _ _ ↦ trivial) _ es)
  intro s e h _
  exact ⟨(kept_step h e).inv.sound, (kept_step h e).inOrder⟩

end GiantGecko.Rtos.MessageOrder
