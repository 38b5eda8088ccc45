import GiantGecko.Ymodem.Receiver

namespace GiantGecko.Ymodem.Sender

open Foundation Receiver

inductive Framing
  | soh
  | stx

def Framing.size : Framing → ℕ
  | .soh => 128
  | .stx => 1024

def Framing.byte : Framing → UInt8
  | .soh => 0x01
  | .stx => 0x02

structure Payload where
  framing : Framing
  bytes : List UInt8
  length_bytes : bytes.length = framing.size

def nullPayload : Payload := ⟨.soh, List.replicate 128 0, by simp [Framing.size]⟩

def crcBytes (bytes : List UInt8) : List UInt8 :=
  let c := Crc.crc 0x1021#16 (bytes.map UInt8.toBitVec)
  [⟨(c >>> 8).setWidth 8⟩, ⟨c.setWidth 8⟩]

def blockBytes (seq : UInt8) (p : Payload) : List UInt8 :=
  p.framing.byte :: seq :: ~~~seq :: (p.bytes ++ crcBytes p.bytes)

/-- What the sender has to get through, one after the other: block 0 of a file,
its data blocks from number 1 on, EOT twice, and the empty block 0 at the end. -/
inductive Item
  | header (p : Payload)
  | data (n : ℕ) (p : Payload)
  | eot
  | eotAgain
  | close

namespace Item

def bytes : Item → List UInt8
  | header p => blockBytes 0 p
  | data n p => blockBytes (UInt8.ofNat n) p
  | eot => [0x04]
  | eotAgain => [0x04]
  | close => blockBytes 0 nullPayload

/-- The replies after which the sender goes on. -/
def expects : Item → List RymCode
  | header _ => [.ack, .c]
  | data _ _ => [.ack]
  | eot => [.nak]
  | eotAgain => [.ack, .c]
  | close => [.ack]

def payloads : Item → List (List UInt8)
  | data _ p => [p.bytes]
  | _ => []

/-- Which item comes after which. Only the first header, for which the receiver
looks at the framing, may be a long one, and an empty name would end the batch. -/
def Follows : Item → Item → Prop
  | header _, data n _ => n = 1
  | header _, eot => True
  | data n _, data n' _ => n' = n + 1
  | data _ _, eot => True
  | eot, eotAgain => True
  | eotAgain, header p => p.framing = .soh ∧ p.bytes.head? ≠ some 0
  | eotAgain, close => True
  | _, _ => False

end Item

structure FileSend where
  header : Payload
  data : List Payload

def dataItems : ℕ → List Payload → List Item
  | _, [] => []
  | n, p :: ps => .data n p :: dataItems (n + 1) ps

def FileSend.items (f : FileSend) : List Item :=
  .header f.header :: (dataItems 1 f.data ++ [.eot, .eotAgain])

def script (files : List FileSend) : List Item := files.flatMap FileSend.items ++ [.close]

def payloads (items : List Item) : List (List UInt8) := items.flatMap Item.payloads

def FileSend.Later (f : FileSend) : Prop :=
  f.header.framing = .soh ∧ f.header.bytes.head? ≠ some 0

structure Batch where
  first : FileSend
  more : List FileSend
  later : ∀ f ∈ more, f.Later

def Batch.items (b : Batch) : List Item := script (b.first :: b.more)

def Batch.payloads (b : Batch) : List (List UInt8) :=
  (b.first :: b.more).flatMap fun f ↦ f.data.map Payload.bytes

theorem payloads_append (xs ys : List Item) : payloads (xs ++ ys) = payloads xs ++ payloads ys :=
  List.flatMap_append

theorem payloads_dataItems (n : ℕ) (ps : List Payload) :
    payloads (dataItems n ps) = ps.map Payload.bytes := by
  induction ps generalizing n with
  | nil => rfl
  | cons p ps ih =>
    rw [dataItems, List.map_cons, ← ih (n + 1)]
    rfl

theorem payloads_script (files : List FileSend) :
    payloads (script files) = files.flatMap fun f ↦ f.data.map Payload.bytes := by
  have hfile : ∀ f : FileSend, payloads f.items = f.data.map Payload.bytes := by
    intro f
    rw [FileSend.items, ← List.singleton_append, payloads_append, payloads_append,
      payloads_dataItems]
    simp [payloads, Item.payloads]
  induction files with
  | nil => rfl
  | cons f files ih =>
    rw [script, List.flatMap_cons, List.append_assoc, payloads_append, hfile, List.flatMap_cons]
    exact congrArg _ ih

theorem Batch.payloads_items (b : Batch) : Sender.payloads b.items = b.payloads :=
  payloads_script (b.first :: b.more)

inductive Linked : List Item → Prop
  | close : Linked [.close]
  | cons {a b : Item} {rest : List Item} :
      a.Follows b → Linked (b :: rest) → Linked (a :: b :: rest)

theorem linked_dataItems {rest : List Item} (h : Linked (.eot :: rest)) (ps : List Payload) :
    ∀ (a : Item) (n : ℕ), (∀ p, a.Follows (.data n p)) → a.Follows .eot →
      Linked (a :: (dataItems n ps ++ .eot :: rest)) := by
  induction ps with
  | nil =>
    intro a n _ heot
    exact .cons heot h
  | cons p ps ih =>
    intro a n hdata _
    exact .cons (hdata p) (ih (.data n p) (n + 1) (fun _ ↦ rfl) trivial)

theorem linked_file (f : FileSend) {rest : List Item} (h : Linked (.eotAgain :: rest)) :
    Linked (f.items ++ rest) := by
  have heot : Linked (.eot :: .eotAgain :: rest) := .cons trivial h
  have hfile := linked_dataItems heot f.data (.header f.header) 1 (fun _ ↦ rfl) trivial
  simpa only [FileSend.items, List.cons_append, List.append_assoc, List.nil_append] using hfile

theorem linked_later (files : List FileSend) (h : ∀ f ∈ files, f.Later) :
    Linked (.eotAgain :: script files) := by
  induction files with
  | nil => exact .cons trivial .close
  | cons f files ih =>
    rw [List.forall_mem_cons] at h
    have hrest := linked_file f (ih h.2)
    rw [script, List.flatMap_cons, List.append_assoc]
    exact .cons h.1 hrest

theorem Batch.linked (b : Batch) : Linked b.items := by
  have h := linked_file b.first (linked_later b.more b.later)
  rwa [Batch.items, script, List.flatMap_cons, List.append_assoc]

namespace Linked

variable {items : List Item}

theorem next (h : Linked items) {i : ℕ} {a : Item} (ha : items[i]? = some a) (hc : a ≠ .close) :
    ∃ b, items[i + 1]? = some b ∧ a.Follows b := by
  induction h generalizing i with
  | close =>
    cases i with
    | zero => exact absurd (Option.some.inj ha).symm hc
    | succ i => simp at ha
  | @cons a' b rest hf h ih =>
    cases i with
    | zero =>
      obtain rfl := Option.some.inj ha
      exact ⟨b, rfl, hf⟩
    | succ i => exact ih ha

theorem prev (h : Linked items) {i : ℕ} {b : Item} (hb : items[i + 1]? = some b) :
    ∃ a, items[i]? = some a ∧ a.Follows b := by
  induction h generalizing i with
  | close => simp at hb
  | @cons a b' rest hf h ih =>
    cases i with
    | zero =>
      obtain rfl := Option.some.inj hb
      exact ⟨a, rfl, hf⟩
    | succ i => exact ih hb

theorem close_last (h : Linked items) {i : ℕ} (hi : items[i]? = some .close) :
    items.length = i + 1 := by
  induction h generalizing i with
  | close =>
    cases i with
    | zero => rfl
    | succ i => simp at hi
  | cons hf h ih =>
    cases i with
    | zero =>
      obtain rfl := Option.some.inj hi
      exact hf.elim
    | succ i => rw [List.length_cons, ih hi]

end Linked

end GiantGecko.Ymodem.Sender
