import GiantGecko.Foundation.Chain
import GiantGecko.Rtos.Interleaving

namespace GiantGecko.Rtos.MessageSlots

open Foundation.Chain Ipc
open Interleaving (rtMqInit)
open Scheduler (IpcFlag)

def linkTail (slot : ℕ) (x : MessageQueue) : MessageQueue :=
  let x := match x.tail with
    | some last => x.setNext last (some slot)
    | none => x
  { x with tail := some slot, head := x.head.or (some slot), entry := (x.entry + 1) % 2 ^ 16 }

def takeFree (slot : ℕ) (x : MessageQueue) : MessageQueue := { x with free := x.next slot }

def takeHead (slot : ℕ) (x : MessageQueue) : MessageQueue :=
  { x with
    head := x.next slot
    tail := if x.tail = some slot then none else x.tail
    entry := x.entry - 1 }

def putFree (slot : ℕ) (x : MessageQueue) : MessageQueue :=
  { x.setNext slot x.free with free := some slot }

/-- A turn of the loop of the reset, which leaves the count to the end. -/
def dropHead (slot : ℕ) (x : MessageQueue) : MessageQueue :=
  putFree slot
    { x with head := x.next slot, tail := if x.tail = some slot then none else x.tail }

def dropAll : ℕ → MessageQueue → MessageQueue
  | 0, x => x
  | turns + 1, x =>
    match x.head with
    | none => x
    | some slot => dropAll turns (dropHead slot x)

/-- Which slots are on the free list, which on the message list, and which in the hands
of calls. -/
structure Layout (max : ℕ) (x : MessageQueue) (f m hands : List ℕ) : Prop where
  free : Chained x.next x.free f
  messages : Chained x.next x.head m
  slots : (f ++ m ++ hands).Perm (List.range max)
  tail : x.tail = m.getLast?

variable {max slot : ℕ} {x : MessageQueue} {f m hands hands' : List ℕ}

theorem Layout.nodup (h : Layout max x f m hands) : (f ++ m ++ hands).Nodup :=
  h.slots.nodup_iff.mpr List.nodup_range

theorem Layout.length_le (h : Layout max x f m hands) : m.length + hands.length ≤ max := by
  have hlength := h.slots.length_eq
  simp only [List.length_append, List.length_range] at hlength
  omega

theorem Layout.perm (h : Layout max x f m hands) (hhands : hands'.Perm hands) :
    Layout max x f m hands' :=
  ⟨h.free, h.messages, (hhands.append_left _).trans h.slots, h.tail⟩

theorem Layout.data (h : Layout max x f m hands) (data : ℕ → List UInt8) :
    Layout max { x with data := data } f m hands :=
  ⟨h.free, h.messages, h.slots, h.tail⟩

theorem Layout.entry (h : Layout max x f m hands) (entry : ℕ) :
    Layout max { x with entry := entry } f m hands :=
  ⟨h.free, h.messages, h.slots, h.tail⟩

theorem Layout.held (h : Layout max x f m (slot :: hands)) :
    slot ∉ f ∧ slot ∉ m ∧ slot ∉ hands := by
  have hnodup := List.nodup_middle.mp h.nodup
  simpa [not_or, and_assoc] using (List.nodup_cons.mp hnodup).1

theorem Layout.nodup_messages (h : Layout max x f m hands) : m.Nodup :=
  (List.nodup_append.mp (List.nodup_append.mp h.nodup).1).2.1

theorem Layout.setNext (h : Layout max x f m (slot :: hands)) (next : Option ℕ) :
    Layout max (x.setNext slot next) f m (slot :: hands) :=
  ⟨h.free.update h.held.1 next, h.messages.update h.held.2.1 next, h.slots, h.tail⟩

theorem Layout.takeFree (h : Layout max x f m hands) (hfree : x.free = some slot) :
    ∃ f', Layout max (takeFree slot x) f' m (slot :: hands) := by
  have hchain := h.free
  rw [hfree] at hchain
  obtain ⟨f', rfl, htail⟩ := hchain.exists_cons
  refine ⟨f', htail, h.messages, ?_, h.tail⟩
  exact List.perm_middle.trans (by simpa using h.slots)

theorem getLast?_tail {l : List ℕ} (hnodup : (slot :: l).Nodup) :
    (if (slot :: l).getLast? = some slot then none else (slot :: l).getLast?) = l.getLast? := by
  cases l with
  | nil => simp
  | cons b l =>
    have hmem : (b :: l).getLast (by simp) ∈ b :: l := List.getLast_mem _
    have hne : (b :: l).getLast (by simp) ≠ slot := fun heq ↦
      (List.nodup_cons.mp hnodup).1 (heq ▸ hmem)
    simp only [List.getLast?_cons_cons]
    rw [List.getLast?_eq_some_getLast (by simp : b :: l ≠ [])]
    simp [hne]

theorem Layout.takeHead (h : Layout max x f m hands) (hhead : x.head = some slot) :
    ∃ m', m = slot :: m' ∧ Layout max (takeHead slot x) f m' (slot :: hands) := by
  have hchain := h.messages
  rw [hhead] at hchain
  obtain ⟨m', rfl, htail⟩ := hchain.exists_cons
  refine ⟨m', rfl, h.free, htail, ?_, ?_⟩
  · refine List.Perm.trans ?_ h.slots
    simp only [List.append_assoc, List.cons_append]
    exact List.Perm.append_left f List.perm_middle
  · simp only [MessageSlots.takeHead, h.tail]
    exact getLast?_tail h.nodup_messages

theorem Layout.putFree (h : Layout max x f m (slot :: hands)) :
    Layout max (putFree slot x) (slot :: f) m hands := by
  refine ⟨h.free.push h.held.1, h.messages.update h.held.2.1 _, ?_, h.tail⟩
  refine List.Perm.trans ?_ h.slots
  simp only [List.cons_append]
  exact List.perm_middle.symm

theorem Layout.linkFirst (h : Layout max x f m (slot :: hands)) :
    Layout max (x.linkFirst slot) f (slot :: m) hands := by
  refine ⟨h.free.update h.held.1 _, h.messages.push h.held.2.1, ?_, ?_⟩
  · refine List.Perm.trans ?_ h.slots
    simp only [List.append_assoc, List.cons_append]
    exact List.Perm.append_left f List.perm_middle.symm
  · simp only [MessageQueue.linkFirst, MessageQueue.setNext, h.tail]
    cases m with
    | nil => rfl
    | cons b m =>
      rw [List.getLast?_cons_cons, List.getLast?_eq_some_getLast (by simp : b :: m ≠ [])]
      rfl

theorem Layout.linkTail (h : Layout max x f m (slot :: hands)) (hnext : x.next slot = none) :
    Layout max (linkTail slot x) f (m ++ [slot]) hands := by
  have hslots : (f ++ (m ++ [slot]) ++ hands).Perm (List.range max) := by
    simpa using h.slots
  obtain ⟨hf, hm, -⟩ := h.held
  obtain rfl | ⟨m', last, rfl⟩ := m.eq_nil_or_concat'
  · have htail : x.tail = none := h.tail
    have hhead : x.head = none := h.messages
    refine ⟨?_, ?_, hslots, ?_⟩
    · simp only [MessageSlots.linkTail, htail]
      exact h.free
    · simp only [MessageSlots.linkTail, htail, hhead]
      exact ⟨rfl, hnext⟩
    · simp [MessageSlots.linkTail]
  · have htail : x.tail = some last := by simpa using h.tail
    have hnodup := h.nodup
    have hlast : last ∉ m' := by
      have := h.nodup_messages
      simp only [List.nodup_append, List.mem_singleton] at this
      exact fun hmem ↦ this.2.2 last hmem last rfl rfl
    have hlastf : last ∉ f := by
      have := (List.nodup_append.mp hnodup).1
      exact fun hmem ↦ (List.nodup_append.mp this).2.2 last hmem last (by simp) rfl
    have hhead : ∃ first, x.head = some first := by
      have hchain := h.messages
      cases m' with
      | nil => exact ⟨_, hchain.1⟩
      | cons b m' => exact ⟨_, hchain.1⟩
    obtain ⟨first, hfirst⟩ := hhead
    refine ⟨?_, ?_, hslots, ?_⟩
    · simp only [MessageSlots.linkTail, htail, MessageQueue.setNext]
      exact h.free.update hlastf _
    · have hchain := h.messages.concat hlast hm hnext
      simp only [MessageSlots.linkTail, htail, MessageQueue.setNext, hfirst, Option.some_or,
        List.append_assoc, List.singleton_append]
      rwa [hfirst] at hchain
    · simp [MessageSlots.linkTail]

theorem Layout.dropHead (h : Layout max x f m hands) (hhead : x.head = some slot) :
    ∃ m', m = slot :: m' ∧ Layout max (dropHead slot x) (slot :: f) m' hands := by
  obtain ⟨m', hm, htaken⟩ := h.takeHead hhead
  exact ⟨m', hm, (htaken.entry x.entry).putFree⟩

/-- As many turns as there are messages empty the list. -/
theorem Layout.dropAll (h : Layout max x f m hands) {turns : ℕ} (hturns : m.length ≤ turns) :
    ∃ f', Layout max (dropAll turns x) f' [] hands := by
  induction turns generalizing x f m with
  | zero =>
    obtain rfl := List.eq_nil_of_length_eq_zero (Nat.le_zero.mp hturns)
    exact ⟨f, h⟩
  | succ turns ih =>
    rw [MessageSlots.dropAll]
    cases hhead : x.head with
    | none =>
      have hchain := h.messages
      rw [hhead] at hchain
      rw [hchain.eq_nil] at h
      exact ⟨f, h⟩
    | some slot =>
      obtain ⟨m', rfl, hdropped⟩ := h.dropHead hhead
      exact ih hdropped (Nat.le_of_succ_le_succ hturns)

@[simp] theorem dropAll_data (turns : ℕ) : (dropAll turns x).data = x.data := by
  induction turns generalizing x with
  | zero => rfl
  | succ turns ih =>
    rw [dropAll]
    cases x.head with
    | none => rfl
    | some slot => exact ih

@[simp] theorem dropAll_msgSize (turns : ℕ) : (dropAll turns x).msgSize = x.msgSize := by
  induction turns generalizing x with
  | zero => rfl
  | succ turns ih =>
    rw [dropAll]
    cases x.head with
    | none => rfl
    | some slot => exact ih

theorem layout_rtMqInit (msgSize max : ℕ) (pool : ℕ → List UInt8) (flag : IpcFlag) :
    ∃ f, Layout max (rtMqInit msgSize max pool flag) f [] [] := by
  induction max with
  | zero => exact ⟨[], rfl, rfl, List.Perm.refl _, rfl⟩
  | succ max ih =>
    obtain ⟨f, hfree, hmessages, hslots, htail⟩ := ih
    have hout : max ∉ f := by
      intro hmem
      have := hslots.mem_iff.mp (by simpa using hmem)
      simp at this
    have hinit : rtMqInit msgSize (max + 1) pool flag =
        putFree max (rtMqInit msgSize max pool flag) := by
      simp only [rtMqInit, List.range_succ, List.foldl_append, List.foldl_cons, List.foldl_nil]
      rfl
    rw [hinit]
    refine ⟨max :: f, hfree.push hout, ?_, ?_, htail⟩
    · exact hmessages
    · rw [List.range_succ]
      simp only [List.append_nil] at hslots ⊢
      exact (hslots.cons max).trans (List.perm_append_singleton max _).symm

end GiantGecko.Rtos.MessageSlots
