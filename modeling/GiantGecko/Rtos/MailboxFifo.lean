import GiantGecko.Foundation.Transition
import GiantGecko.Foundation.Window
import GiantGecko.Rtos.Ipc
import GiantGecko.Rtos.Waiting

namespace GiantGecko.Rtos.MailboxFifo

open Foundation.Ring Foundation.Transition Foundation.Window Waiting
open Scheduler (Err IpcFlag timeLeft)
open Ipc (Mailbox advance)

inductive Side
  | receivers
  | senders
  deriving DecidableEq

inductive Call
  | send (value timeout tickDelta : BitVec 32)
  | recv (timeout tickDelta : BitVec 32)

structure Answer where
  result : Option Err
  value : BitVec 32
  mb : Mailbox
  threads : Threads Side Call

/-- When and by whom a call is made, or gone on with. -/
structure Context where
  caller : Option ℕ
  tick : BitVec 32
  priority : ℕ → ℕ

def sendLoop (value timeout tickDelta : BitVec 32) (k : Context) (mb : Mailbox)
    (x : Threads Side Call) : Answer :=
  if mb.entry = mb.size then
    match k.caller with
    | some t =>
      let x := setError t .eok x
      if timeout = 0 then ⟨some .efull, value, mb, x⟩
      else
        ⟨none, value, mb, waitOn .senders mb.flag k.priority t timeout
          (.send value timeout (if 0 < timeout.toInt then k.tick else tickDelta)) x⟩
    | none => ⟨none, value, mb, x⟩
  else ⟨some .eok, value, mb.store value, rtIpcListResume .receivers x⟩

def rtMbSendWait (value timeout : BitVec 32) (k : Context) (mb : Mailbox)
    (x : Threads Side Call) : Answer :=
  if mb.entry = mb.size ∧ timeout = 0 then ⟨some .efull, value, mb, x⟩
  else sendLoop value timeout 0 k mb x

def recvLoop (timeout tickDelta : BitVec 32) (k : Context) (mb : Mailbox)
    (x : Threads Side Call) : Answer :=
  if mb.entry = 0 then
    match k.caller with
    | some t =>
      let x := setError t .eok x
      if timeout = 0 then ⟨some .etimeout, 0, mb, setError t .etimeout x⟩
      else
        ⟨none, 0, mb, waitOn .receivers mb.flag k.priority t timeout
          (.recv timeout (if 0 < timeout.toInt then k.tick else tickDelta)) x⟩
    | none => ⟨none, 0, mb, x⟩
  else ⟨some .eok, mb.msgPool mb.outOffset, mb.fetch, rtIpcListResume .senders x⟩

def rtMbRecv (timeout : BitVec 32) (k : Context) (mb : Mailbox) (x : Threads Side Call) :
    Answer :=
  if mb.entry = 0 ∧ timeout = 0 then ⟨some .etimeout, 0, mb, x⟩
  else recvLoop timeout 0 k mb x

/-- A mailbox with the threads. What successful sends have accepted, and what
successful receives have returned, is not in the source. -/
structure System where
  mb : Mailbox
  threads : Threads Side Call
  accepted : List (BitVec 32)
  received : List (BitVec 32)

inductive Event
  | send (value timeout : BitVec 32) (k : Context)
  | recv (timeout : BitVec 32) (k : Context)
  | goOn (t : ℕ) (k : Context)
  | timeout (t : ℕ)

def sent (value : BitVec 32) (r : Answer) (s : System) : System :=
  { s with
    mb := r.mb
    threads := r.threads
    accepted := if r.result = some .eok then s.accepted ++ [value] else s.accepted }

def got (r : Answer) (s : System) : System :=
  { s with
    mb := r.mb
    threads := r.threads
    received := if r.result = some .eok then s.received ++ [r.value] else s.received }

def goOn (t : ℕ) (k : Context) (s : System) : System :=
  let err := (s.threads.thread t).error
  let x := setCall t none s.threads
  let k := { k with caller := some t }
  match (s.threads.thread t).call with
  | some (.send value timeout tickDelta) =>
    if err ≠ .eok then { s with threads := x }
    else sent value (sendLoop value (timeLeft timeout (k.tick - tickDelta)) tickDelta k s.mb x) s
  | some (.recv timeout tickDelta) =>
    if err ≠ .eok then { s with threads := x }
    else got (recvLoop (timeLeft timeout (k.tick - tickDelta)) tickDelta k s.mb x) s
  | none => s

/-- An event that does not apply changes nothing. -/
def step (s : System) : Event → System
  | .send value timeout k =>
    if callable k.caller s.threads then sent value (rtMbSendWait value timeout k s.mb s.threads) s
    else s
  | .recv timeout k =>
    if callable k.caller s.threads then got (rtMbRecv timeout k s.mb s.threads) s else s
  | .goOn t k => if (s.threads.thread t).suspended then s else goOn t k s
  | .timeout t => { s with threads := timerEnds t s.threads }

def rtMbInit (msgPool : ℕ → BitVec 32) (size : BitVec 32) (flag : IpcFlag) : Mailbox :=
  ⟨msgPool, size.toNat % 2 ^ 16, 0, 0, 0, flag⟩

def init (msgPool : ℕ → BitVec 32) (size : BitVec 32) (flag : IpcFlag) : System :=
  ⟨rtMbInit msgPool size flag, noneWaits, [], []⟩

/-- What has been received is the first of what has been accepted, the rest of which is
counted and fits. -/
structure Fifo (s : System) : Prop where
  ordered : s.received <+: s.accepted
  counted : s.mb.entry = s.accepted.length - s.received.length
  bounded : s.mb.entry ≤ s.mb.size

/-- A call changes the mailbox only if it returns well. -/
def Undone (s : System) (e : Event) : Prop :=
  (step s e).accepted = s.accepted → (step s e).received = s.received → (step s e).mb = s.mb

def stored (mb : Mailbox) : List (BitVec 32) := window mb.size mb.msgPool mb.outOffset mb.entry

structure Sized (mb : Mailbox) : Prop where
  small : mb.size < 2 ^ 16
  bounded : mb.entry ≤ mb.size
  outOffset : 0 < mb.size → mb.outOffset < mb.size
  inOffset : mb.inOffset = slot mb.size mb.outOffset mb.entry

variable {mb : Mailbox} {value : BitVec 32}

theorem advance_eq {size offset : ℕ} (hsize : size < 2 ^ 16) (hoffset : offset < size) :
    advance size offset = slot size offset 1 := by
  have hmod : (offset + 1) % 2 ^ 16 = offset + 1 := Nat.mod_eq_of_lt (by omega)
  rw [advance, hmod, slot]
  split_ifs <;> omega

theorem Sized.store (h : Sized mb) (hroom : mb.entry ≠ mb.size) : Sized (mb.store value) := by
  have hbounded := h.bounded
  have hsmall := h.small
  have hout := h.outOffset (by omega)
  have hin : mb.inOffset < mb.size := by
    rw [h.inOffset]
    exact slot_lt hout hbounded
  have hentry : (mb.entry + 1) % 2 ^ 16 = mb.entry + 1 := Nat.mod_eq_of_lt (by omega)
  refine ⟨hsmall, ?_, h.outOffset, ?_⟩
  · simp only [Mailbox.store, hentry]
    omega
  · simp only [Mailbox.store, hentry]
    rw [advance_eq hsmall hin, h.inOffset]
    exact slot_slot hout (by omega)

theorem Sized.stored_store (h : Sized mb) (hroom : mb.entry ≠ mb.size) :
    stored (mb.store value) = stored mb ++ [value] := by
  have hbounded := h.bounded
  have hsmall := h.small
  have hout := h.outOffset (by omega)
  have hentry : (mb.entry + 1) % 2 ^ 16 = mb.entry + 1 := Nat.mod_eq_of_lt (by omega)
  have hin : slot mb.size mb.inOffset 0 = mb.inOffset := by
    rw [h.inOffset, slot_slot hout (by omega), Nat.add_zero]
  have hwritten : Written mb.size mb.msgPool (Function.update mb.msgPool mb.inOffset value)
      (slot mb.size mb.outOffset mb.entry) (fun _ ↦ value) 1 := by
    rw [← h.inOffset]
    refine ⟨?_, ?_⟩
    · intro i hi
      rw [Nat.lt_one_iff.mp hi, hin, Function.update_self]
    · intro j hj
      have hne := hj 0 Nat.one_pos
      rw [hin] at hne
      exact Function.update_of_ne hne.symm _ _
  simp only [stored, Mailbox.store, hentry]
  exact hwritten.window_append hout (by omega)

theorem Sized.fetch (h : Sized mb) (hentry : mb.entry ≠ 0) : Sized mb.fetch := by
  have hbounded := h.bounded
  have hsmall := h.small
  have hout := h.outOffset (by omega)
  have hadvance := advance_eq hsmall hout
  refine ⟨hsmall, ?_, ?_, ?_⟩
  · simp only [Mailbox.fetch]
    omega
  · intro hpos
    simp only [Mailbox.fetch, hadvance]
    exact slot_lt hout hpos
  · simp only [Mailbox.fetch, hadvance]
    rw [slot_slot hout (by omega), h.inOffset]
    congr 1
    omega

theorem Sized.stored_fetch (h : Sized mb) (hentry : mb.entry ≠ 0) :
    stored mb = mb.msgPool mb.outOffset :: stored mb.fetch := by
  have hbounded := h.bounded
  have hout := h.outOffset (by omega)
  have hone : mb.entry = 1 + (mb.entry - 1) := by omega
  have hfirst : window mb.size mb.msgPool mb.outOffset 1 = [mb.msgPool mb.outOffset] := by
    simp [window, slot, hout]
  simp only [stored, Mailbox.fetch, advance_eq h.small hout]
  rw [hone, window_append hout (by omega), hfirst, Nat.add_sub_cancel_left]
  rfl

structure Inv (s : System) : Prop where
  sized : Sized s.mb
  journal : s.accepted = s.received ++ stored s.mb

variable {s : System}

theorem Inv.fifo (h : Inv s) : Fifo s where
  ordered := by
    rw [h.journal]
    exact List.prefix_append _ _
  counted := by
    rw [h.journal, List.length_append, Nat.add_sub_cancel_left, stored, length_window]
  bounded := h.sized.bounded

structure Sends (value : BitVec 32) (mb : Mailbox) (r : Answer) : Prop where
  failed : r.result ≠ some .eok → r.mb = mb
  done : r.result = some .eok → mb.entry ≠ mb.size ∧ r.mb = mb.store value

structure Gets (mb : Mailbox) (r : Answer) : Prop where
  failed : r.result ≠ some .eok → r.mb = mb
  done : r.result = some .eok →
    mb.entry ≠ 0 ∧ r.mb = mb.fetch ∧ r.value = mb.msgPool mb.outOffset

variable {x : Threads Side Call} {k : Context} {timeout tickDelta : BitVec 32}

theorem sends_of_failed {r : Answer} (hresult : r.result ≠ some .eok) (hmb : r.mb = mb) :
    Sends value mb r :=
  ⟨fun _ ↦ hmb, fun h ↦ absurd h hresult⟩

theorem gets_of_failed {r : Answer} (hresult : r.result ≠ some .eok) (hmb : r.mb = mb) :
    Gets mb r :=
  ⟨fun _ ↦ hmb, fun h ↦ absurd h hresult⟩

theorem sends_sendLoop : Sends value mb (sendLoop value timeout tickDelta k mb x) := by
  by_cases hfull : mb.entry = mb.size
  · rw [sendLoop, if_pos hfull]
    cases k.caller with
    | none => exact sends_of_failed (by simp) rfl
    | some t =>
      by_cases htimeout : timeout = 0
      · simp only [if_pos htimeout]
        exact sends_of_failed (by simp) rfl
      · simp only [if_neg htimeout]
        exact sends_of_failed (by simp) rfl
  · rw [sendLoop, if_neg hfull]
    exact ⟨fun h ↦ absurd rfl h, fun _ ↦ ⟨hfull, rfl⟩⟩

theorem sends_rtMbSendWait : Sends value mb (rtMbSendWait value timeout k mb x) := by
  by_cases hfull : mb.entry = mb.size ∧ timeout = 0
  · rw [rtMbSendWait, if_pos hfull]
    exact sends_of_failed (by simp) rfl
  · rw [rtMbSendWait, if_neg hfull]
    exact sends_sendLoop

theorem gets_recvLoop : Gets mb (recvLoop timeout tickDelta k mb x) := by
  by_cases hempty : mb.entry = 0
  · rw [recvLoop, if_pos hempty]
    cases k.caller with
    | none => exact gets_of_failed (by simp) rfl
    | some t =>
      by_cases htimeout : timeout = 0
      · simp only [if_pos htimeout]
        exact gets_of_failed (by simp) rfl
      · simp only [if_neg htimeout]
        exact gets_of_failed (by simp) rfl
  · rw [recvLoop, if_neg hempty]
    exact ⟨fun h ↦ absurd rfl h, fun _ ↦ ⟨hempty, rfl, rfl⟩⟩

theorem gets_rtMbRecv : Gets mb (rtMbRecv timeout k mb x) := by
  by_cases hempty : mb.entry = 0 ∧ timeout = 0
  · rw [rtMbRecv, if_pos hempty]
    exact gets_of_failed (by simp) rfl
  · rw [rtMbRecv, if_neg hempty]
    exact gets_recvLoop

structure Kept (s s' : System) : Prop where
  inv : Inv s'
  undone : s'.accepted = s.accepted → s'.received = s.received → s'.mb = s.mb

theorem kept_of_same (h : Inv s) {s' : System} (hmb : s'.mb = s.mb)
    (haccepted : s'.accepted = s.accepted) (hreceived : s'.received = s.received) : Kept s s' where
  inv := ⟨by rw [hmb]; exact h.sized, by rw [hmb, haccepted, hreceived]; exact h.journal⟩
  undone _ _ := hmb

theorem kept_sent (h : Inv s) {r : Answer} (hr : Sends value s.mb r) : Kept s (sent value r s) := by
  by_cases hresult : r.result = some .eok
  · obtain ⟨hroom, hmb⟩ := hr.done hresult
    have hjournal : s.accepted ++ [value] = s.received ++ stored (s.mb.store value) := by
      rw [h.sized.stored_store hroom, h.journal, List.append_assoc]
    simp only [sent, if_pos hresult, hmb]
    refine ⟨⟨h.sized.store hroom, hjournal⟩, ?_⟩
    intro haccepted
    exact absurd haccepted (by simp)
  · exact kept_of_same h (hr.failed hresult) (by simp only [sent, if_neg hresult]) rfl

theorem kept_got (h : Inv s) {r : Answer} (hr : Gets s.mb r) : Kept s (got r s) := by
  by_cases hresult : r.result = some .eok
  · obtain ⟨hentry, hmb, hvalue⟩ := hr.done hresult
    have hjournal : s.accepted = s.received ++ [r.value] ++ stored s.mb.fetch := by
      rw [h.journal, h.sized.stored_fetch hentry, hvalue, List.append_assoc, List.singleton_append]
    simp only [got, if_pos hresult, hmb]
    refine ⟨⟨h.sized.fetch hentry, hjournal⟩, ?_⟩
    intro _ hreceived
    exact absurd hreceived (by simp)
  · exact kept_of_same h (hr.failed hresult) rfl (by simp only [got, if_neg hresult])

theorem kept_goOn (h : Inv s) (t : ℕ) (k : Context) : Kept s (goOn t k s) := by
  rw [goOn]
  cases (s.threads.thread t).call with
  | none => exact kept_of_same h rfl rfl rfl
  | some c =>
    cases c with
    | send value timeout tickDelta =>
      by_cases herror : (s.threads.thread t).error = .eok
      · simp only [herror, ne_eq, not_true_eq_false, if_false]
        exact kept_sent h sends_sendLoop
      · simp only [ne_eq, herror, not_false_eq_true, if_true]
        exact kept_of_same h rfl rfl rfl
    | recv timeout tickDelta =>
      by_cases herror : (s.threads.thread t).error = .eok
      · simp only [herror, ne_eq, not_true_eq_false, if_false]
        exact kept_got h gets_recvLoop
      · simp only [ne_eq, herror, not_false_eq_true, if_true]
        exact kept_of_same h rfl rfl rfl

theorem kept_step (h : Inv s) (e : Event) : Kept s (step s e) := by
  cases e with
  | send value timeout k =>
    rw [step]
    split_ifs
    · exact kept_sent h sends_rtMbSendWait
    · exact kept_of_same h rfl rfl rfl
  | recv timeout k =>
    rw [step]
    split_ifs
    · exact kept_got h gets_rtMbRecv
    · exact kept_of_same h rfl rfl rfl
  | goOn t k =>
    rw [step]
    split_ifs
    · exact kept_of_same h rfl rfl rfl
    · exact kept_goOn h t k
  | timeout t => exact kept_of_same h rfl rfl rfl

theorem inv_init (msgPool : ℕ → BitVec 32) (size : BitVec 32) (flag : IpcFlag) :
    Inv (init msgPool size flag) where
  sized := ⟨Nat.mod_lt _ (by decide), Nat.zero_le _, fun hpos ↦ hpos, by simp [init, rtMbInit, slot]⟩
  journal := rfl

/-- A mailbox is a bounded queue along every run. -/
theorem fifo_run (msgPool : ℕ → BitVec 32) (size : BitVec 32) (flag : IpcFlag)
    (es : List Event) :
    Fifo (init msgPool size flag) ∧
      Along step (fun s e ↦ Fifo (step s e) ∧ Undone s e) (init msgPool size flag) es := by
  have hinit := inv_init msgPool size flag
  refine ⟨hinit.fifo, ?_⟩
  refine along_of_invariant (C := fun _ _ ↦ True) (I := Inv)
    (fun _ e h _ ↦ (kept_step h e).inv) ?_ hinit (along_of_forall (fun _ _ ↦ trivial) _ es)
  intro s e h _
  exact ⟨(kept_step h e).inv.fifo, (kept_step h e).undone⟩

end GiantGecko.Rtos.MailboxFifo
