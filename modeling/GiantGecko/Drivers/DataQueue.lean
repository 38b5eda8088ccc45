import GiantGecko.Foundation.Transition
import GiantGecko.Rtos.Waiting
import Mathlib.Data.Int.Notation
import Mathlib.Data.Int.ModEq

namespace GiantGecko.Drivers.DataQueue

open Foundation.Transition Rtos.Waiting
open Rtos.Scheduler (Err IpcFlag)

structure DataItem where
  dataPtr : BitVec 32
  dataSize : BitVec 32
  deriving DecidableEq

/-- `struct rt_data_queue` but for its lists of threads. -/
structure RtDataQueue where
  size : ℕ
  lwm : ℕ
  getIndex : ℕ
  putIndex : ℕ
  queue : ℕ → DataItem

inductive Side
  | push
  | pop
  deriving DecidableEq

inductive Call
  | push (item : DataItem) (timeout : BitVec 32)
  | pop (timeout : BitVec 32)

inductive Notice
  | push
  | pop
  | lwm

/-- A call that has returned, or waits, with the item that a pop stores and the notice
that is given. -/
structure Answer where
  result : Option Err
  item : DataItem
  notice : Option Notice
  queue : RtDataQueue
  threads : Threads Side Call

/-- What is found full: the indices are subtracted as integers. -/
def Full (q : RtDataQueue) : Prop := (q.putIndex : ℤ) - q.getIndex = q.size

instance (q : RtDataQueue) : Decidable (Full q) := inferInstanceAs (Decidable (_ = _))

def put (item : DataItem) (q : RtDataQueue) : RtDataQueue :=
  { q with
    queue := Function.update q.queue (q.putIndex % q.size) item
    putIndex := (q.putIndex + 1) % 2 ^ 16 }

def get (q : RtDataQueue) : RtDataQueue := { q with getIndex := (q.getIndex + 1) % 2 ^ 16 }

def first (q : RtDataQueue) : DataItem := q.queue (q.getIndex % q.size)

def pushLoop (caller : Option ℕ) (item : DataItem) (timeout : BitVec 32) (q : RtDataQueue)
    (x : Threads Side Call) : Answer :=
  if Full q then
    if timeout = 0 then ⟨some .etimeout, item, none, q, x⟩
    else
      match caller with
      | some t =>
        ⟨none, item, none, q,
          waitOn .push .fifo (fun _ ↦ 0) t timeout (.push item timeout) (setError t .eok x)⟩
      | none => ⟨none, item, none, q, x⟩
  else
    ⟨some .eok, item, if x.queue .pop = [] then some .push else none, put item q,
      rtIpcListResume .pop x⟩

def popLoop (caller : Option ℕ) (timeout : BitVec 32) (q : RtDataQueue) (x : Threads Side Call) :
    Answer :=
  if q.getIndex = q.putIndex then
    if timeout = 0 then ⟨some .etimeout, first q, none, q, x⟩
    else
      match caller with
      | some t =>
        ⟨none, first q, none, q,
          waitOn .pop .fifo (fun _ ↦ 0) t timeout (.pop timeout) (setError t .eok x)⟩
      | none => ⟨none, first q, none, q, x⟩
  else if ((get q).putIndex : ℤ) - (get q).getIndex ≤ q.lwm then
    ⟨some .eok, first q, some .lwm, get q, rtIpcListResume .push x⟩
  else ⟨some .eok, first q, some .pop, get q, x⟩

def rtDataQueuePeak (q : RtDataQueue) : Option DataItem :=
  if q.getIndex = q.putIndex then none else some (first q)

/-- The queue with the threads. What has been pushed and popped, and the notices given, is
not in the source. -/
structure System where
  queue : RtDataQueue
  threads : Threads Side Call
  pushed : List DataItem
  popped : List DataItem
  notices : List Notice

inductive Event
  | push (caller : Option ℕ) (item : DataItem) (timeout : BitVec 32)
  | pop (caller : Option ℕ) (timeout : BitVec 32)
  | goOn (t : ℕ)
  | timeout (t : ℕ)

def onPush (r : Answer) (s : System) : System :=
  { s with
    queue := r.queue
    threads := r.threads
    pushed := if r.result = some .eok then s.pushed ++ [r.item] else s.pushed
    notices := r.notice.toList ++ s.notices }

def onPop (r : Answer) (s : System) : System :=
  { s with
    queue := r.queue
    threads := r.threads
    popped := if r.result = some .eok then s.popped ++ [r.item] else s.popped
    notices := r.notice.toList ++ s.notices }

def goOn (t : ℕ) (s : System) : System :=
  let x := setCall t none s.threads
  if (s.threads.thread t).error ≠ .eok then { s with threads := x }
  else
    match (s.threads.thread t).call with
    | some (.push item timeout) => onPush (pushLoop (some t) item timeout s.queue x) s
    | some (.pop timeout) => onPop (popLoop (some t) timeout s.queue x) s
    | none => s

/-- An event that does not apply changes nothing. -/
def step (s : System) : Event → System
  | .push caller item timeout =>
    if callable caller s.threads then onPush (pushLoop caller item timeout s.queue s.threads) s
    else s
  | .pop caller timeout =>
    if callable caller s.threads then onPop (popLoop caller timeout s.queue s.threads) s else s
  | .goOn t => if (s.threads.thread t).suspended then s else goOn t s
  | .timeout t => { s with threads := timerEnds t s.threads }

def rtDataQueueInit (size lwm : Fin 0x10000) (queue : ℕ → DataItem) : RtDataQueue :=
  ⟨size, lwm, 0, 0, queue⟩

def init (size lwm : Fin 0x10000) (queue : ℕ → DataItem) : System :=
  ⟨rtDataQueueInit size lwm queue, noneWaits, [], [], []⟩

/-- What has been popped is the first of what has been pushed, the rest of which fits, and
a peak gives the first of the rest. -/
structure Fifo (s : System) : Prop where
  ordered : s.popped <+: s.pushed
  bounded : s.pushed.length - s.popped.length ≤ s.queue.size
  peak : rtDataQueuePeak s.queue = (s.pushed.drop s.popped.length).head?

def Pushes (s : System) : Event → Prop
  | .push caller _ _ => callable caller s.threads = true
  | .goOn t => (s.threads.thread t).suspended = false ∧ (s.threads.thread t).error = .eok ∧
      ∃ item timeout, (s.threads.thread t).call = some (.push item timeout)
  | _ => False

/-- Once the put index has come round to zero, and until the get index has, a push finds
the queue with room, and no index before the end of their range for the same place. -/
def Apart (s : System) (e : Event) : Prop :=
  Pushes s e → s.queue.putIndex < s.queue.getIndex →
    s.queue.putIndex + 2 ^ 16 - s.queue.getIndex < s.queue.size ∧
      ∀ j < 2 ^ 16, s.queue.getIndex ≤ j → j % s.queue.size ≠ s.queue.putIndex % s.queue.size

section Places

variable {q : RtDataQueue} {item : DataItem} {i j : ℕ}

def stored (q : RtDataQueue) : ℕ := (q.putIndex + (2 ^ 16 - q.getIndex)) % 2 ^ 16

def place (q : RtDataQueue) (k : ℕ) : ℕ := (q.getIndex + k) % 2 ^ 16 % q.size

def unread (q : RtDataQueue) : List DataItem :=
  (List.range (stored q)).map fun k ↦ q.queue (place q k)

structure Indexed (q : RtDataQueue) : Prop where
  small : q.size < 2 ^ 16
  getIndex : q.getIndex < 2 ^ 16
  putIndex : q.putIndex < 2 ^ 16
  bounded : stored q ≤ q.size
  apart : ∀ j < stored q, ∀ i < j, place q i ≠ place q j

theorem mod_ne_of_lt {size : ℕ} (hij : i < j) (hsize : j < i + size) : i % size ≠ j % size := by
  intro heq
  have hdvd := (Nat.modEq_iff_dvd' hij.le).mp heq
  exact absurd (Nat.le_of_dvd (by omega) hdvd) (by omega)

theorem Indexed.place_stored (h : Indexed q) : place q (stored q) = q.putIndex % q.size := by
  have hget := h.getIndex
  have hput := h.putIndex
  rw [place, stored]
  congr 1
  omega

structure Room (q : RtDataQueue) : Prop where
  lt : stored q < q.size
  free : ∀ i < stored q, place q i ≠ q.putIndex % q.size

theorem Indexed.room (h : Indexed q) (hfull : ¬Full q)
    (hapart : q.putIndex < q.getIndex → q.putIndex + 2 ^ 16 - q.getIndex < q.size ∧
      ∀ j < 2 ^ 16, q.getIndex ≤ j → j % q.size ≠ q.putIndex % q.size) : Room q := by
  have hget := h.getIndex
  have hput := h.putIndex
  have hbounded := h.bounded
  rw [Full] at hfull
  have hstored : stored q =
      if q.getIndex ≤ q.putIndex then q.putIndex - q.getIndex
      else q.putIndex + 2 ^ 16 - q.getIndex := by
    rw [stored]
    split_ifs <;> omega
  by_cases hle : q.getIndex ≤ q.putIndex
  · rw [if_pos hle] at hstored
    refine ⟨by omega, ?_⟩
    intro i hi
    have hindex : (q.getIndex + i) % 2 ^ 16 = q.getIndex + i := Nat.mod_eq_of_lt (by omega)
    rw [place, hindex]
    exact mod_ne_of_lt (by omega) (by omega)
  · rw [if_neg hle] at hstored
    obtain ⟨hroom, hothers⟩ := hapart (by omega)
    refine ⟨by omega, ?_⟩
    intro i hi
    rw [place]
    by_cases hwrap : q.getIndex + i < 2 ^ 16
    · rw [Nat.mod_eq_of_lt hwrap]
      exact hothers _ hwrap (Nat.le_add_right _ _)
    · have hindex : (q.getIndex + i) % 2 ^ 16 = q.getIndex + i - 2 ^ 16 := by omega
      rw [hindex]
      exact mod_ne_of_lt (by omega) (by omega)

variable (item) in
theorem Indexed.stored_put (h : Indexed q) (hroom : Room q) : stored (put item q) = stored q + 1 := by
  have hget := h.getIndex
  have hput := h.putIndex
  have hsmall := h.small
  have hlt := hroom.lt
  simp only [stored, put] at hlt ⊢
  omega

theorem Indexed.put_item (h : Indexed q) (hroom : Room q) :
    Indexed (put item q) ∧ unread (put item q) = unread q ++ [item] := by
  have hstored := h.stored_put item hroom
  have hlast := h.place_stored
  have hlt := hroom.lt
  refine ⟨⟨h.small, h.getIndex, Nat.mod_lt _ (by decide), by rw [hstored]; exact hlt, ?_⟩, ?_⟩
  · intro j hj i hij
    rw [hstored] at hj
    change place q i ≠ place q j
    obtain hj | rfl := Nat.lt_succ_iff_lt_or_eq.mp hj
    · exact h.apart j hj i hij
    · rw [hlast]
      exact hroom.free i hij
  · rw [unread, hstored, List.range_succ, List.map_append, unread]
    congr 1
    · refine List.map_congr_left fun k hk ↦ ?_
      exact Function.update_of_ne (hroom.free k (List.mem_range.mp hk)) _ _
    · have hput : (put item q).queue (place q (stored q)) = item := by
        rw [hlast]
        exact Function.update_self _ _ _
      exact congrArg (fun a ↦ [a]) hput

theorem place_get (h : Indexed q) (k : ℕ) : place (get q) k = place q (k + 1) := by
  have hget := h.getIndex
  simp only [place, get]
  congr 1
  omega

theorem Indexed.stored_get (h : Indexed q) (hne : q.getIndex ≠ q.putIndex) :
    stored q = stored (get q) + 1 := by
  have hget := h.getIndex
  have hput := h.putIndex
  simp only [stored, get]
  omega

theorem Indexed.get_item (h : Indexed q) (hne : q.getIndex ≠ q.putIndex) :
    Indexed (get q) ∧ unread q = first q :: unread (get q) := by
  have hstored := h.stored_get hne
  have hbounded := h.bounded
  have hfirst : q.queue (place q 0) = first q := by
    rw [place, Nat.add_zero, Nat.mod_eq_of_lt h.getIndex]
    rfl
  refine ⟨⟨h.small, Nat.mod_lt _ (by decide), h.putIndex, ?_, ?_⟩, ?_⟩
  · change stored (get q) ≤ q.size
    omega
  · intro j hj i hij
    rw [place_get h, place_get h]
    exact h.apart _ (by omega) _ (by omega)
  · rw [unread, hstored, List.range_succ_eq_map, List.map_cons, List.map_map, hfirst, unread]
    congr 1
    refine List.map_congr_left fun k _ ↦ ?_
    rw [Function.comp_apply, place_get h]
    rfl

theorem Indexed.peak (h : Indexed q) : rtDataQueuePeak q = (unread q).head? := by
  rw [rtDataQueuePeak]
  split_ifs with heq
  · have hzero : stored q = 0 := by
      have hget := h.getIndex
      rw [stored]
      omega
    simp [unread, hzero]
  · rw [(h.get_item heq).2]
    rfl

end Places

structure Inv (s : System) : Prop where
  indexed : Indexed s.queue
  journal : s.pushed = s.popped ++ unread s.queue

variable {s : System} {item : DataItem} {timeout : BitVec 32} {caller : Option ℕ}
  {x : Threads Side Call}

theorem length_unread (q : RtDataQueue) : (unread q).length = stored q := by
  rw [unread, List.length_map, List.length_range]

theorem Inv.fifo (h : Inv s) : Fifo s where
  ordered := by
    rw [h.journal]
    exact List.prefix_append _ _
  bounded := by
    rw [h.journal, List.length_append, Nat.add_sub_cancel_left, length_unread]
    exact h.indexed.bounded
  peak := by
    rw [h.journal, List.drop_left]
    exact h.indexed.peak

structure Pushed (item : DataItem) (q : RtDataQueue) (r : Answer) : Prop where
  failed : r.result ≠ some .eok → r.queue = q
  done : r.result = some .eok → ¬Full q ∧ r.queue = put item q ∧ r.item = item

structure Popped (q : RtDataQueue) (r : Answer) : Prop where
  failed : r.result ≠ some .eok → r.queue = q
  done : r.result = some .eok → q.getIndex ≠ q.putIndex ∧ r.queue = get q ∧ r.item = first q

theorem pushed_pushLoop {q : RtDataQueue} :
    Pushed item q (pushLoop caller item timeout q x) := by
  unfold pushLoop
  by_cases hfull : Full q
  · rw [if_pos hfull]
    by_cases htimeout : timeout = 0
    · rw [if_pos htimeout]
      exact ⟨fun _ ↦ rfl, fun h ↦ absurd h (by simp)⟩
    · rw [if_neg htimeout]
      cases caller with
      | none => exact ⟨fun _ ↦ rfl, fun h ↦ absurd h (by simp)⟩
      | some t => exact ⟨fun _ ↦ rfl, fun h ↦ absurd h (by simp)⟩
  · rw [if_neg hfull]
    exact ⟨fun h ↦ absurd rfl h, fun _ ↦ ⟨hfull, rfl, rfl⟩⟩

theorem popped_popLoop {q : RtDataQueue} : Popped q (popLoop caller timeout q x) := by
  unfold popLoop
  by_cases hempty : q.getIndex = q.putIndex
  · rw [if_pos hempty]
    by_cases htimeout : timeout = 0
    · rw [if_pos htimeout]
      exact ⟨fun _ ↦ rfl, fun h ↦ absurd h (by simp)⟩
    · rw [if_neg htimeout]
      cases caller with
      | none => exact ⟨fun _ ↦ rfl, fun h ↦ absurd h (by simp)⟩
      | some t => exact ⟨fun _ ↦ rfl, fun h ↦ absurd h (by simp)⟩
  · rw [if_neg hempty]
    split_ifs
    · exact ⟨fun h ↦ absurd rfl h, fun _ ↦ ⟨hempty, rfl, rfl⟩⟩
    · exact ⟨fun h ↦ absurd rfl h, fun _ ↦ ⟨hempty, rfl, rfl⟩⟩

theorem Inv.of_same (h : Inv s) {s' : System} (hqueue : s'.queue = s.queue)
    (hpushed : s'.pushed = s.pushed) (hpopped : s'.popped = s.popped) : Inv s' where
  indexed := by
    rw [hqueue]
    exact h.indexed
  journal := by
    rw [hqueue, hpushed, hpopped]
    exact h.journal

theorem Inv.onPush (h : Inv s) {r : Answer} (hr : Pushed item s.queue r)
    (hroom : ¬Full s.queue → Room s.queue) : Inv (onPush r s) := by
  by_cases hresult : r.result = some .eok
  · obtain ⟨hfull, hqueue, hitem⟩ := hr.done hresult
    obtain ⟨hindexed, hunread⟩ := h.indexed.put_item (hroom hfull)
    have hjournal : s.pushed ++ [item] = s.popped ++ unread (put item s.queue) := by
      rw [hunread, h.journal, List.append_assoc]
    simp only [DataQueue.onPush, if_pos hresult, hqueue, hitem]
    exact ⟨hindexed, hjournal⟩
  · exact h.of_same (hr.failed hresult) (by simp only [DataQueue.onPush, if_neg hresult]) rfl

theorem Inv.onPop (h : Inv s) {r : Answer} (hr : Popped s.queue r) : Inv (onPop r s) := by
  by_cases hresult : r.result = some .eok
  · obtain ⟨hempty, hqueue, hitem⟩ := hr.done hresult
    obtain ⟨hindexed, hunread⟩ := h.indexed.get_item hempty
    have hjournal : s.pushed = s.popped ++ [first s.queue] ++ unread (get s.queue) := by
      rw [h.journal, hunread, List.append_assoc, List.singleton_append]
    simp only [DataQueue.onPop, if_pos hresult, hqueue, hitem]
    exact ⟨hindexed, hjournal⟩
  · exact h.of_same (hr.failed hresult) rfl (by simp only [DataQueue.onPop, if_neg hresult])

theorem Inv.step (h : Inv s) {e : Event} (he : Apart s e) : Inv (step s e) := by
  have hroom : Pushes s e → ¬Full s.queue → Room s.queue :=
    fun hpushes hfull ↦ h.indexed.room hfull (he hpushes)
  cases e with
  | push caller item timeout =>
    rw [DataQueue.step]
    by_cases hcall : callable caller s.threads
    · rw [if_pos hcall]
      exact h.onPush pushed_pushLoop (hroom hcall)
    · rw [if_neg hcall]
      exact h
  | pop caller timeout =>
    rw [DataQueue.step]
    split_ifs
    · exact h.onPop popped_popLoop
    · exact h
  | goOn t =>
    rw [DataQueue.step]
    by_cases hsuspended : (s.threads.thread t).suspended = true
    · rw [if_pos hsuspended]
      exact h
    · rw [if_neg hsuspended, goOn]
      by_cases herror : (s.threads.thread t).error = .eok
      · simp only [herror, ne_eq, not_true_eq_false, if_false]
        cases hcall : (s.threads.thread t).call with
        | none => exact h
        | some c =>
          cases c with
          | push item timeout =>
            refine h.onPush pushed_pushLoop (hroom ?_)
            exact ⟨by simpa using hsuspended, herror, item, timeout, hcall⟩
          | pop timeout => exact h.onPop popped_popLoop
      · simp only [ne_eq, herror, not_false_eq_true, if_true]
        exact h.of_same rfl rfl rfl
  | timeout t => exact h.of_same rfl rfl rfl

theorem inv_init (size lwm : Fin 0x10000) (queue : ℕ → DataItem) : Inv (init size lwm queue) where
  indexed := by
    have hstored : stored (init size lwm queue).queue = 0 := by
      simp [stored, init, rtDataQueueInit]
    refine ⟨size.isLt, Nat.two_pow_pos 16, Nat.two_pow_pos 16, by omega, ?_⟩
    intro j hj
    rw [hstored] at hj
    exact absurd hj (Nat.not_lt_zero j)
  journal := by simp [unread, stored, init, rtDataQueueInit]

/-- A queue is first in, first out along every run in which no push wraps the put index
round onto what is unread. -/
theorem items_fifo_run (size lwm : Fin 0x10000) (queue : ℕ → DataItem) (es : List Event)
    (hes : Along step Apart (init size lwm queue) es) :
    Fifo (es.foldl step (init size lwm queue)) :=
  (run_invariant (fun _ _ h he ↦ h.step he) (inv_init size lwm queue) hes).fifo

section Turns

variable {a b c : DataItem} {n : ℕ} (size : Fin 0x10000)

def turns (a : DataItem) (n : ℕ) : List Event :=
  (List.replicate n [Event.push none a 0, .pop none 0]).flatten

theorem foldl_turns (hsize : 0 < (size : ℕ)) (hn : n < 2 ^ 16) :
    ∃ notices, (turns a n).foldl step (init size 0 fun _ ↦ a) =
      ⟨⟨size, 0, n, n, fun _ ↦ a⟩, noneWaits, List.replicate n a, List.replicate n a, notices⟩ := by
  induction n with
  | zero => exact ⟨[], rfl⟩
  | succ n ih =>
    obtain ⟨notices, ih⟩ := ih (by omega)
    have hnext : (n + 1) % 65536 = n + 1 := Nat.mod_eq_of_lt hn
    have hroom : (0 : ℤ) ≠ (size : ℕ) := by omega
    refine ⟨.lwm :: .push :: notices, ?_⟩
    rw [turns, List.replicate_succ', List.flatten_append, List.foldl_append, ← turns, ih]
    simp [step, onPush, onPop, pushLoop, popLoop, Full, put, get, first, callable, noneWaits,
      rtIpcListResume, hnext, List.replicate_succ', hroom]

theorem along_turns (hsize : 0 < (size : ℕ)) (hn : n < 2 ^ 16) :
    Along step Apart (init size 0 fun _ ↦ a) (turns a n) := by
  induction n with
  | zero => trivial
  | succ n ih =>
    obtain ⟨notices, hturns⟩ := foldl_turns (a := a) size hsize (n := n) (by omega)
    rw [turns, List.replicate_succ', List.flatten_append, ← turns, along_append, hturns]
    refine ⟨ih (by omega), ?_, ?_, trivial⟩
    · intro _ hlt
      exact absurd hlt (Nat.lt_irrefl n)
    · intro hpushes
      exact hpushes.elim

theorem foldl_push (hn : n + 1 = 65536) (hsize : 0 < (size : ℕ)) {l m : List DataItem}
    {r : List Notice} : ∃ queue notices',
      step ⟨⟨size, 0, n, n, fun _ ↦ a⟩, noneWaits, l, m, r⟩ (.push none b 0) =
        ⟨⟨size, 0, n, 0, queue⟩, noneWaits, l ++ [b], m, notices'⟩ := by
  refine ⟨Function.update (fun _ ↦ a) (n % size) b, .push :: r, ?_⟩
  have hempty : (0 : ℤ) ≠ (size : ℕ) := by omega
  simp [step, onPush, pushLoop, Full, put, callable, noneWaits, rtIpcListResume, hn, hempty]

/-- A queue for two, used until its put index has come round. -/
theorem items_fifo_run_round : Fifo ((turns ⟨0, 0⟩ (2 ^ 16 - 1) ++
    [Event.push none ⟨1, 1⟩ 0, .push none ⟨2, 1⟩ 0, .pop none 0]).foldl step
      (init 2 0 fun _ ↦ ⟨0, 0⟩)) := by
  obtain ⟨n, hn⟩ : ∃ n, n = 2 ^ 16 - 1 := ⟨_, rfl⟩
  obtain ⟨notices, hturns⟩ := foldl_turns (a := ⟨0, 0⟩) 2 (by decide) (n := n) (by omega)
  rw [← hn]
  refine items_fifo_run 2 0 _ _ ((along_append _ _ _).mpr ⟨along_turns 2 (by decide) (by omega), ?_⟩)
  rw [hturns]
  obtain ⟨queue, notices', hpush⟩ := foldl_push (a := ⟨0, 0⟩) (b := ⟨1, 1⟩) 2 (n := n)
    (by omega) (by decide)
  refine ⟨fun _ hlt ↦ absurd hlt (Nat.lt_irrefl n), ?_⟩
  rw [hpush]
  refine ⟨fun _ _ ↦ ⟨?_, fun j hj hle ↦ ?_⟩, fun hpushes ↦ hpushes.elim, trivial⟩
  · change 0 + 2 ^ 16 - n < 2
    omega
  · change j % 2 ≠ 0 % 2
    change n ≤ j at hle
    omega

theorem foldl_two_pushes (hn : n + 1 = 65536) (hsize : 0 < (size : ℕ)) {l m : List DataItem}
    {r : List Notice} : ∃ queue notices', [Event.push none b 0, .push none c 0].foldl step
        ⟨⟨size, 0, n, n, fun _ ↦ a⟩, noneWaits, l, m, r⟩ =
      ⟨⟨size, 0, n, 1, queue⟩, noneWaits, l ++ [b] ++ [c], m, notices'⟩ := by
  obtain ⟨queue, notices', hpush⟩ := foldl_push (a := a) (b := b) size hn hsize (l := l) (m := m)
    (r := r)
  have hroom : ¬-(n : ℤ) = (size : ℕ) := by omega
  refine ⟨Function.update queue 0 c, .push :: notices', ?_⟩
  rw [List.foldl_cons, hpush]
  simp [step, onPush, pushLoop, Full, put, callable, noneWaits, rtIpcListResume, hroom]

/-- A queue for one holds two. -/
theorem not_fifo :
    ¬ ∀ (size lwm : Fin 0x10000) (queue : ℕ → DataItem) (es : List Event), 0 < size →
      Fifo (es.foldl step (init size lwm queue)) := by
  intro hall
  obtain ⟨n, hn⟩ : ∃ n, n + 1 = 65536 := ⟨65535, rfl⟩
  have hbounded := (hall 1 0 (fun _ ↦ ⟨0, 0⟩)
    (turns ⟨0, 0⟩ n ++ [.push none ⟨1, 1⟩ 0, .push none ⟨2, 1⟩ 0]) (by decide)).bounded
  obtain ⟨notices, hturns⟩ := foldl_turns (a := ⟨0, 0⟩) 1 (by decide) (n := n) (by omega)
  obtain ⟨queue, notices', hpushes⟩ := foldl_two_pushes (a := ⟨0, 0⟩) (b := ⟨1, 1⟩) (c := ⟨2, 1⟩)
    1 hn (by decide) (l := List.replicate n ⟨0, 0⟩) (m := List.replicate n ⟨0, 0⟩)
  rw [List.foldl_append, hturns, hpushes] at hbounded
  simp only [List.length_append, List.length_replicate, List.length_singleton] at hbounded
  omega

end Turns

end GiantGecko.Drivers.DataQueue
