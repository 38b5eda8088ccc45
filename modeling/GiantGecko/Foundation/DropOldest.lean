import GiantGecko.Foundation.Transition

namespace GiantGecko.Foundation.DropOldest

variable {α : Type}

/-- A bounded queue that makes room by dropping its oldest item. What has left
it is kept in order, marked `true` where it was taken and `false` where it was
dropped. -/
structure Queue (α : Type) where
  left : List (α × Bool)
  unread : List α

inductive Op (α : Type)
  | arrive (a : α)
  | take

def Queue.empty : Queue α := ⟨[], []⟩

def step (cap : ℕ) (q : Queue α) : Op α → Queue α
  | .arrive a =>
    if q.unread.length < cap then { q with unread := q.unread ++ [a] }
    else match q.unread with
      | [] => q
      | x :: rest => ⟨q.left ++ [(x, false)], rest ++ [a]⟩
  | .take =>
    match q.unread with
    | [] => q
    | x :: rest => ⟨q.left ++ [(x, true)], rest⟩

def arrivals (ops : List (Op α)) : List α :=
  ops.filterMap fun | .arrive a => some a | .take => none

def Queue.arrived (q : Queue α) : List α := q.left.map Prod.fst ++ q.unread

def Queue.taken (q : Queue α) : List α := (q.left.filter Prod.snd).map Prod.fst

def Queue.since (q : Queue α) : ℕ :=
  (q.left.reverse.takeWhile fun x ↦ !x.2).length + q.unread.length

variable {cap : ℕ}

theorem arrive_room {q : Queue α} (h : q.unread.length < cap) (a : α) :
    step cap q (.arrive a) = ⟨q.left, q.unread ++ [a]⟩ := by
  rw [step, if_pos h]

theorem arrive_full {q : Queue α} (h : ¬ q.unread.length < cap) {x : α} {rest : List α}
    (hq : q.unread = x :: rest) (a : α) :
    step cap q (.arrive a) = ⟨q.left ++ [(x, false)], rest ++ [a]⟩ := by
  rw [step, if_neg h, hq]

theorem unread_arrive (hcap : 0 < cap) (q : Queue α) (a : α) :
    (step cap q (.arrive a)).unread =
      (if q.unread.length < cap then q.unread else q.unread.tail) ++ [a] := by
  split_ifs with h
  · rw [arrive_room h]
  · obtain ⟨x, rest, hq⟩ := List.exists_cons_of_length_pos (by omega : 0 < q.unread.length)
    rw [arrive_full h hq, hq, List.tail_cons]

theorem take_cons {q : Queue α} {x : α} {rest : List α} (hq : q.unread = x :: rest) :
    step cap q .take = ⟨q.left ++ [(x, true)], rest⟩ := by
  rw [step, hq]

theorem take_nil {q : Queue α} (hq : q.unread = []) : step cap q .take = q := by
  rw [step, hq]

@[simp] theorem since_append_taken (l : List (α × Bool)) (x : α) (rest : List α) :
    Queue.since ⟨l ++ [(x, true)], rest⟩ = rest.length := by
  simp [Queue.since]

@[simp] theorem since_append_dropped (l : List (α × Bool)) (x : α) (rest : List α) :
    Queue.since ⟨l ++ [(x, false)], rest⟩ = Queue.since ⟨l, x :: rest⟩ := by
  simp only [Queue.since, List.reverse_append, List.reverse_cons, List.reverse_nil, List.nil_append,
    List.singleton_append, List.takeWhile_cons, Bool.not_false, if_true, List.length_cons]
  omega

theorem since_push (l : List (α × Bool)) (u : List α) (a : α) :
    Queue.since ⟨l, u ++ [a]⟩ = Queue.since ⟨l, u⟩ + 1 := by
  simp [Queue.since, Nat.add_assoc]

theorem arrived_step (hcap : 0 < cap) (q : Queue α) (op : Op α) :
    (step cap q op).arrived = q.arrived ++ arrivals [op] := by
  obtain ⟨l, u⟩ := q
  cases op with
  | arrive a =>
    cases u with
    | nil => simp [step, hcap, Queue.arrived, arrivals]
    | cons x rest =>
      simp only [step]
      split_ifs <;> simp [Queue.arrived, arrivals]
  | take => cases u <;> simp [step, Queue.arrived, arrivals]

theorem arrived_run (hcap : 0 < cap) (q : Queue α) (ops : List (Op α)) :
    (ops.foldl (step cap) q).arrived = q.arrived ++ arrivals ops := by
  induction ops generalizing q with
  | nil => simp [arrivals]
  | cons op ops ih =>
    rw [List.foldl_cons, ih, arrived_step hcap, List.append_assoc]
    congr 1
    exact (List.filterMap_append (l := [op]) ..).symm

/-- The queue holds the last items to arrive since one was taken, `cap` of
them if there are as many. -/
theorem length_step {q : Queue α} (h : q.unread.length = min q.since cap)
    (op : Op α) : (step cap q op).unread.length = min (step cap q op).since cap := by
  obtain ⟨l, u⟩ := q
  simp only at h
  cases op with
  | arrive a =>
    simp only [step]
    split_ifs with hroom
    · rw [since_push, List.length_append, List.length_singleton]
      omega
    · cases u with
      | nil => simp only [List.length_nil] at hroom; omega
      | cons x rest =>
        simp only [since_append_dropped, since_push, List.length_append,
          List.length_cons, List.length_nil] at h hroom ⊢
        omega
  | take =>
    cases u with
    | nil => exact h
    | cons x rest =>
      simp only [step, since_append_taken]
      simp only [List.length_cons] at h
      omega

theorem length_run (ops : List (Op α)) :
    (ops.foldl (step cap) .empty).unread.length =
      min (ops.foldl (step cap) Queue.empty).since cap :=
  Transition.reachable_invariant (I := fun q : Queue α ↦ q.unread.length = min q.since cap)
    (fun _ op h ↦ length_step h op) (by simp [Queue.empty, Queue.since]) ops

end GiantGecko.Foundation.DropOldest
