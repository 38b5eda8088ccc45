import Mathlib.Data.List.Basic

namespace GiantGecko.Foundation.LossyLine

variable {α : Type}

def lose (i : ℕ) (ys : List α) : List α := ys.eraseIdx i

def dup (i : ℕ) (ys : List α) : List α := ys.take (i + 1) ++ ys.drop i

/-- What a line that keeps the order can make of `xs`: every element any number
of times, none included. -/
inductive Stutters : List α → List α → Prop
  | nil : Stutters [] []
  | skip {x : α} {xs ys : List α} : Stutters xs ys → Stutters (x :: xs) ys
  | again {x : α} {xs ys : List α} : Stutters (x :: xs) ys → Stutters (x :: xs) (x :: ys)

variable {x y : α} {xs ys xs' ys' : List α}

theorem stutters_nil (xs : List α) : Stutters xs [] := by
  induction xs with
  | nil => exact .nil
  | cons x xs ih => exact .skip ih

theorem stutters_refl (xs : List α) : Stutters xs xs := by
  induction xs with
  | nil => exact .nil
  | cons x xs ih => exact .again (.skip ih)

theorem Stutters.tail (h : Stutters xs (y :: ys)) : Stutters xs ys := by
  generalize hzs : y :: ys = zs at h
  induction h with
  | nil => cases hzs
  | skip _ ih => exact .skip (ih hzs)
  | again h _ =>
    cases hzs
    exact h

theorem Stutters.mem (h : Stutters xs ys) (hy : y ∈ ys) : y ∈ xs := by
  induction h with
  | nil => exact hy
  | skip _ ih => exact List.mem_cons_of_mem _ (ih hy)
  | again _ ih =>
    obtain rfl | hy := List.mem_cons.mp hy
    · exact List.mem_cons_self
    · exact ih hy

theorem Stutters.append (h : Stutters xs ys) (h' : Stutters xs' ys') :
    Stutters (xs ++ xs') (ys ++ ys') := by
  induction h with
  | nil => exact h'
  | skip _ ih => exact .skip ih
  | again _ ih => exact .again ih

theorem Stutters.append_left (us : List α) (h : Stutters xs ys) : Stutters (us ++ xs) ys := by
  simpa only [List.nil_append] using (stutters_nil us).append h

theorem Stutters.append_right (us : List α) (h : Stutters xs ys) : Stutters (xs ++ us) ys := by
  simpa only [List.append_nil] using h.append (stutters_nil us)

theorem Stutters.snoc (h : Stutters (xs ++ [x]) ys) : Stutters (xs ++ [x]) (ys ++ [x]) := by
  generalize hzs : xs ++ [x] = zs at h
  induction h generalizing xs with
  | nil => simp at hzs
  | @skip z zs ys hys ih =>
    cases xs with
    | nil =>
      -- nothing was left to skip to, so `ys` is empty
      obtain ⟨rfl, rfl⟩ := List.cons.inj hzs
      cases hys
      exact .again (.skip .nil)
    | cons w ws => exact .skip (ih (List.cons.inj hzs).2)
  | again _ ih => exact .again (ih hzs)

theorem Stutters.sublist (h : Stutters xs ys) (hs : ys'.Sublist ys) : Stutters xs ys' := by
  induction h generalizing ys' with
  | nil =>
    rw [List.sublist_nil.mp hs]
    exact .nil
  | skip _ ih => exact .skip (ih hs)
  | again _ ih =>
    cases hs with
    | cons _ hs => exact ih hs
    | cons_cons _ hs => exact .again (ih hs)

/-- The first element of what is carried was taken from some place, and the rest
comes from there on. -/
theorem Stutters.head (h : Stutters xs (y :: ys)) :
    ∃ us vs, xs = us ++ y :: vs ∧ Stutters (y :: vs) ys := by
  generalize hzs : y :: ys = zs at h
  induction h with
  | nil => cases hzs
  | @skip x _ _ _ ih =>
    obtain ⟨us, vs, rfl, h⟩ := ih hzs
    exact ⟨x :: us, vs, rfl, h⟩
  | @again x xs _ h _ =>
    cases hzs
    exact ⟨[], xs, rfl, h⟩

theorem Stutters.merge (h : Stutters (x :: x :: xs) ys) : Stutters (x :: xs) ys := by
  generalize hzs : x :: x :: xs = zs at h
  induction h with
  | nil => cases hzs
  | skip h _ =>
    cases hzs
    exact h
  | again _ ih =>
    have hx := (List.cons.inj hzs).1
    subst hx
    exact .again (ih hzs)

theorem Stutters.next {before : Option α} (h : Stutters (before.toList ++ x :: xs) (x :: ys)) :
    Stutters (x :: xs) ys := by
  cases before with
  | none => exact h.tail
  | some z =>
    obtain ⟨us, vs, he, hys⟩ := h.head
    cases us with
    | nil =>
      obtain ⟨rfl, rfl⟩ := List.cons.inj he
      exact hys.merge
    | cons u us =>
      have hvs : x :: xs = us ++ x :: vs := (List.cons.inj he).2
      rw [hvs]
      exact hys.append_left us

theorem Stutters.lose (h : Stutters xs ys) (i : ℕ) : Stutters xs (lose i ys) :=
  h.sublist (List.eraseIdx_sublist ys i)

theorem Stutters.dup (h : Stutters xs ys) (i : ℕ) : Stutters xs (dup i ys) := by
  induction h generalizing i with
  | nil =>
    rw [LossyLine.dup, List.take_nil, List.drop_nil]
    exact .nil
  | skip _ ih => exact .skip (ih i)
  | again h ih =>
    cases i with
    | zero => exact .again (.again h)
    | succ i => exact .again (ih i)

theorem Stutters.head_range {a n j : ℕ} {js : List ℕ} (h : Stutters (List.range' a n) (j :: js)) :
    a ≤ j ∧ j < a + n ∧ Stutters (List.range' j (a + n - j)) js := by
  obtain ⟨us, vs, he, hjs⟩ := h.head
  have hlen : n = us.length + (vs.length + 1) := by
    simpa using congrArg List.length he
  have hj : j = a + us.length := by
    have hget : (List.range' a n)[us.length]? = some j := by simp [he]
    simpa [show us.length < n by omega, eq_comm] using hget
  have hvs : j :: vs = List.range' j (a + n - j) := by
    have hdrop := congrArg (List.drop us.length) he
    rw [List.drop_left, List.drop_range', Nat.mul_one, ← hj] at hdrop
    rw [← hdrop, show a + n - j = n - us.length by omega]
  refine ⟨by omega, by omega, ?_⟩
  rw [← hvs]
  exact hjs

theorem count_lose_le [DecidableEq α] (i : ℕ) (ys : List α) (y : α) :
    (lose i ys).count y ≤ ys.count y :=
  (List.eraseIdx_sublist ys i).count_le y

theorem count_dup_of_ne [DecidableEq α] {i : ℕ} {ys : List α} {y : α} (h : ys[i]? ≠ some y) :
    (dup i ys).count y = ys.count y := by
  have hsplit : (ys.take i ++ ys.drop i).count y = ys.count y := by rw [List.take_append_drop]
  rw [← hsplit, dup, List.take_add_one, List.count_append, List.count_append, List.count_append]
  cases hi : ys[i]? with
  | none => simp
  | some z =>
    have hz : z ≠ y := by
      rintro rfl
      exact h hi
    simp [hz]

end GiantGecko.Foundation.LossyLine
