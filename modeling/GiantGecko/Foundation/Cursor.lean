import GiantGecko.Foundation.OrderedQueue

namespace GiantGecko.Foundation.Cursor

open OrderedQueue

variable {α : Type} {C C' : α → Prop} {n : Option α} {l : List α} {x v : α}

/-- Only elements of `C` stand in front of the cursor, which is `none` at the end of the
list. -/
def Covers (C : α → Prop) (n : Option α) (l : List α) : Prop :=
  ∃ front back, l = front ++ back ∧ back.head? = n ∧ ∀ v ∈ front, C v

theorem Covers.mono (h : Covers C n l) (hC : ∀ v, C v → C' v) : Covers C' n l := by
  obtain ⟨front, back, hl, hn, hfront⟩ := h
  exact ⟨front, back, hl, hn, fun v hv ↦ hC v (hfront v hv)⟩

theorem Covers.all (h : Covers C none l) (hv : v ∈ l) : C v := by
  obtain ⟨front, back, rfl, hn, hfront⟩ := h
  rw [List.head?_eq_none_iff.mp hn, List.append_nil] at hv
  exact hfront v hv

theorem Covers.mem (h : Covers C (some x) l) : x ∈ l := by
  obtain ⟨front, back, rfl, hn, -⟩ := h
  exact List.mem_append_right _ (List.mem_of_head? hn)

/-- In an ordered list the cursor comes before all that it has not passed. -/
theorem Covers.ahead {R : α → α → Prop} (h : Covers C (some x) l) (hl : l.Pairwise R) (hv : v ∈ l)
    (hC : ¬C v) : v = x ∨ R x v := by
  obtain ⟨front, back, rfl, hn, hfront⟩ := h
  obtain ⟨back, rfl⟩ := List.head?_eq_some_iff.mp hn
  obtain hv | hv := List.mem_append.mp hv
  · exact absurd (hfront v hv) hC
  obtain rfl | hv := List.mem_cons.mp hv
  · exact .inl rfl
  · exact .inr ((List.pairwise_cons.mp (List.pairwise_append.mp hl).2.1).1 v hv)

theorem Covers.erase [DecidableEq α] (h : Covers C n l) (hx : n ≠ some x) :
    Covers C n (l.erase x) := by
  obtain ⟨front, back, rfl, hn, hfront⟩ := h
  rw [List.erase_append]
  split_ifs
  · exact ⟨front.erase x, back, rfl, hn, fun v hv ↦ hfront v (List.mem_of_mem_erase hv)⟩
  · refine ⟨front, back.erase x, rfl, ?_, hfront⟩
    cases back with
    | nil => exact hn
    | cons y ys =>
      -- the element behind the cursor is another one
      rw [List.erase_cons_tail fun heq ↦ hx (by rw [← hn, beq_iff_eq.mp heq]; rfl)]
      exact hn

theorem Covers.insertBehind {stays : α → Bool} (h : Covers C n l) (hx : C x) :
    Covers C n (insertBehind stays x l) := by
  obtain ⟨front, back, rfl, hn, hfront⟩ := h
  induction front with
  | nil =>
    have hone : ∀ v ∈ [x], C v := fun v hv ↦ by rwa [List.mem_singleton.mp hv]
    cases back with
    | nil => exact ⟨[x], [], rfl, hn, hone⟩
    | cons y ys =>
      rw [List.nil_append, OrderedQueue.insertBehind]
      split_ifs
      · exact ⟨[], _, rfl, hn, fun v hv ↦ by cases hv⟩
      · exact ⟨[x], y :: ys, rfl, hn, hone⟩
  | cons y ys ih =>
    obtain ⟨hy, hys⟩ := List.forall_mem_cons.mp hfront
    rw [List.cons_append, OrderedQueue.insertBehind]
    split_ifs
    · obtain ⟨front, back, heq, hn, hfront⟩ := ih hys
      rw [heq]
      exact ⟨y :: front, back, rfl, hn, List.forall_mem_cons.mpr ⟨hy, hfront⟩⟩
    · exact ⟨x :: y :: ys, back, rfl, hn,
        List.forall_mem_cons.mpr ⟨hx, List.forall_mem_cons.mpr ⟨hy, hys⟩⟩⟩

theorem Covers.advance [DecidableEq α] (h : Covers C (some x) l) (hl : l.Nodup) :
    Covers C (l.dropWhile (· ≠ x)).tail.head? (l.erase x) := by
  obtain ⟨front, back, rfl, hn, hfront⟩ := h
  obtain ⟨back, rfl⟩ := List.head?_eq_some_iff.mp hn
  have hout : x ∉ front := fun hx ↦
    (List.nodup_append.mp hl).2.2 x hx x List.mem_cons_self rfl
  have hpass : ∀ v ∈ front, decide (v ≠ x) = true :=
    fun v hv ↦ decide_eq_true fun heq ↦ hout (heq ▸ hv)
  have hdrop : (front ++ x :: back).dropWhile (· ≠ x) = x :: back := by
    rw [List.dropWhile_append_of_pos hpass, List.dropWhile_cons_of_neg (by simp)]
  rw [hdrop, List.erase_append_right _ hout, List.erase_cons_head]
  exact ⟨front, back, rfl, rfl, hfront⟩

end GiantGecko.Foundation.Cursor
