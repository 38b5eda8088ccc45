import Mathlib.Data.List.Nodup
import Mathlib.Data.List.Perm.Basic
import Mathlib.Logic.Function.Basic

namespace GiantGecko.Foundation.Intrusive

variable {ι α : Type}

/-- Lists threaded through links that each node has once: a node is in one of them
at most, and there at one place. -/
structure Linked (q : ι → List α) : Prop where
  nodup : ∀ i, (q i).Nodup
  one : ∀ i j x, x ∈ q i → x ∈ q j → i = j

section Nodes

variable [DecidableEq α] {q : ι → List α} {x y : α} {i j : ι}

def unlink (x : α) (q : ι → List α) : ι → List α := fun i ↦ (q i).filter (· ≠ x)

@[simp] theorem mem_unlink : y ∈ unlink x q i ↔ y ∈ q i ∧ y ≠ x := by
  simp [unlink]

theorem unlink_eq_self (h : x ∉ q i) : unlink x q i = q i := by
  refine List.filter_eq_self.mpr ?_
  intro y hy
  simpa using ne_of_mem_of_not_mem hy h

theorem unlink_of_unlinked (h : ∀ i, x ∉ q i) : unlink x q = q := by
  funext i
  exact unlink_eq_self (h i)

theorem unlink_of_head {l : List α} (h : Linked q) (hi : q i = x :: l) : unlink x q i = l := by
  have hnodup := h.nodup i
  rw [hi, List.nodup_cons] at hnodup
  simp only [unlink, hi, ne_eq, not_true_eq_false, decide_false, Bool.false_eq_true,
    not_false_eq_true, List.filter_cons_of_neg]
  refine List.filter_eq_self.mpr ?_
  intro y hy
  simpa using ne_of_mem_of_not_mem hy hnodup.1

/-- A node leaves one list only. -/
theorem Linked.unlink_of_ne (h : Linked q) (hx : x ∈ q i) (hne : j ≠ i) :
    unlink x q j = q j :=
  unlink_eq_self fun hj ↦ hne (h.one j i x hj hx)

theorem Linked.unlink (h : Linked q) (x : α) : Linked (unlink x q) where
  nodup i := (h.nodup i).filter _
  one i j y hi hj := h.one i j y (mem_unlink.mp hi).1 (mem_unlink.mp hj).1

end Nodes

section Places

variable [DecidableEq ι] {q : ι → List α} {x y : α} {i j : ι}

theorem mem_update_perm {l : List α} (hl : l.Perm (x :: q i)) :
    y ∈ Function.update q i l j ↔ y ∈ q j ∨ y = x ∧ j = i := by
  obtain rfl | hji := eq_or_ne j i
  · simp [hl.mem_iff, or_comm]
  · simp [hji]

theorem Linked.update {l : List α} (h : Linked q) (hx : ∀ i, x ∉ q i) (hl : l.Perm (x :: q i)) :
    Linked (Function.update q i l) := by
  refine ⟨?_, ?_⟩
  · intro j
    obtain rfl | hji := eq_or_ne j i
    · rw [Function.update_self, hl.nodup_iff]
      exact List.nodup_cons.mpr ⟨hx j, h.nodup j⟩
    · rw [Function.update_of_ne hji]
      exact h.nodup j
  · intro j k y hj hk
    obtain hj | ⟨hyx, hji⟩ := (mem_update_perm hl).mp hj
    · obtain hk | ⟨hyx, -⟩ := (mem_update_perm hl).mp hk
      · exact h.one j k y hj hk
      · exact absurd (hyx ▸ hj) (hx j)
    · obtain hk | ⟨-, hki⟩ := (mem_update_perm hl).mp hk
      · exact absurd (hyx ▸ hk) (hx k)
      · exact hji.trans hki.symm

end Places

end GiantGecko.Foundation.Intrusive
