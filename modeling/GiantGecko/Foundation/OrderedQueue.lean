import Mathlib.Data.List.Basic

namespace GiantGecko.Foundation.OrderedQueue

variable {α : Type} {stays : α → Bool} {x : α} {l : List α}

/-- A queue with a newcomer behind the elements at its front that stay ahead of
it. -/
def insertBehind (stays : α → Bool) (x : α) : List α → List α
  | [] => [x]
  | y :: ys => if stays y then y :: insertBehind stays x ys else x :: y :: ys

theorem insertBehind_perm : (insertBehind stays x l).Perm (x :: l) := by
  induction l with
  | nil => exact List.Perm.refl _
  | cons y ys ih =>
    rw [insertBehind]
    split_ifs
    · exact (ih.cons y).trans (List.Perm.swap x y ys)
    · exact List.Perm.refl _

@[simp] theorem mem_insertBehind {z : α} : z ∈ insertBehind stays x l ↔ z = x ∨ z ∈ l := by
  rw [insertBehind_perm.mem_iff, List.mem_cons]

theorem pairwise_insertBehind {R : α → α → Prop} (h : l.Pairwise R)
    (hahead : ∀ y ∈ l, stays y → R y x) (hbehind : ∀ y ∈ l, stays y = false → R x y)
    (hmono : ∀ y ∈ l, ∀ z ∈ l, R y z → stays z → stays y) : (insertBehind stays x l).Pairwise R := by
  induction l with
  | nil => exact List.pairwise_singleton R x
  | cons y ys ih =>
    obtain ⟨hy, hys⟩ := List.pairwise_cons.mp h
    rw [insertBehind]
    split_ifs with hstay
    · refine List.pairwise_cons.mpr ⟨?_, ih hys ?_ ?_ ?_⟩
      · intro z hz
        obtain rfl | hz := mem_insertBehind.mp hz
        · exact hahead y List.mem_cons_self hstay
        · exact hy z hz
      · exact fun z hz ↦ hahead z (List.mem_cons_of_mem y hz)
      · exact fun z hz ↦ hbehind z (List.mem_cons_of_mem y hz)
      · exact fun z hz z' hz' ↦ hmono z (List.mem_cons_of_mem y hz) z' (List.mem_cons_of_mem y hz')
    · refine List.pairwise_cons.mpr ⟨?_, h⟩
      intro z hz
      cases hz' : stays z with
      | false => exact hbehind z hz hz'
      | true =>
        -- one that stays ahead would take the first with it
        obtain rfl | hmem := List.mem_cons.mp hz
        · exact absurd hz' hstay
        · exact absurd (hmono y List.mem_cons_self z hz (hy z hmem) hz') hstay

end GiantGecko.Foundation.OrderedQueue
