import Mathlib.Data.List.Basic

namespace GiantGecko.Foundation.CursorText

/-- A text with a cursor in it; what is before the cursor is read from it backwards. -/
structure Zipper (α : Type) where
  before : List α
  after : List α

variable {α : Type} {z : Zipper α} {a d : α} {l : List α}

def Zipper.text (z : Zipper α) : List α := z.before.reverse ++ z.after

def Zipper.atEnd (text : List α) : Zipper α := ⟨text.reverse, []⟩

def Zipper.insert (a : α) (z : Zipper α) : Zipper α := ⟨a :: z.before, z.after⟩

def Zipper.delete (z : Zipper α) : Zipper α := ⟨z.before.tail, z.after⟩

def Zipper.left (z : Zipper α) : Zipper α :=
  match z.before with
  | [] => z
  | a :: l => ⟨l, a :: z.after⟩

def Zipper.right (z : Zipper α) : Zipper α :=
  match z.after with
  | [] => z
  | a :: l => ⟨a :: z.before, l⟩

@[simp] theorem text_atEnd (text : List α) : (Zipper.atEnd text).text = text := by
  simp [Zipper.atEnd, Zipper.text]

@[simp] theorem before_atEnd (text : List α) :
    (Zipper.atEnd text).before.length = text.length := List.length_reverse

@[simp] theorem text_left : z.left.text = z.text := by
  rcases z with ⟨_ | ⟨a, l⟩, after⟩
  · rfl
  · simp [Zipper.left, Zipper.text]

@[simp] theorem text_right : z.right.text = z.text := by
  rcases z with ⟨before, _ | ⟨a, l⟩⟩
  · rfl
  · simp [Zipper.right, Zipper.text]

theorem before_left : z.left.before.length = z.before.length - 1 := by
  rcases z with ⟨_ | ⟨a, l⟩, after⟩
  · rfl
  · rfl

theorem before_right : z.right.before.length = min (z.before.length + 1) z.text.length := by
  rcases z with ⟨before, _ | ⟨a, l⟩⟩
  · simp [Zipper.right, Zipper.text]
  · simp [Zipper.right, Zipper.text]

theorem length_text : z.text.length = z.before.length + z.after.length := by
  rw [Zipper.text, List.length_append, List.length_reverse]

theorem before_le : z.before.length ≤ z.text.length := by
  rw [length_text]
  exact Nat.le_add_right _ _

theorem text_insert_perm : (z.insert a).text.Perm (a :: z.text) := by
  simp only [Zipper.insert, Zipper.text, List.reverse_cons, List.append_assoc, List.singleton_append]
  exact List.perm_middle

theorem length_insert : (z.insert a).text.length = z.text.length + 1 := text_insert_perm.length_eq

theorem length_delete (h : z.before ≠ []) : z.delete.text.length + 1 = z.text.length := by
  rcases z with ⟨_ | ⟨a, l⟩, after⟩
  · exact absurd rfl h
  · simp only [length_text, Zipper.delete, List.tail_cons, List.length_cons]
    omega

theorem text_delete_subset : z.delete.text ⊆ z.text := by
  rcases z with ⟨_ | ⟨a, l⟩, after⟩
  · exact List.Subset.refl _
  · intro x
    simp only [Zipper.delete, Zipper.text, List.tail_cons, List.reverse_cons, List.mem_append]
    exact Or.imp_left .inl

theorem getD_insert (i : ℕ) : (z.insert a).text.getD i d =
    if i < z.before.length then z.text.getD i d
    else if i = z.before.length then a else z.text.getD (i - 1) d := by
  simp only [Zipper.insert, Zipper.text, List.reverse_cons, List.append_assoc, List.singleton_append,
    List.getD_eq_getElem?_getD]
  rcases Nat.lt_trichotomy i z.before.length with hlt | heq | hgt
  · rw [if_pos hlt, List.getElem?_append_left (by simpa using hlt),
      List.getElem?_append_left (by simpa using hlt)]
  · rw [if_neg (by omega), if_pos heq, List.getElem?_append_right (by simp [heq])]
    simp [heq]
  · rw [if_neg (by omega), if_neg (by omega), List.getElem?_append_right (by simp; omega),
      List.getElem?_append_right (by simp; omega), List.length_reverse,
      List.getElem?_cons, if_neg (by omega), Nat.sub_right_comm]

theorem getD_delete (h : z.before ≠ []) (i : ℕ) : z.delete.text.getD i d =
    if i + 1 < z.before.length then z.text.getD i d else z.text.getD (i + 1) d := by
  rcases z with ⟨_ | ⟨a, l⟩, after⟩
  · exact absurd rfl h
  · simp only [Zipper.delete, Zipper.text, List.tail_cons, List.reverse_cons, List.append_assoc,
      List.singleton_append, List.getD_eq_getElem?_getD, List.length_cons, Nat.add_lt_add_iff_right]
    by_cases hlt : i < l.length
    · rw [if_pos hlt, List.getElem?_append_left (by simpa using hlt),
        List.getElem?_append_left (by simpa using hlt)]
    · rw [if_neg hlt, List.getElem?_append_right (by simp; omega),
        List.getElem?_append_right (by simp; omega), List.length_reverse, List.getElem?_cons,
        if_neg (by omega), Nat.sub_add_comm (by omega), Nat.add_sub_cancel]

end GiantGecko.Foundation.CursorText
