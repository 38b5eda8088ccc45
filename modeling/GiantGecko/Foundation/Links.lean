import Mathlib.Data.List.Nodup

namespace GiantGecko.Foundation.Links

variable {α : Type}

/-- From `a` through the nodes of a list to `b`, each linked to the one after
it both ways. -/
def Path (nx pv : α → α) : α → List α → α → Prop
  | a, [], b => nx a = b ∧ pv b = a
  | a, x :: l, b => (nx a = x ∧ pv x = a) ∧ Path nx pv x l b

/-- The nodes of a list, linked in its order, and the last one to the first. -/
def Ring (nx pv : α → α) : List α → Prop
  | [] => True
  | a :: l => Path nx pv a l a

section Walks

variable {nx pv nx' pv' : α → α} {a b x : α} {l u v : List α}

@[simp] theorem path_nil : Path nx pv a [] b ↔ nx a = b ∧ pv b = a := Iff.rfl

@[simp] theorem path_cons :
    Path nx pv a (x :: l) b ↔ (nx a = x ∧ pv x = a) ∧ Path nx pv x l b := Iff.rfl

theorem path_append :
    Path nx pv a (u ++ x :: v) b ↔ Path nx pv a u x ∧ Path nx pv x v b := by
  induction u generalizing a with
  | nil => simp
  | cons y u ih => simp only [List.cons_append, path_cons, ih, and_assoc]

theorem Path.congr (h : Path nx pv a l b) (hnx : ∀ y ∈ a :: l, nx' y = nx y)
    (hpv : ∀ y ∈ b :: l, pv' y = pv y) : Path nx' pv' a l b := by
  induction l generalizing a with
  | nil => exact ⟨(hnx a (by simp)).trans h.1, (hpv b (by simp)).trans h.2⟩
  | cons x l ih =>
    refine ⟨⟨(hnx a (by simp)).trans h.1.1, (hpv x (by simp)).trans h.1.2⟩, ?_⟩
    refine ih h.2 (fun y hy ↦ hnx y (List.mem_cons_of_mem a hy)) ?_
    intro y hy
    refine hpv y ?_
    simp only [List.mem_cons] at hy ⊢
    tauto

theorem Path.next_mem (h : Path nx pv a l b) : nx a = b ∨ nx a ∈ l := by
  cases l with
  | nil => exact .inl h.1
  | cons x l => exact .inr (by simp [h.1.1])

theorem Path.prev_mem (h : Path nx pv a l b) : pv b ∈ a :: l := by
  induction l generalizing a with
  | nil => simp [h.2]
  | cons x l ih => exact List.mem_cons_of_mem a (ih h.2)

theorem Path.turn {c : α} (h : Path nx pv a l b) (hl : (a :: l).Nodup)
    (hnx : nx' (pv b) = c) (hpv : pv' c = pv b)
    (hnx' : ∀ y ∈ a :: l, y ≠ pv b → nx' y = nx y) (hpv' : ∀ y ∈ l, pv' y = pv y) :
    Path nx' pv' a l c := by
  induction l generalizing a with
  | nil =>
    rw [h.2] at hnx hpv
    exact ⟨hnx, hpv⟩
  | cons x l ih =>
    have hab : a ≠ pv b := by
      rintro rfl
      exact (List.nodup_cons.mp hl).1 h.2.prev_mem
    refine ⟨⟨(hnx' a (by simp) hab).trans h.1.1, (hpv' x (by simp)).trans h.1.2⟩, ?_⟩
    refine ih h.2 (List.nodup_cons.mp hl).2 (fun y hy ↦ hnx' y (List.mem_cons_of_mem a hy)) ?_
    intro y hy
    exact hpv' y (List.mem_cons_of_mem x hy)

theorem Path.start {c : α} (h : Path nx pv a l b) (hl : (b :: l).Nodup)
    (hnx : nx' c = nx a) (hpv : pv' (nx a) = c)
    (hnx' : ∀ y ∈ l, nx' y = nx y) (hpv' : ∀ y ∈ b :: l, y ≠ nx a → pv' y = pv y) :
    Path nx' pv' c l b := by
  cases l with
  | nil =>
    rw [h.1] at hnx hpv
    exact ⟨hnx, hpv⟩
  | cons x l =>
    rw [h.1.1] at hnx hpv
    refine ⟨⟨hnx, hpv⟩, h.2.congr hnx' ?_⟩
    intro y hy
    refine hpv' y ?_ ?_
    · simp only [List.mem_cons] at hy ⊢
      tauto
    · rw [h.1.1]
      rintro rfl
      simp only [List.nodup_cons, List.mem_cons, not_or] at hl
      obtain rfl | hy := List.mem_cons.mp hy
      · exact hl.1.1 rfl
      · exact hl.2.1 hy

end Walks

section Rings

variable {nx pv nx' pv' : α → α} {a p x : α} {l u v : List α}

@[simp] theorem ring_cons : Ring nx pv (a :: l) ↔ Path nx pv a l a := Iff.rfl

theorem Ring.congr (h : Ring nx pv l) (hnx : ∀ y ∈ l, nx' y = nx y)
    (hpv : ∀ y ∈ l, pv' y = pv y) : Ring nx' pv' l := by
  cases l with
  | nil => trivial
  | cons a l => exact Path.congr h hnx hpv

theorem Ring.neighbours (h : Ring nx pv (u ++ p :: x :: v)) : nx p = x ∧ pv x = p := by
  cases u with
  | nil => exact h.1
  | cons a u => exact (path_append.mp h).2.1

theorem Ring.closed (h : Ring nx pv (a :: l ++ [p])) : nx p = a ∧ pv a = p :=
  (path_append.mp h).2

theorem Ring.next_mem (h : Ring nx pv l) (hp : p ∈ l) : nx p ∈ l := by
  obtain ⟨u, v, rfl⟩ := List.append_of_mem hp
  cases u with
  | nil =>
    obtain hn | hn := Path.next_mem h
    · simp [hn]
    · exact List.mem_cons_of_mem p hn
  | cons a u =>
    obtain hn | hn := (path_append.mp h).2.next_mem
    · simp [hn]
    · exact List.mem_append_right _ (List.mem_cons_of_mem p hn)

theorem Ring.prev_mem (h : Ring nx pv l) (hp : p ∈ l) : pv p ∈ l := by
  obtain ⟨u, v, rfl⟩ := List.append_of_mem hp
  cases u with
  | nil => exact Path.prev_mem h
  | cons a u => exact List.mem_append_left _ (path_append.mp h).1.prev_mem

theorem Ring.next_ne (h : Ring nx pv (u ++ x :: v)) (hu : u ≠ []) (hl : (u ++ x :: v).Nodup) :
    nx x ≠ x := by
  obtain ⟨a, u, rfl⟩ := List.exists_cons_of_ne_nil hu
  obtain ⟨-, hxv, hd⟩ := List.nodup_append.mp hl
  intro hx
  obtain hn | hn := (path_append.mp h).2.next_mem
  · exact hd a (by simp) x (by simp) (hn.symm.trans hx)
  · exact (List.nodup_cons.mp hxv).1 (hx ▸ hn)

theorem Ring.unlink (h : Ring nx pv (u ++ x :: v)) (hu : u ≠ []) (hl : (u ++ x :: v).Nodup)
    (hnx : nx' (pv x) = nx x) (hpv : pv' (nx x) = pv x)
    (hnx' : ∀ y ∈ u ++ v, y ≠ pv x → nx' y = nx y)
    (hpv' : ∀ y ∈ u ++ v, y ≠ nx x → pv' y = pv y) : Ring nx' pv' (u ++ v) := by
  obtain ⟨a, u, rfl⟩ := List.exists_cons_of_ne_nil hu
  obtain ⟨hu, hv⟩ := path_append.mp h
  have hp : pv x ∈ a :: u := hu.prev_mem
  obtain ⟨hau, hxv, hd⟩ := List.nodup_append.mp hl
  have hav : (a :: v).Nodup := by
    refine List.nodup_cons.mpr ⟨?_, (List.nodup_cons.mp hxv).2⟩
    exact fun hy ↦ hd a (by simp) a (List.mem_cons_of_mem x hy) rfl
  have hnot : ∀ y ∈ a :: u, y ∉ v := fun y hy hy' ↦ hd y hy y (List.mem_cons_of_mem x hy') rfl
  cases v with
  | nil =>
    rw [hv.1] at hnx hpv
    rw [List.append_nil]
    refine hu.turn hau hnx hpv ?_ ?_
    · intro y hy hyx
      exact hnx' y (by simpa using hy) hyx
    · intro y hy
      refine hpv' y (by simp [hy]) ?_
      rw [hv.1]
      rintro rfl
      exact (List.nodup_cons.mp hau).1 hy
  | cons c v =>
    rw [hv.1.1] at hnx hpv
    refine path_append.mpr ⟨hu.turn hau hnx hpv ?_ ?_, hv.2.congr ?_ ?_⟩
    · intro y hy hyx
      exact hnx' y (List.mem_append_left _ hy) hyx
    · intro y hy
      refine hpv' y (by simp [hy]) ?_
      rw [hv.1.1]
      rintro rfl
      exact hnot y (List.mem_cons_of_mem a hy) (by simp)
    · intro y hy
      refine hnx' y (List.mem_append_right _ hy) ?_
      rintro rfl
      exact hnot _ hp hy
    · intro y hy
      refine hpv' y ?_ ?_
      · simp only [List.cons_append, List.mem_cons, List.mem_append] at hy ⊢
        tauto
      · rw [hv.1.1]
        rintro rfl
        simp only [List.nodup_cons, List.mem_cons, not_or] at hav hy
        obtain rfl | hy := hy
        · exact hav.1.1 rfl
        · exact hav.2.1 hy

theorem Ring.insert (h : Ring nx pv (u ++ p :: v)) (hl : (u ++ p :: v).Nodup)
    (hp : nx' p = x) (hpx : pv' x = p) (hnx : nx' x = nx p) (hpv : pv' (nx p) = x)
    (hnx' : ∀ y ∈ u ++ v, nx' y = nx y)
    (hpv' : ∀ y ∈ u ++ p :: v, y ≠ nx p → pv' y = pv y) : Ring nx' pv' (u ++ p :: x :: v) := by
  cases u with
  | nil =>
    refine ⟨⟨hp, hpx⟩, Path.start h hl hnx hpv hnx' hpv'⟩
  | cons a u =>
    obtain ⟨hu, hv⟩ := path_append.mp h
    obtain ⟨hau, hpv₀, hd⟩ := List.nodup_append.mp hl
    have hav : (a :: v).Nodup := by
      refine List.nodup_cons.mpr ⟨?_, (List.nodup_cons.mp hpv₀).2⟩
      exact fun hy ↦ hd a (by simp) a (List.mem_cons_of_mem p hy) rfl
    refine path_append.mpr ⟨hu.congr ?_ ?_, ⟨hp, hpx⟩, ?_⟩
    · intro y hy
      exact hnx' y (List.mem_append_left v hy)
    · intro y hy
      have hne : y ≠ nx p := by
        rintro rfl
        obtain hn | hn := hv.next_mem
        · obtain hy | hy := List.mem_cons.mp hy
          · rw [hy] at hn
            exact hd a (by simp) p (by simp) hn.symm
          · exact (List.nodup_cons.mp hau).1 (hn ▸ hy)
        · obtain hy | hy := List.mem_cons.mp hy
          · exact (List.nodup_cons.mp hpv₀).1 (hy ▸ hn)
          · exact hd _ (List.mem_cons_of_mem a hy) _ (List.mem_cons_of_mem p hn) rfl
      refine hpv' y ?_ hne
      simp only [List.cons_append, List.mem_cons, List.mem_append] at hy ⊢
      tauto
    · refine hv.start hav hnx hpv ?_ ?_
      · intro y hy
        exact hnx' y (List.mem_append_right _ hy)
      · intro y hy
        refine hpv' y ?_
        simp only [List.cons_append, List.mem_cons, List.mem_append] at hy ⊢
        tauto

end Rings

end GiantGecko.Foundation.Links
