import GiantGecko.Gui.Region

namespace GiantGecko.Gui.Region

open Foundation.Bands

variable {y1 y2 x x1 x2 : ℤ} {r s : Rect} {rects r1 r2 : List Rect}

theorem InBand.nil : InBand y1 y2 [] := by simp [InBand]

/-- What `rtgui_op` relies on in the function for the bands that both regions cover. -/
structure Overlaps (o : Prop → Prop → Prop) (overlapFunc : ℤ → ℤ → List Rect → List Rect → List Rect) :
    Prop where
  apart : ∀ {y1 y2 r1 r2}, Apart r1 → Apart r2 → Apart (overlapFunc y1 y2 r1 r2)
  inBand : ∀ {y1 y2 r1 r2}, InBand y1 y2 (overlapFunc y1 y2 r1 r2)
  columns : ∀ {y1 y2 r1 r2 x}, r1 ≠ [] → r2 ≠ [] → Apart r1 → Apart r2 →
    (x ∈ columns (overlapFunc y1 y2 r1 r2) ↔ o (x ∈ columns r1) (x ∈ columns r2))

section Intersection

theorem intersectO_from (hs : s ∈ intersectO y1 y2 r1 r2) : (s.y1 = y1 ∧ s.y2 = y2) ∧
    ∃ a ∈ r1, ∃ b ∈ r2, s.x1 = max a.x1 b.x1 := by
  fun_induction intersectO y1 y2 r1 r2 with
  | case1 a more1 b more2 ih =>
    obtain hfirst | hrest := List.mem_append.mp hs
    · split at hfirst
      · obtain rfl := List.mem_singleton.mp hfirst
        exact ⟨⟨rfl, rfl⟩, a, List.mem_cons_self, b, List.mem_cons_self, rfl⟩
      · cases hfirst
    · obtain ⟨hband, c, hc, d, hd, hx⟩ := ih hrest
      refine ⟨hband, c, ?_, d, ?_, hx⟩
      · split at hc
        · exact List.mem_cons_of_mem _ hc
        · exact hc
      · split at hd
        · exact List.mem_cons_of_mem _ hd
        · exact hd
  | case2 => cases hs

theorem apart_advance (h : Apart (r :: rects)) (p : Prop) [Decidable p] :
    Apart (if p then rects else r :: rects) := by
  split
  · exact h.tail
  · exact h

theorem mem_columns_advance (p : Prop) [Decidable p] :
    x ∈ columns (if p then rects else r :: rects) ↔
      ¬p ∧ (r.x1 ≤ x ∧ x < r.x2) ∨ x ∈ columns rects := by
  split
  · rw [or_iff_right (fun h ↦ absurd ‹p› h.1)]
  · rw [mem_columns_cons, and_iff_right ‹¬p›]

theorem intersectO_apart (h1 : Apart r1) (h2 : Apart r2) : Apart (intersectO y1 y2 r1 r2) := by
  fun_induction intersectO y1 y2 r1 r2 with
  | case1 a more1 b more2 ih =>
    have hrest := ih (apart_advance h1 _) (apart_advance h2 _)
    split
    · rename_i hlt
      refine .cons hlt (fun s hs ↦ ?_) hrest
      -- one of the two has been advanced, and is now right of the rectangle that was added
      obtain ⟨-, c, hc, d, hd, hx⟩ := intersectO_from hs
      rw [hx]
      have hwide := h1.head
      have hwide' := h2.head
      by_cases hshort : a.x2 ≤ b.x2
      · rw [if_pos (min_eq_left hshort).symm] at hc
        have hgap := h1.gap hc
        change min a.x2 b.x2 < max c.x1 d.x1
        omega
      · rw [if_pos (min_eq_right (not_le.mp hshort).le).symm] at hd
        have hgap := h2.gap hd
        change min a.x2 b.x2 < max c.x1 d.x1
        omega
    · exact hrest
  | case2 => exact .nil

theorem intersectO_columns (h1 : Apart r1) (h2 : Apart r2) :
    x ∈ columns (intersectO y1 y2 r1 r2) ↔ x ∈ columns r1 ∧ x ∈ columns r2 := by
  fun_induction intersectO y1 y2 r1 r2 with
  | case1 a more1 b more2 ih =>
    have hfirst : x ∈ columns (if max a.x1 b.x1 < min a.x2 b.x2 then
        [⟨max a.x1 b.x1, y1, min a.x2 b.x2, y2⟩] else []) ↔
          (a.x1 ≤ x ∧ x < a.x2) ∧ b.x1 ≤ x ∧ x < b.x2 := by
      split
      · rw [mem_columns_cons, columns_nil]
        simp only [Set.mem_empty_iff_false, or_false]
        omega
      · rw [columns_nil, Set.mem_empty_iff_false, false_iff]
        omega
    simp only [dite_eq_ite] at ih
    have hright (hx : x ∈ columns more1) : a.x2 < x := h1.right_of hx
    have hright' (hx : x ∈ columns more2) : b.x2 < x := h2.right_of hx
    rw [mem_columns_append, hfirst, ih (apart_advance h1 _) (apart_advance h2 _),
      mem_columns_advance, mem_columns_advance, mem_columns_cons, mem_columns_cons]
    by_cases hmore1 : x ∈ columns more1
    · have hafter := hright hmore1
      by_cases hmore2 : x ∈ columns more2
      · simp only [hmore1, hmore2, or_true, and_true]
      · simp only [hmore1, hmore2, or_true, or_false, true_and]
        omega
    · by_cases hmore2 : x ∈ columns more2
      · have hafter := hright' hmore2
        simp only [hmore1, hmore2, or_true, or_false, and_true]
        omega
      · simp only [hmore1, hmore2, or_false]
        omega
  | case2 r1 r2 hnot =>
    rw [columns_nil, Set.mem_empty_iff_false, false_iff]
    rintro ⟨⟨c, hc, -⟩, ⟨d, hd, -⟩⟩
    cases r1 with
    | nil => cases hc
    | cons a more1 =>
      cases r2 with
      | nil => cases hd
      | cons b more2 => exact hnot a more1 b more2 rfl rfl

theorem overlaps_intersectO : Overlaps And intersectO where
  apart := intersectO_apart
  inBand _ hs := (intersectO_from hs).1
  columns _ _ := intersectO_columns

end Intersection

section Union

theorem mergeRect_inBand {next : ℤ → ℤ → List Rect}
    (hnext : ∀ x1 x2, InBand y1 y2 (next x1 x2)) : InBand y1 y2 (mergeRect y1 y2 x1 x2 r next) := by
  rw [mergeRect]
  split
  · exact hnext _ _
  · exact List.forall_mem_cons.mpr ⟨⟨rfl, rfl⟩, hnext _ _⟩

theorem unionLoop_inBand : InBand y1 y2 (unionLoop y1 y2 x1 x2 r1 r2) := by
  fun_induction unionLoop y1 y2 x1 x2 r1 r2 with
  | case1 x1 x2 a more1 b more2 hlt ih => exact mergeRect_inBand ih
  | case2 x1 x2 a more1 b more2 hge ih => exact mergeRect_inBand ih
  | case3 x1 x2 a more1 ih => exact mergeRect_inBand ih
  | case4 x1 x2 b more2 ih => exact mergeRect_inBand ih
  | case5 x1 x2 => simp [InBand]

/-- The next rectangle is right of the left side of the one that is being merged. -/
structure Merges (x1 x2 x : ℤ) (rest : Prop) (out : List Rect) : Prop where
  apart : Apart out
  right : ∀ s ∈ out, x1 ≤ s.x1
  columns : x ∈ columns out ↔ (x1 ≤ x ∧ x < x2) ∨ rest

theorem mergeRect_merges {next : ℤ → ℤ → List Rect} {rest : Prop} (hwide : x1 < x2)
    (hr : r.x1 < r.x2) (hle : x1 ≤ r.x1)
    (hnext : ∀ x1 x2, x1 < x2 → x1 ≤ r.x1 → Merges x1 x2 x rest (next x1 x2)) :
    Merges x1 x2 x ((r.x1 ≤ x ∧ x < r.x2) ∨ rest) (mergeRect y1 y2 x1 x2 r next) := by
  rw [mergeRect]
  split
  · rename_i htouch
    have hmerged := hnext x1 (if x2 < r.x2 then r.x2 else x2) (by split <;> omega) hle
    refine ⟨hmerged.apart, hmerged.right, hmerged.columns.trans ?_⟩
    by_cases hrest : rest
    · simp only [hrest, or_true]
    · simp only [hrest, or_false]
      split <;> omega
  · rename_i hgap
    have hmore := hnext r.x1 r.x2 hr le_rfl
    refine ⟨.cons hwide (fun s hs ↦ ?_) hmore.apart, fun s hs ↦ ?_, ?_⟩
    · exact lt_of_lt_of_le (not_le.mp hgap) (hmore.right s hs)
    · obtain rfl | hs := List.mem_cons.mp hs
      · exact le_rfl
      · exact hle.trans (hmore.right s hs)
    · rw [mem_columns_cons, hmore.columns]

theorem left_le (h : Apart (r :: rects)) (hs : s ∈ r :: rects) : r.x1 ≤ s.x1 := by
  obtain rfl | hs := List.mem_cons.mp hs
  · exact le_rfl
  · exact (h.head.trans (h.gap hs)).le

theorem unionLoop_merges (y1 y2 x : ℤ) (hwide : x1 < x2) (h1 : Apart r1) (h2 : Apart r2)
    (hle1 : ∀ s ∈ r1, x1 ≤ s.x1) (hle2 : ∀ s ∈ r2, x1 ≤ s.x1) :
    Merges x1 x2 x (x ∈ columns r1 ∨ x ∈ columns r2) (unionLoop y1 y2 x1 x2 r1 r2) := by
  fun_induction unionLoop y1 y2 x1 x2 r1 r2 with
  | case1 x1 x2 a more1 b more2 hlt ih =>
    rw [mem_columns_cons, or_assoc]
    refine mergeRect_merges hwide h1.head (hle1 a List.mem_cons_self) fun x1 x2 hwide hle ↦ ?_
    refine ih x1 x2 hwide h1.tail h2 (fun s hs ↦ ?_) (fun s hs ↦ ?_)
    · exact hle.trans (left_le h1 (List.mem_cons_of_mem _ hs))
    · exact (hle.trans hlt.le).trans (left_le h2 hs)
  | case2 x1 x2 a more1 b more2 hge ih =>
    rw [mem_columns_cons (r := b), or_left_comm]
    refine mergeRect_merges hwide h2.head (hle2 b List.mem_cons_self) fun x1 x2 hwide hle ↦ ?_
    refine ih x1 x2 hwide h1 h2.tail (fun s hs ↦ ?_) (fun s hs ↦ ?_)
    · exact (hle.trans (not_lt.mp hge)).trans (left_le h1 hs)
    · exact hle.trans (left_le h2 (List.mem_cons_of_mem _ hs))
  | case3 x1 x2 a more1 ih =>
    rw [mem_columns_cons, or_assoc]
    refine mergeRect_merges hwide h1.head (hle1 a List.mem_cons_self) fun x1 x2 hwide hle ↦ ?_
    exact ih x1 x2 hwide h1.tail h2 (fun s hs ↦ hle.trans (left_le h1 (List.mem_cons_of_mem _ hs)))
      (by simp)
  | case4 x1 x2 b more2 ih =>
    rw [mem_columns_cons (r := b), or_left_comm]
    refine mergeRect_merges hwide h2.head (hle2 b List.mem_cons_self) fun x1 x2 hwide hle ↦ ?_
    exact ih x1 x2 hwide h1 h2.tail (by simp)
      (fun s hs ↦ hle.trans (left_le h2 (List.mem_cons_of_mem _ hs)))
  | case5 x1 x2 =>
    refine ⟨.cons hwide (by simp) .nil, by simp, ?_⟩
    rw [mem_columns_cons, columns_nil, Set.mem_empty_iff_false, or_self]

theorem unionO_merges (hne1 : r1 ≠ []) (hne2 : r2 ≠ []) (h1 : Apart r1) (h2 : Apart r2) :
    Apart (unionO y1 y2 r1 r2) ∧
      (x ∈ columns (unionO y1 y2 r1 r2) ↔ x ∈ columns r1 ∨ x ∈ columns r2) := by
  cases r1 with
  | nil => exact absurd rfl hne1
  | cons a more1 =>
    cases r2 with
    | nil => exact absurd rfl hne2
    | cons b more2 =>
      rw [unionO]
      split
      · rename_i hlt
        have hmerges := unionLoop_merges y1 y2 x h1.head h1.tail h2
          (fun s hs ↦ left_le h1 (List.mem_cons_of_mem _ hs)) fun s hs ↦ hlt.le.trans (left_le h2 hs)
        refine ⟨hmerges.apart, hmerges.columns.trans ?_⟩
        rw [mem_columns_cons (r := a), or_assoc]
      · rename_i hge
        have hmerges := unionLoop_merges y1 y2 x h2.head h1 h2.tail
          (fun s hs ↦ (not_lt.mp hge).trans (left_le h1 hs))
          fun s hs ↦ left_le h2 (List.mem_cons_of_mem _ hs)
        refine ⟨hmerges.apart, hmerges.columns.trans ?_⟩
        rw [mem_columns_cons (r := b), or_left_comm]

theorem overlaps_unionO : Overlaps Or unionO where
  apart {y1 y2 r1 r2} h1 h2 := by
    cases r1 with
    | nil => exact .nil
    | cons a more1 =>
      cases r2 with
      | nil => exact .nil
      | cons b more2 =>
        exact (unionO_merges (x := 0) (List.cons_ne_nil _ _) (List.cons_ne_nil _ _) h1 h2).1
  inBand {y1 y2 r1 r2} := by
    fun_cases unionO y1 y2 r1 r2
    · exact unionLoop_inBand
    · exact unionLoop_inBand
    · exact InBand.nil
  columns hne1 hne2 h1 h2 := (unionO_merges hne1 hne2 h1 h2).2

end Union

section Subtraction

theorem subtractLoop_inBand : InBand y1 y2 (subtractLoop y1 y2 x1 r1 r2) := by
  fun_induction subtractLoop y1 y2 x1 r1 r2 with
  | case1 x1 a more1 b more2 _ ih => exact ih
  | case2 x1 a more1 b more2 _ _ _ ih => exact ih
  | case3 x1 a more1 b more2 _ _ _ ih => exact ih
  | case4 x1 a more1 b more2 _ _ _ ih ih' =>
    refine List.forall_mem_cons.mpr ⟨⟨rfl, rfl⟩, ?_⟩
    split
    · exact ih
    · exact ih'
  | case5 x1 a more1 b more2 _ _ _ ih =>
    refine List.forall_mem_append.mpr ⟨?_, ih⟩
    split
    · simp
    · simp
  | case6 x1 a more1 ih => exact List.forall_mem_cons.mpr ⟨⟨rfl, rfl⟩, ih⟩
  | case7 => exact InBand.nil

def Fenced (x1 : ℤ) (r1 : List Rect) : Prop := ∀ a ∈ r1.head?, a.x1 ≤ x1 ∧ x1 < a.x2

theorem fenced_fence (h : Apart r1) : Fenced (fence x1 r1) r1 := by
  cases r1 with
  | nil => simp [Fenced]
  | cons a more1 =>
    rintro c hc
    obtain rfl := Option.some.inj hc
    exact ⟨le_rfl, h.head⟩

theorem fenced_cons : Fenced x1 (r :: rects) ↔ r.x1 ≤ x1 ∧ x1 < r.x2 := by
  simp [Fenced]

theorem fence_le (h : Apart r1) (hx : x ∈ columns r1) : fence x1 r1 ≤ x := by
  cases r1 with
  | nil => simp at hx
  | cons a more1 => exact h.le_of_mem hx

/-- What is left of the minuend from the fence on. -/
structure Subtracts (x1 x : ℤ) (r1 r2 out : List Rect) : Prop where
  apart : Apart out
  right : ∀ s ∈ out, x1 ≤ s.x1
  empty : r1 = [] → out = []
  columns : x ∈ columns out ↔ x1 ≤ x ∧ x ∈ columns r1 ∧ x ∉ columns r2

theorem Subtracts.right_of {out : List Rect} (h : Subtracts (fence x1 rects) x rects r2 out)
    (h1 : Apart (r :: rects)) (hs : s ∈ out) : r.x2 < s.x1 := by
  cases rects with
  | nil => simp [h.empty rfl] at hs
  | cons c more => exact lt_of_lt_of_le (h1.gap List.mem_cons_self) (h.right s hs)

/-- After a subtrahend that covers the minuend from somewhere on: right of its left side, what is
left is the same whether the minuend or the subtrahend is used up first. -/
theorem subtracts_cut {a b : Rect} {more1 more2 out : List Rect} (h1 : Apart (a :: more1))
    (h2 : Apart (b :: more2)) (hfence : a.x1 ≤ x1 ∧ x1 < a.x2) (hreach : x1 < b.x2) (hbelow : b.x1 < a.x2)
    (hover : b.x2 ≥ a.x2 → Subtracts (fence b.x2 more1) x more1 (b :: more2) out)
    (hunder : ¬b.x2 ≥ a.x2 → Subtracts b.x2 x (a :: more1) more2 out) :
    Apart out ∧ (∀ s ∈ out, min a.x2 b.x2 ≤ s.x1) ∧ (x ∈ columns out ↔
      b.x1 ≤ x ∧ x1 ≤ x ∧ x ∈ columns (a :: more1) ∧ x ∉ columns (b :: more2)) := by
  by_cases hcovers : b.x2 ≥ a.x2
  · have hmore := hover hcovers
    refine ⟨hmore.apart, fun s hs ↦ ?_, hmore.columns.trans ?_⟩
    · exact (min_le_left _ _).trans (hmore.right_of h1 hs).le
    · rw [mem_columns_cons (r := a)]
      constructor
      · rintro ⟨-, hx, hnot⟩
        have hafter := h1.right_of hx
        exact ⟨by omega, by omega, .inr hx, hnot⟩
      · rintro ⟨hleft, -, ⟨-, hx⟩ | hx, hnot⟩
        · exact absurd (mem_columns_cons.mpr (.inl ⟨hleft, by omega⟩)) hnot
        · exact ⟨fence_le h1.tail hx, hx, hnot⟩
  · have hmore := hunder hcovers
    refine ⟨hmore.apart, fun s hs ↦ (min_le_right _ _).trans (hmore.right s hs),
      hmore.columns.trans ?_⟩
    rw [mem_columns_cons (r := b), not_or]
    constructor
    · rintro ⟨hx, hmem, hnot⟩
      have hwide := h2.head
      exact ⟨by omega, by omega, hmem, by omega, hnot⟩
    · rintro ⟨hleft, -, hmem, hfirst, hnot⟩
      exact ⟨by omega, hmem, hnot⟩

theorem subtracts_uncovered {a : Rect} {more1 out : List Rect} (h1 : Apart (a :: more1))
    (hfence : a.x1 ≤ x1 ∧ x1 < a.x2) (huncovered : ∀ x < a.x2, x ∉ columns r2)
    (h : Subtracts (fence x1 more1) x more1 r2 out) :
    Subtracts x1 x (a :: more1) r2 (⟨x1, y1, a.x2, y2⟩ :: out) := by
  have hafter {s : Rect} (hs : s ∈ out) : a.x2 < s.x1 := h.right_of h1 hs
  refine ⟨.cons hfence.2 (fun s hs ↦ hafter hs) h.apart, fun s hs ↦ ?_, by simp, ?_⟩
  · obtain rfl | hs := List.mem_cons.mp hs
    · exact le_rfl
    · exact (hfence.2.trans (hafter hs)).le
  · rw [mem_columns_cons, h.columns, mem_columns_cons (r := a)]
    constructor
    · rintro (⟨hx, hbefore⟩ | ⟨-, hx, hnot⟩)
      · exact ⟨hx, .inl ⟨hfence.1.trans hx, hbefore⟩, huncovered x hbefore⟩
      · have hright := h1.right_of hx
        exact ⟨by omega, .inr hx, hnot⟩
    · rintro ⟨hx, ⟨-, hbefore⟩ | hmem, hnot⟩
      · exact .inl ⟨hx, hbefore⟩
      · exact .inr ⟨fence_le h1.tail hmem, hmem, hnot⟩

theorem subtractLoop_subtracts (h1 : Apart r1) (h2 : Apart r2) (hfence : Fenced x1 r1) :
    Subtracts x1 x r1 r2 (subtractLoop y1 y2 x1 r1 r2) := by
  fun_induction subtractLoop y1 y2 x1 r1 r2 with
  | case1 x1 a more1 b more2 hleft ih =>
    have hmore := ih h1 h2.tail hfence
    refine ⟨hmore.apart, hmore.right, by simp, hmore.columns.trans ?_⟩
    refine and_congr_right fun hx ↦ and_congr_right fun _ ↦ not_congr ?_
    rw [mem_columns_cons, or_iff_right]
    omega
  | case2 x1 a more1 b more2 hleft hcover hover ih =>
    rw [fenced_cons] at hfence
    obtain ⟨hapart, hright, hcolumns⟩ := subtracts_cut h1 h2 hfence (not_le.mp hleft)
      (by omega) (fun _ ↦ ih h1.tail h2 (fenced_fence h1.tail)) fun hnot ↦ absurd hover hnot
    refine ⟨hapart, fun s hs ↦ le_trans (by omega) (hright s hs), by simp, hcolumns.trans ?_⟩
    exact ⟨fun h ↦ h.2, fun h ↦ ⟨hcover.trans h.1, h⟩⟩
  | case3 x1 a more1 b more2 hleft hcover hunder ih =>
    rw [fenced_cons] at hfence
    obtain ⟨hapart, hright, hcolumns⟩ := subtracts_cut h1 h2 hfence (not_le.mp hleft)
      (by omega) (fun hover ↦ absurd hover hunder)
      fun _ ↦ ih h1 h2.tail (fenced_cons.mpr ⟨by omega, by omega⟩)
    refine ⟨hapart, fun s hs ↦ le_trans (by omega) (hright s hs), by simp, hcolumns.trans ?_⟩
    exact ⟨fun h ↦ h.2, fun h ↦ ⟨hcover.trans h.1, h⟩⟩
  | case4 x1 a more1 b more2 hleft hcover hinside ih ih' =>
    rw [fenced_cons] at hfence
    have hover (h : b.x2 ≥ a.x2) := ih h1.tail h2 (fenced_fence h1.tail)
    have hunder (h : ¬b.x2 ≥ a.x2) := ih' h1 h2.tail (fenced_cons.mpr ⟨by omega, by omega⟩)
    generalize hout : (if b.x2 ≥ a.x2 then _ else _) = out
    obtain ⟨hapart, hright, hcolumns⟩ := subtracts_cut h1 h2 hfence (not_le.mp hleft) hinside
      (fun h ↦ (if_pos h ▸ hout) ▸ hover h) fun h ↦ (if_neg h ▸ hout) ▸ hunder h
    have hwide := h2.head
    refine ⟨.cons (not_le.mp hcover) (fun s hs ↦ lt_of_lt_of_le ?_ (hright s hs)) hapart,
      fun s hs ↦ ?_, by simp, ?_⟩
    · exact lt_min hinside hwide
    · obtain rfl | hs := List.mem_cons.mp hs
      · exact le_rfl
      · exact le_trans (by omega) (hright s hs)
    · rw [mem_columns_cons, hcolumns]
      constructor
      · rintro (⟨hx, hbefore⟩ | ⟨-, h⟩)
        · refine ⟨hx, mem_columns_cons.mpr (.inl ⟨hfence.1.trans hx, hbefore.trans hinside⟩), ?_⟩
          exact fun hmem ↦ (h2.le_of_mem hmem).not_gt hbefore
        · exact h
      · rintro ⟨hx, h⟩
        by_cases hbefore : x < b.x1
        · exact .inl ⟨hx, hbefore⟩
        · exact .inr ⟨not_lt.mp hbefore, hx, h⟩
  | case5 x1 a more1 b more2 hleft hcover hoff ih =>
    rw [fenced_cons] at hfence
    rw [if_pos hfence.2, List.singleton_append]
    refine subtracts_uncovered h1 hfence (fun x hbefore hmem ↦ ?_) (ih h1.tail h2 (fenced_fence h1.tail))
    have hle := h2.le_of_mem hmem
    omega
  | case6 x1 a more1 ih =>
    rw [fenced_cons] at hfence
    exact subtracts_uncovered h1 hfence (by simp) (ih h1.tail h2 (fenced_fence h1.tail))
  | case7 =>
    exact ⟨.nil, by simp, fun _ ↦ rfl, by simp⟩

theorem overlaps_subtractO : Overlaps (fun p q ↦ p ∧ ¬q) subtractO where
  apart {y1 y2 r1 r2} h1 h2 := (subtractLoop_subtracts (x := 0) h1 h2 (fenced_fence h1)).apart
  inBand := subtractLoop_inBand
  columns _ _ h1 h2 := by
    rw [subtractO, (subtractLoop_subtracts h1 h2 (fenced_fence h1)).columns]
    exact and_iff_right_of_imp fun h ↦ fence_le h1 h.1

end Subtraction

end GiantGecko.Gui.Region
