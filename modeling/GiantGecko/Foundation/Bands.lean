import Mathlib.Data.Int.Order.Basic
import Mathlib.Data.List.Pairwise
import Mathlib.Data.List.TakeWhile
import Mathlib.Data.Set.Basic
import Mathlib.Tactic.Push

namespace GiantGecko.Foundation.Bands

/-! Sets of pixels as lists of rectangles in bands. -/

/-- The pixels from the corner `x1`, `y1` on, and before `x2` and `y2`. -/
structure Rect where
  x1 : ℤ
  y1 : ℤ
  x2 : ℤ
  y2 : ℤ
  deriving DecidableEq

variable {r s : Rect} {rects rects' band rest : List Rect} {x y y' : ℤ} {S : Set (ℤ × ℤ)}

def Rect.points (r : Rect) : Set (ℤ × ℤ) :=
  {p | (r.x1 ≤ p.1 ∧ p.1 < r.x2) ∧ r.y1 ≤ p.2 ∧ p.2 < r.y2}

def Rect.HasArea (r : Rect) : Prop := r.x1 < r.x2 ∧ r.y1 < r.y2

def points (rects : List Rect) : Set (ℤ × ℤ) := {p | ∃ r ∈ rects, p ∈ r.points}

@[simp] theorem points_nil : points [] = ∅ := by simp [points]

@[simp] theorem points_cons : points (r :: rects) = r.points ∪ points rects := by
  ext p
  simp [points]

@[simp] theorem points_append : points (rects ++ rects') = points rects ∪ points rects' := by
  ext p
  simp [points, or_and_right, exists_or]

section Spans

def columns (rects : List Rect) : Set ℤ := {x | ∃ r ∈ rects, r.x1 ≤ x ∧ x < r.x2}

/-- From left to right, with some room between any two of them. -/
structure Apart (rects : List Rect) : Prop where
  wide : ∀ r ∈ rects, r.x1 < r.x2
  gaps : rects.Pairwise fun r s ↦ r.x2 < s.x1

@[simp] theorem columns_nil : columns [] = ∅ := by simp [columns]

theorem mem_columns_cons : x ∈ columns (r :: rects) ↔ (r.x1 ≤ x ∧ x < r.x2) ∨ x ∈ columns rects := by
  simp [columns]

theorem mem_columns_append : x ∈ columns (rects ++ rects') ↔ x ∈ columns rects ∨ x ∈ columns rects' := by
  simp [columns, or_and_right, exists_or]

theorem Apart.nil : Apart [] := ⟨by simp, .nil⟩

theorem Apart.cons (hr : r.x1 < r.x2) (hright : ∀ s ∈ rects, r.x2 < s.x1) (h : Apart rects) :
    Apart (r :: rects) :=
  ⟨List.forall_mem_cons.mpr ⟨hr, h.wide⟩, .cons hright h.gaps⟩

theorem Apart.tail (h : Apart (r :: rects)) : Apart rects :=
  ⟨(List.forall_mem_cons.mp h.wide).2, h.gaps.of_cons⟩

theorem Apart.head (h : Apart (r :: rects)) : r.x1 < r.x2 := h.wide r List.mem_cons_self

theorem Apart.gap (h : Apart (r :: rects)) (hs : s ∈ rects) : r.x2 < s.x1 :=
  List.rel_of_pairwise_cons h.gaps hs

theorem Apart.right_of (h : Apart (r :: rects)) (hx : x ∈ columns rects) : r.x2 < x := by
  obtain ⟨s, hs, hleft, -⟩ := hx
  exact lt_of_lt_of_le (h.gap hs) hleft

theorem Apart.le_of_mem (h : Apart (r :: rects)) (hx : x ∈ columns (r :: rects)) : r.x1 ≤ x := by
  obtain hfirst | hrest := mem_columns_cons.mp hx
  · exact hfirst.1
  · exact (h.head.trans (h.right_of hrest)).le

theorem mem_columns_of_head (h : Apart (r :: rects)) : r.x1 ∈ columns (r :: rects) :=
  mem_columns_cons.mpr (.inl ⟨le_rfl, h.head⟩)

theorem not_mem_columns_of_end (h : Apart (r :: rects)) : r.x2 ∉ columns (r :: rects) := by
  intro hmem
  obtain hfirst | hrest := mem_columns_cons.mp hmem
  · exact lt_irrefl _ hfirst.2
  · exact lt_irrefl _ (h.right_of hrest)

def span (r : Rect) : ℤ × ℤ := (r.x1, r.x2)

/-- The columns determine the sides of the rectangles. -/
theorem Apart.spans_eq (h : Apart rects) (h' : Apart rects') (hcolumns : columns rects = columns rects') :
    rects.map span = rects'.map span := by
  induction rects generalizing rects' with
  | nil =>
    cases rects' with
    | nil => rfl
    | cons s rest' =>
      have hmem := mem_columns_of_head h'
      rw [← hcolumns, columns_nil] at hmem
      exact hmem.elim
  | cons r rest ih =>
    cases rects' with
    | nil =>
      have hmem := mem_columns_of_head h
      rw [hcolumns, columns_nil] at hmem
      exact hmem.elim
    | cons s rest' =>
      have hleft : r.x1 = s.x1 := by
        have hrs := h'.le_of_mem (hcolumns ▸ mem_columns_of_head h)
        have hsr := h.le_of_mem (hcolumns ▸ mem_columns_of_head h')
        exact le_antisymm hsr hrs
      have hright : r.x2 = s.x2 := by
        have hr := not_mem_columns_of_end h
        have hs := not_mem_columns_of_end h'
        rw [hcolumns, mem_columns_cons, not_or] at hr
        rw [← hcolumns, mem_columns_cons, not_or] at hs
        have hwide := h.head
        have hwide' := h'.head
        omega
      have hrest : columns rest = columns rest' := by
        ext x
        have hiff : x ∈ columns (r :: rest) ↔ x ∈ columns (s :: rest') := by rw [hcolumns]
        rw [mem_columns_cons, mem_columns_cons, hleft, hright] at hiff
        have hbehind (hx : x ∈ columns rest) : s.x2 < x := hright ▸ h.right_of hx
        have hbehind' (hx : x ∈ columns rest') : s.x2 < x := h'.right_of hx
        constructor
        · intro hx
          obtain hfirst | hother := hiff.mp (.inr hx)
          · exact absurd hfirst.2 (hbehind hx).not_gt
          · exact hother
        · intro hx
          obtain hfirst | hother := hiff.mpr (.inr hx)
          · exact absurd hfirst.2 (hbehind' hx).not_gt
          · exact hother
      rw [List.map_cons, List.map_cons, ih h.tail h'.tail hrest]
      simp only [span, hleft, hright]

theorem columns_eq_of_spans (h : rects.map span = rects'.map span) : columns rects = columns rects' := by
  have hspans (l : List Rect) : columns l = {x | ∃ t ∈ l.map span, t.1 ≤ x ∧ x < t.2} := by
    ext x
    simp [columns, span]
  rw [hspans, hspans, h]

theorem Apart.of_spans (h : Apart rects) (hspans : rects.map span = rects'.map span) :
    Apart rects' := by
  have hwide (l : List Rect) : (∀ r ∈ l, r.x1 < r.x2) ↔ ∀ t ∈ l.map span, t.1 < t.2 := by
    simp [span]
  have hgaps (l : List Rect) : (l.Pairwise fun r s ↦ r.x2 < s.x1) ↔
      (l.map span).Pairwise fun t u ↦ t.2 < u.1 := by
    rw [List.pairwise_map]
    rfl
  constructor
  · rw [hwide, ← hspans, ← hwide]
    exact h.wide
  · rw [hgaps, ← hspans, ← hgaps]
    exact h.gaps

end Spans

section Bands

/-- `s` may stand behind `r`: further right in the same band, or in a band below. -/
def Follows (r s : Rect) : Prop := (r.y1 = s.y1 ∧ r.y2 = s.y2 ∧ r.x2 < s.x1) ∨ r.y2 ≤ s.y1

structure Banded (rects : List Rect) : Prop where
  area : ∀ r ∈ rects, r.HasArea
  order : rects.Pairwise Follows

def InBand (y y' : ℤ) (rects : List Rect) : Prop := ∀ r ∈ rects, r.y1 = y ∧ r.y2 = y'

theorem Banded.nil : Banded [] := ⟨by simp, .nil⟩

theorem banded_append : Banded (rects ++ rects') ↔
    Banded rects ∧ Banded rects' ∧ ∀ r ∈ rects, ∀ s ∈ rects', Follows r s := by
  constructor
  · rintro ⟨harea, horder⟩
    obtain ⟨h, h', hboth⟩ := List.pairwise_append.mp horder
    rw [List.forall_mem_append] at harea
    exact ⟨⟨harea.1, h⟩, ⟨harea.2, h'⟩, hboth⟩
  · rintro ⟨h, h', hboth⟩
    exact ⟨List.forall_mem_append.mpr ⟨h.area, h'.area⟩,
      List.pairwise_append.mpr ⟨h.order, h'.order, hboth⟩⟩

theorem Banded.head (h : Banded (r :: rects)) : r.HasArea := h.area r List.mem_cons_self

theorem Banded.tail (h : Banded (r :: rects)) : Banded rects :=
  ⟨(List.forall_mem_cons.mp h.area).2, h.order.of_cons⟩

theorem Banded.follows (h : Banded (r :: rects)) (hs : s ∈ rects) : Follows r s :=
  List.rel_of_pairwise_cons h.order hs

theorem Follows.top_le (h : Follows r s) (hr : r.HasArea) : r.y1 ≤ s.y1 := by
  obtain ⟨htop, -, -⟩ | hbelow := h
  · exact htop.le
  · exact hr.2.le.trans hbelow

theorem Banded.top_le (h : Banded (r :: rects)) (hs : s ∈ r :: rects) : r.y1 ≤ s.y1 := by
  obtain rfl | hs := List.mem_cons.mp hs
  · exact le_rfl
  · exact (h.follows hs).top_le h.head

theorem Banded.apart (h : Banded band) (hband : InBand y y' band) : Apart band := by
  refine ⟨fun r hr ↦ (h.area r hr).1, h.order.imp_of_mem fun hr hs hfollows ↦ ?_⟩
  obtain ⟨-, -, hgap⟩ | hbelow := hfollows
  · exact hgap
  · have harea := (h.area _ hr).2
    rw [(hband _ hr).1, (hband _ hr).2] at harea
    rw [(hband _ hr).2, (hband _ hs).1] at hbelow
    omega

theorem Apart.banded (h : Apart band) (hband : InBand y y' band) (hy : y < y') : Banded band := by
  refine ⟨fun r hr ↦ ⟨h.wide r hr, ?_⟩, h.gaps.imp_of_mem fun hr hs hgap ↦ .inl ?_⟩
  · rw [(hband r hr).1, (hband r hr).2]
    exact hy
  · exact ⟨(hband _ hr).1.trans (hband _ hs).1.symm, (hband _ hr).2.trans (hband _ hs).2.symm, hgap⟩

theorem mem_points_band (hband : InBand y y' band) {p : ℤ × ℤ} :
    p ∈ points band ↔ p.1 ∈ columns band ∧ y ≤ p.2 ∧ p.2 < y' := by
  constructor
  · rintro ⟨r, hr, hcolumn, htop, hbottom⟩
    rw [(hband r hr).1] at htop
    rw [(hband r hr).2] at hbottom
    exact ⟨⟨r, hr, hcolumn⟩, htop, hbottom⟩
  · rintro ⟨⟨r, hr, hcolumn⟩, htop, hbottom⟩
    refine ⟨r, hr, hcolumn, ?_⟩
    rw [(hband r hr).1, (hband r hr).2]
    exact ⟨htop, hbottom⟩

def firstBand (r : Rect) (rects : List Rect) : List Rect := r :: rects.takeWhile (·.y1 = r.y1)

def otherBands (r : Rect) (rects : List Rect) : List Rect := rects.dropWhile (·.y1 = r.y1)

theorem firstBand_append (r : Rect) (rects : List Rect) :
    firstBand r rects ++ otherBands r rects = r :: rects := by
  rw [firstBand, otherBands, List.cons_append, List.takeWhile_append_dropWhile]

theorem Banded.first (h : Banded (r :: rects)) : Banded (firstBand r rects) :=
  (banded_append.mp (firstBand_append r rects ▸ h)).1

theorem Banded.others (h : Banded (r :: rects)) : Banded (otherBands r rects) :=
  (banded_append.mp (firstBand_append r rects ▸ h)).2.1

theorem Banded.inBand_firstBand (h : Banded (r :: rects)) :
    InBand r.y1 r.y2 (firstBand r rects) := by
  intro s hs
  obtain rfl | hs := List.mem_cons.mp hs
  · exact ⟨rfl, rfl⟩
  · have htop : s.y1 = r.y1 := by simpa using List.mem_takeWhile_imp hs
    obtain ⟨-, hbottom, -⟩ | hbelow := h.follows (List.takeWhile_subset _ hs)
    · exact ⟨htop, hbottom.symm⟩
    · have harea := h.head.2
      omega

theorem otherBands_subset (hs : s ∈ otherBands r rects) : s ∈ rects :=
  (List.dropWhile_suffix _).subset hs

theorem otherBands_length_le (r : Rect) (rects : List Rect) :
    (otherBands r rects).length ≤ rects.length :=
  (List.dropWhile_suffix _).length_le

theorem Banded.below_firstBand (h : Banded (r :: rects)) (hs : s ∈ otherBands r rects) :
    r.y2 ≤ s.y1 := by
  obtain ⟨htop, -, -⟩ | hbelow := h.follows (otherBands_subset hs)
  · cases hother : otherBands r rects with
    | nil => simp [hother] at hs
    | cons t more =>
      have hfirst : t.y1 ≠ r.y1 := by
        have hhead := List.head?_dropWhile_not (fun s : Rect ↦ decide (s.y1 = r.y1)) rects
        rw [show rects.dropWhile _ = t :: more from hother] at hhead
        simpa using hhead
      have hrt : r.y1 ≤ t.y1 :=
        h.top_le (List.mem_cons_of_mem _ (otherBands_subset (hother ▸ List.mem_cons_self)))
      have hts : t.y1 ≤ s.y1 := (hother ▸ h.others).top_le (hother ▸ hs)
      omega
  · exact hbelow

theorem mem_points_cons_iff (h : Banded (r :: rects)) {p : ℤ × ℤ} : p ∈ points (r :: rects) ↔
    (p.1 ∈ columns (firstBand r rects) ∧ r.y1 ≤ p.2 ∧ p.2 < r.y2) ∨
      p ∈ points (otherBands r rects) := by
  rw [← firstBand_append, points_append, Set.mem_union, mem_points_band h.inBand_firstBand]

theorem Banded.le_of_mem_otherBands (h : Banded (r :: rects)) {p : ℤ × ℤ}
    (hp : p ∈ points (otherBands r rects)) : r.y2 ≤ p.2 := by
  obtain ⟨s, hs, -, htop, -⟩ := hp
  exact (h.below_firstBand hs).trans htop

theorem Banded.le_of_mem (h : Banded (r :: rects)) {p : ℤ × ℤ} (hp : p ∈ points (r :: rects)) :
    r.y1 ≤ p.2 := by
  obtain ⟨s, hs, -, htop, -⟩ := hp
  exact (h.top_le hs).trans htop

theorem mem_points_otherBands (h : Banded (r :: rects)) {p : ℤ × ℤ} :
    p ∈ points (otherBands r rects) ↔ p ∈ points (r :: rects) ∧ r.y2 ≤ p.2 := by
  rw [mem_points_cons_iff h]
  constructor
  · exact fun hp ↦ ⟨.inr hp, h.le_of_mem_otherBands hp⟩
  · rintro ⟨hfirst | hp, hy⟩
    · exact absurd hfirst.2.2 hy.not_gt
    · exact hp

theorem mem_columns_firstBand (h : Banded (r :: rects)) (htop : r.y1 ≤ y) (hbottom : y < r.y2) :
    x ∈ columns (firstBand r rects) ↔ (x, y) ∈ points (r :: rects) := by
  rw [mem_points_cons_iff h]
  constructor
  · exact fun hx ↦ .inl ⟨hx, htop, hbottom⟩
  · rintro (hfirst | hother)
    · exact hfirst.1
    · exact absurd hbottom (h.le_of_mem_otherBands hother).not_gt

theorem Banded.not_mem_tail (h : Banded (r :: rects)) (hx : x ≤ r.x2) (hy : y < r.y2) :
    (x, y) ∉ points rects := by
  rintro ⟨s, hs, ⟨hleft, -⟩, htop, -⟩
  obtain ⟨-, -, hgap⟩ | hbelow := h.follows hs
  · exact (hx.trans_lt hgap).not_ge hleft
  · exact (hy.trans_le hbelow).not_ge htop

theorem corner_mem (h : r.HasArea) (hr : r ∈ rects) : (r.x1, r.y1) ∈ points rects :=
  ⟨r, hr, ⟨le_rfl, h.1⟩, le_rfl, h.2⟩

theorem last_mem (h : r.HasArea) (hr : r ∈ rects) : (r.x1, r.y2 - 1) ∈ points rects := by
  refine ⟨r, hr, ⟨le_rfl, h.1⟩, ?_, ?_⟩
  · have hy := h.2
    change r.y1 ≤ r.y2 - 1
    omega
  · change r.y2 - 1 < r.y2
    omega

theorem Banded.points_ne (h : Banded (r :: rects)) : points (r :: rects) ≠ points [] := by
  intro heq
  have hcorner : (r.x1, r.y1) ∈ points (r :: rects) := corner_mem h.head List.mem_cons_self
  rw [heq, points_nil] at hcorner
  exact hcorner

end Bands

section Canonical

def Breaks (S : Set (ℤ × ℤ)) (y : ℤ) : Prop := ∃ x, ¬((x, y - 1) ∈ S ↔ (x, y) ∈ S)

theorem Breaks.congr {S' : Set (ℤ × ℤ)} (h : Breaks S y)
    (hrows : ∀ x, ∀ z ≤ y, y - 1 ≤ z → ((x, z) ∈ S ↔ (x, z) ∈ S')) : Breaks S' y := by
  obtain ⟨x, hx⟩ := h
  rw [hrows x (y - 1) (by omega) le_rfl, hrows x y le_rfl (by omega)] at hx
  exact ⟨x, hx⟩

/-- No band could be joined with the one above. -/
def Coalesced (rects : List Rect) : Prop := ∀ r ∈ rects, Breaks (points rects) r.y1

theorem Banded.not_breaks (h : Banded (r :: rects)) (htop : r.y1 < y) (hbottom : y < r.y2) :
    ¬Breaks (points (r :: rects)) y := by
  rintro ⟨x, hx⟩
  refine hx ?_
  rw [← mem_columns_firstBand h htop.le hbottom, ← mem_columns_firstBand h (by omega) (by omega)]

theorem breaks_bottom (h : Banded (r :: rects)) (hcoalesced : Coalesced (r :: rects)) :
    Breaks (points (r :: rects)) r.y2 := by
  by_cases htouch : ∃ s ∈ otherBands r rects, s.y1 = r.y2
  · obtain ⟨s, hs, htop⟩ := htouch
    rw [← htop]
    exact hcoalesced s (List.mem_cons_of_mem _ (otherBands_subset hs))
  · refine ⟨r.x1, fun hiff ↦ ?_⟩
    obtain hfirst | hother := (mem_points_cons_iff h).mp (hiff.mp (last_mem h.head List.mem_cons_self))
    · exact lt_irrefl _ hfirst.2.2
    · obtain ⟨s, hs, -, htop, -⟩ := hother
      exact htouch ⟨s, hs, le_antisymm htop (h.below_firstBand hs)⟩

theorem Coalesced.others (h : Banded (r :: rects)) (hcoalesced : Coalesced (r :: rects)) :
    Coalesced (otherBands r rects) := by
  intro s hs
  have hbelow := h.below_firstBand hs
  by_cases htouch : s.y1 = r.y2
  · refine ⟨s.x1, fun hiff ↦ ?_⟩
    have hcorner := corner_mem (h.others.area s hs) hs
    have habove := h.le_of_mem_otherBands (hiff.mpr hcorner)
    exact absurd habove (by omega)
  · refine (hcoalesced s (List.mem_cons_of_mem _ (otherBands_subset hs))).congr fun x z _ hz ↦ ?_
    rw [mem_points_otherBands h]
    refine (and_iff_left ?_).symm
    change r.y2 ≤ z
    omega

theorem InBand.eq_of_spans {band' : List Rect} (h : InBand y y' band) (h' : InBand y y' band')
    (hspans : band.map span = band'.map span) : band = band' := by
  induction band generalizing band' with
  | nil =>
    cases band' with
    | nil => rfl
    | cons s rest' => cases hspans
  | cons r rest ih =>
    cases band' with
    | nil => cases hspans
    | cons s rest' =>
      obtain ⟨hspan, hrest⟩ := List.cons.inj hspans
      obtain ⟨⟨hr, hr'⟩, hband⟩ := List.forall_mem_cons.mp h
      obtain ⟨⟨hs, hs'⟩, hband'⟩ := List.forall_mem_cons.mp h'
      have hsides := Prod.mk.inj hspan
      have hfirst : r = s := by
        cases r
        cases s
        simp only [Rect.mk.injEq] at *
        omega
      rw [hfirst, ih hband hband' hrest]

theorem Banded.eq_of_points_eq (h : Banded rects) (h' : Banded rects') (hc : Coalesced rects)
    (hc' : Coalesced rects') (hpoints : points rects = points rects') : rects = rects' := by
  induction hn : rects.length using Nat.strong_induction_on generalizing rects rects' with
  | _ n ih =>
    cases rects with
    | nil =>
      cases rects' with
      | nil => rfl
      | cons s rest' => exact absurd hpoints.symm h'.points_ne
    | cons r rest =>
      cases rects' with
      | nil => exact absurd hpoints h.points_ne
      | cons s rest' =>
        have htop : r.y1 = s.y1 := by
          have hrs := h'.le_of_mem (hpoints ▸ corner_mem h.head List.mem_cons_self)
          have hsr := h.le_of_mem (hpoints ▸ corner_mem h'.head List.mem_cons_self)
          exact le_antisymm hsr hrs
        have hbottom : r.y2 = s.y2 := by
          by_contra hne
          have hr := h.head.2
          have hs := h'.head.2
          obtain hlt | hlt := lt_or_gt_of_ne hne
          · exact h'.not_breaks (htop ▸ hr) hlt (hpoints ▸ breaks_bottom h hc)
          · exact h.not_breaks (htop ▸ hs) hlt (hpoints ▸ breaks_bottom h' hc')
        have hfirst : firstBand r rest = firstBand s rest' := by
          refine h.inBand_firstBand.eq_of_spans ?_ ?_
          · rw [htop, hbottom]
            exact h'.inBand_firstBand
          · refine (h.first.apart h.inBand_firstBand).spans_eq
              (h'.first.apart h'.inBand_firstBand) ?_
            ext x
            rw [mem_columns_firstBand h le_rfl h.head.2, mem_columns_firstBand h' htop.ge
              (hbottom ▸ h.head.2), hpoints]
        have hrest : otherBands r rest = otherBands s rest' := by
          refine ih _ ?_ h.others h'.others (hc.others h) (hc'.others h') ?_ rfl
          · rw [← hn]
            exact Nat.lt_succ_of_le (otherBands_length_le _ _)
          · ext p
            rw [mem_points_otherBands h, mem_points_otherBands h', hpoints, hbottom]
        rw [← firstBand_append, ← firstBand_append, hfirst, hrest]

/-- The list of rectangles for a set of pixels. -/
structure Represents (rects : List Rect) (S : Set (ℤ × ℤ)) : Prop where
  pixels : points rects = S
  banded : Banded rects
  coalesced : Coalesced rects

theorem Represents.unique (h : Represents rects S) (h' : Represents rects' S) : rects = rects' :=
  h.banded.eq_of_points_eq h'.banded h.coalesced h'.coalesced (h.pixels.trans h'.pixels.symm)

end Canonical

end GiantGecko.Foundation.Bands
