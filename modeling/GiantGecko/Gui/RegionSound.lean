import GiantGecko.Gui.RegionOp
import Mathlib.Data.Set.Lattice
import Mathlib.Order.CompletePartialOrder

namespace GiantGecko.Gui.Region

open Foundation.Bands

variable {S S' : Set (ℤ × ℤ)} {e e' r : Rect} {rects : List Rect} {reg reg1 reg2 newReg : Region}
  {o : Prop → Prop → Prop} {op : Op} {same : Bool}

/-- The smallest rectangle around a set of pixels. -/
structure Tight (e : Rect) (S : Set (ℤ × ℤ)) : Prop where
  inside : S ⊆ e.points
  left : ∃ y, (e.x1, y) ∈ S
  right : ∃ y, (e.x2 - 1, y) ∈ S
  top : ∃ x, (x, e.y1) ∈ S
  bottom : ∃ x, (x, e.y2 - 1) ∈ S

theorem Tight.unique (h : Tight e S) (h' : Tight e' S) : e = e' := by
  have hle {e e' : Rect} (h : Tight e S) (h' : Tight e' S) :
      e'.x1 ≤ e.x1 ∧ e.x2 ≤ e'.x2 ∧ e'.y1 ≤ e.y1 ∧ e.y2 ≤ e'.y2 := by
    obtain ⟨_, hleft⟩ := h.left
    obtain ⟨_, hright⟩ := h.right
    obtain ⟨_, htop⟩ := h.top
    obtain ⟨_, hbottom⟩ := h.bottom
    have hx := (h'.inside hright).1.2
    have hy := (h'.inside hbottom).2.2
    change e.x2 - 1 < e'.x2 at hx
    change e.y2 - 1 < e'.y2 at hy
    exact ⟨(h'.inside hleft).1.1, by omega, (h'.inside htop).2.1, by omega⟩
  have hone := hle h h'
  have hother := hle h' h
  cases e
  cases e'
  simp only [Rect.mk.injEq] at *
  omega

theorem tight_rect (h : r.HasArea) : Tight r r.points := by
  obtain ⟨hx, hy⟩ := h
  refine ⟨subset_rfl, ⟨r.y1, ?_⟩, ⟨r.y1, ?_⟩, ⟨r.x1, ?_⟩, ⟨r.x1, ?_⟩⟩
  all_goals
    simp only [Rect.points, Set.mem_ofPred_eq]
    omega

theorem Tight.union (h : Tight e S) (h' : Tight e' S') :
    Tight ⟨min e.x1 e'.x1, min e.y1 e'.y1, max e.x2 e'.x2, max e.y2 e'.y2⟩ (S ∪ S') := by
  refine ⟨Set.union_subset (fun p hp ↦ ?_) fun p hp ↦ ?_, ?_, ?_, ?_, ?_⟩
  · obtain ⟨hx, hy⟩ := h.inside hp
    simp only [Rect.points, Set.mem_ofPred_eq]
    omega
  · obtain ⟨hx, hy⟩ := h'.inside hp
    simp only [Rect.points, Set.mem_ofPred_eq]
    omega
  · obtain hle | hle := le_total e.x1 e'.x1
    · simpa only [min_eq_left hle] using h.left.imp fun _ hp ↦ .inl hp
    · simpa only [min_eq_right hle] using h'.left.imp fun _ hp ↦ .inr hp
  · obtain hle | hle := le_total e.x2 e'.x2
    · simpa only [max_eq_right hle] using h'.right.imp fun _ hp ↦ .inr hp
    · simpa only [max_eq_left hle] using h.right.imp fun _ hp ↦ .inl hp
  · obtain hle | hle := le_total e.y1 e'.y1
    · simpa only [min_eq_left hle] using h.top.imp fun _ hp ↦ .inl hp
    · simpa only [min_eq_right hle] using h'.top.imp fun _ hp ↦ .inr hp
  · obtain hle | hle := le_total e.y2 e'.y2
    · simpa only [max_eq_right hle] using h'.bottom.imp fun _ hp ↦ .inr hp
    · simpa only [max_eq_left hle] using h.bottom.imp fun _ hp ↦ .inl hp

def pixels (reg : Region) : Set (ℤ × ℤ) := points reg.rects

/-- What every function of the region keeps: bands that are as wide and as high as can be, in
order, and the extents right around them. -/
structure Valid (reg : Region) : Prop where
  represents : Represents reg.rects reg.pixels
  tight : reg.rects ≠ [] → Tight reg.extents reg.pixels
  single : reg.rects.length = 1 → reg.data = none

theorem isNil_iff : reg.isNil = true ↔ reg.rects = [] := by
  obtain ⟨extents, data⟩ := reg
  cases data <;> simp [isNil, rects]

theorem Valid.tight_of_not_nil (h : reg.Valid) (hnil : ¬reg.isNil = true) :
    Tight reg.extents reg.pixels := h.tight fun hempty ↦ hnil (isNil_iff.mpr hempty)

theorem pixels_of_data (h : reg.data = none) : reg.pixels = reg.extents.points := by
  rw [pixels, rects, h, Option.getD_none, points_cons, points_nil, Set.union_empty]

theorem pixels_of_nil (h : reg.isNil = true) : reg.pixels = ∅ := by
  rw [pixels, isNil_iff.mp h, points_nil]

theorem banded_singleton (h : r.HasArea) : Banded [r] := ⟨by simpa using h, List.pairwise_singleton _ _⟩

theorem represents_singleton (h : r.HasArea) : Represents [r] r.points := by
  refine ⟨by simp, banded_singleton h, fun s hs ↦ ?_⟩
  obtain rfl := List.mem_singleton.mp hs
  refine ⟨s.x1, fun hiff ↦ ?_⟩
  have habove := (banded_singleton h).le_of_mem (hiff.mpr (corner_mem h hs))
  change s.y1 ≤ s.y1 - 1 at habove
  omega

theorem valid_initWithExtents (h : e.HasArea) : (rtguiRegionInitWithExtents e).Valid := by
  have hpixels : (rtguiRegionInitWithExtents e).pixels = e.points := pixels_of_data rfl
  refine ⟨?_, fun _ ↦ ?_, fun _ ↦ rfl⟩
  · rw [hpixels]
    exact represents_singleton h
  · rw [hpixels]
    exact tight_rect h

theorem represents_nil : Represents [] ∅ := ⟨points_nil, .nil, by simp [Coalesced]⟩

theorem valid_of_nil (h : reg.isNil = true) : reg.Valid := by
  have hrects := isNil_iff.mp h
  refine ⟨?_, fun hne ↦ absurd hrects hne, fun hone ↦ ?_⟩
  · rw [pixels_of_nil h, hrects]
    exact represents_nil
  · rw [hrects] at hone
    cases hone

section Extents

theorem widen_spec (boxes : List Rect) (e : Rect) :
    let e' := boxes.foldl widen e
    (e'.y1 = e.y1 ∧ e'.y2 = e.y2) ∧
      ((e'.x1 ≤ e.x1 ∧ ∀ r ∈ boxes, e'.x1 ≤ r.x1) ∧ e.x2 ≤ e'.x2 ∧ ∀ r ∈ boxes, r.x2 ≤ e'.x2) ∧
      (e'.x1 = e.x1 ∨ ∃ r ∈ boxes, e'.x1 = r.x1) ∧ (e'.x2 = e.x2 ∨ ∃ r ∈ boxes, e'.x2 = r.x2) := by
  induction boxes generalizing e with
  | nil => simp
  | cons box more ih =>
    obtain ⟨⟨hy1, hy2⟩, ⟨⟨hx1, hleft⟩, hx2, hright⟩, hsome1, hsome2⟩ := ih (widen e box)
    have hstep1 : (widen e box).x1 ≤ e.x1 ∧ (widen e box).x1 ≤ box.x1 ∧
        ((widen e box).x1 = e.x1 ∨ (widen e box).x1 = box.x1) := by
      rw [widen]
      dsimp only
      split <;> omega
    have hstep2 : e.x2 ≤ (widen e box).x2 ∧ box.x2 ≤ (widen e box).x2 ∧
        ((widen e box).x2 = e.x2 ∨ (widen e box).x2 = box.x2) := by
      rw [widen]
      dsimp only
      split <;> omega
    rw [List.foldl_cons]
    refine ⟨⟨hy1, hy2⟩, ⟨⟨hx1.trans hstep1.1, ?_⟩, hstep2.1.trans hx2, ?_⟩, ?_, ?_⟩
    · exact List.forall_mem_cons.mpr ⟨hx1.trans hstep1.2.1, hleft⟩
    · exact List.forall_mem_cons.mpr ⟨hstep2.2.1.trans hx2, hright⟩
    · obtain heq | ⟨r, hr, heq⟩ := hsome1
      · refine hstep1.2.2.imp heq.trans fun h ↦ ⟨box, List.mem_cons_self, heq.trans h⟩
      · exact .inr ⟨r, List.mem_cons_of_mem _ hr, heq⟩
    · obtain heq | ⟨r, hr, heq⟩ := hsome2
      · refine hstep2.2.2.imp heq.trans fun h ↦ ⟨box, List.mem_cons_self, heq.trans h⟩
      · exact .inr ⟨r, List.mem_cons_of_mem _ hr, heq⟩

theorem bottom_le_last (h : Banded rects) (hne : rects ≠ []) (hr : r ∈ rects) :
    r.y2 ≤ (rects.getLast hne).y2 := by
  have hsplit := List.dropLast_concat_getLast hne
  rw [← hsplit] at h hr
  obtain ⟨-, hlast, hfollows⟩ := banded_append.mp h
  obtain hr | hr := List.mem_append.mp hr
  · have harea := (hlast.area _ List.mem_cons_self).2
    obtain ⟨-, hsame, -⟩ | hbelow := hfollows r hr _ List.mem_cons_self
    · exact hsame.le
    · exact hbelow.trans harea.le
  · rw [List.mem_singleton.mp hr]

theorem tight_of_widen {box boxEnd : Rect} {more : List Rect} (h : Banded (box :: more))
    (hend : boxEnd ∈ box :: more) (hlast : ∀ r ∈ box :: more, r.y2 ≤ boxEnd.y2) :
    Tight ((box :: more).foldl widen ⟨box.x1, box.y1, boxEnd.x2, boxEnd.y2⟩)
      (points (box :: more)) := by
  obtain ⟨⟨hy1, hy2⟩, ⟨⟨-, hleft⟩, -, hright⟩, hsome1, hsome2⟩ :=
    widen_spec (box :: more) ⟨box.x1, box.y1, boxEnd.x2, boxEnd.y2⟩
  set e := (box :: more).foldl widen ⟨box.x1, box.y1, boxEnd.x2, boxEnd.y2⟩
  have hcorner {r : Rect} (hr : r ∈ box :: more) : (r.x2 - 1, r.y1) ∈ points (box :: more) := by
    obtain ⟨hx, hy⟩ := h.area r hr
    refine ⟨r, hr, ?_⟩
    simp only [Rect.points, Set.mem_ofPred_eq]
    omega
  refine ⟨fun p hp ↦ ?_, ?_, ?_, ⟨box.x1, ?_⟩, ⟨boxEnd.x1, ?_⟩⟩
  · obtain ⟨r, hr, ⟨hx1, hx2⟩, hrow1, hrow2⟩ := hp
    refine ⟨⟨(hleft r hr).trans hx1, hx2.trans_le (hright r hr)⟩, ?_, ?_⟩
    · rw [hy1]
      exact (h.top_le hr).trans hrow1
    · rw [hy2]
      exact hrow2.trans_le (hlast r hr)
  · obtain ⟨r, hr, heq⟩ : ∃ r ∈ box :: more, e.x1 = r.x1 :=
      hsome1.elim (fun heq ↦ ⟨box, List.mem_cons_self, heq⟩) id
    exact ⟨r.y1, heq ▸ corner_mem (h.area r hr) hr⟩
  · obtain ⟨r, hr, heq⟩ : ∃ r ∈ box :: more, e.x2 = r.x2 :=
      hsome2.elim (fun heq ↦ ⟨boxEnd, hend, heq⟩) id
    exact ⟨r.y1, heq ▸ hcorner hr⟩
  · rw [hy1]
    exact corner_mem h.head List.mem_cons_self
  · rw [hy2]
    exact last_mem (h.area boxEnd hend) hend

end Extents

section Operations

theorem rtguiOp_eq (newReg : Region) (hop : Combines o op) (h1 : reg1.Valid) (h2 : reg2.Valid)
    (hne1 : reg1.rects ≠ []) (hne2 : reg2.rects ≠ []) :
    ∃ rects, Represents rects (combined o reg1.pixels reg2.pixels) ∧
      rtguiOp op newReg reg1 reg2 = ofRects newReg.extents rects := by
  obtain ⟨a, more1, heq1⟩ := List.exists_cons_of_ne_nil hne1
  obtain ⟨b, more2, heq2⟩ := List.exists_cons_of_ne_nil hne2
  refine ⟨_, opLoop_from_start hop (heq1 ▸ h1.represents) (heq2 ▸ h2.represents), ?_⟩
  rw [rtguiOp, heq1, heq2]

theorem valid_single (h : Represents [r] S) (hdata : reg.data = none) (hextents : reg.extents = r) :
    reg.Valid ∧ reg.pixels = S := by
  obtain ⟨extents, data⟩ := reg
  obtain rfl : data = none := hdata
  obtain rfl : extents = r := hextents
  exact ⟨valid_initWithExtents (h.banded.area _ List.mem_cons_self), h.pixels⟩

theorem valid_many {box box' : Rect} {more : List Rect} (h : Represents (box :: box' :: more) S)
    (hdata : reg.data = some (box :: box' :: more)) (htight : Tight reg.extents S) :
    reg.Valid ∧ reg.pixels = S := by
  have hrects : reg.rects = box :: box' :: more := by rw [rects, hdata, Option.getD_some]
  have hpixels : reg.pixels = S := by rw [pixels, hrects, h.pixels]
  refine ⟨⟨?_, fun _ ↦ ?_, fun hone ↦ ?_⟩, hpixels⟩
  · rwa [hrects, hpixels]
  · rwa [hpixels]
  · rw [hrects] at hone
    cases hone

theorem rtguiOp_setExtents (hop : Combines o op) (h1 : reg1.Valid) (h2 : reg2.Valid)
    (hne1 : reg1.rects ≠ []) (hne2 : reg2.rects ≠ []) :
    (rtguiSetExtents (rtguiOp op newReg reg1 reg2)).Valid ∧
      (rtguiSetExtents (rtguiOp op newReg reg1 reg2)).pixels =
        combined o reg1.pixels reg2.pixels := by
  obtain ⟨rects, hrects, heq⟩ := rtguiOp_eq newReg hop h1 h2 hne1 hne2
  rw [heq]
  match rects, hrects with
  | [], hrects => exact ⟨valid_of_nil rfl, hrects.pixels⟩
  | [r], hrects => exact valid_single hrects rfl rfl
  | box :: box' :: more, hrects =>
    refine valid_many hrects rfl (hrects.pixels ▸ tight_of_widen hrects.banded ?_ fun r hr ↦ ?_)
    · exact List.getLast_mem _
    · exact bottom_le_last hrects.banded _ hr

theorem disjoint_of_extentCheck (h : ¬extentCheck e e' = true) : e.points ∩ e'.points = ∅ := by
  rw [extentCheck, decide_eq_true_eq, not_not] at h
  refine Set.eq_empty_of_forall_notMem fun p hp ↦ ?_
  obtain ⟨⟨hx, hy⟩, hx', hy'⟩ := hp
  omega

theorem subset_of_subsumes (h : subsumes e e' = true) : e'.points ⊆ e.points := by
  rw [subsumes, decide_eq_true_eq] at h
  rintro p ⟨hx, hy⟩
  simp only [Rect.points, Set.mem_ofPred_eq]
  omega

theorem Valid.hasArea (h : reg.Valid) (hdata : reg.data = none) : reg.extents.HasArea := by
  refine h.represents.banded.area _ ?_
  rw [rects, hdata, Option.getD_none]
  exact List.mem_singleton_self _

theorem pixels_subset (h : reg.Valid) : reg.pixels ⊆ reg.extents.points := by
  by_cases hnil : reg.isNil = true
  · rw [pixels_of_nil hnil]
    exact Set.empty_subset _
  · exact (h.tight_of_not_nil hnil).inside

theorem inter_of_reject (h1 : reg1.Valid) (h2 : reg2.Valid)
    (h : reg1.isNil = true ∨ reg2.isNil = true ∨ ¬extentCheck reg1.extents reg2.extents = true) :
    reg1.pixels ∩ reg2.pixels = ∅ := by
  obtain hnil | hnil | hoff := h
  · rw [pixels_of_nil hnil, Set.empty_inter]
  · rw [pixels_of_nil hnil, Set.inter_empty]
  · refine Set.subset_empty_iff.mp ?_
    rw [← disjoint_of_extentCheck hoff]
    exact Set.inter_subset_inter (pixels_subset h1) (pixels_subset h2)

theorem subset_of_single (h : reg.Valid) (hdata : reg1.data = none ∧ subsumes reg1.extents
    reg.extents = true) : reg.pixels ⊆ reg1.pixels := by
  rw [pixels_of_data hdata.1]
  exact (pixels_subset h).trans (subset_of_subsumes hdata.2)

theorem rects_ne_nil (h : ¬reg.isNil = true) : reg.rects ≠ [] := fun hnil ↦ h (isNil_iff.mpr hnil)

theorem rtguiRegionIntersect_sound (hsame : same = true → reg1 = reg2) (h1 : reg1.Valid)
    (h2 : reg2.Valid) : (rtguiRegionIntersect same newReg reg1 reg2).Valid ∧
      (rtguiRegionIntersect same newReg reg1 reg2).pixels = reg1.pixels ∩ reg2.pixels := by
  rw [rtguiRegionIntersect]
  split_ifs with hreject hsingle hsub hsub' heq
  · exact ⟨valid_of_nil rfl, (pixels_of_nil rfl).trans (inter_of_reject h1 h2 hreject).symm⟩
  · have hmeet : extentCheck reg1.extents reg2.extents = true := by
      by_contra hoff
      exact hreject (.inr (.inr hoff))
    rw [extentCheck, decide_eq_true_eq] at hmeet
    have harea1 := h1.hasArea hsingle.1
    have harea2 := h2.hasArea hsingle.2
    refine ⟨valid_initWithExtents ⟨?_, ?_⟩, ?_⟩
    · have hx := harea1.1
      have hx' := harea2.1
      change max reg1.extents.x1 reg2.extents.x1 < min reg1.extents.x2 reg2.extents.x2
      omega
    · have hy := harea1.2
      have hy' := harea2.2
      change max reg1.extents.y1 reg2.extents.y1 < min reg1.extents.y2 reg2.extents.y2
      omega
    · rw [pixels_of_data rfl, pixels_of_data hsingle.1, pixels_of_data hsingle.2]
      ext p
      simp only [Rect.points, Set.mem_inter_iff, Set.mem_ofPred_eq]
      omega
  · exact ⟨h1, (Set.inter_eq_left.mpr (subset_of_single h1 hsub)).symm⟩
  · exact ⟨h2, (Set.inter_eq_right.mpr (subset_of_single h2 hsub')).symm⟩
  · refine ⟨h1, ?_⟩
    rw [← hsame heq, Set.inter_self]
  · simp only [not_or] at hreject
    exact rtguiOp_setExtents combines_intersect h1 h2 (rects_ne_nil hreject.1)
      (rects_ne_nil hreject.2.1)

theorem rtguiRegionUnion_sound (hsame : same = true → reg1 = reg2) (h1 : reg1.Valid)
    (h2 : reg2.Valid) : (rtguiRegionUnion same newReg reg1 reg2).Valid ∧
      (rtguiRegionUnion same newReg reg1 reg2).pixels = reg1.pixels ∪ reg2.pixels := by
  rw [rtguiRegionUnion]
  split_ifs with heq hnil1 hnil2 hsub hsub'
  · refine ⟨h1, ?_⟩
    rw [← hsame heq, Set.union_self]
  · refine ⟨h2, ?_⟩
    rw [pixels_of_nil hnil1, Set.empty_union]
  · refine ⟨h1, ?_⟩
    rw [pixels_of_nil hnil2, Set.union_empty]
  · exact ⟨h1, (Set.union_eq_left.mpr (subset_of_single h2 hsub)).symm⟩
  · exact ⟨h2, (Set.union_eq_right.mpr (subset_of_single h1 hsub')).symm⟩
  · obtain ⟨rects, hrects, hop⟩ := rtguiOp_eq newReg combines_union h1 h2
      (rects_ne_nil hnil1) (rects_ne_nil hnil2)
    have htight := (h1.tight_of_not_nil hnil1).union (h2.tight_of_not_nil hnil2)
    rw [hop]
    match rects, hrects with
    | [], hrects =>
      obtain ⟨y, hy⟩ := htight.left
      have hmem : _ ∈ combined Or reg1.pixels reg2.pixels := hy
      rw [← hrects.pixels, points_nil] at hmem
      exact hmem.elim
    | [r], hrects =>
      refine valid_single hrects rfl (htight.unique ?_)
      have hpixels : r.points = reg1.pixels ∪ reg2.pixels := by
        have hone := hrects.pixels
        rwa [points_cons, points_nil, Set.union_empty] at hone
      exact hpixels ▸ tight_rect (hrects.banded.area r List.mem_cons_self)
    | box :: box' :: more, hrects => exact valid_many hrects rfl htight

theorem rtguiRegionSubtract_sound (hsame : same = true → reg1 = reg2) (h1 : reg1.Valid)
    (h2 : reg2.Valid) : (rtguiRegionSubtract same newReg reg1 reg2).Valid ∧
      (rtguiRegionSubtract same newReg reg1 reg2).pixels = reg1.pixels \ reg2.pixels := by
  rw [rtguiRegionSubtract]
  split_ifs with hreject heq
  · refine ⟨h1, ?_⟩
    have hdisjoint := Set.disjoint_iff_inter_eq_empty.mpr (inter_of_reject h1 h2 hreject)
    exact hdisjoint.sdiff_eq_left.symm
  · refine ⟨valid_of_nil rfl, ?_⟩
    rw [pixels_of_nil rfl, ← hsame heq, sdiff_self]
    rfl
  · simp only [not_or] at hreject
    exact rtguiOp_setExtents combines_subtract h1 h2 (rects_ne_nil hreject.1)
      (rects_ne_nil hreject.2.1)

theorem rtguiRegionSubtractRect_sound (newReg : Region) (h1 : reg1.Valid) (he : e.HasArea) :
    (rtguiRegionSubtractRect newReg reg1 e).Valid ∧
      (rtguiRegionSubtractRect newReg reg1 e).pixels = reg1.pixels \ e.points := by
  have hpixels : (rtguiRegionInitWithExtents e).pixels = e.points := pixels_of_data rfl
  rw [← hpixels]
  exact rtguiRegionSubtract_sound (fun h ↦ absurd h Bool.false_ne_true) h1
    (valid_initWithExtents he)

theorem rtguiRegionInverse_sound (he : e.HasArea) (h1 : reg1.Valid) :
    (rtguiRegionInverse newReg reg1 e).Valid ∧
      (rtguiRegionInverse newReg reg1 e).pixels = e.points \ reg1.pixels := by
  have hrect := valid_initWithExtents he
  have hpixels : (rtguiRegionInitWithExtents e).pixels = e.points := pixels_of_data rfl
  rw [rtguiRegionInverse]
  split_ifs with hreject
  · refine ⟨hrect, hpixels.trans ?_⟩
    have hempty := inter_of_reject hrect h1 (.inr hreject)
    rw [hpixels] at hempty
    exact (Set.disjoint_iff_inter_eq_empty.mpr hempty).sdiff_eq_left.symm
  · simp only [not_or] at hreject
    rw [← hpixels]
    exact rtguiOp_setExtents combines_subtract hrect h1 (List.cons_ne_nil _ _)
      (rects_ne_nil hreject.1)

/-- There is one region for a set of pixels; only the extents of an empty one are open. -/
theorem valid_unique (h1 : reg1.Valid) (h2 : reg2.Valid) (h : reg1.pixels = reg2.pixels) :
    reg1.data = reg2.data ∧ (reg1.isNil = false → reg1 = reg2) := by
  have hrects : reg1.rects = reg2.rects := (h ▸ h1.represents).unique h2.represents
  have hlength := congrArg List.length hrects
  have hdata : reg1.data = reg2.data := by
    have hone1 := h1.single
    have hone2 := h2.single
    obtain ⟨extents1, data1⟩ := reg1
    obtain ⟨extents2, data2⟩ := reg2
    cases data1 with
    | none =>
      cases data2 with
      | none => rfl
      | some boxes => exact (hone2 (hlength.symm.trans rfl)).symm
    | some boxes =>
      cases data2 with
      | none => exact hone1 hlength
      | some boxes' => exact congrArg some hrects
  refine ⟨hdata, fun hnil ↦ ?_⟩
  have hne1 : reg1.rects ≠ [] := rects_ne_nil (Bool.eq_false_iff.mp hnil)
  have hextents := (h1.tight hne1).unique (h ▸ h2.tight (hrects ▸ hne1))
  cases reg1
  cases reg2
  exact congrArg₂ Region.mk hextents hdata

end Operations

section Calls

/-- The regions that calls produce, in any order, each with the pixels it is for. -/
inductive Calls : Region → Set (ℤ × ℤ) → Prop
  | init : Calls rtguiRegionInit ∅
  | rect {r : Rect} (hr : r.HasArea) : Calls (rtguiRegionInitWithExtents r) r.points
  | intersect {same : Bool} {reg reg' : Region} {T T' : Set (ℤ × ℤ)} (newReg : Region)
      (hsame : same = true → reg = reg') (h : Calls reg T) (h' : Calls reg' T') :
      Calls (rtguiRegionIntersect same newReg reg reg') (T ∩ T')
  | union {same : Bool} {reg reg' : Region} {T T' : Set (ℤ × ℤ)} (newReg : Region)
      (hsame : same = true → reg = reg') (h : Calls reg T) (h' : Calls reg' T') :
      Calls (rtguiRegionUnion same newReg reg reg') (T ∪ T')
  | subtract {same : Bool} {reg reg' : Region} {T T' : Set (ℤ × ℤ)} (newReg : Region)
      (hsame : same = true → reg = reg') (h : Calls reg T) (h' : Calls reg' T') :
      Calls (rtguiRegionSubtract same newReg reg reg') (T \ T')
  | inverse {r : Rect} {reg : Region} {T : Set (ℤ × ℤ)} (newReg : Region) (hr : r.HasArea)
      (h : Calls reg T) : Calls (rtguiRegionInverse newReg reg r) (r.points \ T)

theorem Calls.sound (h : Calls reg S) : reg.Valid ∧ reg.pixels = S := by
  induction h with
  | init => exact ⟨valid_of_nil rfl, pixels_of_nil rfl⟩
  | rect he => exact ⟨valid_initWithExtents he, pixels_of_data rfl⟩
  | intersect newReg hsame _ _ ih1 ih2 =>
    rw [← ih1.2, ← ih2.2]
    exact rtguiRegionIntersect_sound hsame ih1.1 ih2.1
  | union newReg hsame _ _ ih1 ih2 =>
    rw [← ih1.2, ← ih2.2]
    exact rtguiRegionUnion_sound hsame ih1.1 ih2.1
  | subtract newReg hsame _ _ ih1 ih2 =>
    rw [← ih1.2, ← ih2.2]
    exact rtguiRegionSubtract_sound hsame ih1.1 ih2.1
  | inverse newReg he _ ih1 =>
    rw [← ih1.2]
    exact rtguiRegionInverse_sound he ih1.1

theorem disjoint_of_follows {r s : Rect} (h : Follows r s) : Disjoint r.points s.points := by
  refine Set.disjoint_left.mpr fun p hr hs ↦ ?_
  simp only [Rect.points, Set.mem_ofPred_eq] at hr hs
  obtain ⟨-, -, hx⟩ | hy := h <;> omega

/-- However a region has been made, its rectangles are not empty, have no pixel in common and
have just the pixels that the operations call for; the extents are right around them. -/
theorem calls_rects (h : Calls reg S) :
    points reg.rects = S ∧ (∀ r ∈ reg.rects, r.HasArea) ∧
      reg.rects.Pairwise (fun r s ↦ Disjoint r.points s.points) ∧
      (reg.rects ≠ [] → Tight reg.extents S) := by
  obtain ⟨hvalid, rfl⟩ := h.sound
  exact ⟨rfl, hvalid.represents.banded.area,
    hvalid.represents.banded.order.imp disjoint_of_follows, hvalid.tight⟩

theorem calls_rects_corner :
    points (rtguiRegionSubtract false rtguiRegionInit (rtguiRegionInitWithExtents ⟨0, 0, 8, 8⟩)
      (rtguiRegionInitWithExtents ⟨4, 4, 12, 12⟩)).rects =
        Rect.points ⟨0, 0, 8, 8⟩ \ Rect.points ⟨4, 4, 12, 12⟩ :=
  (calls_rects (.subtract rtguiRegionInit (fun h ↦ absurd h Bool.false_ne_true)
    (.rect ⟨by decide, by decide⟩) (.rect ⟨by decide, by decide⟩))).1

/-- The calls and their order leave no trace in a region: one that is for the same pixels has the
same rectangles in the same order. -/
theorem calls_unique (h1 : Calls reg1 S) (h2 : Calls reg2 S) :
    reg1.data = reg2.data ∧ (reg1.isNil = false → reg1 = reg2) :=
  valid_unique h1.sound.1 h2.sound.1 (h1.sound.2.trans h2.sound.2.symm)

theorem calls_unique_inverse :
    (rtguiRegionSubtract false rtguiRegionInit (rtguiRegionInitWithExtents ⟨0, 0, 8, 8⟩)
        (rtguiRegionInitWithExtents ⟨4, 4, 12, 12⟩)).data =
      (rtguiRegionInverse rtguiRegionInit (rtguiRegionInitWithExtents ⟨4, 4, 12, 12⟩)
        ⟨0, 0, 8, 8⟩).data :=
  (calls_unique (.subtract rtguiRegionInit (fun h ↦ absurd h Bool.false_ne_true)
    (.rect ⟨by decide, by decide⟩) (.rect ⟨by decide, by decide⟩))
    (.inverse rtguiRegionInit ⟨by decide, by decide⟩ (.rect ⟨by decide, by decide⟩))).1

end Calls

end GiantGecko.Gui.Region
