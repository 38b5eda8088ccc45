import GiantGecko.Gui.RegionSound

namespace GiantGecko.Gui.Region

open Foundation.Bands

variable {S : Set (ℤ × ℤ)} {r box pbox prect : Rect} {rects more : List Rect} {reg : Region}
  {x y : ℤ} {partIn partOut : Bool}

def corner : Region := ⟨⟨0, 0, 8, 8⟩, some [⟨0, 0, 8, 4⟩, ⟨0, 4, 4, 8⟩]⟩

theorem valid_corner : corner.Valid := by
  have hcalls : Calls (rtguiRegionSubtract false rtguiRegionInit
      (rtguiRegionInitWithExtents ⟨0, 0, 8, 8⟩) (rtguiRegionInitWithExtents ⟨4, 4, 12, 12⟩)) _ :=
    .subtract rtguiRegionInit (fun h ↦ absurd h Bool.false_ne_true)
      (.rect ⟨by decide, by decide⟩) (.rect ⟨by decide, by decide⟩)
  have hcorner : rtguiRegionSubtract false rtguiRegionInit
      (rtguiRegionInitWithExtents ⟨0, 0, 8, 8⟩) (rtguiRegionInitWithExtents ⟨4, 4, 12, 12⟩) =
        corner := by decide +kernel
  exact hcorner ▸ hcalls.sound.1

section ContainsPoint

theorem findBox_some (h : findBox x y rects = some box) (hrects : Banded rects) :
    box ∈ rects ∧ (x, y) ∈ box.points := by
  induction rects with
  | nil => cases h
  | cons pbox more ih =>
    rw [findBox] at h
    split_ifs at h with hbelow hmissed hright
    · exact (ih h hrects.tail).imp_left (List.mem_cons_of_mem _)
    · exact (ih h hrects.tail).imp_left (List.mem_cons_of_mem _)
    · obtain rfl := Option.some.inj h
      refine ⟨List.mem_cons_self, ?_⟩
      simp only [Rect.points, Set.mem_ofPred_eq]
      omega

theorem findBox_none (h : findBox x y rects = none) (hrects : Banded rects) :
    (x, y) ∉ points rects := by
  induction rects with
  | nil => simp
  | cons pbox more ih =>
    rw [points_cons, Set.mem_union, not_or]
    rw [findBox] at h
    split_ifs at h with hbelow hmissed hright
    · exact ⟨fun hp ↦ hp.2.2.not_ge hbelow, ih h hrects.tail⟩
    · refine ⟨fun hp ↦ ?_, fun hp ↦ ?_⟩
      · simp only [Rect.points, Set.mem_ofPred_eq] at hp
        omega
      · obtain habove | hleft := hmissed
        · have hmem : (x, y) ∈ points (pbox :: more) := by
            rw [points_cons]
            exact .inr hp
          exact habove.not_ge (hrects.le_of_mem hmem)
        · have hwide := hrects.head.1
          exact hrects.not_mem_tail (by omega) (not_le.mp hbelow) hp
    · exact ⟨fun hp ↦ hp.1.2.not_ge hright, ih h hrects.tail⟩

/-- The box of a point is found if and only if the region has the point. -/
theorem rtguiRegionContainsPoint_sound (h : reg.Valid) (x y : ℤ) :
    (∀ box, rtguiRegionContainsPoint reg x y = some box → box ∈ reg.rects ∧ (x, y) ∈ box.points) ∧
      (rtguiRegionContainsPoint reg x y = none ↔ (x, y) ∉ reg.pixels) := by
  rw [rtguiRegionContainsPoint]
  by_cases hout : reg.rects = [] ∨ ¬inBox reg.extents x y = true
  · rw [if_pos hout]
    refine ⟨fun box hbox ↦ (by cases hbox), iff_of_true rfl fun hp ↦ ?_⟩
    obtain hnil | hoff := hout
    · rw [pixels, hnil, points_nil] at hp
      exact hp
    · have hin := pixels_subset h hp
      simp only [Rect.points, Set.mem_ofPred_eq] at hin
      rw [inBox, decide_eq_true_eq] at hoff
      omega
  · rw [if_neg hout]
    by_cases hone : reg.rects.length = 1
    · rw [if_pos hone]
      have hdata := h.single hone
      have hin : inBox reg.extents x y = true := by
        by_contra hoff
        exact hout (.inr hoff)
      have hmem : (x, y) ∈ reg.extents.points := by
        rw [inBox, decide_eq_true_eq] at hin
        simp only [Rect.points, Set.mem_ofPred_eq]
        omega
      refine ⟨fun box hbox ↦ ?_, iff_of_false (Option.some_ne_none _) ?_⟩
      · obtain rfl := Option.some.inj hbox
        refine ⟨?_, hmem⟩
        rw [rects, hdata]
        exact List.mem_singleton_self _
      · rw [pixels_of_data hdata, not_not]
        exact hmem
    · rw [if_neg hone]
      have hbanded := h.represents.banded
      refine ⟨fun box hbox ↦ findBox_some hbox hbanded, fun hnone ↦ findBox_none hnone hbanded,
        fun hnot ↦ ?_⟩
      cases hbox : findBox x y reg.rects with
      | none => rfl
      | some box =>
        obtain ⟨hmem, hpoint⟩ := findBox_some hbox hbanded
        exact absurd ⟨box, hmem, hpoint⟩ hnot

theorem rtguiRegionContainsPoint_corner :
    (⟨0, 4, 4, 8⟩ ∈ corner.rects ∧ (2, 6) ∈ Rect.points ⟨0, 4, 4, 8⟩) ∧
      (6, 6) ∉ corner.pixels :=
  ⟨(rtguiRegionContainsPoint_sound valid_corner 2 6).1 ⟨0, 4, 4, 8⟩ (by decide),
    (rtguiRegionContainsPoint_sound valid_corner 6 6).2.mp (by decide)⟩

end ContainsPoint

section ContainsRectangle

/-- Where the loop over the boxes stands: the rows of the rectangle above `y` are all inside or
all outside, and those from `y` on are to be found in the boxes to come. -/
structure Scans (S : Set (ℤ × ℤ)) (prect : Rect) (y : ℤ) (partIn partOut : Bool)
    (boxes : List Rect) : Prop where
  banded : Banded boxes
  room : prect.y1 ≤ y ∧ y < prect.y2
  above : ∀ p ∈ prect.points, p.2 < y → (p ∈ S ↔ partIn = true)
  boxes : ∀ p ∈ prect.points, y ≤ p.2 → (p ∈ S ↔ p ∈ points boxes)
  flags : (partIn = true ∧ partOut = false ∧ prect.y1 < y) ∨
    (partIn = false ∧ partOut = true ∧ prect.y1 < y) ∨
      (partIn = false ∧ partOut = false ∧ y = prect.y1)

def Tells (S : Set (ℤ × ℤ)) (prect : Rect) (found : Bool × ℤ) : Prop :=
  (found.1 = false ∧ ∀ p ∈ prect.points, p ∉ S) ∨
    (found.1 = true ∧ prect.y2 ≤ found.2 ∧ prect.points ⊆ S) ∨
      (found.1 = true ∧ found.2 < prect.y2 ∧ (∃ p ∈ prect.points, p ∈ S) ∧
        ∃ p ∈ prect.points, p ∉ S)

theorem mem_points_left (hprect : prect.HasArea) (hy : prect.y1 ≤ y ∧ y < prect.y2) :
    (prect.x1, y) ∈ prect.points := ⟨⟨le_rfl, hprect.1⟩, hy⟩

theorem Scans.first (h : Scans S prect y partIn partOut rects) (hprect : prect.HasArea)
    (hy : prect.y1 < y) : (prect.x1, prect.y1) ∈ S ↔ partIn = true :=
  h.above _ (mem_points_left hprect ⟨le_rfl, hprect.2⟩) hy

theorem Scans.tells_part (h : Scans S prect y partIn partOut rects) (hprect : prect.HasArea)
    (hin : partIn = true) (hout : (prect.x1, y) ∉ points rects) : Tells S prect (partIn, y) := by
  obtain ⟨-, -, hy⟩ | ⟨hnot, -, -⟩ | ⟨hnot, -, -⟩ := h.flags
  · have hleft := mem_points_left hprect h.room
    refine .inr (.inr ⟨hin, h.room.2, ⟨_, mem_points_left hprect ⟨le_rfl, hprect.2⟩,
      (h.first hprect hy).mpr hin⟩, _, hleft, fun hmem ↦ hout ((h.boxes _ hleft le_rfl).mp hmem)⟩)
  · rw [hin] at hnot
    cases hnot
  · rw [hin] at hnot
    cases hnot

theorem Scans.tells_out (h : Scans S prect y partIn partOut rects) (hout : partIn = false)
    (hnone : ∀ p ∈ prect.points, y ≤ p.2 → p ∉ points rects) : Tells S prect (partIn, y) := by
  refine .inl ⟨hout, fun p hp hmem ↦ ?_⟩
  by_cases hy : p.2 < y
  · have hin := (h.above p hp hy).mp hmem
    rw [hout] at hin
    cases hin
  · exact hnone p hp (not_lt.mp hy) ((h.boxes p hp (not_lt.mp hy)).mp hmem)

theorem Scans.tail (h : Scans S prect y partIn partOut (pbox :: more))
    (hskip : ∀ p ∈ prect.points, y ≤ p.2 → p ∉ pbox.points) :
    Scans S prect y partIn partOut more := by
  refine ⟨h.banded.tail, h.room, h.above, fun p hp hy ↦ (h.boxes p hp hy).trans ?_, h.flags⟩
  rw [points_cons, Set.mem_union]
  exact or_iff_right (hskip p hp hy)

theorem Scans.finish (h : Scans S prect y partIn partOut (pbox :: more)) {inside : Bool}
    (hbottom : y < pbox.y2)
    (hband : ∀ p ∈ prect.points, y ≤ p.2 → p.2 < pbox.y2 → (p ∈ S ↔ inside = true))
    (habove : prect.y1 < y → partIn = inside) {p : ℤ × ℤ} (hp : p ∈ prect.points) :
    (p.2 < pbox.y2 → (p ∈ S ↔ inside = true)) ∧ (pbox.y2 ≤ p.2 → (p ∈ S ↔ p ∈ points more)) := by
  constructor
  · intro hy
    by_cases habv : p.2 < y
    · rw [h.above p hp habv, habove (hp.2.1.trans_lt habv)]
    · exact hband p hp (not_lt.mp habv) hy
  · intro hy
    rw [h.boxes p hp (hbottom.le.trans hy), points_cons, Set.mem_union]
    exact or_iff_right fun hbox ↦ hbox.2.2.not_ge hy

theorem Scans.tells_finish (inside : Bool) (h : Scans S prect y partIn partOut (pbox :: more))
    (hbottom : y < pbox.y2)
    (hband : ∀ p ∈ prect.points, y ≤ p.2 → p.2 < pbox.y2 → (p ∈ S ↔ inside = true))
    (habove : prect.y1 < y → partIn = inside) {next : ℤ → Bool → Bool → Bool × ℤ}
    (hnext : ∀ y partIn partOut, Scans S prect y partIn partOut more →
      Tells S prect (next y partIn partOut)) :
    Tells S prect (if pbox.y2 ≥ prect.y2 then (inside, pbox.y2)
      else next pbox.y2 inside (!inside)) := by
  split
  · rename_i hend
    have hall {p : ℤ × ℤ} (hp : p ∈ prect.points) : p ∈ S ↔ inside = true :=
      (h.finish hbottom hband habove hp).1 (hp.2.2.trans_le hend)
    cases inside with
    | false => exact .inl ⟨rfl, fun p hp hmem ↦ Bool.false_ne_true ((hall hp).mp hmem)⟩
    | true => exact .inr (.inl ⟨rfl, hend, fun p hp ↦ (hall hp).mpr rfl⟩)
  · rename_i hmore
    have hy : prect.y1 < pbox.y2 := h.room.1.trans_lt hbottom
    refine hnext _ _ _ ⟨h.banded.tail, ⟨hy.le, not_le.mp hmore⟩, fun p hp ↦
      (h.finish hbottom hband habove hp).1, fun p hp ↦ (h.finish hbottom hband habove hp).2, ?_⟩
    cases inside with
    | false => exact .inr (.inl ⟨rfl, rfl, hy⟩)
    | true => exact .inl ⟨rfl, rfl, hy⟩

theorem coverBox_tells (hprect : prect.HasArea) (h : Scans S prect y partIn partOut (pbox :: more))
    (htop : pbox.y1 ≤ y) (hbottom : y < pbox.y2) {next : ℤ → Bool → Bool → Bool × ℤ}
    (hnext : ∀ y partIn partOut, Scans S prect y partIn partOut more →
      Tells S prect (next y partIn partOut)) :
    Tells S prect (coverBox prect y partIn partOut pbox next) := by
  have hleft := mem_points_left hprect h.room
  have hmissing (hgap : prect.x1 < pbox.x1) : (prect.x1, y) ∉ points (pbox :: more) := by
    rw [points_cons, Set.mem_union, not_or]
    have hwide := h.banded.head.1
    exact ⟨fun hbox ↦ hgap.not_ge hbox.1.1, h.banded.not_mem_tail (by omega) hbottom⟩
  rw [coverBox]
  split
  · rename_i hfar
    refine hnext y partIn partOut (h.tail fun p hp _ hbox ↦ ?_)
    exact (hbox.1.2.trans_le hfar).not_ge hp.1.1
  · rename_i hfar
    split
    · rename_i hmissed
      exact h.tells_part hprect hmissed.2 (hmissing hmissed.1)
    · rename_i hmissed
      have hcolumn (hgap : prect.x1 < pbox.x1) : partIn = false :=
        Bool.eq_false_iff.mpr fun hin ↦ hmissed ⟨hgap, hin⟩
      have hrow {p : ℤ × ℤ} (hy : y ≤ p.2) (hrow : p.2 < pbox.y2) : p ∈ pbox.points ↔
          pbox.x1 ≤ p.1 ∧ p.1 < pbox.x2 := and_iff_left ⟨htop.trans hy, hrow⟩
      have hmem {p : ℤ × ℤ} (hp : p ∈ prect.points) (hy : y ≤ p.2) :
          p ∈ S ↔ p ∈ pbox.points ∨ p ∈ points more := by
        rw [h.boxes p hp hy, points_cons, Set.mem_union]
      dsimp only
      split
      · rename_i hpart
        rw [decide_eq_true hpart.1, Bool.or_true]
        refine .inr (.inr ⟨rfl, h.room.2, ⟨(max pbox.x1 prect.x1, y), ?_, ?_⟩, ?_⟩)
        · exact ⟨⟨le_max_right _ _, max_lt hpart.1 hprect.1⟩, h.room⟩
        · refine (h.boxes _ ⟨⟨le_max_right _ _, max_lt hpart.1 hprect.1⟩, h.room⟩ le_rfl).mpr ?_
          rw [points_cons]
          refine .inl ((hrow le_rfl hbottom).mpr ⟨le_max_left _ _, ?_⟩)
          exact max_lt h.banded.head.1 (not_le.mp hfar)
        · by_cases hgap : prect.x1 < pbox.x1
          · exact ⟨_, hleft, fun hin ↦ hmissing hgap ((h.boxes _ hleft le_rfl).mp hin)⟩
          · have hout : partOut = true := by simpa [hgap] using hpart.2
            obtain ⟨-, hnot, -⟩ | ⟨hin, -, hy⟩ | ⟨-, hnot, -⟩ := h.flags
            · exact absurd (hnot.symm.trans hout) Bool.false_ne_true
            · refine ⟨_, mem_points_left hprect ⟨le_rfl, hprect.2⟩, fun hfirst ↦ ?_⟩
              exact Bool.false_ne_true (hin.symm.trans ((h.first hprect hy).mp hfirst))
            · exact absurd (hnot.symm.trans hout) Bool.false_ne_true
      · rename_i hpart
        by_cases hcover : pbox.x1 < prect.x2
        · have hflags : partOut = false ∧ ¬prect.x1 < pbox.x1 := by simpa [hcover] using hpart
          rw [decide_eq_true hcover, Bool.or_true, hflags.1, Bool.false_or,
            decide_eq_false hflags.2]
          by_cases hright : pbox.x2 ≥ prect.x2
          · -- all columns of the rectangle are in the box
            rw [if_pos hright]
            refine h.tells_finish true hbottom (fun p hp hy hy' ↦ ?_) (fun hy ↦ ?_) hnext
            · refine iff_of_true ((hmem hp hy).mpr (.inl ((hrow hy hy').mpr ⟨?_, ?_⟩))) rfl
              · exact (not_lt.mp hflags.2).trans hp.1.1
              · exact hp.1.2.trans_le hright
            · obtain ⟨hin, -, -⟩ | ⟨-, hout, -⟩ | ⟨-, -, heq⟩ := h.flags
              · exact hin
              · exact absurd (hflags.1.symm.trans hout) Bool.false_ne_true
              · omega
          · -- the column behind the box is not in the band
            rw [if_neg hright]
            refine .inr (.inr ⟨rfl, h.room.2, ⟨_, hleft, ?_⟩, (pbox.x2, y), ?_, ?_⟩)
            · refine (hmem hleft le_rfl).mpr (.inl ((hrow le_rfl hbottom).mpr ⟨?_, ?_⟩))
              · exact not_lt.mp hflags.2
              · exact not_le.mp hfar
            · exact ⟨⟨(not_le.mp hfar).le, not_le.mp hright⟩, h.room⟩
            · rw [hmem ⟨⟨(not_le.mp hfar).le, not_le.mp hright⟩, h.room⟩ le_rfl, not_or]
              exact ⟨fun hbox ↦ lt_irrefl _ hbox.1.2, h.banded.not_mem_tail le_rfl hbottom⟩
        · -- no column of the rectangle is in the band
          have hwide := h.banded.head.1
          have hgap : prect.x1 < pbox.x1 := hprect.1.trans_le (not_lt.mp hcover)
          have hright : pbox.x2 ≥ prect.x2 := (not_lt.mp hcover).trans hwide.le
          rw [if_pos hright, hcolumn hgap, decide_eq_false hcover, decide_eq_true hgap,
            Bool.or_true, Bool.or_false]
          refine h.tells_finish false hbottom (fun p hp hy hy' ↦ ?_)
            (fun _ ↦ hcolumn hgap) hnext
          rw [hmem hp hy, hrow hy hy']
          refine iff_of_false (fun hin ↦ ?_) Bool.false_ne_true
          have hbefore : p.1 < pbox.x1 := hp.1.2.trans_le (not_lt.mp hcover)
          exact hin.elim (fun hin ↦ hbefore.not_ge hin.1)
            (h.banded.not_mem_tail (hbefore.le.trans hwide.le) hy')

theorem coverLoop_tells (hprect : prect.HasArea) (h : Scans S prect y partIn partOut rects) :
    Tells S prect (coverLoop prect y partIn partOut rects) := by
  induction rects generalizing y partIn partOut with
  | nil =>
    cases partIn with
    | true => exact h.tells_part hprect rfl (by simp)
    | false => exact h.tells_out rfl (by simp)
  | cons pbox more ih =>
    rw [coverLoop]
    split
    · rename_i hpassed
      exact ih (h.tail fun p _ hy hbox ↦ (hbox.2.2.trans_le hpassed).not_ge hy)
    · rename_i hpassed
      split
      · rename_i habove
        have hgap {p : ℤ × ℤ} (hy : p.2 < pbox.y1) : p ∉ points (pbox :: more) :=
          fun hp ↦ hy.not_ge (h.banded.le_of_mem hp)
        split
        · rename_i hstop
          cases partIn with
          | true => exact h.tells_part hprect rfl (hgap habove)
          | false =>
            have hend := hstop.resolve_left Bool.false_ne_true
            exact h.tells_out rfl fun p hp _ ↦ hgap (hp.2.2.trans_le hend)
        · rename_i hstop
          rw [not_or] at hstop
          obtain rfl : partIn = false := Bool.eq_false_iff.mpr hstop.1
          refine coverBox_tells hprect ?_ le_rfl h.banded.head.2 fun y partIn partOut h ↦ ih h
          have hy := h.room.1.trans_lt habove
          refine ⟨h.banded, ⟨hy.le, not_le.mp hstop.2⟩, fun p hp habv ↦ ?_, fun p hp hrow ↦
            h.boxes p hp (habove.le.trans hrow), .inr (.inl ⟨rfl, rfl, hy⟩)⟩
          by_cases hrow : p.2 < y
          · exact h.above p hp hrow
          · rw [h.boxes p hp (not_lt.mp hrow)]
            exact iff_of_false (hgap habv) Bool.false_ne_true
      · rename_i habove
        exact coverBox_tells hprect h (not_lt.mp habove) (not_le.mp hpassed)
          fun y partIn partOut h ↦ ih h

def Contained.Says (S : Set (ℤ × ℤ)) (prect : Rect) : Contained → Prop
  | .out => ∀ p ∈ prect.points, p ∉ S
  | .inside => prect.points ⊆ S
  | .part => (∃ p ∈ prect.points, p ∈ S) ∧ ∃ p ∈ prect.points, p ∉ S

theorem says_of_tells {found : Bool × ℤ} (h : Tells S prect found) :
    (if found.1 = true then if found.2 < prect.y2 then Contained.part else .inside else .out).Says S
      prect := by
  obtain ⟨hout, hall⟩ | ⟨hin, hend, hall⟩ | ⟨hin, hmore, hpart⟩ := h
  · rw [if_neg (Bool.eq_false_iff.mp hout)]
    exact hall
  · rw [if_pos hin, if_neg hend.not_gt]
    exact hall
  · rw [if_pos hin, if_pos hmore]
    exact hpart

theorem part_of_not_subsumes (h : r.HasArea) (hprect : prect.HasArea)
    (hmeet : extentCheck r prect = true) (hsub : ¬subsumes r prect = true) :
    (∃ p ∈ prect.points, p ∈ r.points) ∧ ∃ p ∈ prect.points, p ∉ r.points := by
  obtain ⟨hx, hy⟩ := h
  obtain ⟨hx', hy'⟩ := hprect
  rw [extentCheck, decide_eq_true_eq] at hmeet
  rw [subsumes, decide_eq_true_eq] at hsub
  simp only [Rect.points, Set.mem_ofPred_eq, Prod.exists]
  constructor
  · refine ⟨max r.x1 prect.x1, max r.y1 prect.y1, ?_, ?_⟩
    · omega
    · omega
  · by_cases hcorner : r.x1 ≤ prect.x1 ∧ r.y1 ≤ prect.y1
    · exact ⟨prect.x2 - 1, prect.y2 - 1, by omega, by omega⟩
    · exact ⟨prect.x1, prect.y1, by omega, by omega⟩

theorem rtguiRegionContainsRectangle_says (h : reg.Valid) (hprect : prect.HasArea) :
    (rtguiRegionContainsRectangle reg prect).Says reg.pixels prect := by
  rw [rtguiRegionContainsRectangle]
  split
  · rename_i hout
    intro p hp hmem
    obtain hnil | hoff := hout
    · rw [pixels, hnil, points_nil] at hmem
      exact hmem
    · have hboth : p ∈ reg.extents.points ∩ prect.points := ⟨pixels_subset h hmem, hp⟩
      rw [disjoint_of_extentCheck hoff] at hboth
      exact hboth
  · rename_i hmeet
    have hextent : extentCheck reg.extents prect = true := by
      by_contra hoff
      exact hmeet (.inr hoff)
    split
    · rename_i hone
      have hpixels := pixels_of_data (h.single hone)
      have harea := h.hasArea (h.single hone)
      split
      · rename_i hsub
        change prect.points ⊆ reg.pixels
        rw [hpixels]
        exact subset_of_subsumes hsub
      · rename_i hsub
        change (∃ p ∈ prect.points, p ∈ reg.pixels) ∧ ∃ p ∈ prect.points, p ∉ reg.pixels
        rw [hpixels]
        exact part_of_not_subsumes harea hprect hextent hsub
    · refine says_of_tells (coverLoop_tells hprect ?_)
      refine ⟨h.represents.banded, ⟨le_rfl, hprect.2⟩, fun p hp hy ↦ ?_, fun p _ _ ↦ Iff.rfl,
        .inr (.inr ⟨rfl, rfl, rfl⟩)⟩
      exact absurd hp.2.1 hy.not_ge

/-- The answer is exact: inside where the region has all of the rectangle, out where it has
nothing of it, and otherwise part. -/
theorem rtguiRegionContainsRectangle_sound (h : reg.Valid) (hprect : prect.HasArea) :
    (rtguiRegionContainsRectangle reg prect = .inside ↔ prect.points ⊆ reg.pixels) ∧
      (rtguiRegionContainsRectangle reg prect = .out ↔ prect.points ∩ reg.pixels = ∅) := by
  have hsays := rtguiRegionContainsRectangle_says h hprect
  have hcorner := mem_points_left hprect ⟨le_rfl, hprect.2⟩
  cases hanswer : rtguiRegionContainsRectangle reg prect with
  | out =>
    rw [hanswer] at hsays
    refine ⟨iff_of_false (by simp) fun hall ↦ hsays _ hcorner (hall hcorner), iff_of_true rfl ?_⟩
    exact Set.eq_empty_of_forall_notMem fun p hp ↦ hsays p hp.1 hp.2
  | inside =>
    rw [hanswer] at hsays
    refine ⟨iff_of_true rfl hsays, iff_of_false (by simp) fun hempty ↦ ?_⟩
    exact Set.eq_empty_iff_forall_notMem.mp hempty _ ⟨hcorner, hsays hcorner⟩
  | part =>
    rw [hanswer] at hsays
    obtain ⟨⟨p, hp, hin⟩, q, hq, hout⟩ := hsays
    refine ⟨iff_of_false (by simp) fun hall ↦ hout (hall hq), iff_of_false (by simp) fun hempty ↦ ?_⟩
    exact Set.eq_empty_iff_forall_notMem.mp hempty p ⟨hp, hin⟩

theorem rtguiRegionContainsRectangle_corner :
    Rect.points ⟨1, 2, 3, 6⟩ ⊆ corner.pixels ∧ Rect.points ⟨5, 5, 7, 7⟩ ∩ corner.pixels = ∅ ∧
      ¬Rect.points ⟨3, 3, 6, 6⟩ ⊆ corner.pixels :=
  ⟨(rtguiRegionContainsRectangle_sound valid_corner ⟨by decide, by decide⟩).1.mp (by decide),
    (rtguiRegionContainsRectangle_sound valid_corner ⟨by decide, by decide⟩).2.mp (by decide),
    fun h ↦ absurd ((rtguiRegionContainsRectangle_sound valid_corner
      ⟨by decide, by decide⟩).1.mpr h) (by decide)⟩

end ContainsRectangle

end GiantGecko.Gui.Region
