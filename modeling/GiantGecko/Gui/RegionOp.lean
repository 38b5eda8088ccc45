import GiantGecko.Gui.RegionOverlap

namespace GiantGecko.Gui.Region

open Foundation.Bands

variable {T : Set (ℤ × ℤ)} {y y' top bot : ℤ} {n : ℕ} {built : Built} {r s : Rect}
  {rects done prev band : List Rect}

section Building

/-- The new rectangles when the rows above `y` are done; only those of the last band may reach
down to `y`. -/
structure IsBuilt (T : Set (ℤ × ℤ)) (y : ℤ) (built : Built) : Prop where
  pixels : ∀ p, p ∈ points built.1 ↔ p ∈ T ∧ p.2 < y
  banded : Banded built.1
  coalesced : Coalesced built.1
  last : ∃ done prev top bot, built.1 = done ++ prev ∧ done.length = built.2 ∧
    InBand top bot prev ∧ ∀ r ∈ done, r.y2 < y

theorem IsBuilt.bottom_le (h : IsBuilt T y built) (hr : r ∈ built.1) : r.y2 ≤ y := by
  have hrow := ((h.pixels _).mp (last_mem (h.banded.area r hr) hr)).2
  change r.y2 - 1 < y at hrow
  omega

theorem IsBuilt.skip (h : IsBuilt T y built) (hle : y ≤ y') (hT : ∀ p ∈ T, p.2 < y' → p.2 < y) :
    IsBuilt T y' built := by
  obtain ⟨done, prev, top, bot, heq, hlength, hprev, hdone⟩ := h.last
  refine ⟨fun p ↦ (h.pixels p).trans ?_, h.banded, h.coalesced,
    done, prev, top, bot, heq, hlength, hprev, fun r hr ↦ (hdone r hr).trans_le hle⟩
  exact and_congr_right fun hp ↦ ⟨fun hrow ↦ hrow.trans_le hle, hT p hp⟩

theorem isBuilt_nil (hT : ∀ p ∈ T, y ≤ p.2) : IsBuilt T y ([], 0) := by
  refine ⟨fun p ↦ ?_, .nil, by simp [Coalesced], [], [], 0, 0, rfl, rfl, InBand.nil, by simp⟩
  rw [points_nil]
  exact ⟨fun h ↦ h.elim, fun h ↦ absurd h.2 (hT p h.1).not_gt⟩

/-- The current band goes on where the previous one ends, with the same sides. -/
def Mergeable (prev band : List Rect) (top : ℤ) : Prop :=
  prev ≠ [] ∧ (∀ r ∈ prev, r.y2 = top) ∧ prev.map span = band.map span

theorem addBand_cases {prevTop prevBot : ℤ} (done : List Rect) (hprev : InBand prevTop prevBot prev)
    (hband : InBand top bot band) :
    (addBand (done ++ prev, done.length) band = (done ++ prev ++ band, (done ++ prev).length) ∧
        (band ≠ [] → ¬Mergeable prev band top)) ∨
      (addBand (done ++ prev, done.length) band =
          (done ++ prev.map ({· with y2 := bot}), done.length) ∧ Mergeable prev band top) := by
  have hprevs : ((done ++ prev ++ band).take (done ++ prev).length).drop done.length = prev := by
    rw [List.take_left, List.drop_left]
  have hbands : (done ++ prev ++ band).drop (done ++ prev).length = band := List.drop_left
  rw [addBand]
  split
  · rename_i hlength
    rw [coalesce, hprevs, hbands]
    cases prev with
    | nil => exact .inl ⟨rfl, fun _ h ↦ h.1 rfl⟩
    | cons p more =>
      cases band with
      | nil => exact .inl ⟨rfl, fun h ↦ absurd rfl h⟩
      | cons c more' =>
        have htop : c.y1 = top := (hband c List.mem_cons_self).1
        have hbot : c.y2 = bot := (hband c List.mem_cons_self).2
        simp only
        split
        · rename_i hne
          refine .inl ⟨rfl, fun _ h ↦ hne ?_⟩
          rw [htop]
          exact h.2.1 p List.mem_cons_self
        · rename_i htouch
          split
          · rename_i hne
            exact .inl ⟨rfl, fun _ h ↦ hne h.2.2⟩
          · rename_i hspans
            refine .inr ⟨?_, List.cons_ne_nil _ _, fun r hr ↦ ?_, not_ne_iff.mp hspans⟩
            · rw [hbot, List.append_assoc, List.take_left]
            · rw [(hprev r hr).2, ← (hprev p List.mem_cons_self).2, not_ne_iff.mp htouch, htop]
  · rename_i hlength
    refine .inl ⟨rfl, fun _ h ↦ hlength ?_⟩
    have hcount := congrArg List.length h.2.2
    rw [List.length_map, List.length_map] at hcount
    rw [List.length_append]
    omega

structure Below (T : Set (ℤ × ℤ)) (top bot : ℤ) (band : List Rect) : Prop where
  room : top < bot
  inBand : InBand top bot band
  apart : Apart band
  rows : ∀ x z, top ≤ z → z < bot → ((x, z) ∈ T ↔ x ∈ columns band)

theorem Below.pixels (h : Below T top bot band) (hrects : ∀ p, p ∈ points rects ↔ p ∈ T ∧ p.2 < top)
    (p : ℤ × ℤ) : p ∈ points (rects ++ band) ↔ p ∈ T ∧ p.2 < bot := by
  obtain ⟨x, z⟩ := p
  rw [points_append, Set.mem_union, hrects, mem_points_band h.inBand]
  have hroom := h.room
  constructor
  · rintro (⟨hT, hz⟩ | ⟨hx, htop, hbot⟩)
    · exact ⟨hT, hz.trans hroom⟩
    · exact ⟨(h.rows x z htop hbot).mpr hx, hbot⟩
  · rintro ⟨hT, hbot⟩
    by_cases hz : z < top
    · exact .inl ⟨hT, hz⟩
    · exact .inr ⟨(h.rows x z (not_lt.mp hz) hbot).mp hT, not_lt.mp hz, hbot⟩

theorem coalesced_of_below {rects' : List Rect} (h : Coalesced rects)
    (hrows : ∀ x z, z < top → ((x, z) ∈ points rects ↔ (x, z) ∈ points rects'))
    (htop : r.y1 < top) (hr : ∃ s ∈ rects, s.y1 = r.y1) : Breaks (points rects') r.y1 := by
  obtain ⟨s, hs, heq⟩ := hr
  rw [← heq] at htop ⊢
  exact (h s hs).congr fun x z hz _ ↦ hrows x z (hz.trans_lt htop)

theorem IsBuilt.top_lt (h : IsBuilt T top built) (hr : r ∈ built.1) : r.y1 < top :=
  (h.banded.area r hr).2.trans_le (h.bottom_le hr)

theorem mergeable_of_not_breaks {prevTop prevBot : ℤ}
    (h : IsBuilt T top (done ++ prev, done.length)) (hprev : InBand prevTop prevBot prev)
    (hdone : ∀ r ∈ done, r.y2 < top) (hband : Apart band) (hne : band ≠ [])
    (hrows : ∀ x, (x, top - 1) ∈ points (done ++ prev) ↔ x ∈ columns band) :
    Mergeable prev band top := by
  have hcover {x : ℤ} (hx : x ∈ columns band) : x ∈ columns prev ∧ prevBot = top := by
    obtain ⟨s, hs, hcolumn, -, hbottom⟩ := (hrows x).mpr hx
    have hle := h.bottom_le hs
    change top - 1 < s.y2 at hbottom
    obtain hs | hs := List.mem_append.mp hs
    · have hlt := hdone s hs
      omega
    · refine ⟨⟨s, hs, hcolumn⟩, ?_⟩
      rw [← (hprev s hs).2]
      omega
  obtain ⟨c, more, rfl⟩ := List.exists_cons_of_ne_nil hne
  obtain ⟨⟨p, hp, -⟩, hbot⟩ := hcover (mem_columns_of_head hband)
  have hbanded : Banded prev := (banded_append.mp h.banded).2.1
  refine ⟨List.ne_nil_of_mem hp, fun r hr ↦ (hprev r hr).2.trans hbot, ?_⟩
  refine (hbanded.apart hprev).spans_eq hband (Set.ext fun x ↦ ⟨fun hx ↦ (hrows x).mp ?_,
    fun hx ↦ (hcover hx).1⟩)
  rw [points_append]
  refine .inr ((mem_points_band hprev).mpr ⟨hx, ?_, ?_⟩)
  · have harea := (hbanded.area p hp).2
    rw [(hprev p hp).1, (hprev p hp).2] at harea
    change prevTop ≤ top - 1
    omega
  · change top - 1 < prevBot
    omega

theorem isBuilt_append (h : IsBuilt T top (rects, n)) (hband : Below T top bot band)
    (hbreaks : band ≠ [] → Breaks (points (rects ++ band)) top) :
    IsBuilt T bot (rects ++ band, rects.length) := by
  have hroom := hband.room
  refine ⟨hband.pixels h.pixels, ?_, fun r hr ↦ ?_, rects, band, top, bot, rfl, rfl, hband.inBand,
    fun r hr ↦ (h.bottom_le hr).trans_lt hroom⟩
  · refine banded_append.mpr ⟨h.banded, hband.apart.banded hband.inBand hroom, fun r hr s hs ↦ ?_⟩
    refine .inr ((h.bottom_le hr).trans ?_)
    rw [(hband.inBand s hs).1]
  · obtain hr | hr := List.mem_append.mp hr
    · refine coalesced_of_below h.coalesced (fun x z hz ↦ ?_) (h.top_lt hr) ⟨r, hr, rfl⟩
      rw [hband.pixels h.pixels, h.pixels]
      exact and_congr_right fun _ ↦ ⟨fun _ ↦ hz.trans hroom, fun _ ↦ hz⟩
    · rw [(hband.inBand r hr).1]
      exact hbreaks (List.ne_nil_of_mem hr)

theorem span_stretch : (prev.map fun r : Rect ↦ { r with y2 := bot }).map span = prev.map span := by
  rw [List.map_map]
  rfl

theorem isBuilt_merge {prevTop prevBot : ℤ} (h : IsBuilt T top (done ++ prev, done.length))
    (hprev : InBand prevTop prevBot prev) (hdone : ∀ r ∈ done, r.y2 < top)
    (hband : Below T top bot band) (hmerge : Mergeable prev band top) :
    IsBuilt T bot (done ++ prev.map ({· with y2 := bot}), done.length) := by
  obtain ⟨hne, hbottom, hspans⟩ := hmerge
  have hroom := hband.room
  obtain ⟨hbanded, hbandedPrev, hfollows⟩ := banded_append.mp h.banded
  obtain ⟨p, more, rfl⟩ := List.exists_cons_of_ne_nil hne
  have hprevBot : prevBot = top :=
    ((hprev p List.mem_cons_self).2.symm.trans (hbottom p List.mem_cons_self))
  have hprevTop : prevTop < top := by
    rw [← (hprev p List.mem_cons_self).1]
    exact h.top_lt (List.mem_append_right _ List.mem_cons_self)
  set stretched := (p :: more).map fun r : Rect ↦ { r with y2 := bot }
  have hstretched : InBand prevTop bot stretched := by
    intro s hs
    obtain ⟨r, hr, rfl⟩ := List.mem_map.mp hs
    exact ⟨(hprev r hr).1, rfl⟩
  have hcolumns : columns stretched = columns band :=
    columns_eq_of_spans (span_stretch.trans hspans)
  have hpixels (q : ℤ × ℤ) : q ∈ points (done ++ stretched) ↔ q ∈ T ∧ q.2 < bot := by
    rw [← hband.pixels h.pixels, points_append, points_append, points_append, Set.union_assoc,
      Set.mem_union, Set.mem_union, Set.mem_union, mem_points_band hstretched,
      mem_points_band hprev, mem_points_band hband.inBand, hcolumns, columns_eq_of_spans hspans,
      ← and_or_left]
    refine or_congr_right (and_congr_right fun _ ↦ ?_)
    omega
  refine ⟨hpixels, banded_append.mpr ⟨hbanded, ?_, fun r hr s hs ↦ .inr ?_⟩, fun r hr ↦ ?_,
    done, stretched, prevTop, bot, rfl, rfl, hstretched, fun r hr ↦ (hdone r hr).trans hroom⟩
  · refine ((hbandedPrev.apart hprev).of_spans span_stretch.symm).banded hstretched ?_
    exact hprevTop.trans hroom
  · obtain ⟨t, ht, rfl⟩ := List.mem_map.mp hs
    obtain ⟨-, hsame, -⟩ | hbelow := hfollows r hr t ht
    · have hlt := hdone r hr
      rw [hsame, hbottom t ht] at hlt
      exact absurd hlt (lt_irrefl _)
    · exact hbelow
  · obtain ⟨s, hs, htop⟩ : ∃ s ∈ done ++ p :: more, s.y1 = r.y1 := by
      obtain hr | hr := List.mem_append.mp hr
      · exact ⟨r, List.mem_append_left _ hr, rfl⟩
      · obtain ⟨t, ht, rfl⟩ := List.mem_map.mp hr
        exact ⟨t, List.mem_append_right _ ht, rfl⟩
    refine coalesced_of_below h.coalesced (fun x z hz ↦ ?_) (htop ▸ h.top_lt hs) ⟨s, hs, htop⟩
    rw [hpixels, h.pixels]
    exact and_congr_right fun _ ↦ ⟨fun _ ↦ hz.trans hroom, fun _ ↦ hz⟩

theorem addBand_isBuilt (h : IsBuilt T top built) (hband : Below T top bot band) :
    IsBuilt T bot (addBand built band) := by
  obtain ⟨rects, prevBand⟩ := built
  obtain ⟨done, prev, prevTop, prevBot, heq, hlength, hprev, hdone⟩ := h.last
  obtain rfl : rects = done ++ prev := heq
  obtain rfl : done.length = prevBand := hlength
  obtain ⟨happend, hnot⟩ | ⟨hmerged, hmerge⟩ := addBand_cases done hprev hband.inBand
  · rw [happend]
    refine isBuilt_append h hband fun hne ↦ ?_
    by_contra hbreaks
    refine hnot hne (mergeable_of_not_breaks h hprev hdone hband.apart hne fun x ↦ ?_)
    have hsame := not_exists_not.mp hbreaks x
    have hroom := hband.room
    rw [hband.pixels h.pixels, hband.pixels h.pixels] at hsame
    rw [h.pixels, ← hband.rows x top le_rfl hroom]
    have habove : top - 1 < top := by omega
    constructor
    · exact fun hx ↦ (hsame.mp ⟨hx.1, habove.trans hroom⟩).1
    · exact fun hx ↦ ⟨(hsame.mpr ⟨hx, hroom⟩).1, habove⟩
  · rw [hmerged]
    exact isBuilt_merge h hprev hdone hband hmerge

end Building

section Loop

variable {o : Prop → Prop → Prop} {op : Op} {S S1 S2 : Set (ℤ × ℤ)} {a b : Rect}
  {more more1 more2 r1 r2 : List Rect} {append : Bool}

/-- The operation on sets of pixels that the arguments of `rtgui_op` stand for. -/
structure Combines (o : Prop → Prop → Prop) (op : Op) : Prop where
  overlaps : Overlaps o op.overlapFunc
  none : ¬o False False
  left : ∀ p, o p False ↔ op.appendNon1 = true ∧ p
  right : ∀ q, o False q ↔ op.appendNon2 = true ∧ q

/-- What is left of a source when the rows above `y` are done. -/
structure Source (S : Set (ℤ × ℤ)) (y : ℤ) (rects : List Rect) : Prop where
  banded : Banded rects
  breaks : ∀ r ∈ rects, Breaks S r.y1
  ahead : ∀ r ∈ rects, y < r.y2
  rows : ∀ p, y ≤ p.2 → (p ∈ S ↔ p ∈ points rects)

theorem Source.others (h : Source S y (a :: more)) : Source S a.y2 (otherBands a more) := by
  have hahead := h.ahead a List.mem_cons_self
  refine ⟨h.banded.others, fun r hr ↦ h.breaks r (List.mem_cons_of_mem _ (otherBands_subset hr)),
    fun r hr ↦ (h.banded.below_firstBand hr).trans_lt (h.banded.others.area r hr).2,
    fun p hp ↦ ?_⟩
  rw [h.rows p (hahead.le.trans hp), mem_points_otherBands h.banded, and_iff_left hp]

theorem Source.advance (h : Source S y (a :: more)) (hle : y ≤ y') (hbottom : y' ≤ a.y2) :
    Source S y' (if a.y2 = y' then otherBands a more else a :: more) := by
  split
  · rename_i heq
    rw [← heq]
    exact h.others
  · rename_i hne
    refine ⟨h.banded, h.breaks, fun r hr ↦ ?_, fun p hp ↦ h.rows p (hle.trans hp)⟩
    obtain rfl | hr := List.mem_cons.mp hr
    · omega
    · obtain ⟨-, hsame, -⟩ | hbelow := h.banded.follows hr
      · omega
      · have harea := (h.banded.tail.area r hr).2
        omega

theorem Source.above (h : Source S y (a :: more)) {x z : ℤ} (hz : y ≤ z) (htop : z < a.y1) :
    (x, z) ∉ S := fun hmem ↦ htop.not_ge (h.banded.le_of_mem ((h.rows (x, z) hz).mp hmem))

theorem Source.inFirst (h : Source S y (a :: more)) {x z : ℤ} (hz : y ≤ z) (htop : a.y1 ≤ z)
    (hbottom : z < a.y2) : (x, z) ∈ S ↔ x ∈ columns (firstBand a more) := by
  rw [h.rows (x, z) hz, mem_columns_firstBand h.banded htop hbottom]

theorem Source.below (h : Source S y (a :: more)) (htop : a.y1 ≤ top) (hy : y ≤ top)
    (hbottom : bot ≤ a.y2) (hroom : top < bot)
    (hT : ∀ x z, y ≤ z → z < bot → ((x, z) ∈ T ↔ (x, z) ∈ S)) :
    Below T top bot ((firstBand a more).map ({· with y1 := top, y2 := bot})) := by
  have hspans : ((firstBand a more).map fun r : Rect ↦ { r with y1 := top, y2 := bot }).map span =
      (firstBand a more).map span := by
    rw [List.map_map]
    rfl
  refine ⟨hroom, fun s hs ↦ ?_, (h.banded.first.apart h.banded.inBand_firstBand).of_spans hspans.symm,
    fun x z hz hbot ↦ ?_⟩
  · obtain ⟨r, -, rfl⟩ := List.mem_map.mp hs
    exact ⟨rfl, rfl⟩
  · rw [hT x z (hy.trans hz) hbot, columns_eq_of_spans hspans]
    exact h.inFirst (hy.trans hz) (htop.trans hz) (hbot.trans_le hbottom)

theorem alone_isBuilt (append : Bool) (hsource : Source S y (a :: more)) (h : IsBuilt T y built)
    (hle : y ≤ bot) (hbottom : bot ≤ a.y2)
    (hT : ∀ x z, y ≤ z → z < bot → ((x, z) ∈ T ↔ append = true ∧ (x, z) ∈ S)) :
    IsBuilt T bot (if append = true ∧ max a.y1 y < bot then
      appendNonO built (firstBand a more) (max a.y1 y) bot else built) := by
  split
  · rename_i hadd
    have habove : IsBuilt T (max a.y1 y) built := by
      refine h.skip (le_max_right _ _) fun ⟨x, z⟩ hmem hz ↦ ?_
      by_contra hnot
      have hy := not_lt.mp hnot
      change z < max a.y1 y at hz
      exact hsource.above hy (by omega) ((hT x z hy (by omega)).mp hmem).2
    refine addBand_isBuilt habove (hsource.below (le_max_left _ _) (le_max_right _ _) hbottom hadd.2
      fun x z hy hz ↦ ?_)
    rw [hT x z hy hz, and_iff_right hadd.1]
  · rename_i hskip
    refine h.skip hle fun ⟨x, z⟩ hmem hz ↦ ?_
    by_contra hnot
    have hy := not_lt.mp hnot
    obtain ⟨happend, hS⟩ := (hT x z hy hz).mp hmem
    change z < bot at hz
    have htop := not_lt.mp fun hlt ↦ hskip ⟨happend, hlt⟩
    exact hsource.above hy (by omega) hS

def combined (o : Prop → Prop → Prop) (S1 S2 : Set (ℤ × ℤ)) : Set (ℤ × ℤ) :=
  {p | o (p ∈ S1) (p ∈ S2)}

theorem mem_combined {p : ℤ × ℤ} : p ∈ combined o S1 S2 ↔ o (p ∈ S1) (p ∈ S2) := Iff.rfl

theorem Combines.alone_left (hop : Combines o op) (S1 : Set (ℤ × ℤ)) {p : ℤ × ℤ} (h : p ∉ S2) :
    p ∈ combined o S1 S2 ↔ op.appendNon1 = true ∧ p ∈ S1 := by
  rw [mem_combined, eq_false h, hop.left]

theorem Combines.alone_right (hop : Combines o op) (S2 : Set (ℤ × ℤ)) {p : ℤ × ℤ} (h : p ∉ S1) :
    p ∈ combined o S1 S2 ↔ op.appendNon2 = true ∧ p ∈ S2 := by
  rw [mem_combined, eq_false h, hop.right]

theorem nonOverlapping_isBuilt (hop : Combines o op) (h1 : Source S1 y (a :: more1))
    (h2 : Source S2 y (b :: more2)) (h : IsBuilt (combined o S1 S2) y built)
    (hle : y ≤ max a.y1 b.y1) :
    IsBuilt (combined o S1 S2) (min (max a.y1 b.y1) (min a.y2 b.y2))
      (nonOverlapping op (firstBand a more1) (firstBand b more2) a b y built) := by
  have hahead1 := h1.ahead a List.mem_cons_self
  have hahead2 := h2.ahead b List.mem_cons_self
  have harea1 := h1.banded.head.2
  have harea2 := h2.banded.head.2
  rw [nonOverlapping]
  split
  · rename_i hlt
    have hrow : min (max a.y1 b.y1) (min a.y2 b.y2) = min a.y2 b.y1 := by omega
    rw [hrow]
    refine alone_isBuilt _ h1 h (by omega) (min_le_left _ _) fun x z hy hz ↦ ?_
    exact hop.alone_left _ (h2.above hy (by omega))
  · rename_i hge
    split
    · rename_i hlt
      have hrow : min (max a.y1 b.y1) (min a.y2 b.y2) = min b.y2 a.y1 := by omega
      rw [hrow]
      refine alone_isBuilt _ h2 h (by omega) (min_le_left _ _) fun x z hy hz ↦ ?_
      exact hop.alone_right _ (h1.above hy (by omega))
    · rename_i hge'
      refine h.skip (by omega) fun ⟨x, z⟩ hmem hz ↦ ?_
      by_contra hnot
      change z < min (max a.y1 b.y1) (min a.y2 b.y2) at hz
      have hy := not_lt.mp hnot
      rw [hop.alone_left _ (h2.above hy (by omega))] at hmem
      exact h1.above hy (by omega) hmem.2

theorem overlapping_isBuilt (hop : Combines o op) (h1 : Source S1 y (a :: more1))
    (h2 : Source S2 y (b :: more2)) (hle : y ≤ max a.y1 b.y1)
    (h : IsBuilt (combined o S1 S2) (min (max a.y1 b.y1) (min a.y2 b.y2)) built) :
    IsBuilt (combined o S1 S2) (min a.y2 b.y2) (overlapping op (firstBand a more1)
      (firstBand b more2) (max a.y1 b.y1) (min a.y2 b.y2) built) := by
  have hapart1 := h1.banded.first.apart h1.banded.inBand_firstBand
  have hapart2 := h2.banded.first.apart h2.banded.inBand_firstBand
  rw [overlapping]
  split
  · rename_i hroom
    rw [min_eq_left hroom.le] at h
    refine addBand_isBuilt h ⟨hroom, hop.overlaps.inBand, hop.overlaps.apart hapart1 hapart2,
      fun x z hz hbot ↦ ?_⟩
    have hne1 : firstBand a more1 ≠ [] := List.cons_ne_nil _ _
    have hne2 : firstBand b more2 ≠ [] := List.cons_ne_nil _ _
    rw [mem_combined, hop.overlaps.columns hne1 hne2 hapart1 hapart2,
      h1.inFirst (hle.trans hz) (by omega) (by omega), h2.inFirst (hle.trans hz) (by omega) (by omega)]
  · rename_i hroom
    rwa [min_eq_right (not_lt.mp hroom)] at h

theorem alone_represents (hsource : Source S y (a :: more)) (h : IsBuilt T y built)
    (hT : ∀ x z, y ≤ z → ((x, z) ∈ T ↔ (x, z) ∈ S)) :
    Represents (if max a.y1 y < a.y2 then
      (appendNonO built (firstBand a more) (max a.y1 y) a.y2).1 ++ otherBands a more
        else built.1) T := by
  have hahead := hsource.ahead a List.mem_cons_self
  have hroom : max a.y1 y < a.y2 := max_lt hsource.banded.head.2 hahead
  have hfirst := alone_isBuilt true hsource h hahead.le le_rfl
    fun x z hy _ ↦ (hT x z hy).trans (and_iff_right rfl).symm
  rw [if_pos ⟨rfl, hroom⟩] at hfirst
  rw [if_pos hroom]
  set new := appendNonO built (firstBand a more) (max a.y1 y) a.y2
  have hothers := hsource.others
  have hpixels (p : ℤ × ℤ) : p ∈ points (new.1 ++ otherBands a more) ↔ p ∈ T := by
    obtain ⟨x, z⟩ := p
    rw [points_append, Set.mem_union, hfirst.pixels]
    by_cases hz : z < a.y2
    · refine ⟨fun hp ↦ ?_, fun hp ↦ .inl ⟨hp, hz⟩⟩
      obtain hp | hp := hp
      · exact hp.1
      · exact absurd hz (hsource.banded.le_of_mem_otherBands hp).not_gt
    · have hz := not_lt.mp hz
      rw [hT x z (hahead.le.trans hz), hothers.rows (x, z) hz]
      exact or_iff_right fun hp ↦ hp.2.not_ge hz
  refine ⟨Set.ext hpixels, banded_append.mpr ⟨hfirst.banded, hothers.banded, fun r hr s hs ↦ ?_⟩,
    fun r hr ↦ ?_⟩
  · exact .inr ((hfirst.bottom_le hr).trans (hsource.banded.below_firstBand hs))
  · obtain hr | hr := List.mem_append.mp hr
    · refine coalesced_of_below hfirst.coalesced (fun x z hz ↦ ?_) (hfirst.top_lt hr) ⟨r, hr, rfl⟩
      rw [hpixels, hfirst.pixels, and_iff_left hz]
    · refine (hothers.breaks r hr).congr fun x z _ hz ↦ ?_
      have hbelow := hsource.banded.below_firstBand hr
      rw [hpixels, hT x z (by omega)]

theorem IsBuilt.represents (h : IsBuilt T y built) (hT : ∀ p ∈ T, p.2 < y) :
    Represents built.1 T :=
  ⟨Set.ext fun p ↦ (h.pixels p).trans (and_iff_left_of_imp (hT p)), h.banded, h.coalesced⟩

theorem Source.lt_of_nil (h : Source S y []) {p : ℤ × ℤ} (hp : p ∈ S) : p.2 < y := by
  by_contra hnot
  have hmem := (h.rows p (not_lt.mp hnot)).mp hp
  rw [points_nil] at hmem
  exact hmem

theorem appendRest_represents (hop : Combines o op) (h1 : Source S1 y r1) (h2 : Source S2 y r2)
    (hend : r1 = [] ∨ r2 = []) (h : IsBuilt (combined o S1 S2) y built) :
    Represents (appendRest op r1 r2 y built) (combined o S1 S2) := by
  have hdone (hnone : ∀ p, y ≤ p.2 → p ∉ combined o S1 S2) : Represents built.1 (combined o S1 S2) :=
    h.represents fun p hp ↦ not_le.mp fun hy ↦ hnone p hy hp
  have hout1 (hnil : r1 = []) {p : ℤ × ℤ} (hy : y ≤ p.2) : p ∉ S1 :=
    fun hp ↦ (Source.lt_of_nil (hnil ▸ h1) hp).not_ge hy
  have hout2 (hnil : r2 = []) {p : ℤ × ℤ} (hy : y ≤ p.2) : p ∉ S2 :=
    fun hp ↦ (Source.lt_of_nil (hnil ▸ h2) hp).not_ge hy
  obtain ⟨overlapFunc, appendNon1, appendNon2⟩ := op
  cases r1 with
  | nil =>
    have hright {p : ℤ × ℤ} (hy : y ≤ p.2) := hop.alone_right S2 (hout1 rfl hy)
    cases r2 with
    | nil => exact hdone fun p hy hp ↦ hout2 rfl hy ((hright hy).mp hp).2
    | cons b more2 =>
      cases appendNon2 with
      | false => exact hdone fun p hy hp ↦ Bool.false_ne_true ((hright hy).mp hp).1
      | true => exact alone_represents h2 h fun x z hy ↦ (hright hy).trans (and_iff_right rfl)
  | cons a more1 =>
    obtain rfl : r2 = [] := hend.resolve_left (List.cons_ne_nil _ _)
    have hleft {p : ℤ × ℤ} (hy : y ≤ p.2) := hop.alone_left S1 (hout2 rfl hy)
    cases appendNon1 with
    | false => exact hdone fun p hy hp ↦ Bool.false_ne_true ((hleft hy).mp hp).1
    | true => exact alone_represents h1 h fun x z hy ↦ (hleft hy).trans (and_iff_right rfl)

/-- The loop keeps what is done and what is left of both sources; each turn ends a band of one. -/
theorem opLoop_represents (hop : Combines o op) (h1 : Source S1 y r1) (h2 : Source S2 y r2)
    (h : IsBuilt (combined o S1 S2) y built)
    (hle : ∀ a ∈ r1, ∀ b ∈ r2, y ≤ max a.y1 b.y1) :
    Represents (opLoop op r1 r2 y built) (combined o S1 S2) := by
  fun_induction opLoop op r1 r2 y built with
  | case1 y built a more1 b more2 ytop built' ybot built'' ih =>
    have hy := hle a List.mem_cons_self b List.mem_cons_self
    have hahead1 := h1.ahead a List.mem_cons_self
    have hahead2 := h2.ahead b List.mem_cons_self
    have hbuilt := overlapping_isBuilt hop h1 h2 hy (nonOverlapping_isBuilt hop h1 h2 h hy)
    simp only [dite_eq_ite] at ih
    refine ih (h1.advance (le_min hahead1.le hahead2.le) (min_le_left _ _))
      (h2.advance (le_min hahead1.le hahead2.le) (min_le_right _ _)) hbuilt fun c hc d hd ↦ ?_
    obtain hshort | hshort : a.y2 = ybot ∨ b.y2 = ybot := by omega
    · rw [if_pos hshort] at hc
      exact (hshort ▸ h1.banded.below_firstBand hc : ybot ≤ c.y1).trans (le_max_left _ _)
    · rw [if_pos hshort] at hd
      exact (hshort ▸ h2.banded.below_firstBand hd : ybot ≤ d.y1).trans (le_max_right _ _)
  | case2 r1 r2 y built hnot =>
    refine appendRest_represents hop h1 h2 ?_ h
    cases r1 with
    | nil => exact .inl rfl
    | cons a more1 =>
      cases r2 with
      | nil => exact .inr rfl
      | cons b more2 => exact (hnot a more1 b more2 rfl rfl).elim

theorem source_of_represents (h : Represents rects S) (hy : ∀ r ∈ rects, y ≤ r.y1) :
    Source S y rects :=
  ⟨h.banded, fun r hr ↦ h.pixels ▸ h.coalesced r hr,
    fun r hr ↦ (hy r hr).trans_lt (h.banded.area r hr).2, fun p _ ↦ by rw [h.pixels]⟩

theorem opLoop_from_start (hop : Combines o op) (h1 : Represents (a :: more1) S1)
    (h2 : Represents (b :: more2) S2) :
    Represents (opLoop op (a :: more1) (b :: more2) (min a.y1 b.y1) ([], 0)) (combined o S1 S2) := by
  have htop1 {r : Rect} (hr : r ∈ a :: more1) : min a.y1 b.y1 ≤ r.y1 :=
    (min_le_left _ _).trans (h1.banded.top_le hr)
  have htop2 {r : Rect} (hr : r ∈ b :: more2) : min a.y1 b.y1 ≤ r.y1 :=
    (min_le_right _ _).trans (h2.banded.top_le hr)
  refine opLoop_represents hop (source_of_represents h1 fun r hr ↦ htop1 hr)
    (source_of_represents h2 fun r hr ↦ htop2 hr) (isBuilt_nil fun p hp ↦ ?_) fun c hc d _ ↦ (htop1 hc).trans (le_max_left _ _)
  by_contra hnot
  have hout1 : p ∉ S1 := fun hmem ↦ by
    rw [← h1.pixels] at hmem
    obtain ⟨r, hr, -, hrow, -⟩ := hmem
    exact hnot ((htop1 hr).trans hrow)
  rw [hop.alone_right _ hout1, ← h2.pixels] at hp
  obtain ⟨-, r, hr, -, hrow, -⟩ := hp
  exact hnot ((htop2 hr).trans hrow)

theorem combines_intersect : Combines And ⟨intersectO, false, false⟩ :=
  ⟨overlaps_intersectO, fun h ↦ h.1, by simp, by simp⟩

theorem combines_union : Combines Or ⟨unionO, true, true⟩ :=
  ⟨overlaps_unionO, by simp, by simp, by simp⟩

theorem combines_subtract : Combines (fun p q ↦ p ∧ ¬q) ⟨subtractO, true, false⟩ :=
  ⟨overlaps_subtractO, fun h ↦ h.1, by simp, by simp⟩

end Loop

end GiantGecko.Gui.Region
