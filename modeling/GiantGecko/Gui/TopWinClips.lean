import GiantGecko.Gui.RegionSound
import GiantGecko.Gui.TopWinSound

namespace GiantGecko.Gui.TopWin

open Foundation.Bands Foundation.Forest Region

variable {screen : Rect} {tops tops' : Windows} {wid : ℕ} {w topwin : RtguiTopwin}
  {ws ws' : List RtguiTopwin} {l : Loc RtguiTopwin} {ex : ℕ → Prop} {left right : Windows}
  {f : RtguiTopwin → RtguiTopwin} {flag : Bool × Bool} {S : Set (ℤ × ℤ)} {available : Region}
  {P : ℕ × Rect × Rect → Prop}

def drawn (tops : Windows) : List RtguiTopwin := Loc.visit RtguiTopwin.shown tops

/-- Each window may paint where none before it is. -/
def Clipped : Set (ℤ × ℤ) → List RtguiTopwin → Prop
  | _, [] => True
  | S, w :: ws =>
    (w.outerClip.Valid ∧ w.outerClip.pixels = w.outerExtent.points ∩ S) ∧
      Clipped (S \ w.extent.points) ws

theorem Clipped.apply {before after : List RtguiTopwin} (h : Clipped S (before ++ w :: after)) :
    w.outerClip.Valid ∧ w.outerClip.pixels =
      w.outerExtent.points ∩ (S \ {p | ∃ b ∈ before, p ∈ b.extent.points}) := by
  induction before generalizing S with
  | nil => simpa using h.1
  | cons b before ih =>
    obtain ⟨hvalid, hpixels⟩ := ih h.2
    refine ⟨hvalid, hpixels.trans ?_⟩
    congr 1
    ext p
    simp only [Set.mem_sdiff, Set.mem_ofPred_eq, List.exists_mem_cons_iff, not_or]
    tauto

section UpdateClip

theorem clipped_pass (havailable : available.Valid) (hpixels : available.pixels = S)
    (harea : ∀ w ∈ ws, w.extent.HasArea ∧ w.outerExtent.HasArea) :
    Clipped S (Loc.pass clipToRegion available ws).2 := by
  induction ws generalizing available S with
  | nil => trivial
  | cons w ws ih =>
    obtain ⟨⟨hextent, houter⟩, hmore⟩ := List.forall_mem_cons.mp harea
    have hextents : (rtguiRegionInitWithExtents w.outerExtent).pixels = w.outerExtent.points :=
      pixels_of_data rfl
    have hrest := rtguiRegionSubtractRect_sound available havailable hextent
    rw [hpixels] at hrest
    refine ⟨?_, ih hrest.1 hrest.2 hmore⟩
    rw [clipToRegion, ← hpixels, ← hextents]
    exact rtguiRegionIntersect_sound (fun h ↦ absurd h Bool.false_ne_true)
      (valid_initWithExtents houter) havailable

theorem getTopmostWindowShownFrom_none
    (h : ∀ t ∈ tops, t.label.shown = true → layer t.label ≠ flag) :
    getTopmostWindowShownFrom flag left tops = none := by
  fun_induction getTopmostWindowShownFrom flag left tops with
  | case1 => rfl
  | case2 => rfl
  | case3 left topwin right hshown hlayer =>
    exact absurd hlayer (h topwin (List.mem_cons_self ..) (by simpa using hshown))
  | case4 left topwin right hshown hlayer ih => exact ih (List.forall_mem_cons.mp h).2

theorem getTopmostWindowShownAll_eq {first : RoseTree RtguiTopwin} {more : Windows}
    (h : Level ex none ((first :: more).map RoseTree.label)) (hshown : first.label.shown = true) :
    rtguiTopwinGetTopmostWindowShownAll (first :: more) =
      some (getTopmostChildShown more [] [] first) := by
  have hsome (flag : Bool × Bool) (hflag : layer first.label = flag) :
      rtguiTopwinGetTopmostWindowShown (first :: more) flag =
        some (getTopmostChildShown more [] [] first) := by
    rw [rtguiTopwinGetTopmostWindowShown, getTopmostWindowShownFrom, if_neg (by simp [hshown]),
      if_pos hflag]
  have hrank (t : RoseTree RtguiTopwin) (ht : t ∈ first :: more) (hshown : t.label.shown = true) :
      rank first.label ≤ rank t.label := by
    obtain rfl | ht := List.mem_cons.mp ht
    · exact le_rfl
    · exact (List.rel_of_pairwise_cons h.pairwise (List.mem_map_of_mem ht) hshown).2
  have hnone (flag : Bool × Bool) (hflag : ∀ w, rank first.label ≤ rank w → layer w ≠ flag) :
      rtguiTopwinGetTopmostWindowShown (first :: more) flag = none :=
    getTopmostWindowShownFrom_none fun t ht hshown ↦ hflag _ (hrank t ht hshown)
  have hone := (h.under _ (List.mem_cons_self ..)).oneLayer
  rw [rtguiTopwinGetTopmostWindowShownAll]
  cases htop : first.label.onTop with
  | true =>
    have hbtm : first.label.onBtm = false := by simpa [htop] using hone
    rw [hsome (true, false) (by rw [layer, htop, hbtm]), Option.some_or]
  | false =>
    rw [hnone (true, false), Option.none_or]
    · cases hbtm : first.label.onBtm with
      | false => rw [hsome (false, false) (by rw [layer, htop, hbtm]), Option.some_or]
      | true =>
        rw [hnone (false, false), Option.none_or, hsome (false, true) (by rw [layer, htop, hbtm])]
        intro w hw hlayer
        obtain ⟨htop', hbtm'⟩ := Prod.mk.inj hlayer
        simp [rank, htop, hbtm, htop', hbtm'] at hw
    · intro w hw hlayer
      obtain ⟨htop', -⟩ := Prod.mk.inj hlayer
      simp [rank, htop, htop'] at hw
      split at hw <;> simp at hw

theorem Sound.area (h : Sound Area ex tops) :
    ∀ w ∈ Loc.labels tops, w.extent.HasArea ∧ w.outerExtent.HasArea :=
  fun w hw ↦ h.distinct.all (key w) (List.mem_map_of_mem hw)

theorem Sound.clipped_updateClip (h : Sound Area ex tops) (hscreen : screen.HasArea) :
    Clipped screen.points (drawn (rtguiTopwinUpdateClip screen tops)) := by
  cases tops with
  | nil => trivial
  | cons first more =>
    rw [rtguiTopwinUpdateClip]
    split
    · rename_i hhidden
      rw [drawn, Loc.visit_of_not (by simpa using hhidden)]
      trivial
    · rename_i hshown
      have hshown : first.label.shown = true := by simpa using hshown
      rw [getTopmostWindowShownAll_eq h.level.1 hshown]
      dsimp only
      rw [getTopmostChildShown, Loc.sweep_first hshown le_rfl, drawn]
      have hclipped := clipped_pass (valid_initWithExtents hscreen)
        (pixels_of_data (rfl : (rtguiRegionInitWithExtents screen).data = none))
        fun w hw ↦ h.area w (Loc.visit_subset (p := RtguiTopwin.shown) hw)
      rw [Loc.sweepAll_spec fun _ _ ↦ rfl] at hclipped
      exact hclipped

end UpdateClip

section Faces

/-- What of a window has to do with painting. -/
def face (w : RtguiTopwin) : Rect × Rect × Region := (w.extent, w.outerExtent, w.outerClip)

theorem Clipped.congr (h : Clipped S ws) (hface : ws'.map face = ws.map face) : Clipped S ws' := by
  induction ws generalizing S ws' with
  | nil =>
    rw [List.map_nil, List.map_eq_nil_iff] at hface
    rw [hface]
    trivial
  | cons w ws ih =>
    cases ws' with
    | nil => trivial
    | cons w' ws' =>
      obtain ⟨hw, hmore⟩ := List.cons.inj hface
      obtain ⟨hextent, houter⟩ := Prod.mk.inj hw
      obtain ⟨houter, hclip⟩ := Prod.mk.inj houter
      rw [Clipped, hextent, houter, hclip]
      exact ⟨h.1, ih h.2 hmore⟩

theorem Clipped.maps (h : Clipped S (drawn tops)) (hshown : ∀ w, (f w).shown = w.shown)
    (hface : ∀ w, face (f w) = face w) : Clipped S (drawn (RoseTree.maps f tops)) := by
  refine h.congr ?_
  rw [drawn, Loc.visit_maps hshown, List.map_map]
  exact List.map_congr_left fun w _ ↦ hface w

theorem Clipped.onlyActivate (h : Clipped S (drawn tops)) (topwin : RtguiTopwin) :
    Clipped S (drawn (onlyActivate tops topwin)) := by
  rw [TopWin.onlyActivate]
  split
  · exact h
  · refine h.maps (fun w ↦ ?_) fun w ↦ ?_
    all_goals split <;> rfl

theorem Clipped.activateNext (h : Clipped S (drawn tops)) (flag : Bool × Bool) :
    Clipped S (drawn (activateNext tops flag)) := by
  rw [TopWin.activateNext]
  split
  · exact h
  · exact h.onlyActivate _

theorem Clipped.deactivate (h : Clipped S (drawn tops)) (wid : ℕ) :
    Clipped S (drawn (deactivate tops wid)) := by
  refine h.maps (fun w ↦ ?_) fun w ↦ ?_
  all_goals split <;> rfl

end Faces

section Requests

theorem clipped_activateTopwin (hscreen : screen.HasArea) (hl : Lifted nobody l)
    (hkeys : Distinct Area (keys l.plug))
    (hstay : l.focus.label.activate = true → Clipped screen.points (drawn l.plug))
    (h : rtguiTopwinActivateTopwin screen l = some tops') :
    Clipped screen.points (drawn tops') := by
  rw [rtguiTopwinActivateTopwin] at h
  dsimp only at h
  split at h
  · cases h
  · rename_i hshown
    have hraised := (hl.sound_raise hkeys (by simpa using hshown)).clipped_updateClip hscreen
    split at h
    · obtain rfl := Option.some.inj h
      exact hraised
    · split at h
      · rename_i hactive
        obtain rfl := Option.some.inj h
        exact hstay hactive
      · obtain rfl := Option.some.inj h
        split
        · exact hraised.onlyActivate _
        · exact (hraised.deactivate _).onlyActivate _

theorem drawn_removed (hl : Lifted nobody l) (hhidden : l.focus.label.shown = false) :
    drawn (Loc.plugUp (l.left ++ l.right) l.up) = drawn l.plug := by
  have hright : Loc.visit RtguiTopwin.shown l.right = [] := by
    cases hright : l.right with
    | nil => rfl
    | cons t right =>
      refine Loc.visit_of_not (Bool.eq_false_iff.mpr fun hshown ↦ ?_)
      have hbehind := hl.behind t.label (by rw [hright]; exact List.mem_cons_self ..)
      rw [(hbehind hshown).1] at hhidden
      cases hhidden
  refine Loc.visit_plugUp ?_
  rw [Loc.visit_append, Loc.visit_append, hright, Loc.visit_of_not hhidden]

theorem drawn_add {new : RtguiTopwin} (hnew : new.shown = false) (l : Loc RtguiTopwin) :
    drawn (Loc.plug { l with
      focus := .node l.focus.label (l.focus.child ++ [.node new []]) }) = drawn l.plug := by
  obtain ⟨left, ⟨a, child⟩, right, up⟩ := l
  refine Loc.visit_plugUp ?_
  rw [Loc.visit_append, Loc.visit_append, Loc.visit_cons, Loc.visit_cons, Loc.visitTree,
    Loc.visitTree, RoseTree.child, Loc.visit_concat hnew]
  rfl

/-- An active window has no hidden one under it when it is shown again: the clips would not be
computed. -/
def Whole (tops : Windows) : Event → Prop
  | .show wid => ∀ l : Loc RtguiTopwin, rtguiTopwinSearchInList tops wid = some l →
      l.focus.label.activate = true → ∀ w ∈ Loc.visitTree (fun _ ↦ true) l.focus, w.shown = true
  | _ => True

theorem hidden_of_move {x y : ℤ} (h : Sound P nobody tops)
    (hnone : rtguiTopwinMove screen tops wid x y = none) :
    ∀ w ∈ Loc.labels tops, w.wid = wid → w.shown = false := by
  intro w hw hwid
  rw [rtguiTopwinMove] at hnone
  cases hsearch : rtguiTopwinSearchInList tops wid with
  | none =>
    have hother := Loc.search_none hsearch w hw
    exact absurd hwid (of_decide_eq_false hother)
  | some l =>
    obtain ⟨hplug, hl⟩ := search_plug hsearch
    obtain rfl := h.distinct.eq_of_wid (hplug ▸ label_mem_plug l) hw (hl.trans hwid.symm)
    rw [hsearch, Option.bind_some] at hnone
    simpa using hnone

theorem drawn_modify (h : ∀ w ∈ Loc.labels tops, w.wid = wid → w.shown = false)
    (hshown : ∀ w, (f w).shown = w.shown) : drawn (modify tops wid f) = drawn tops := by
  rw [drawn, modify, Loc.visit_maps]
  · refine (List.map_congr_left fun w hw ↦ ?_).trans (List.map_id _)
    rw [if_neg, id]
    intro hwid
    have hhidden := h w (Loc.visit_subset hw) hwid
    exact Bool.false_ne_true (hhidden.symm.trans (Loc.visit_holds w hw))
  · intro w
    split
    · exact hshown w
    · rfl

theorem Clipped.rtguiTopwinAdd (hc : Clipped screen.points (drawn tops)) {wid : ℕ}
    {parent : Option ℕ} {extent : Rect} {noFocus onTop onBtm : Bool} {tops' : Windows}
    (hadd : TopWin.rtguiTopwinAdd tops wid parent extent noFocus onTop onBtm = some tops') :
    Clipped screen.points (drawn tops') := by
  cases parent with
  | none =>
    obtain rfl := Option.some.inj hadd
    rw [drawn, Loc.visit_concat rfl]
    exact hc
  | some parent =>
    obtain ⟨l, hl, rfl⟩ := Option.map_eq_some_iff.mp hadd
    rw [drawn_add rfl, (search_plug hl).1]
    exact hc

theorem Clipped.rtguiTopwinRemove (hc : Clipped screen.points (drawn tops))
    (hscreen : screen.HasArea) (h : Sound Area nobody tops) {wid : ℕ} {tops' : Windows}
    (hremove : TopWin.rtguiTopwinRemove screen tops wid = some tops') :
    Clipped screen.points (drawn tops') := by
  obtain ⟨l, hl, rfl⟩ := Option.map_eq_some_iff.mp hremove
  obtain ⟨rfl, -⟩ := search_plug hl
  dsimp only
  split
  · split
    · exact (h.removed.activateNext _).clipped_updateClip hscreen
    · exact h.removed.clipped_updateClip hscreen
  · rename_i hhidden
    have hsame := drawn_removed (lifted_of_holds h.level) (Bool.eq_false_iff.mpr hhidden)
    split
    · refine Clipped.activateNext ?_ _
      rw [hsame]
      exact hc
    · rw [hsame]
      exact hc

theorem Clipped.rtguiTopwinShow (hc : Clipped screen.points (drawn tops))
    (hscreen : screen.HasArea) (h : Sound Area nobody tops) {wid : ℕ} {tops' : Windows}
    (hwhole : Whole tops (.show wid))
    (hbind : TopWin.rtguiTopwinShow screen tops wid = some tops') :
    Clipped screen.points (drawn tops') := by
  obtain ⟨l, hl, hshow⟩ := Option.bind_eq_some_iff.mp hbind
  obtain ⟨rfl, -⟩ := search_plug hl
  split at hshow
  · cases hshow
  · rename_i hcould
    obtain ⟨hlifted, hkeys, -⟩ := h.marked (by simpa using hcould)
    refine clipped_activateTopwin hscreen hlifted hkeys (fun hactive ↦ ?_) hshow
    rw [RoseTree.label_map] at hactive
    have hall := hwhole l hl hactive
    rw [Loc.map_eq_self fun w hw ↦ markShown_eq (hall w hw)]
    exact hc

theorem Clipped.rtguiTopwinHide (hc : Clipped screen.points (drawn tops))
    (hscreen : screen.HasArea) (h : Sound Area nobody tops) {wid : ℕ} {tops' : Windows}
    (hhide : TopWin.rtguiTopwinHide screen tops wid = some tops') :
    Clipped screen.points (drawn tops') := by
  obtain ⟨l, hl, rfl⟩ := Option.map_eq_some_iff.mp hhide
  obtain ⟨rfl, -⟩ := search_plug hl
  dsimp only
  split
  · exact hc
  · have hclipped := h.hidden.clipped_updateClip hscreen
    split
    · exact (hclipped.activateNext _).deactivate _
    · exact hclipped.deactivate _

theorem Clipped.rtguiWinMove (hc : Clipped screen.points (drawn tops)) (hscreen : screen.HasArea)
    (h : Sound Area nobody tops) {wid : ℕ} {x y : ℤ} (hplaced : Placed tops (.move wid x y)) :
    Clipped screen.points (drawn (TopWin.rtguiWinMove screen tops wid x y)) := by
  have hmoved := h.moveOuterExtent fun w hw ↦ areaTo_outer (x := x) (y := y) hplaced hw
  rw [TopWin.rtguiWinMove]
  cases hmove : TopWin.rtguiTopwinMove screen (moveOuterExtent tops wid x y) wid x y with
  | some tops' =>
    obtain ⟨moved, hsound, rfl⟩ := hmoved.rtguiTopwinMove (fun w ↦ area_extent) hmove
    exact hsound.clipped_updateClip hscreen
  | none =>
    have hsame : drawn (moveOuterExtent tops wid x y) = drawn tops := by
      refine drawn_modify (fun w hw hwid ↦ ?_) fun _ ↦ rfl
      have hhidden := hidden_of_move hmoved hmove
      rw [moveOuterExtent, modify, Loc.labels_maps, List.forall_mem_map] at hhidden
      have hw := hhidden w hw
      rw [if_pos hwid] at hw
      exact hw hwid
    rw [Option.getD_none, hsame]
    exact hc

theorem Clipped.step {e : Event} (hc : Clipped screen.points (drawn tops))
    (hscreen : screen.HasArea) (h : Sound Area nobody tops) (hplaced : Placed tops e)
    (hwhole : Whole tops e) : Clipped screen.points (drawn (step screen tops e)) := by
  have hdone {r : Option Windows} (hr : ∀ tops', r = some tops' →
      Clipped screen.points (drawn tops')) : Clipped screen.points (drawn (r.getD tops)) := by
    cases r with
    | none => exact hc
    | some tops' => exact hr tops' rfl
  cases e with
  | add wid parent extent noFocus onTop onBtm => exact hdone fun _ ↦ hc.rtguiTopwinAdd
  | remove wid => exact hdone fun _ ↦ hc.rtguiTopwinRemove hscreen h
  | activate wid =>
    refine hdone fun tops' hbind ↦ ?_
    obtain ⟨l, hl, hactivate⟩ := Option.bind_eq_some_iff.mp hbind
    obtain ⟨rfl, -⟩ := search_plug hl
    exact clipped_activateTopwin hscreen (lifted_of_holds h.level) h.distinct (fun _ ↦ hc) hactivate
  | «show» wid => exact hdone fun _ ↦ hc.rtguiTopwinShow hscreen h hwhole
  | hide wid => exact hdone fun _ ↦ hc.rtguiTopwinHide hscreen h
  | move wid x y => exact hc.rtguiWinMove hscreen h hplaced
  | resize wid rect =>
    rw [TopWin.step]
    obtain hsame | ⟨resized, hsound, hresized⟩ :=
      h.rtguiTopwinResize (fun k hk ↦ ⟨hplaced, hk.2⟩) screen wid
    · rw [hsame]
      exact hc
    · rw [hresized]
      exact hsound.clipped_updateClip hscreen

end Requests

section Mouse

variable {modaled : ℕ → Bool} {x y : ℤ}

mutual

theorem getWndFromTop_eq (hmodal : ∀ wid, modaled wid = false) (more : Option RtguiTopwin) :
    (t : RoseTree RtguiTopwin) → getWndFromTop modaled x y more t =
      ((Loc.visitTree RtguiTopwin.shown t).find? (inBox ·.extent x y)).or more
  | .node topwin child => by
    rw [getWndFromTop, getWndFromTree_eq hmodal child, hmodal, if_neg Bool.false_ne_true,
      Loc.visitTree, List.find?_append, List.find?_singleton, Option.or_assoc]
    congr 1
    split <;> rfl

/-- With no window modal, the search goes as the painting does. -/
theorem getWndFromTree_eq (hmodal : ∀ wid, modaled wid = false) : (ts : Windows) →
    getWndFromTree modaled x y ts = (Loc.visit RtguiTopwin.shown ts).find? (inBox ·.extent x y)
  | [] => rfl
  | topwin :: more => by
    rw [getWndFromTree, Loc.visit_cons]
    cases topwin.label.shown with
    | false => rfl
    | true =>
      rw [Bool.not_true, if_neg Bool.false_ne_true, if_pos rfl, List.find?_append,
        getWndFromTop_eq hmodal _ topwin, getWndFromTree_eq hmodal more]

end

theorem inBox_iff {r : Rect} : inBox r x y = true ↔ (x, y) ∈ r.points := by
  simp only [inBox, Rect.points, decide_eq_true_eq, Set.mem_ofPred_eq]
  omega

theorem Clipped.subset (h : Clipped S ws) (hw : w ∈ ws) : w.outerClip.pixels ⊆ S := by
  induction ws generalizing S with
  | nil => cases hw
  | cons b ws ih =>
    obtain rfl | hw := List.mem_cons.mp hw
    · rw [h.1.2]
      exact Set.inter_subset_right
    · exact (ih h.2 hw).trans Set.sdiff_subset

theorem Clipped.find (h : Clipped S ws) (hplace : ∀ w ∈ ws, w.outerExtent = w.extent)
    (hxy : (x, y) ∈ S) : ws.find? (inBox ·.extent x y) = some w ↔
      w ∈ ws ∧ (x, y) ∈ w.outerClip.pixels := by
  induction ws generalizing S with
  | nil => simp
  | cons b ws ih =>
    obtain ⟨hb, hmore⟩ := List.forall_mem_cons.mp hplace
    have hclip : (x, y) ∈ b.outerClip.pixels ↔ (x, y) ∈ b.extent.points := by
      rw [h.1.2, hb]
      exact and_iff_left hxy
    by_cases hin : (x, y) ∈ b.extent.points
    · rw [List.find?_cons, inBox_iff.mpr hin, Option.some.injEq]
      constructor
      · rintro rfl
        exact ⟨List.mem_cons_self .., hclip.mpr hin⟩
      · rintro ⟨hw, hw'⟩
        obtain rfl | hw := List.mem_cons.mp hw
        · rfl
        · exact absurd hin (h.2.subset hw hw').2
    · have hout : inBox b.extent x y = false :=
        Bool.eq_false_iff.mpr fun hbox ↦ hin (inBox_iff.mp hbox)
      rw [List.find?_cons, hout, ih h.2 hmore ⟨hxy, hin⟩, List.mem_cons]
      refine ⟨fun hw ↦ ⟨.inr hw.1, hw.2⟩, fun hw ↦ ⟨hw.1.resolve_left ?_, hw.2⟩⟩
      rintro rfl
      exact hin (hclip.mp hw.2)

/-- Only a shown window is moved, and none gets another size. -/
def Kept (tops : Windows) : Event → Prop
  | .move wid _ _ => ∃ w ∈ Loc.labels tops, w.wid = wid ∧ w.shown = true
  | .resize _ _ => False
  | _ => True

/-- Between the two moves the place of the window is ahead of it. -/
def Ahead (wid : ℕ) (x y : ℤ) (k : ℕ × Rect × Rect) : Prop :=
  if k.1 = wid then (k.2.1.HasArea ∧ Reaches k.2.1 x y) ∧
    k.2.2 = rectMove k.2.1 (x - k.2.1.x1) (y - k.2.1.y1)
  else InPlace k

theorem ahead_outer (hplaced : Placed tops (.move wid x y)) (hw : w ∈ Loc.labels tops)
    (h : InPlace (key w)) : Ahead wid x y (key (if w.wid = wid then movedOuter x y w else w)) := by
  by_cases hwid : w.wid = wid
  · obtain ⟨harea, hplace⟩ := h
    change w.outerExtent = w.extent at hplace
    rw [Ahead, if_pos hwid, key, movedOuter, if_pos hwid, hplace]
    exact ⟨⟨harea, (hplaced w hw hwid).1⟩, rfl⟩
  · rw [Ahead, if_neg hwid, key, if_neg hwid]
    exact h

theorem inPlace_extent (h : Ahead wid x y (key w)) :
    InPlace (key (if w.wid = wid then movedExtent x y w else w)) := by
  by_cases hwid : w.wid = wid
  · rw [Ahead, key, if_pos hwid] at h
    rw [if_pos hwid]
    exact ⟨hasArea_rectMove h.1.1 h.1.2, h.2⟩
  · rw [Ahead, key, if_neg hwid] at h
    rw [if_neg hwid]
    exact h

theorem inPlace_move (h : Sound InPlace nobody tops) (hplaced : Placed tops (.move wid x y))
    (hkept : ∃ w ∈ Loc.labels tops, w.wid = wid ∧ w.shown = true) :
    Sound InPlace nobody (rtguiWinMove screen tops wid x y) := by
  refine h.rtguiWinMove (fun w hw ↦ ahead_outer hplaced hw) (fun w ↦ inPlace_extent)
    fun hnone hmoved ↦ ?_
  -- the server does not leave the move of a shown window undone
  obtain ⟨w, hw, hwid, hshown⟩ := hkept
  have hhidden := hidden_of_move hmoved hnone
  rw [moveOuterExtent, modify, Loc.labels_maps, List.forall_mem_map] at hhidden
  have hfalse := hhidden w hw
  rw [if_pos hwid] at hfalse
  exact absurd ((hfalse hwid).symm.trans hshown) Bool.false_ne_true

theorem inPlace_step {e : Event} (h : Sound InPlace nobody tops) (he : Made tops e)
    (hplaced : Placed tops e) (hkept : Kept tops e) :
    Sound InPlace nobody (step screen tops e) := by
  refine h.step_of he ?_ ?_ ?_
  · rintro wid parent extent noFocus onTop onBtm rfl
    exact ⟨hplaced, rfl⟩
  · rintro wid x y rfl
    exact inPlace_move h hplaced hkept
  · rintro wid rect rfl
    exact hkept.elim

end Mouse

section Runs

open Foundation.Transition

variable {es : List Event} {modaled : ℕ → Bool} {x y : ℤ}

/-- A run of windows that are placed on the screen, in which no hidden one is left in an active
tree. -/
def Drawn (tops : Windows) (e : Event) : Prop := (Made tops e ∧ Placed tops e) ∧ Whole tops e

theorem clipped_along (hscreen : screen.HasArea) (hes : Along (step screen) Drawn [] es) :
    Clipped screen.points (drawn (es.foldl (step screen) [])) :=
  (run_invariant (I := fun tops ↦ Sound Area nobody tops ∧ Clipped screen.points (drawn tops))
    (fun _ _ h he ↦ ⟨h.1.step_area he.1.1 he.1.2, h.2.step hscreen h.1 he.1.2 he.2⟩)
    ⟨sound_nil, trivial⟩ hes).2

/-- In every run each level of the tree has its shown windows in front, in the order of the
layers, and a window is shown only under shown ones. -/
theorem run_level (hes : Along (step screen) Made [] es) :
    Loc.Holds (Level nobody) none (es.foldl (step screen) []) :=
  (run_invariant (I := Sound (fun _ ↦ True) nobody) (fun _ _ h he ↦ h.step he) sound_nil hes).level

theorem run_level_child :
    Loc.Holds (Level nobody) none ([.add 1 none ⟨2, 2, 6, 6⟩ false false false, .show 1,
      .add 2 (some 1) ⟨4, 4, 8, 8⟩ false false false, .show 2].foldl (step ⟨0, 0, 8, 8⟩) []) := by
  refine run_level ⟨⟨by decide, by decide, fun _ hl ↦ (by cases hl)⟩, trivial,
    ⟨by decide, by decide, fun _ hl ↦ ?_⟩, trivial, trivial⟩
  obtain rfl := Option.some.inj hl
  rfl

/-- In every run the clip of a shown window is what the windows in front of it leave of the
screen. -/
theorem run_outerClip (hscreen : screen.HasArea) (hes : Along (step screen) Drawn [] es)
    {before after : List RtguiTopwin}
    (hw : drawn (es.foldl (step screen) []) = before ++ w :: after) :
    w.outerClip.Valid ∧ w.outerClip.pixels =
      w.outerExtent.points ∩ (screen.points \ {p | ∃ b ∈ before, p ∈ b.extent.points}) := by
  have hclipped := clipped_along hscreen hes
  rw [hw] at hclipped
  exact hclipped.apply

theorem drawn_new {extent : Rect} {noFocus : Bool} (hnew : wid ∉ (keys tops).map Prod.fst)
    (harea : extent.HasArea) : Drawn tops (.add wid none extent noFocus false false) :=
  ⟨⟨⟨by simp, hnew, fun _ hl ↦ (by cases hl)⟩, harea⟩, trivial⟩

theorem run_outerClip_two : ∃ before w, ∃ after : List RtguiTopwin,
    drawn ([.add 1 none ⟨2, 2, 6, 6⟩ false false false, .show 1,
      .add 2 none ⟨4, 4, 8, 8⟩ false false false, .show 2].foldl (step ⟨0, 0, 8, 8⟩) []) =
        before ++ w :: after ∧ before.map RtguiTopwin.wid = [2] ∧
      w.outerClip.Valid ∧ w.outerClip.pixels = w.outerExtent.points ∩
        (Rect.points ⟨0, 0, 8, 8⟩ \ {p | ∃ b ∈ before, p ∈ b.extent.points}) := by
  have hes : Along (step ⟨0, 0, 8, 8⟩) Drawn []
      [.add 1 none ⟨2, 2, 6, 6⟩ false false false, .show 1,
        .add 2 none ⟨4, 4, 8, 8⟩ false false false, .show 2] := by
    refine ⟨drawn_new (by decide) ⟨by decide, by decide⟩,
      ⟨⟨trivial, trivial⟩, fun _ hl hactive ↦ ?_⟩,
      drawn_new (by decide) ⟨by decide, by decide⟩,
      ⟨⟨trivial, trivial⟩, fun _ hl hactive ↦ ?_⟩, trivial⟩
    all_goals
      obtain rfl := Option.some.inj hl
      cases hactive
  exact ⟨[_], _, [], rfl, rfl, run_outerClip ⟨by decide, by decide⟩ hes rfl⟩

/-- The window that gets a click is the one that may paint the pixel. -/
theorem run_getWnd (hscreen : screen.HasArea) (hmodal : ∀ wid, modaled wid = false)
    (hes : Along (step screen) (fun tops e ↦ Drawn tops e ∧ Kept tops e) [] es)
    (hxy : (x, y) ∈ screen.points) :
    rtguiTopwinGetWndNoModaled (es.foldl (step screen) []) modaled x y = some w ↔
      w ∈ drawn (es.foldl (step screen) []) ∧ (x, y) ∈ w.outerClip.pixels := by
  obtain ⟨hdrawn, -⟩ := (along_and [] es).mp hes
  have hclipped := clipped_along hscreen hdrawn
  have hplace : Sound InPlace nobody (es.foldl (step screen) []) :=
    run_invariant (fun _ _ h he ↦ inPlace_step h he.1.1.1 he.1.1.2 he.2) sound_nil hes
  rw [rtguiTopwinGetWndNoModaled, getWndFromTree_eq hmodal]
  refine hclipped.find (fun w hw ↦ ?_) hxy
  exact (hplace.distinct.all (key w) (List.mem_map_of_mem (Loc.visit_subset hw))).2

theorem run_getWnd_moved : ∃ w,
    rtguiTopwinGetWndNoModaled ([.add 1 none ⟨0, 0, 4, 4⟩ false false false, .show 1,
      .add 2 none ⟨4, 4, 8, 8⟩ false false false, .show 2, .move 2 2 2].foldl
        (step ⟨0, 0, 8, 8⟩) []) (fun _ ↦ false) 3 3 = some w ∧
      w.wid = 2 ∧ (3, 3) ∈ w.outerClip.pixels := by
  have hes : Along (step ⟨0, 0, 8, 8⟩) (fun tops e ↦ Drawn tops e ∧ Kept tops e) []
      [.add 1 none ⟨0, 0, 4, 4⟩ false false false, .show 1,
        .add 2 none ⟨4, 4, 8, 8⟩ false false false, .show 2, .move 2 2 2] := by
    refine ⟨⟨drawn_new (by decide) ⟨by decide, by decide⟩, trivial⟩,
      ⟨⟨⟨trivial, trivial⟩, fun _ hl hactive ↦ ?_⟩, trivial⟩,
      ⟨drawn_new (by decide) ⟨by decide, by decide⟩, trivial⟩,
      ⟨⟨⟨trivial, trivial⟩, fun _ hl hactive ↦ ?_⟩, trivial⟩,
      ⟨⟨⟨trivial, by unfold Placed; decide +kernel⟩, trivial⟩, by unfold Kept; decide +kernel⟩,
      trivial⟩
    all_goals
      obtain rfl := Option.some.inj hl
      cases hactive
  have hxy : ((3, 3) : ℤ × ℤ) ∈ Rect.points ⟨0, 0, 8, 8⟩ := ⟨by decide, by decide⟩
  have hfound : (rtguiTopwinGetWndNoModaled ([.add 1 none ⟨0, 0, 4, 4⟩ false false false,
      .show 1, .add 2 none ⟨4, 4, 8, 8⟩ false false false, .show 2, .move 2 2 2].foldl
        (step ⟨0, 0, 8, 8⟩) []) (fun _ ↦ false) 3 3).map RtguiTopwin.wid = some 2 := by
    decide +kernel
  obtain ⟨w, hw, hwid⟩ := Option.map_eq_some_iff.mp hfound
  exact ⟨w, hw, hwid,
    ((run_getWnd ⟨by decide, by decide⟩ (fun _ ↦ rfl) hes hxy).mp hw).2⟩

end Runs

end GiantGecko.Gui.TopWin
