import GiantGecko.Gui.TopWinOrder
import Mathlib.Data.List.Nodup

namespace GiantGecko.Gui.TopWin

open Foundation.Bands Foundation.Forest Region

variable {screen : Rect} {tops tops' : Windows} {wid : ℕ} {w a b topwin : RtguiTopwin}
  {l : Loc RtguiTopwin} {above : Option RtguiTopwin} {bs : List RtguiTopwin} {ex : ℕ → Prop}
  {left right : Windows} {f : RtguiTopwin → RtguiTopwin} {flag : Bool × Bool}
  {P Q : ℕ × Rect × Rect → Prop}

section Keys

def key (w : RtguiTopwin) : ℕ × Rect × Rect := (w.wid, w.extent, w.outerExtent)

def keys (tops : Windows) : List (ℕ × Rect × Rect) := (Loc.labels tops).map key

structure Distinct (P : ℕ × Rect × Rect → Prop) (ks : List (ℕ × Rect × Rect)) : Prop where
  nodup : (ks.map Prod.fst).Nodup
  all : ∀ k ∈ ks, P k

theorem Distinct.perm {ks ks' : List (ℕ × Rect × Rect)} (h : Distinct P ks)
    (hperm : ks'.Perm ks) : Distinct P ks' :=
  ⟨(hperm.map Prod.fst).nodup_iff.mpr h.nodup, fun k hk ↦ h.all k (hperm.subset hk)⟩

theorem Distinct.of_append {ks ks' : List (ℕ × Rect × Rect)} (h : Distinct P (ks ++ ks')) :
    Distinct P ks' := by
  have hnodup := h.nodup
  rw [List.map_append] at hnodup
  exact ⟨(List.nodup_append.mp hnodup).2.1, fun k hk ↦ h.all k (List.mem_append_right _ hk)⟩

theorem Distinct.insert {k : ℕ × Rect × Rect} {ks : List (ℕ × Rect × Rect)} (h : Distinct P ks)
    (hnew : k.1 ∉ ks.map Prod.fst) (hk : P k) : Distinct P (k :: ks) :=
  ⟨List.nodup_cons.mpr ⟨hnew, h.nodup⟩, List.forall_mem_cons.mpr ⟨hk, h.all⟩⟩

theorem Distinct.eq_of_wid (h : Distinct P (keys tops)) (ha : a ∈ Loc.labels tops)
    (hb : b ∈ Loc.labels tops) (hwid : a.wid = b.wid) : a = b := by
  have hnodup := h.nodup
  rw [keys, List.map_map] at hnodup
  exact List.inj_on_of_nodup_map hnodup ha hb hwid

theorem label_mem_plug (l : Loc RtguiTopwin) : l.focus.label ∈ Loc.labels l.plug := by
  refine (labels_plug l).symm.subset (List.mem_append_left _ ?_)
  obtain ⟨left, ⟨a, child⟩, right, up⟩ := l
  rw [Loc.visitTree]
  exact List.mem_append_right _ (List.mem_singleton_self a)

theorem keys_maps (h : ∀ w, key (f w) = key w) : keys (RoseTree.maps f tops) = keys tops := by
  rw [keys, Loc.labels_maps, List.map_map]
  exact List.map_congr_left fun w _ ↦ h w

end Keys

/-- What every request keeps. -/
structure Sound (P : ℕ × Rect × Rect → Prop) (ex : ℕ → Prop) (tops : Windows) : Prop where
  level : Loc.Holds (Level ex) none tops
  distinct : Distinct P (keys tops)

theorem Sound.maps {ex' : ℕ → Prop} (h : Sound P ex tops) (hkeeps : Keeps f)
    (hkey : ∀ w, key (f w) = key w)
    (hactive : ∀ b ∈ Loc.labels tops, ¬ex' b.wid → (f b).activate = true →
      b.shown = true ∨ ¬ex b.wid ∧ b.activate = true) : Sound P ex' (RoseTree.maps f tops) :=
  ⟨hkeeps.holds h.level hactive, (keys_maps hkey).symm ▸ h.distinct⟩

section UpdateClip

def erase (w : RtguiTopwin) : RtguiTopwin := { w with outerClip := rtguiRegionInit }

theorem keeps_erase : Keeps erase := ⟨fun _ ↦ rfl, fun _ ↦ rfl, fun _ ↦ rfl⟩

theorem getTopmostWindowShownFrom_plug
    (h : getTopmostWindowShownFrom flag left tops = some l) : l.plug = left ++ tops := by
  fun_induction getTopmostWindowShownFrom flag left tops with
  | case1 => cases h
  | case2 => cases h
  | case3 left topwin right hshown hlayer =>
    obtain rfl := Option.some.inj h
    exact Loc.plug_down right left [] topwin
  | case4 left topwin right hshown hlayer ih =>
    rw [ih h, List.append_assoc]
    rfl

theorem getTopmostWindowShownFrom_shown
    (h : getTopmostWindowShownFrom flag left tops = some l) : l.focus.label.shown = true := by
  fun_induction getTopmostWindowShownFrom flag left tops with
  | case1 => cases h
  | case2 => cases h
  | case3 left topwin right hshown hlayer =>
    obtain rfl := Option.some.inj h
    exact Loc.down_label right left [] topwin (by simpa using hshown)
  | case4 left topwin right hshown hlayer ih => exact ih h

theorem getTopmostWindowShownAll_plug (h : rtguiTopwinGetTopmostWindowShownAll tops = some l) :
    l.plug = tops := by
  rw [rtguiTopwinGetTopmostWindowShownAll, Option.or_eq_some_iff, Option.or_eq_some_iff] at h
  obtain h | ⟨-, h | ⟨-, h⟩⟩ := h
  all_goals exact getTopmostWindowShownFrom_plug h

theorem updateClip_erase (screen : Rect) (tops : Windows) :
    RoseTree.maps erase (rtguiTopwinUpdateClip screen tops) = RoseTree.maps erase tops := by
  cases tops with
  | nil => rfl
  | cons first more =>
    rw [rtguiTopwinUpdateClip]
    split
    · rfl
    · split
      · rfl
      · rename_i htop
        rw [Loc.maps_sweep fun _ _ ↦ rfl, getTopmostWindowShownAll_plug htop]

theorem Sound.updateClip (h : Sound P ex tops) (screen : Rect) :
    Sound P ex (rtguiTopwinUpdateClip screen tops) := by
  have herase : Sound P ex (RoseTree.maps erase (rtguiTopwinUpdateClip screen tops)) := by
    rw [updateClip_erase]
    exact h.maps keeps_erase (fun _ ↦ rfl) fun b _ hex hflag ↦ .inr ⟨hex, hflag⟩
  refine ⟨holds_of_maps keeps_erase (fun _ ↦ rfl) herase.level, ?_⟩
  have hkeys : keys (RoseTree.maps erase (rtguiTopwinUpdateClip screen tops)) =
      keys (rtguiTopwinUpdateClip screen tops) := keys_maps fun _ ↦ rfl
  exact hkeys ▸ herase.distinct

end UpdateClip

section Focus

/-- What the flags of the focus need to know of a window. -/
def view (w : RtguiTopwin) : ℕ × Bool := (w.wid, w.shown)

def views (tops : Windows) : List (ℕ × Bool) := (Loc.labels tops).map view

theorem views_maps (h : ∀ w, view (f w) = view w) : views (RoseTree.maps f tops) = views tops := by
  rw [views, Loc.labels_maps, List.map_map]
  exact List.map_congr_left fun w _ ↦ h w

theorem views_updateClip (screen : Rect) (tops : Windows) :
    views (rtguiTopwinUpdateClip screen tops) = views tops := by
  have herase (tops : Windows) : views (RoseTree.maps erase tops) = views tops :=
    views_maps fun _ ↦ rfl
  rw [← herase, updateClip_erase, herase]

theorem shown_of_views (hviews : views tops' ⊆ views tops) (hkeys : Distinct P (keys tops))
    (htop : topwin ∈ Loc.labels tops) (hshown : topwin.shown = true) :
    ∀ w ∈ Loc.labels tops', w.wid = topwin.wid → w.shown = true := by
  intro w hw hwid
  obtain ⟨w', hw', hview⟩ := List.mem_map.mp (hviews (List.mem_map_of_mem hw))
  obtain ⟨hwid', hshown'⟩ := Prod.mk.inj hview
  obtain rfl := hkeys.eq_of_wid hw' htop (hwid'.trans hwid)
  exact hshown'.symm.trans hshown

theorem keeps_modify {wid : ℕ} (h : Keeps f) :
    Keeps fun w ↦ if w.wid = wid then f w else w := by
  refine ⟨fun w ↦ ?_, fun w ↦ ?_, fun w ↦ ?_⟩
  all_goals
    split
    · first | exact h.shown w | exact h.layer w | exact h.wid w
    · rfl

theorem Sound.onlyActivate (h : Sound P ex tops)
    (hshown : ∀ w ∈ Loc.labels tops, w.wid = topwin.wid → w.shown = true) :
    Sound P ex (onlyActivate tops topwin) := by
  rw [TopWin.onlyActivate]
  split
  · exact h
  · refine h.maps (keeps_modify ⟨fun _ ↦ rfl, fun _ ↦ rfl, fun _ ↦ rfl⟩) (fun w ↦ ?_)
      fun b hb hex hflag ↦ ?_
    · split <;> rfl
    · split at hflag
      · rename_i hwid
        exact .inl (hshown b hb hwid)
      · exact .inr ⟨hex, hflag⟩

theorem Sound.activateNext (h : Sound P ex tops) (flag : Bool × Bool) :
    Sound P ex (activateNext tops flag) := by
  rw [TopWin.activateNext]
  split
  · exact h
  · rename_i l hl
    have hplug : l.plug = tops := getTopmostWindowShownFrom_plug hl
    exact h.onlyActivate (shown_of_views (List.Subset.refl _) h.distinct (hplug ▸ label_mem_plug l)
      (getTopmostWindowShownFrom_shown hl))

theorem Sound.deactivate (h : Sound P (· = wid) tops) : Sound P nobody (deactivate tops wid) := by
  refine h.maps (keeps_modify ⟨fun _ ↦ rfl, fun _ ↦ rfl, fun _ ↦ rfl⟩) (fun w ↦ ?_)
    fun b _ _ hflag ↦ ?_
  · split <;> rfl
  · split at hflag
    · cases hflag
    · rename_i hwid
      exact .inr ⟨hwid, hflag⟩

theorem Sound.excuse (h : Sound P nobody tops) (ex : ℕ → Prop) : Sound P ex tops :=
  ⟨h.level.mono fun _ _ hbs ↦ ⟨hbs.pairwise, fun b hb ↦
    { hbs.under b hb with active := fun _ ↦ (hbs.under b hb).active not_false }⟩, h.distinct⟩

end Focus

section Requests

theorem search_plug (h : rtguiTopwinSearchInList tops wid = some l) :
    l.plug = tops ∧ l.focus.label.wid = wid :=
  (Loc.search_some h).imp id of_decide_eq_true

theorem keys_raise (l : Loc RtguiTopwin) : (keys (raiseTreeFromRoot l).plug).Perm (keys l.plug) :=
  (labels_raise l).map key

theorem views_raise (l : Loc RtguiTopwin) : views (raiseTreeFromRoot l).plug ⊆ views l.plug :=
  ((labels_raise l).map view).subset

theorem Lifted.sound_raise (hl : Lifted ex l) (hkeys : Distinct P (keys l.plug))
    (hshown : l.focus.label.shown = true) : Sound P ex (raiseTreeFromRoot l).plug :=
  ⟨hl.holds_raise hshown, hkeys.perm (keys_raise l)⟩

theorem sound_activateTopwin (hl : Lifted nobody l) (hkeys : Distinct P (keys l.plug))
    (hstay : l.focus.label.activate = true → Loc.Holds (Level nobody) none l.plug)
    (h : rtguiTopwinActivateTopwin screen l = some tops') : Sound P nobody tops' := by
  rw [rtguiTopwinActivateTopwin] at h
  dsimp only at h
  split at h
  · cases h
  · rename_i hshown
    have hshown : l.focus.label.shown = true := by simpa using hshown
    have hraised := (hl.sound_raise hkeys hshown).updateClip screen
    have hviews : views (rtguiTopwinUpdateClip screen (raiseTreeFromRoot l).plug) ⊆
        views l.plug := by
      rw [views_updateClip]
      exact views_raise l
    split at h
    · obtain rfl := Option.some.inj h
      exact hraised
    · split at h
      · rename_i hactive
        obtain rfl := Option.some.inj h
        exact ⟨hstay hactive, hkeys⟩
      · obtain rfl := Option.some.inj h
        split
        · exact hraised.onlyActivate
            (shown_of_views hviews hkeys (label_mem_plug l) hshown)
        · rename_i oldFocus _
          refine (Sound.deactivate (hraised.excuse _)).onlyActivate
            (shown_of_views ?_ hkeys (label_mem_plug l) hshown)
          rw [TopWin.deactivate, modify, views_maps fun w ↦ by split <;> rfl]
          exact hviews

theorem Sound.rtguiTopwinActivate (h : Sound P nobody tops)
    (hdone : rtguiTopwinActivate screen tops wid = some tops') : Sound P nobody tops' := by
  obtain ⟨l, hl, hactivate⟩ := Option.bind_eq_some_iff.mp hdone
  obtain ⟨rfl, -⟩ := search_plug hl
  exact sound_activateTopwin (lifted_of_holds h.level) h.distinct (fun _ ↦ h.level) hactivate

theorem above_shown (h : couldShow l = true) : ∀ a ∈ Loc.above l.up, a.shown = true := by
  obtain ⟨left, focus, right, up⟩ := l
  cases up with
  | nil => intro a ha; cases ha
  | cons frame up =>
    intro a ha
    obtain rfl := Option.some.inj ha
    exact List.all_eq_true.mp h frame (List.mem_cons_self ..)

theorem Level.markShown (h : Level nobody (some a) bs) :
    Level nobody (some (markShown a)) (bs.map markShown) := by
  refine ⟨List.pairwise_map.mpr ?_, fun c hc ↦ ?_⟩
  · refine List.pairwise_of_forall_mem_list fun b hb c hc _ ↦ ⟨rfl, ?_⟩
    exact (((h.under b hb).rank_eq rfl).trans ((h.under c hc).rank_eq rfl).symm).le
  · obtain ⟨b, hb, rfl⟩ := List.mem_map.mp hc
    have hunder := h.under b hb
    refine ⟨hunder.oneLayer, fun a' ha' ↦ ?_, fun a' ha' _ ↦ ?_, fun _ _ _ ↦ rfl⟩
    · obtain rfl := Option.some.inj ha'
      exact hunder.sameLayer a rfl
    · obtain rfl := Option.some.inj ha'
      rfl

theorem markShown_eq (h : w.shown = true) : markShown w = w := by
  rw [markShown, ← h]

theorem keys_tree_map (h : ∀ w, key (f w) = key w) (t : RoseTree RtguiTopwin) :
    (Loc.visitTree (fun _ ↦ true) (t.map f)).map key =
      (Loc.visitTree (fun _ ↦ true) t).map key := by
  rw [Loc.visitTree_map (f := f) (fun _ ↦ rfl), List.map_map]
  exact List.map_congr_left fun w _ ↦ h w

theorem keys_plug (l : Loc RtguiTopwin) : (keys l.plug).Perm
    ((Loc.visitTree (fun _ ↦ true) l.focus).map key ++
      (keys (l.left ++ l.right) ++ (Loc.labelsUp l.up).map key)) := by
  have hperm := (labels_plug l).map key
  rw [List.map_append, List.map_append] at hperm
  exact hperm

theorem Sound.marked (h : Sound P nobody l.plug) (hcould : couldShow l = true) :
    Lifted nobody { l with focus := l.focus.map markShown } ∧
      Distinct P (keys { l with focus := l.focus.map markShown }.plug) ∧
      (l.focus.label.activate = true →
        Loc.Holds (Level nobody) none { l with focus := l.focus.map markShown }.plug) := by
  have habove := above_shown hcould
  have hlifted := lifted_of_holds h.level
  have hlabel : (l.focus.map markShown).label = markShown l.focus.label := RoseTree.label_map _ _
  have htree : Loc.TreeHolds (Level nobody) (l.focus.map markShown) :=
    Loc.treeHolds_map.mpr (Loc.treeHolds_mono (fun _ _ hbs ↦ hbs.markShown) hlifted.tree)
  have hunder : Under nobody (Loc.above l.up) (markShown l.focus.label) :=
    ⟨hlifted.under.oneLayer, hlifted.under.sameLayer, fun a ha _ ↦ habove a ha, fun _ _ _ ↦ rfl⟩
  have hbehind (b : RtguiTopwin) (hb : b ∈ l.right.map RoseTree.label) :
      Before (markShown l.focus.label) b := fun hb' ↦ ⟨rfl, (hlifted.behind b hb hb').2⟩
  rw [← hlabel] at hunder hbehind
  refine ⟨⟨hlifted.siblings, hunder, hbehind, hlifted.trees, htree, hlifted.up⟩,
    h.distinct.perm ((keys_plug _).trans ?_), fun hactive ↦ ?_⟩
  · rw [keys_tree_map (f := markShown) fun _ ↦ rfl]
    exact (keys_plug l).symm
  · -- the window has been shown before
    obtain ⟨hlevel, ⟨hleft, -, hright⟩, hup⟩ := Loc.holds_plug.mp h.level
    have hsame := markShown_eq (hlifted.under.active not_false habove hactive)
    refine Loc.holds_plug.mpr ⟨?_, ⟨hleft, htree, hright⟩, hup⟩
    rw [hlabel, hsame]
    exact hlevel

theorem Sound.rtguiTopwinShow (h : Sound P nobody tops)
    (hdone : rtguiTopwinShow screen tops wid = some tops') : Sound P nobody tops' := by
  obtain ⟨l, hl, hshow⟩ := Option.bind_eq_some_iff.mp hdone
  obtain ⟨rfl, -⟩ := search_plug hl
  split at hshow
  · cases hshow
  · rename_i hcould
    obtain ⟨hlifted, hkeys, hstay⟩ := h.marked (by simpa using hcould)
    refine sound_activateTopwin hlifted hkeys (fun hactive ↦ hstay ?_) hshow
    rw [RoseTree.label_map] at hactive
    exact hactive

theorem Level.markHidden (h : Level nobody (some a) bs) :
    Level ex (some (markHidden a)) (bs.map markHidden) := by
  refine ⟨List.pairwise_map.mpr ?_, fun c hc ↦ ?_⟩
  · exact List.pairwise_of_forall_mem_list fun b _ c _ hshown ↦ by cases hshown
  · obtain ⟨b, hb, rfl⟩ := List.mem_map.mp hc
    have hunder := h.under b hb
    refine ⟨hunder.oneLayer, fun a' ha' ↦ ?_, fun _ _ hshown ↦ (by cases hshown),
      fun _ habove ↦ ?_⟩
    · obtain rfl := Option.some.inj ha'
      exact hunder.sameLayer a rfl
    · cases habove _ rfl

theorem Sound.hidden (h : Sound P nobody l.plug) : Sound P (· = l.focus.label.wid)
    (Loc.plugUp (l.left ++ l.right ++ [l.focus.map markHidden]) l.up) := by
  have hlifted := lifted_of_holds (h.excuse (· = l.focus.label.wid)).level
  have hlabel : (l.focus.map markHidden).label = markHidden l.focus.label := RoseTree.label_map _ _
  refine ⟨Loc.holds_plugUp.mpr ⟨⟨?_, ?_⟩, hlifted.up⟩, ?_⟩
  · rw [List.map_append, List.map_singleton, hlabel]
    refine hlifted.siblings.concat ?_ rfl
    exact ⟨hlifted.under.oneLayer, hlifted.under.sameLayer, fun _ _ hshown ↦ (by cases hshown),
      fun hex ↦ absurd rfl hex⟩
  · refine Loc.allHold_append.mpr ⟨hlifted.trees, Loc.treeHolds_map.mpr ?_, trivial⟩
    exact Loc.treeHolds_mono (fun _ _ hbs ↦ hbs.markHidden) (lifted_of_holds h.level).tree
  · refine h.distinct.perm (.trans ?_ (keys_plug l).symm)
    rw [← keys_tree_map (f := markHidden) fun _ ↦ rfl, ← List.append_assoc,
      keys, keys, ← List.map_append, ← List.map_append]
    refine ((Loc.labels_plugUp _).trans (List.Perm.append_right _ ?_)).map key
    rw [Loc.labels_append, Loc.labels_singleton]
    exact List.perm_append_comm

theorem Sound.rtguiTopwinHide (h : Sound P nobody tops)
    (hdone : rtguiTopwinHide screen tops wid = some tops') : Sound P nobody tops' := by
  obtain ⟨l, hl, rfl⟩ := Option.map_eq_some_iff.mp hdone
  obtain ⟨rfl, hwid⟩ := search_plug hl
  dsimp only
  split
  · exact h
  · have hclipped := h.hidden.updateClip screen
    split
    · exact (hclipped.activateNext _).deactivate
    · exact hclipped.deactivate

/-- What the creator of a window sees to: one layer at most, which is that of the window above,
and that the window is new. -/
structure Created (tops : Windows) (wid : ℕ) (parent : Option ℕ) (onTop onBtm : Bool) : Prop where
  oneLayer : ¬(onTop = true ∧ onBtm = true)
  new : wid ∉ (keys tops).map Prod.fst
  sameLayer : ∀ l : Loc RtguiTopwin, parent.bind (rtguiTopwinSearchInList tops) = some l →
    (onTop, onBtm) = layer l.focus.label

theorem Sound.rtguiTopwinAdd {parent : Option ℕ} {extent : Rect} {noFocus onTop onBtm : Bool}
    (h : Sound P nobody tops) (hnew : Created tops wid parent onTop onBtm)
    (hP : P (wid, extent, extent))
    (hdone : rtguiTopwinAdd tops wid parent extent noFocus onTop onBtm = some tops') :
    Sound P nobody tops' := by
  cases parent with
  | none =>
    obtain rfl := Option.some.inj hdone
    refine ⟨⟨?_, Loc.allHold_append.mpr ⟨h.level.2, ⟨.nil, trivial⟩, trivial⟩⟩, ?_⟩
    · rw [List.map_append]
      exact h.level.1.concat ⟨hnew.oneLayer, by simp, by simp, by simp [RoseTree.label]⟩ rfl
    · refine (h.distinct.insert (k := (wid, extent, extent)) hnew.new hP).perm ?_
      rw [keys, Loc.labels_append, List.map_append]
      exact List.perm_append_comm
  | some parent =>
    obtain ⟨l, hl, rfl⟩ := Option.map_eq_some_iff.mp hdone
    obtain ⟨rfl, -⟩ := search_plug hl
    obtain ⟨hlevel, ⟨hleft, hfocus, hright⟩, hup⟩ := Loc.holds_plug.mp h.level
    obtain ⟨left, ⟨a, child⟩, right, up⟩ := l
    refine ⟨Loc.holds_plug.mpr ⟨hlevel, ⟨hleft, ⟨?_, ?_⟩, hright⟩, hup⟩, ?_⟩
    · rw [RoseTree.child, List.map_append]
      refine hfocus.1.concat ⟨hnew.oneLayer, ?_, ?_, by simp [RoseTree.label]⟩ rfl
      · intro b hb
        obtain rfl := Option.some.inj hb
        exact hnew.sameLayer _ hl
      · simp [RoseTree.label]
    · exact Loc.allHold_append.mpr ⟨hfocus.2, ⟨.nil, trivial⟩, trivial⟩
    · refine (h.distinct.insert (k := (wid, extent, extent)) hnew.new hP).perm ?_
      refine (keys_plug _).trans (.trans ?_ ((keys_plug _).symm.cons _))
      rw [← List.cons_append]
      refine List.Perm.append_right _ ?_
      rw [RoseTree.child, Loc.visitTree, Loc.visitTree, ← Loc.labels, ← Loc.labels,
        Loc.labels_append, Loc.labels_singleton, List.append_assoc]
      exact List.perm_middle.map key

theorem Sound.removed (h : Sound P nobody l.plug) :
    Sound P nobody (Loc.plugUp (l.left ++ l.right) l.up) := by
  have hlifted := lifted_of_holds h.level
  refine ⟨Loc.holds_plugUp.mpr ⟨⟨hlifted.siblings, hlifted.trees⟩, hlifted.up⟩, ?_⟩
  refine (h.distinct.perm (keys_plug l).symm).of_append.perm ?_
  rw [keys, keys, ← List.map_append]
  exact (Loc.labels_plugUp _).map key

theorem Sound.rtguiTopwinRemove (h : Sound P nobody tops)
    (hdone : rtguiTopwinRemove screen tops wid = some tops') : Sound P nobody tops' := by
  obtain ⟨l, hl, rfl⟩ := Option.map_eq_some_iff.mp hdone
  obtain ⟨rfl, -⟩ := search_plug hl
  have hremoved := h.removed
  dsimp only
  split
  · split
    · exact (hremoved.activateNext _).updateClip screen
    · exact hremoved.updateClip screen
  · split
    · exact hremoved.activateNext _
    · exact hremoved

theorem Sound.modify (h : Sound P nobody tops) (hkeeps : Keeps f)
    (hactive : ∀ w, (f w).activate = w.activate)
    (hP : ∀ w ∈ Loc.labels tops, P (key w) → Q (key (if w.wid = wid then f w else w))) :
    Sound Q nobody (modify tops wid f) := by
  refine ⟨(keeps_modify hkeeps).holds h.level fun b _ hex hflag ↦ .inr ⟨hex, ?_⟩, ?_, ?_⟩
  · split at hflag
    · rwa [hactive] at hflag
    · exact hflag
  · have hwids := h.distinct.nodup
    rw [keys, List.map_map] at hwids
    rw [keys, TopWin.modify, Loc.labels_maps, List.map_map, List.map_map]
    convert hwids using 2
    exact funext fun w ↦ (keeps_modify hkeeps).wid w
  · rw [keys, TopWin.modify, Loc.labels_maps, List.map_map]
    exact List.forall_mem_map.mpr fun w hw ↦
      hP w hw (h.distinct.all (key w) (List.mem_map_of_mem hw))

end Requests

section Rects

def Area (k : ℕ × Rect × Rect) : Prop := k.2.1.HasArea ∧ k.2.2.HasArea

/-- The server and the application have the same rectangle for a window. -/
def InPlace (k : ℕ × Rect × Rect) : Prop := k.2.1.HasArea ∧ k.2.2 = k.2.1

/-- A rectangle that is moved there keeps the coordinates of an `rt_int16_t`. -/
def Reaches (rect : Rect) (x y : ℤ) : Prop :=
  (-32768 ≤ x ∧ x + (rect.x2 - rect.x1) < 32768) ∧ -32768 ≤ y ∧ y + (rect.y2 - rect.y1) < 32768

instance {rect : Rect} {x y : ℤ} : Decidable (Reaches rect x y) :=
  inferInstanceAs (Decidable (_ ∧ _))

theorem wrap_of_mem {z : ℤ} (h : -32768 ≤ z) (h' : z < 32768) : wrap z = z := by
  rw [wrap, Int.bmod_def]
  omega

theorem rectMove_eq {rect : Rect} {x y : ℤ} (h : rect.HasArea) (hreach : Reaches rect x y) :
    rectMove rect (x - rect.x1) (y - rect.y1) =
      ⟨x, y, x + (rect.x2 - rect.x1), y + (rect.y2 - rect.y1)⟩ := by
  obtain ⟨hx, hy⟩ := h
  obtain ⟨⟨hx1, hx2⟩, hy1, hy2⟩ := hreach
  rw [rectMove, wrap_of_mem, wrap_of_mem, wrap_of_mem, wrap_of_mem, Rect.mk.injEq]
  all_goals omega

theorem hasArea_rectMove {rect : Rect} {x y : ℤ} (h : rect.HasArea) (hreach : Reaches rect x y) :
    (rectMove rect (x - rect.x1) (y - rect.y1)).HasArea := by
  rw [rectMove_eq h hreach]
  obtain ⟨hx, hy⟩ := h
  constructor
  · change x < x + (rect.x2 - rect.x1)
    omega
  · change y < y + (rect.y2 - rect.y1)
    omega

variable {x y : ℤ}

def movedExtent (x y : ℤ) (w : RtguiTopwin) : RtguiTopwin :=
  { w with extent := rectMove w.extent (x - w.extent.x1) (y - w.extent.y1) }

def movedOuter (x y : ℤ) (w : RtguiTopwin) : RtguiTopwin :=
  { w with
    outerExtent := rectMove w.outerExtent (x - w.outerExtent.x1) (y - w.outerExtent.y1) }

theorem Sound.rtguiTopwinMove (h : Sound P nobody tops)
    (hextent : ∀ w, P (key w) → Q (key (if w.wid = wid then movedExtent x y w else w)))
    (hdone : rtguiTopwinMove screen tops wid x y = some tops') :
    ∃ moved, Sound Q nobody moved ∧ tops' = rtguiTopwinUpdateClip screen moved := by
  obtain ⟨l, hl, hmove⟩ := Option.bind_eq_some_iff.mp hdone
  obtain ⟨rfl, hwid⟩ := search_plug hl
  dsimp only at hmove
  split at hmove
  · cases hmove
  · obtain rfl := Option.some.inj hmove
    refine ⟨_, ?_, rfl⟩
    refine h.modify ⟨fun _ ↦ rfl, fun _ ↦ rfl, fun _ ↦ rfl⟩ (fun _ ↦ rfl) fun w hw hkey ↦ ?_
    have hmoved := hextent w hkey
    split
    · rename_i heq
      obtain rfl := h.distinct.eq_of_wid hw (label_mem_plug l) (heq.trans hwid.symm)
      rwa [if_pos heq] at hmoved
    · rename_i hne
      rwa [if_neg hne] at hmoved

theorem Sound.moveOuterExtent (h : Sound P nobody tops)
    (houter : ∀ w ∈ Loc.labels tops, P (key w) →
      Q (key (if w.wid = wid then movedOuter x y w else w))) :
    Sound Q nobody (moveOuterExtent tops wid x y) :=
  h.modify ⟨fun _ ↦ rfl, fun _ ↦ rfl, fun _ ↦ rfl⟩ (fun _ ↦ rfl) houter

theorem Sound.rtguiWinMove {M : ℕ × Rect × Rect → Prop} (h : Sound P nobody tops)
    (houter : ∀ w ∈ Loc.labels tops, P (key w) →
      M (key (if w.wid = wid then movedOuter x y w else w)))
    (hextent : ∀ w, M (key w) → Q (key (if w.wid = wid then movedExtent x y w else w)))
    (hstay : TopWin.rtguiTopwinMove screen (TopWin.moveOuterExtent tops wid x y) wid x y = none →
      Sound M nobody (TopWin.moveOuterExtent tops wid x y) →
        Sound Q nobody (TopWin.moveOuterExtent tops wid x y)) :
    Sound Q nobody (rtguiWinMove screen tops wid x y) := by
  have hmoved := h.moveOuterExtent houter
  rw [TopWin.rtguiWinMove]
  cases hdone : TopWin.rtguiTopwinMove screen (TopWin.moveOuterExtent tops wid x y) wid x y with
  | none => exact hstay hdone hmoved
  | some tops' =>
    obtain ⟨moved, hsound, rfl⟩ := hmoved.rtguiTopwinMove hextent hdone
    exact hsound.updateClip screen

theorem Sound.rtguiTopwinResize {rect : Rect} (h : Sound P nobody tops)
    (hrect : ∀ k, P k → P (k.1, rect, k.2.2)) (screen : Rect) (wid : ℕ) :
    rtguiTopwinResize screen tops wid rect = tops ∨
      ∃ resized, Sound P nobody resized ∧
        rtguiTopwinResize screen tops wid rect = rtguiTopwinUpdateClip screen resized := by
  rw [TopWin.rtguiTopwinResize]
  split
  · exact .inl rfl
  · split
    · exact .inl rfl
    · refine .inr ⟨_, ?_, rfl⟩
      refine h.modify ⟨fun _ ↦ rfl, fun _ ↦ rfl, fun _ ↦ rfl⟩ (fun _ ↦ rfl) fun w _ hw ↦ ?_
      split
      · exact hrect _ hw
      · exact hw

end Rects

section Runs

/-- A request that keeps the layers and adds no window twice. -/
def Made (tops : Windows) : Event → Prop
  | .add wid parent _ _ onTop onBtm => Created tops wid parent onTop onBtm
  | _ => True

/-- The rectangles have pixels, and stay in the range of their coordinates. -/
def Placed (tops : Windows) : Event → Prop
  | .add _ _ extent _ _ _ => extent.HasArea
  | .move wid x y => ∀ w ∈ Loc.labels tops, w.wid = wid →
      Reaches w.extent x y ∧ Reaches w.outerExtent x y
  | .resize _ rect => rect.HasArea
  | _ => True

theorem Sound.step_of {e : Event} (h : Sound P nobody tops) (he : Made tops e)
    (hadd : ∀ wid parent extent noFocus onTop onBtm,
      e = .add wid parent extent noFocus onTop onBtm → P (wid, extent, extent))
    (hmove : ∀ wid x y, e = .move wid x y →
      Sound P nobody (TopWin.rtguiWinMove screen tops wid x y))
    (hresize : ∀ wid rect, e = .resize wid rect →
      Sound P nobody (TopWin.rtguiTopwinResize screen tops wid rect)) :
    Sound P nobody (step screen tops e) := by
  have hdone {r : Option Windows} (hr : ∀ tops', r = some tops' → Sound P nobody tops') :
      Sound P nobody (r.getD tops) := by
    cases r with
    | none => exact h
    | some tops' => exact hr tops' rfl
  cases e with
  | add wid parent extent noFocus onTop onBtm =>
    exact hdone fun _ ↦ h.rtguiTopwinAdd he (hadd wid parent extent noFocus onTop onBtm rfl)
  | remove wid => exact hdone fun _ ↦ h.rtguiTopwinRemove
  | activate wid => exact hdone fun _ ↦ h.rtguiTopwinActivate
  | «show» wid => exact hdone fun _ ↦ h.rtguiTopwinShow
  | hide wid => exact hdone fun _ ↦ h.rtguiTopwinHide
  | move wid x y => exact hmove wid x y rfl
  | resize wid rect => exact hresize wid rect rfl

theorem Sound.step {e : Event} (h : Sound (fun _ ↦ True) nobody tops) (he : Made tops e) :
    Sound (fun _ ↦ True) nobody (step screen tops e) := by
  refine h.step_of he (fun _ _ _ _ _ _ _ ↦ trivial) (fun wid x y _ ↦ ?_) fun wid rect _ ↦ ?_
  · exact h.rtguiWinMove (fun _ _ _ ↦ trivial) (fun _ _ ↦ trivial) fun _ ↦ id
  · obtain hsame | ⟨resized, hsound, hresized⟩ := h.rtguiTopwinResize (fun _ _ ↦ trivial) screen wid
    · rw [hsame]
      exact h
    · rw [hresized]
      exact hsound.updateClip screen

def AreaTo (wid : ℕ) (x y : ℤ) (k : ℕ × Rect × Rect) : Prop :=
  Area k ∧ (k.1 = wid → Reaches k.2.1 x y)

theorem areaTo_outer (hplaced : Placed tops (.move wid x y)) (hw : w ∈ Loc.labels tops)
    (harea : Area (key w)) : AreaTo wid x y (key (if w.wid = wid then movedOuter x y w else w)) := by
  split
  · rename_i heq
    obtain ⟨hreach, houter⟩ := hplaced w hw heq
    exact ⟨⟨harea.1, hasArea_rectMove harea.2 houter⟩, fun _ ↦ hreach⟩
  · rename_i hne
    exact ⟨harea, fun heq ↦ absurd heq hne⟩

theorem area_extent (h : AreaTo wid x y (key w)) :
    Area (key (if w.wid = wid then movedExtent x y w else w)) := by
  split
  · rename_i heq
    exact ⟨hasArea_rectMove h.1.1 (h.2 heq), h.1.2⟩
  · exact h.1

theorem Sound.step_area (h : Sound Area nobody tops) {e : Event} (he : Made tops e)
    (hplaced : Placed tops e) : Sound Area nobody (TopWin.step screen tops e) := by
  refine h.step_of he ?_ ?_ ?_
  · rintro wid parent extent noFocus onTop onBtm rfl
    exact ⟨hplaced, hplaced⟩
  · rintro wid x y rfl
    exact h.rtguiWinMove (fun w hw ↦ areaTo_outer hplaced hw) (fun w ↦ area_extent)
      fun _ hmoved ↦ ⟨hmoved.level, hmoved.distinct.nodup, fun k hk ↦ (hmoved.distinct.all k hk).1⟩
  · rintro wid rect rfl
    obtain hsame | ⟨resized, hsound, hresized⟩ :=
      h.rtguiTopwinResize (fun k hk ↦ ⟨hplaced, hk.2⟩) screen wid
    · rw [hsame]
      exact h
    · rw [hresized]
      exact hsound.updateClip screen

theorem sound_nil : Sound P nobody [] :=
  ⟨⟨.nil, trivial⟩, List.nodup_nil, fun _ hk ↦ (List.not_mem_nil hk).elim⟩

end Runs

end GiantGecko.Gui.TopWin
