import GiantGecko.Foundation.Transition
import GiantGecko.Gui.TopWin

namespace GiantGecko.Gui.TopWin

open Foundation.Bands Foundation.Forest Region

variable {screen : Rect} {tops : Windows} {wid : ℕ} {w a b topwin : RtguiTopwin}
  {l : Loc RtguiTopwin} {above : Option RtguiTopwin} {as' bs cs : List RtguiTopwin}
  {ex ex' : ℕ → Prop} {left right : Windows}
  {up : List (Windows × RtguiTopwin × Windows)} {f : RtguiTopwin → RtguiTopwin} {flag : Bool × Bool}

section Levels

def rank (w : RtguiTopwin) : ℕ := if w.onTop then 0 else if w.onBtm then 2 else 1

/-- A shown window has shown ones in front of it, none of them from a layer below. -/
def Before (a b : RtguiTopwin) : Prop := b.shown = true → a.shown = true ∧ rank a ≤ rank b

/-- A window under another; those excused may have a flag of the focus left over. -/
structure Under (ex : ℕ → Prop) (above : Option RtguiTopwin) (b : RtguiTopwin) : Prop where
  oneLayer : ¬(b.onTop = true ∧ b.onBtm = true)
  sameLayer : ∀ a ∈ above, layer b = layer a
  parent : ∀ a ∈ above, b.shown = true → a.shown = true
  active : ¬ex b.wid → (∀ a ∈ above, a.shown = true) → b.activate = true → b.shown = true

structure Level (ex : ℕ → Prop) (above : Option RtguiTopwin) (bs : List RtguiTopwin) : Prop where
  pairwise : bs.Pairwise Before
  under : ∀ b ∈ bs, Under ex above b

def nobody (_ : ℕ) : Prop := False

theorem Level.nil : Level ex above [] := ⟨.nil, by simp⟩

theorem Level.sublist (h : Level ex above bs) (hsub : cs.Sublist bs) : Level ex above cs :=
  ⟨h.pairwise.sublist hsub, fun b hb ↦ h.under b (hsub.subset hb)⟩

theorem Level.insert (h : Level ex above (as' ++ bs)) (ha : Under ex above a)
    (hleft : ∀ b ∈ as', Before b a) (hright : ∀ b ∈ bs, Before a b) :
    Level ex above (as' ++ a :: bs) := by
  obtain ⟨hfirst, hsecond, hboth⟩ := List.pairwise_append.mp h.pairwise
  refine ⟨List.pairwise_append.mpr ⟨hfirst, .cons hright hsecond, fun b hb c hc ↦ ?_⟩, ?_⟩
  · obtain rfl | hc := List.mem_cons.mp hc
    · exact hleft b hb
    · exact hboth b hb c hc
  · intro b hb
    obtain rfl | hb := List.mem_cons.mp (List.perm_middle.subset hb)
    · exact ha
    · exact h.under b hb

theorem Level.cons (h : Level ex above bs) (ha : Under ex above a)
    (hright : ∀ b ∈ bs, Before a b) : Level ex above (a :: bs) :=
  Level.insert (List.nil_append bs ▸ h : Level ex above ([] ++ bs)) ha (by simp) hright

theorem Level.concat (h : Level ex above bs) (ha : Under ex above a) (hhidden : a.shown = false) :
    Level ex above (bs ++ [a]) := by
  rw [← List.append_nil bs] at h
  refine h.insert ha (fun b _ hshown ↦ ?_) (by simp)
  rw [hhidden] at hshown
  cases hshown

theorem rank_eq (h : layer a = layer b) : rank a = rank b := by
  obtain ⟨htop, hbtm⟩ := Prod.mk.inj h
  rw [rank, rank, htop, hbtm]

theorem Under.rank_eq (h : Under ex above b) (ha : a ∈ above) : rank b = rank a :=
  TopWin.rank_eq (h.sameLayer a ha)

structure Keeps (f : RtguiTopwin → RtguiTopwin) : Prop where
  shown : ∀ w, (f w).shown = w.shown
  layer : ∀ w, layer (f w) = layer w
  wid : ∀ w, (f w).wid = w.wid

theorem Keeps.before (h : Keeps f) (hab : Before a b) : Before (f a) (f b) := by
  rw [Before, h.shown, h.shown, rank_eq (h.layer a), rank_eq (h.layer b)]
  exact hab

theorem Keeps.level (h : Keeps f) (hbs : Level ex above bs)
    (hactive : ∀ b ∈ bs, ¬ex' b.wid → (f b).activate = true →
      b.shown = true ∨ ¬ex b.wid ∧ b.activate = true) :
    Level ex' (above.map f) (bs.map f) := by
  refine ⟨List.pairwise_map.mpr (hbs.pairwise.imp h.before), fun c hc ↦ ?_⟩
  obtain ⟨b, hb, rfl⟩ := List.mem_map.mp hc
  have hunder := hbs.under b hb
  have hlayer := h.layer b
  obtain ⟨htop, hbtm⟩ := Prod.mk.inj hlayer
  refine ⟨?_, fun a' ha' ↦ ?_, fun a' ha' ↦ ?_, fun hex habove hflag ↦ ?_⟩
  · rw [htop, hbtm]
    exact hunder.oneLayer
  · obtain ⟨a, ha, rfl⟩ := Option.map_eq_some_iff.mp ha'
    rw [hlayer, h.layer]
    exact hunder.sameLayer a ha
  · obtain ⟨a, ha, rfl⟩ := Option.map_eq_some_iff.mp ha'
    rw [h.shown, h.shown]
    exact hunder.parent a ha
  · rw [h.wid] at hex
    rw [h.shown]
    obtain hshown | ⟨hex, hflag⟩ := hactive b hb hex hflag
    · exact hshown
    · refine hunder.active hex (fun a ha ↦ ?_) hflag
      rw [← h.shown]
      exact habove _ (Option.mem_map_of_mem f ha)

theorem Keeps.holds (h : Keeps f) (htops : Loc.Holds (Level ex) none tops)
    (hactive : ∀ b ∈ Loc.labels tops, ¬ex' b.wid → (f b).activate = true →
      b.shown = true ∨ ¬ex b.wid ∧ b.activate = true) :
    Loc.Holds (Level ex') none (RoseTree.maps f tops) :=
  (Loc.holds_maps none).mpr ((htops.and (Loc.holds_of_forall hactive)).mono
    fun _ _ hbs ↦ h.level hbs.1 hbs.2)

theorem holds_of_maps (h : Keeps f) (hactive : ∀ w, (f w).activate = w.activate)
    (htops : Loc.Holds (Level ex) none (RoseTree.maps f tops)) :
    Loc.Holds (Level ex) none tops := by
  refine ((Loc.holds_maps none).mp htops).mono fun above bs hbs ↦ ⟨?_, fun b hb ↦ ?_⟩
  · refine (List.pairwise_map.mp hbs.pairwise).imp fun {a b} hab ↦ ?_
    rw [Before, h.shown, h.shown, rank_eq (h.layer a), rank_eq (h.layer b)] at hab
    exact hab
  · have hunder := hbs.under _ (List.mem_map_of_mem hb)
    obtain ⟨htop, hbtm⟩ := Prod.mk.inj (h.layer b)
    refine ⟨?_, fun a ha ↦ ?_, fun a ha ↦ ?_, fun hex habove hflag ↦ ?_⟩
    · rw [← htop, ← hbtm]
      exact hunder.oneLayer
    · rw [← h.layer, ← h.layer a]
      exact hunder.sameLayer _ (Option.mem_map_of_mem f ha)
    · rw [← h.shown, ← h.shown a]
      exact hunder.parent _ (Option.mem_map_of_mem f ha)
    · rw [← h.shown]
      refine hunder.active (by rwa [h.wid]) (fun a' ha' ↦ ?_) (by rwa [hactive])
      obtain ⟨a, ha, rfl⟩ := Option.map_eq_some_iff.mp ha'
      rw [h.shown]
      exact habove a ha

end Levels

section Raising

theorem place_append (stop : RtguiTopwin → Bool) (a : RtguiTopwin) (left right : Windows) :
    (place stop a left right).1 ++ (place stop a left right).2 = left ++ right := by
  rw [place]
  split
  · rfl
  · exact List.takeWhile_append_dropWhile

theorem before_of_not_stops (hlayer : layer topwin = layer a) (hb : stops topwin b = false) :
    b.shown = true ∧ rank b ≤ rank a := by
  obtain ⟨htop, hbtm⟩ := Prod.mk.inj hlayer
  rw [stops, htop, hbtm] at hb
  rw [rank, rank]
  grind

theorem rank_le_of_stops (hlayer : layer topwin = layer a) (hb : stops topwin b = true)
    (hone : ¬(b.onTop = true ∧ b.onBtm = true)) (hshown : b.shown = true) : rank a ≤ rank b := by
  obtain ⟨htop, hbtm⟩ := Prod.mk.inj hlayer
  rw [stops, htop, hbtm] at hb
  rw [rank, rank]
  grind

theorem level_place (h : Level ex none ((left ++ right).map RoseTree.label)) (ha : Under ex none a)
    (hshown : a.shown = true) (hright : ∀ b ∈ right.map RoseTree.label, Before a b)
    (hlayer : layer topwin = layer a) :
    Level ex none ((place (stops topwin) a left right).1.map RoseTree.label ++
      a :: (place (stops topwin) a left right).2.map RoseTree.label) := by
  have hall := place_append (stops topwin) a left right
  have hpassed {t : RoseTree RtguiTopwin} (ht : stops topwin t.label = false) : Before t.label a :=
    fun _ ↦ before_of_not_stops hlayer ht
  have hkeep := h
  rw [← hall, List.map_append] at h
  refine h.insert ha (fun b hb ↦ ?_) fun b hb ↦ ?_
  · obtain ⟨t, ht, rfl⟩ := List.mem_map.mp hb
    rw [place] at ht
    split at ht
    · rename_i hstay
      rw [Bool.and_eq_true, Bool.not_eq_true', List.any_eq_false] at hstay
      exact hpassed (Bool.eq_false_iff.mpr (hstay.1 t ht))
    · refine hpassed ?_
      simpa using List.mem_takeWhile_imp ht
  · rw [place] at hb
    split at hb
    · exact hright b hb
    · -- the first one behind is one at which the search stops
      dsimp only at hb
      cases hdrop : (left ++ right).dropWhile (!stops topwin ·.label) with
      | nil =>
        rw [hdrop] at hb
        cases hb
      | cons t more =>
        have hstop : stops topwin t.label = true := by
          have hhead := List.head_dropWhile_not
            (fun t : RoseTree RtguiTopwin ↦ !stops topwin t.label)
            (hdrop.trans_ne (List.cons_ne_nil t more))
          simpa [hdrop] using hhead
        have hsub := (List.dropWhile_sublist (l := left ++ right) (!stops topwin ·.label)).map
          RoseTree.label
        rw [hdrop] at hsub hb
        have hmore := hkeep.sublist hsub
        intro hb'
        refine ⟨hshown, ?_⟩
        have hfirst : t.label.shown = true ∧ rank t.label ≤ rank b := by
          obtain rfl | hb := List.mem_cons.mp hb
          · exact ⟨hb', le_rfl⟩
          · exact List.rel_of_pairwise_cons hmore.pairwise hb hb'
        exact (rank_le_of_stops hlayer hstop (hmore.under _ (List.mem_cons_self ..)).oneLayer
          hfirst.1).trans hfirst.2

theorem above_placeUp (stop : RtguiTopwin → Bool) (up : List (Windows × RtguiTopwin × Windows)) :
    Loc.above (placeUp stop up) = Loc.above up := by
  fun_induction placeUp stop up <;> rfl

theorem upHolds_placeUp (h : Loc.UpHolds (Level ex) up)
    (habove : ∀ a ∈ Loc.above up, a.shown = true ∧ layer topwin = layer a) :
    Loc.UpHolds (Level ex) (placeUp (stops topwin) up) := by
  fun_induction placeUp (stops topwin) up with
  | case1 => trivial
  | case2 left a right =>
    obtain ⟨hlevel, ⟨hleft, hright⟩, -⟩ := h
    obtain ⟨hshown, hlayer⟩ := habove a rfl
    have htrees := Loc.allHold_append.mpr ⟨hleft, hright⟩
    rw [← place_append (stops topwin) a left right] at htrees
    refine ⟨level_place ?_ (hlevel.under a (by simp)) hshown ?_ hlayer,
      Loc.allHold_append.mp htrees, trivial⟩
    · rw [List.map_append]
      exact hlevel.sublist ((List.sublist_cons_self _ _).append_left _)
    · exact fun b hb ↦ List.rel_of_pairwise_cons (List.pairwise_append.mp hlevel.pairwise).2.1 hb
  | case3 frame up hne ih =>
    obtain ⟨left, a, right⟩ := frame
    obtain ⟨hlevel, htrees, hup⟩ := h
    obtain ⟨hshown, hlayer⟩ := habove a rfl
    have hunder := hlevel.under a (by simp)
    refine ⟨?_, htrees, ih hup fun b hb ↦ ⟨hunder.parent b hb hshown, ?_⟩⟩
    · rw [above_placeUp]
      exact hlevel
    · rw [hlayer, hunder.sameLayer b hb]

/-- A window that is right but for its place among those beside it. -/
structure Lifted (ex : ℕ → Prop) (l : Loc RtguiTopwin) : Prop where
  siblings : Level ex (Loc.above l.up) ((l.left ++ l.right).map RoseTree.label)
  under : Under ex (Loc.above l.up) l.focus.label
  behind : ∀ b ∈ l.right.map RoseTree.label, Before l.focus.label b
  trees : Loc.AllHold (Level ex) (l.left ++ l.right)
  tree : Loc.TreeHolds (Level ex) l.focus
  up : Loc.UpHolds (Level ex) l.up

theorem lifted_of_holds (h : Loc.Holds (Level ex) none l.plug) : Lifted ex l := by
  obtain ⟨hlevel, ⟨hleft, hfocus, hright⟩, hup⟩ := Loc.holds_plug.mp h
  refine ⟨?_, hlevel.under _ (by simp), fun b hb ↦ ?_, Loc.allHold_append.mpr ⟨hleft, hright⟩,
    hfocus, hup⟩
  · rw [List.map_append]
    exact hlevel.sublist ((List.sublist_cons_self _ _).append_left _)
  · exact List.rel_of_pairwise_cons (List.pairwise_append.mp hlevel.pairwise).2.1 hb

theorem Lifted.holds_raise (h : Lifted ex l) (hshown : l.focus.label.shown = true) :
    Loc.Holds (Level ex) none (raiseTreeFromRoot l).plug := by
  obtain ⟨left, focus, right, up⟩ := l
  cases up with
  | nil =>
    have htrees := h.trees
    rw [← place_append (stops focus.label) focus.label left right] at htrees
    obtain ⟨hleft, hright⟩ := Loc.allHold_append.mp htrees
    exact Loc.holds_plug.mpr
      ⟨level_place h.siblings h.under hshown h.behind rfl, ⟨hleft, h.tree, hright⟩, trivial⟩
  | cons frame up =>
    have habove (a : RtguiTopwin) (ha : a ∈ Loc.above (frame :: up)) :
        a.shown = true ∧ layer focus.label = layer a :=
      ⟨h.under.parent a ha hshown, h.under.sameLayer a ha⟩
    have hparent : Loc.above (frame :: up) = some frame.2.1 := rfl
    refine Loc.holds_plug.mpr ⟨?_, ⟨trivial, h.tree, h.trees⟩, upHolds_placeUp h.up habove⟩
    refine Level.cons ?_ ?_ fun b hb _ ↦ ⟨hshown, ?_⟩
    · exact above_placeUp (stops focus.label) (frame :: up) ▸ h.siblings
    · exact above_placeUp (stops focus.label) (frame :: up) ▸ h.under
    · have hb := h.siblings.under b hb
      exact ((h.under.rank_eq hparent).trans (hb.rank_eq hparent).symm).le

theorem labelsUp_placeUp (stop : RtguiTopwin → Bool) (up : List (Windows × RtguiTopwin × Windows)) :
    (Loc.labelsUp (placeUp stop up)).Perm (Loc.labelsUp up) := by
  fun_induction placeUp stop up with
  | case1 => rfl
  | case2 left a right =>
    have hall := congrArg Loc.labels (place_append stop a left right)
    rw [Loc.labels_append, Loc.labels_append] at hall
    refine List.Perm.append_right _ ?_
    refine List.perm_middle.trans (.trans ?_ List.perm_middle.symm)
    rw [hall]
  | case3 frame up hne ih =>
    obtain ⟨left, a, right⟩ := frame
    exact ih.append_left _

theorem labels_plug (l : Loc RtguiTopwin) : (Loc.labels l.plug).Perm
    (Loc.visitTree (fun _ ↦ true) l.focus ++ (Loc.labels (l.left ++ l.right) ++
      Loc.labelsUp l.up)) := by
  refine (Loc.labels_plugUp _).trans ?_
  rw [Loc.labels_append, Loc.labels_cons, Loc.labels_append, ← List.append_assoc,
    ← List.append_assoc, ← List.append_assoc]
  exact (List.perm_append_comm.append_right _).append_right _

theorem labels_raise (l : Loc RtguiTopwin) :
    (Loc.labels (raiseTreeFromRoot l).plug).Perm (Loc.labels l.plug) := by
  obtain ⟨left, focus, right, up⟩ := l
  refine (labels_plug _).trans (.trans ?_ (labels_plug _).symm)
  cases up with
  | nil => rw [raiseTreeFromRoot, moveWholeTree2top, place_append]
  | cons frame up => exact ((labelsUp_placeUp _ _).append_left _).append_left _

end Raising

end GiantGecko.Gui.TopWin
