import Mathlib.Data.List.Basic
import Mathlib.Data.Nat.Notation

namespace GiantGecko.Foundation.Forest

/-! Lists of trees, and places in them. -/

variable {α : Type}

inductive RoseTree (α : Type)
  | node (label : α) (child : List (RoseTree α))

namespace RoseTree

def label : RoseTree α → α
  | node a _ => a

def child : RoseTree α → List (RoseTree α)
  | node _ ts => ts

mutual

def map (f : α → α) : RoseTree α → RoseTree α
  | node a child => node (f a) (maps f child)

def maps (f : α → α) : List (RoseTree α) → List (RoseTree α)
  | [] => []
  | t :: ts => t.map f :: maps f ts

end

@[simp] theorem label_map (f : α → α) (t : RoseTree α) : (t.map f).label = f t.label := by
  cases t
  rfl

theorem maps_eq (f : α → α) (ts : List (RoseTree α)) : maps f ts = ts.map (·.map f) := by
  induction ts with
  | nil => rfl
  | cons t ts ih => rw [maps, ih, List.map_cons]

end RoseTree

/-- A tree of the forest with the trees beside it, and for each tree above it the trees beside
that one and its label. -/
structure Loc (α : Type) where
  left : List (RoseTree α)
  focus : RoseTree α
  right : List (RoseTree α)
  up : List (List (RoseTree α) × α × List (RoseTree α))

namespace Loc

variable {up : List (List (RoseTree α) × α × List (RoseTree α))} {ts : List (RoseTree α)}
  {t : RoseTree α} {l : Loc α} {p : α → Bool}

def plugUp (level : List (RoseTree α)) :
    List (List (RoseTree α) × α × List (RoseTree α)) → List (RoseTree α)
  | [] => level
  | (left, a, right) :: up => plugUp (left ++ .node a level :: right) up

def plug (l : Loc α) : List (RoseTree α) := plugUp (l.left ++ l.focus :: l.right) l.up

theorem maps_plugUp {f : α → α} {level level' : List (RoseTree α)}
    (h : RoseTree.maps f level = RoseTree.maps f level') :
    RoseTree.maps f (plugUp level up) = RoseTree.maps f (plugUp level' up) := by
  induction up generalizing level level' with
  | nil => exact h
  | cons frame up ih =>
    refine ih ?_
    simp only [RoseTree.maps_eq, List.map_append, List.map_cons, RoseTree.map] at h ⊢
    rw [h]

section Search

mutual

def searchTree (q : α → Bool) (left right : List (RoseTree α))
    (up : List (List (RoseTree α) × α × List (RoseTree α))) : RoseTree α → Option (Loc α)
  | .node a child =>
    if q a then some ⟨left, .node a child, right, up⟩
    else search q [] ((left, a, right) :: up) child

def search (q : α → Bool) (left : List (RoseTree α))
    (up : List (List (RoseTree α) × α × List (RoseTree α))) : List (RoseTree α) → Option (Loc α)
  | [] => none
  | t :: right => (searchTree q left right up t).or (search q (left ++ [t]) up right)

end

mutual

theorem searchTree_some {q : α → Bool} : {t : RoseTree α} → {left right : List (RoseTree α)} →
    {up : List (List (RoseTree α) × α × List (RoseTree α))} → {l : Loc α} →
      searchTree q left right up t = some l →
        l.plug = plugUp (left ++ t :: right) up ∧ q l.focus.label = true
  | .node a child, left, right, up, l, h => by
    rw [searchTree] at h
    split at h
    · rename_i hq
      obtain rfl := Option.some.inj h
      exact ⟨rfl, hq⟩
    · obtain ⟨hplug, hq⟩ := search_some h
      exact ⟨hplug, hq⟩

theorem search_some {q : α → Bool} : {ts left : List (RoseTree α)} →
    {up : List (List (RoseTree α) × α × List (RoseTree α))} → {l : Loc α} →
      search q left up ts = some l → l.plug = plugUp (left ++ ts) up ∧ q l.focus.label = true
  | [], left, up, l, h => by cases h
  | t :: right, left, up, l, h => by
    rw [search, Option.or_eq_some_iff] at h
    obtain h | ⟨-, h⟩ := h
    · exact searchTree_some h
    · obtain ⟨hplug, hq⟩ := search_some h
      rw [List.append_assoc] at hplug
      exact ⟨hplug, hq⟩

end

end Search

section Traversal

mutual

/-- A tree from the first leaf on, over the trees that come before the first one without
`p`. -/
def visitTree (p : α → Bool) : RoseTree α → List α
  | .node a child => visit p child ++ [a]

def visit (p : α → Bool) : List (RoseTree α) → List α
  | [] => []
  | t :: ts => if p t.label then visitTree p t ++ visit p ts else []

end

def down (p : α → Bool) (right : List (RoseTree α)) (left : List (RoseTree α))
    (up : List (List (RoseTree α) × α × List (RoseTree α))) : RoseTree α → Loc α
  | .node a [] => ⟨left, .node a [], right, up⟩
  | .node a (t :: ts) =>
    if p t.label then down p ts [] ((left, a, right) :: up) t
    else ⟨left, .node a (t :: ts), right, up⟩

def next (p : α → Bool) (l : Loc α) : Option (Loc α) :=
  match l.right, l.up with
  | t :: ts, up =>
    if p t.label then some (down p ts (l.left ++ [l.focus]) up t)
    else match up with
      | [] => none
      | (left, a, right) :: up => some ⟨left, .node a (l.left ++ l.focus :: t :: ts), right, up⟩
  | [], [] => none
  | [], (left, a, right) :: up => some ⟨left, .node a (l.left ++ [l.focus]), right, up⟩

def restUp (p : α → Bool) : List (List (RoseTree α) × α × List (RoseTree α)) → List α
  | [] => []
  | (_, a, right) :: up => a :: (visit p right ++ restUp p up)

def rest (p : α → Bool) (l : Loc α) : List α :=
  l.focus.label :: (visit p l.right ++ restUp p l.up)

theorem rest_down (right left : List (RoseTree α))
    (up : List (List (RoseTree α) × α × List (RoseTree α))) (t : RoseTree α) :
    rest p (down p right left up t) = visitTree p t ++ (visit p right ++ restUp p up) := by
  fun_induction down p right left up t with
  | case1 right left up a => rfl
  | case2 right left up a t ts hp ih =>
    rw [ih, visitTree, visit, if_pos hp]
    simp [restUp]
  | case3 right left up a t ts hp =>
    rw [visitTree, visit, if_neg hp]
    rfl

theorem rest_next (l : Loc α) : rest p l = l.focus.label :: ((next p l).elim [] (rest p)) := by
  obtain ⟨left, focus, right, up⟩ := l
  rw [rest, next]
  cases right with
  | nil =>
    cases up with
    | nil => rfl
    | cons above up => rfl
  | cons t ts =>
    dsimp only
    split
    · rename_i hp
      rw [Option.elim_some, rest_down, visit, if_pos hp, List.append_assoc]
    · rename_i hp
      rw [visit, if_neg hp]
      cases up with
      | nil => rfl
      | cons above up => rfl

theorem plug_down (right left : List (RoseTree α))
    (up : List (List (RoseTree α) × α × List (RoseTree α))) (t : RoseTree α) :
    (down p right left up t).plug = plugUp (left ++ t :: right) up := by
  fun_induction down p right left up t with
  | case1 right left up a => rfl
  | case2 right left up a t ts hp ih => rw [ih, List.nil_append, plugUp]
  | case3 right left up a t ts hp => rfl

theorem plug_next {l l' : Loc α} (h : next p l = some l') : l'.plug = l.plug := by
  obtain ⟨left, focus, right, up⟩ := l
  rw [next] at h
  cases right with
  | nil =>
    cases up with
    | nil => cases h
    | cons frame up =>
      obtain rfl := Option.some.inj h
      rfl
  | cons t ts =>
    dsimp only at h
    split at h
    · obtain rfl := Option.some.inj h
      rw [plug_down, List.append_assoc]
      rfl
    · cases up with
      | nil => cases h
      | cons frame up =>
        obtain rfl := Option.some.inj h
        rfl

theorem down_label (right left : List (RoseTree α))
    (up : List (List (RoseTree α) × α × List (RoseTree α))) (t : RoseTree α)
    (ht : p t.label = true) : p (down p right left up t).focus.label = true := by
  fun_induction down p right left up t with
  | case1 right left up a => exact ht
  | case2 right left up a t ts hp ih => exact ih hp
  | case3 right left up a t ts hp => exact ht

def labels (ts : List (RoseTree α)) : List α := visit (fun _ ↦ true) ts

@[simp] theorem visit_nil : visit p [] = [] := rfl

theorem visit_cons : visit p (t :: ts) =
    if p t.label then visitTree p t ++ visit p ts else [] := by rw [visit]

theorem visit_of_not (h : p t.label = false) : visit p (t :: ts) = [] := by
  rw [visit_cons, h]
  rfl

theorem visit_append {ts' : List (RoseTree α)} : visit p (ts ++ ts') =
    visit p ts ++ if ts.all (p ·.label) then visit p ts' else [] := by
  induction ts with
  | nil => rfl
  | cons t ts ih =>
    rw [List.cons_append, visit_cons, visit_cons, List.all_cons, ih]
    cases p t.label
    · rfl
    · rw [Bool.true_and, if_pos rfl, if_pos rfl, List.append_assoc]

theorem visit_concat (h : p t.label = false) : visit p (ts ++ [t]) = visit p ts := by
  rw [visit_append, visit_of_not h, ite_self, List.append_nil]

theorem visit_plugUp {level level' : List (RoseTree α)} (h : visit p level = visit p level') :
    visit p (plugUp level up) = visit p (plugUp level' up) := by
  induction up generalizing level level' with
  | nil => exact h
  | cons frame up ih =>
    obtain ⟨left, a, right⟩ := frame
    refine ih ?_
    rw [visit_append, visit_append, visit_cons, visit_cons, visitTree, visitTree, h]
    rfl

theorem labels_append {ts' : List (RoseTree α)} : labels (ts ++ ts') = labels ts ++ labels ts' := by
  rw [labels, visit_append, if_pos (List.all_eq_true.mpr fun _ _ ↦ rfl)]
  rfl

theorem labels_cons : labels (t :: ts) = visitTree (fun _ ↦ true) t ++ labels ts := rfl

theorem labels_singleton : labels [t] = visitTree (fun _ ↦ true) t := List.append_nil _

def labelsUp : List (List (RoseTree α) × α × List (RoseTree α)) → List α
  | [] => []
  | (left, a, right) :: up => labels left ++ a :: labels right ++ labelsUp up

theorem labels_plugUp (level : List (RoseTree α)) :
    (labels (plugUp level up)).Perm (labels level ++ labelsUp up) := by
  induction up generalizing level with
  | nil => rw [labelsUp, List.append_nil, plugUp]
  | cons frame up ih =>
    obtain ⟨left, a, right⟩ := frame
    refine (ih _).trans ?_
    rw [labelsUp, ← List.append_assoc]
    refine List.Perm.append_right _ ?_
    rw [labels_append, labels_cons, visitTree, ← labels, List.append_assoc,
      ← List.append_assoc (labels level), ← List.append_assoc]
    refine (List.perm_append_comm.append_right _).trans ?_
    rw [List.append_assoc, List.append_assoc, List.singleton_append]
    exact List.Perm.append_left _ List.perm_middle.symm

mutual

theorem visitTree_subset : {t : RoseTree α} → visitTree p t ⊆ visitTree (fun _ ↦ true) t
  | .node a child => by
    rw [visitTree, visitTree]
    exact List.append_subset.mpr
      ⟨List.Subset.trans visit_subset (List.subset_append_left _ _), List.subset_append_right _ _⟩

theorem visit_subset : {ts : List (RoseTree α)} → visit p ts ⊆ labels ts
  | [] => List.Subset.refl _
  | t :: ts => by
    rw [visit_cons, labels_cons]
    split
    · exact List.append_subset.mpr
        ⟨List.Subset.trans visitTree_subset (List.subset_append_left _ _),
          List.Subset.trans visit_subset (List.subset_append_right _ _)⟩
    · exact List.nil_subset _

end

mutual

theorem visitTree_length_le : {t : RoseTree α} →
    (visitTree p t).length ≤ (visitTree (fun _ ↦ true) t).length
  | .node a child => by
    rw [visitTree, visitTree, List.length_append, List.length_append]
    exact Nat.add_le_add_right visit_length_le _

theorem visit_length_le : {ts : List (RoseTree α)} → (visit p ts).length ≤ (labels ts).length
  | [] => Nat.le_refl _
  | t :: ts => by
    rw [visit_cons, labels_cons, List.length_append]
    split
    · rw [List.length_append]
      exact Nat.add_le_add visitTree_length_le visit_length_le
    · exact Nat.zero_le _

end

mutual

theorem visitTree_map {f : α → α} (hf : ∀ a, p (f a) = p a) :
    (t : RoseTree α) → visitTree p (t.map f) = (visitTree p t).map f
  | .node a child => by
    rw [RoseTree.map, visitTree, visitTree, visit_maps hf child, List.map_append]
    rfl

theorem visit_maps {f : α → α} (hf : ∀ a, p (f a) = p a) :
    (ts : List (RoseTree α)) → visit p (RoseTree.maps f ts) = (visit p ts).map f
  | [] => rfl
  | t :: ts => by
    rw [RoseTree.maps, visit_cons, visit_cons, RoseTree.label_map, hf, visitTree_map hf t,
      visit_maps hf ts]
    split
    · rw [List.map_append]
    · rfl

end

mutual

theorem visitTree_holds : {t : RoseTree α} → p t.label = true → ∀ a ∈ visitTree p t, p a = true
  | .node b child, ht, a, ha => by
    obtain ha | ha := List.mem_append.mp ha
    · exact visit_holds a ha
    · obtain rfl := List.mem_singleton.mp ha
      exact ht

theorem visit_holds : {ts : List (RoseTree α)} → ∀ a ∈ visit p ts, p a = true
  | [], a, ha => by cases ha
  | t :: ts, a, ha => by
    rw [visit_cons] at ha
    split at ha
    · rename_i ht
      exact (List.mem_append.mp ha).elim (visitTree_holds ht a) (visit_holds a)
    · cases ha

end

mutual

theorem map_eq_self {f : α → α} : {t : RoseTree α} → (∀ a ∈ visitTree (fun _ ↦ true) t, f a = a) →
    t.map f = t
  | .node a child, h => by
    rw [RoseTree.map, maps_eq_self fun b hb ↦ h b (List.mem_append_left _ hb),
      h a (List.mem_append_right _ (List.mem_singleton_self a))]

theorem maps_eq_self {f : α → α} : {ts : List (RoseTree α)} → (∀ a ∈ labels ts, f a = a) →
    RoseTree.maps f ts = ts
  | [], _ => rfl
  | t :: ts, h => by
    rw [RoseTree.maps, map_eq_self fun a ha ↦ h a (List.mem_append_left _ ha),
      maps_eq_self fun a ha ↦ h a (List.mem_append_right _ ha)]

end

mutual

theorem searchTree_none {q : α → Bool} : {t : RoseTree α} → {left right : List (RoseTree α)} →
    {up : List (List (RoseTree α) × α × List (RoseTree α))} → searchTree q left right up t = none →
      ∀ a ∈ visitTree (fun _ ↦ true) t, q a = false
  | .node b child, left, right, up, h, a, ha => by
    rw [searchTree] at h
    split at h
    · cases h
    · rename_i hb
      obtain ha | ha := List.mem_append.mp ha
      · exact search_none h a ha
      · obtain rfl := List.mem_singleton.mp ha
        exact Bool.eq_false_iff.mpr hb

theorem search_none {q : α → Bool} : {ts left : List (RoseTree α)} →
    {up : List (List (RoseTree α) × α × List (RoseTree α))} → search q left up ts = none →
      ∀ a ∈ labels ts, q a = false
  | [], left, up, h, a, ha => by cases ha
  | t :: ts, left, up, h, a, ha => by
    rw [search, Option.or_eq_none_iff] at h
    exact (List.mem_append.mp ha).elim (searchTree_none h.1 a) (search_none h.2 a)

end

theorem labels_maps (f : α → α) : labels (RoseTree.maps f ts) = (labels ts).map f :=
  visit_maps (f := f) (fun _ ↦ rfl) ts

end Traversal

section Sweep

variable {σ : Type} {p : α → Bool} {step : σ → α → σ × α} {s : σ}

/-- One step at each label, from the first on. -/
def pass (step : σ → α → σ × α) : σ → List α → σ × List α
  | s, [] => (s, [])
  | s, a :: rest => ((pass step (step s a).1 rest).1, (step s a).2 :: (pass step (step s a).1 rest).2)

theorem pass_append (as' : List α) (bs : List α) : pass step s (as' ++ bs) =
    ((pass step (pass step s as').1 bs).1,
      (pass step s as').2 ++ (pass step (pass step s as').1 bs).2) := by
  induction as' generalizing s with
  | nil => rfl
  | cons a as' ih =>
    rw [List.cons_append, pass, pass, ih]
    rfl

variable (p step)

mutual

def sweepTree (s : σ) : RoseTree α → σ × RoseTree α
  | .node a child =>
    ((step (sweepAll s child).1 a).1, .node (step (sweepAll s child).1 a).2 (sweepAll s child).2)

def sweepAll (s : σ) : List (RoseTree α) → σ × List (RoseTree α)
  | [] => (s, [])
  | t :: ts =>
    if p t.label then
      ((sweepAll (sweepTree s t).1 ts).1, (sweepTree s t).2 :: (sweepAll (sweepTree s t).1 ts).2)
    else (s, t :: ts)

end

def sweepUp (s : σ) (level : List (RoseTree α)) :
    List (List (RoseTree α) × α × List (RoseTree α)) → List (RoseTree α)
  | [] => level
  | (left, a, right) :: up =>
    sweepUp (sweepAll p step (step s a).1 right).1
      (left ++ .node (step s a).2 level :: (sweepAll p step (step s a).1 right).2) up

def stepAt (s : σ) (l : Loc α) : Loc α :=
  { l with focus := .node (step s l.focus.label).2 l.focus.child }

/-- The loop that goes from one label to the next. -/
def sweep : ℕ → σ → Loc α → List (RoseTree α)
  | 0, _, l => l.plug
  | fuel + 1, s, l =>
    match next p (stepAt step s l) with
    | none => (stepAt step s l).plug
    | some l' => sweep fuel (step s l.focus.label).1 l'

def sweepRest (s : σ) (l : Loc α) : List (RoseTree α) :=
  sweepUp p step (sweepAll p step (step s l.focus.label).1 l.right).1
    (l.left ++ .node (step s l.focus.label).2 l.focus.child ::
      (sweepAll p step (step s l.focus.label).1 l.right).2) l.up

variable {p step}

theorem sweepRest_down (right left : List (RoseTree α))
    (up : List (List (RoseTree α) × α × List (RoseTree α))) (t : RoseTree α) :
    sweepRest p step s (down p right left up t) =
      sweepUp p step (sweepAll p step (sweepTree p step s t).1 right).1
        (left ++ (sweepTree p step s t).2 :: (sweepAll p step (sweepTree p step s t).1 right).2)
        up := by
  fun_induction down p right left up t with
  | case1 right left up a => rfl
  | case2 right left up a t ts hp ih =>
    rw [ih, sweepTree, sweepAll, if_pos hp]
    rfl
  | case3 right left up a t ts hp =>
    rw [sweepTree, sweepAll, if_neg hp]
    rfl

theorem sweepRest_next (l : Loc α) : sweepRest p step s l =
    (next p (stepAt step s l)).elim (stepAt step s l).plug
      (sweepRest p step (step s l.focus.label).1) := by
  obtain ⟨left, focus, right, up⟩ := l
  rw [sweepRest, stepAt, next]
  cases right with
  | nil =>
    cases up with
    | nil => rfl
    | cons frame up => rfl
  | cons t ts =>
    dsimp only
    split
    · rename_i hp
      rw [Option.elim_some, sweepRest_down, sweepAll, if_pos hp, List.append_assoc]
      rfl
    · rename_i hp
      rw [sweepAll, if_neg hp]
      cases up with
      | nil => rfl
      | cons frame up => rfl

theorem sweep_eq {fuel : ℕ} {l : Loc α} (h : (rest p l).length ≤ fuel) :
    sweep p step fuel s l = sweepRest p step s l := by
  induction fuel generalizing s l with
  | zero => cases h
  | succ fuel ih =>
    have hrest : rest p (stepAt step s l) = (step s l.focus.label).2 :: (rest p l).tail := rfl
    have hnext := rest_next (p := p) (stepAt step s l)
    rw [sweep, sweepRest_next]
    split
    · rename_i hnone
      rw [hnone, Option.elim_none]
    · rename_i l' hsome
      rw [hsome] at hnext
      rw [hsome, Option.elim_some, ih]
      have htail := (List.cons.inj (hrest.symm.trans hnext)).2
      rw [Option.elim_some] at htail
      rw [← htail, List.length_tail]
      omega

theorem sweep_first {fuel : ℕ} (hp : p t.label = true) (h : (labels (t :: ts)).length ≤ fuel) :
    sweep p step fuel s (down p ts [] [] t) = (sweepAll p step s (t :: ts)).2 := by
  rw [sweep_eq, sweepRest_down, sweepAll, if_pos hp]
  · rfl
  · rw [rest_down, restUp, List.append_nil, ← if_pos hp (t := _ ++ _) (e := []), ← visit_cons]
    exact Nat.le_trans visit_length_le h

mutual

theorem sweepTree_spec (hp : ∀ s a, p (step s a).2 = p a) : {t : RoseTree α} → {s : σ} →
    pass step s (visitTree p t) =
      ((sweepTree p step s t).1, visitTree p (sweepTree p step s t).2)
  | .node a child, s => by
    rw [visitTree, pass_append, sweepAll_spec hp, sweepTree, visitTree]
    rfl

theorem sweepAll_spec (hp : ∀ s a, p (step s a).2 = p a) : {ts : List (RoseTree α)} → {s : σ} →
    pass step s (visit p ts) = ((sweepAll p step s ts).1, visit p (sweepAll p step s ts).2)
  | [], s => rfl
  | t :: ts, s => by
    rw [visit_cons, sweepAll]
    split
    · rename_i ht
      have hlabel : p (sweepTree p step s t).2.label = true := by
        rw [← ht]
        cases t with
        | node a child => exact hp _ a
      rw [pass_append, sweepTree_spec hp, sweepAll_spec hp, visit_cons, if_pos hlabel]
    · rename_i ht
      rw [visit_cons, if_neg ht]
      rfl

end

theorem maps_sweep {f : α → α} (hf : ∀ s a, f (step s a).2 = f a) {fuel : ℕ}
    {l : Loc α} : RoseTree.maps f (sweep p step fuel s l) = RoseTree.maps f l.plug := by
  have hstep (s : σ) (l : Loc α) :
      RoseTree.maps f (stepAt step s l).plug = RoseTree.maps f l.plug := by
    refine maps_plugUp ?_
    obtain ⟨left, ⟨a, child⟩, right, up⟩ := l
    simp only [RoseTree.maps_eq, List.map_append, List.map_cons, stepAt, RoseTree.label,
      RoseTree.child, RoseTree.map, hf]
  induction fuel generalizing s l with
  | zero => rfl
  | succ fuel ih =>
    rw [sweep]
    split
    · exact hstep s l
    · rename_i hnext
      rw [ih, plug_next hnext, hstep]

end Sweep

section Levels

variable {P Q : Option α → List α → Prop} {R : α → Prop} {level : List (RoseTree α)} {a? : Option α}

mutual

def TreeHolds (P : Option α → List α → Prop) : RoseTree α → Prop
  | .node a child => P (some a) (child.map RoseTree.label) ∧ AllHold P child

def AllHold (P : Option α → List α → Prop) : List (RoseTree α) → Prop
  | [] => True
  | t :: ts => TreeHolds P t ∧ AllHold P ts

end

/-- A property of the labels of every level and of the label above it. -/
def Holds (P : Option α → List α → Prop) (above : Option α) (level : List (RoseTree α)) : Prop :=
  P above (level.map RoseTree.label) ∧ AllHold P level

def above : List (List (RoseTree α) × α × List (RoseTree α)) → Option α
  | [] => none
  | (_, a, _) :: _ => some a

def UpHolds (P : Option α → List α → Prop) : List (List (RoseTree α) × α × List (RoseTree α)) → Prop
  | [] => True
  | (left, a, right) :: up =>
    P (above up) (left.map RoseTree.label ++ a :: right.map RoseTree.label) ∧
      (AllHold P left ∧ AllHold P right) ∧ UpHolds P up

theorem allHold_append {ts' : List (RoseTree α)} :
    AllHold P (ts ++ ts') ↔ AllHold P ts ∧ AllHold P ts' := by
  induction ts with
  | nil => simp [AllHold]
  | cons t ts ih => rw [List.cons_append, AllHold, AllHold, ih, and_assoc]

theorem allHold_cons : AllHold P (t :: ts) ↔ TreeHolds P t ∧ AllHold P ts := by rw [AllHold]

theorem holds_plugUp :
    Holds P none (plugUp level up) ↔ Holds P (above up) level ∧ UpHolds P up := by
  induction up generalizing level with
  | nil => simp [plugUp, UpHolds, above]
  | cons frame up ih =>
    obtain ⟨left, a, right⟩ := frame
    rw [plugUp, ih, UpHolds, Holds, Holds, above, allHold_append, allHold_cons, TreeHolds,
      List.map_append, List.map_cons, RoseTree.label]
    tauto

theorem holds_plug : Holds P none l.plug ↔
    P (above l.up) (l.left.map RoseTree.label ++ l.focus.label :: l.right.map RoseTree.label) ∧
      (AllHold P l.left ∧ TreeHolds P l.focus ∧ AllHold P l.right) ∧ UpHolds P l.up := by
  rw [plug, holds_plugUp, Holds, allHold_append, allHold_cons, List.map_append, List.map_cons,
    and_assoc]

mutual

theorem treeHolds_map {f : α → α} : {t : RoseTree α} →
    (TreeHolds P (t.map f) ↔ TreeHolds (fun above bs ↦ P (above.map f) (bs.map f)) t)
  | .node a child => by
    rw [RoseTree.map, TreeHolds, TreeHolds, allHold_maps, RoseTree.maps_eq, List.map_map,
      List.map_map]
    simp only [Function.comp_def, RoseTree.label_map, Option.map_some]

theorem allHold_maps {f : α → α} : {ts : List (RoseTree α)} →
    (AllHold P (RoseTree.maps f ts) ↔ AllHold (fun above bs ↦ P (above.map f) (bs.map f)) ts)
  | [] => Iff.rfl
  | t :: ts => by rw [RoseTree.maps, allHold_cons, allHold_cons, treeHolds_map, allHold_maps]

end

theorem holds_maps {f : α → α} (a? : Option α) : Holds P (a?.map f) (RoseTree.maps f ts) ↔
    Holds (fun above bs ↦ P (above.map f) (bs.map f)) a? ts := by
  rw [Holds, Holds, allHold_maps, RoseTree.maps_eq, List.map_map, List.map_map]
  simp only [Function.comp_def, RoseTree.label_map]

mutual

theorem treeHolds_mono (h : ∀ a bs, P (some a) bs → Q (some a) bs) : {t : RoseTree α} →
    TreeHolds P t → TreeHolds Q t
  | .node _ _, hall => ⟨h _ _ hall.1, allHold_mono h hall.2⟩

theorem allHold_mono (h : ∀ a bs, P (some a) bs → Q (some a) bs) : {ts : List (RoseTree α)} →
    AllHold P ts → AllHold Q ts
  | [], _ => trivial
  | _ :: _, hall => ⟨treeHolds_mono h hall.1, allHold_mono h hall.2⟩

end

theorem Holds.mono (h : ∀ above bs, P above bs → Q above bs) (hall : Holds P a? ts) :
    Holds Q a? ts := ⟨h _ _ hall.1, allHold_mono (fun a ↦ h (some a)) hall.2⟩

mutual

theorem treeHolds_and : {t : RoseTree α} → TreeHolds P t → TreeHolds Q t →
    TreeHolds (fun above bs ↦ P above bs ∧ Q above bs) t
  | .node _ _, hP, hQ => ⟨⟨hP.1, hQ.1⟩, allHold_and hP.2 hQ.2⟩

theorem allHold_and : {ts : List (RoseTree α)} → AllHold P ts → AllHold Q ts →
    AllHold (fun above bs ↦ P above bs ∧ Q above bs) ts
  | [], _, _ => trivial
  | _ :: _, hP, hQ => ⟨treeHolds_and hP.1 hQ.1, allHold_and hP.2 hQ.2⟩

end

theorem Holds.and (hP : Holds P a? ts) (hQ : Holds Q a? ts) :
    Holds (fun above bs ↦ P above bs ∧ Q above bs) a? ts :=
  ⟨⟨hP.1, hQ.1⟩, allHold_and hP.2 hQ.2⟩

theorem label_mem (ht : t ∈ ts) : t.label ∈ labels ts := by
  induction ht with
  | head ts =>
    cases t with
    | node a child =>
      rw [labels_cons, visitTree]
      simp [RoseTree.label]
  | tail _ _ ih =>
    rw [labels_cons]
    exact List.mem_append_right _ ih

mutual

theorem treeHolds_of_forall : {t : RoseTree α} → (∀ a ∈ visitTree (fun _ ↦ true) t, R a) →
    TreeHolds (fun _ bs ↦ ∀ b ∈ bs, R b) t
  | .node a child, h => by
    have hchild : ∀ b ∈ labels child, R b := fun b hb ↦ h b (List.mem_append_left _ hb)
    refine ⟨fun b hb ↦ ?_, allHold_of_forall hchild⟩
    obtain ⟨t, ht, rfl⟩ := List.mem_map.mp hb
    exact hchild _ (label_mem ht)

theorem allHold_of_forall : {ts : List (RoseTree α)} → (∀ a ∈ labels ts, R a) →
    AllHold (fun _ bs ↦ ∀ b ∈ bs, R b) ts
  | [], _ => trivial
  | _ :: _, h =>
    ⟨treeHolds_of_forall fun a ha ↦ h a (List.mem_append_left _ ha),
      allHold_of_forall fun a ha ↦ h a (List.mem_append_right _ ha)⟩

end

theorem holds_of_forall (h : ∀ a ∈ labels ts, R a) :
    Holds (fun _ bs ↦ ∀ b ∈ bs, R b) a? ts := by
  refine ⟨fun b hb ↦ ?_, allHold_of_forall h⟩
  obtain ⟨t, ht, rfl⟩ := List.mem_map.mp hb
  exact h _ (label_mem ht)

end Levels

end Loc

end GiantGecko.Foundation.Forest
