import GiantGecko.Foundation.Forest
import GiantGecko.Gui.Region

namespace GiantGecko.Gui.TopWin

open Foundation.Bands Foundation.Forest Region

/-- A window in the tree of the server, with the fields of its `rtgui_win` that the server
uses. A window is in the tree once, so `wid` stands for the pointers to it. -/
structure RtguiTopwin where
  wid : ℕ
  extent : Rect
  shown : Bool
  activate : Bool
  noFocus : Bool
  onTop : Bool
  onBtm : Bool
  outerExtent : Rect
  outerClip : Region
  deriving DecidableEq

abbrev Windows := List (RoseTree RtguiTopwin)

def layer (w : RtguiTopwin) : Bool × Bool := (w.onTop, w.onBtm)

section Search

variable (tops : Windows)

def rtguiTopwinSearchInList (wid : ℕ) : Option (Loc RtguiTopwin) :=
  Loc.search (·.wid = wid) [] [] tops

def rtguiTopwinGetFocus : Option ℕ :=
  (Loc.search (·.activate) [] [] tops).map (·.focus.label.wid)

def getTopmostChildShown := Loc.down RtguiTopwin.shown

def getTopmostWindowShownFrom (flag : Bool × Bool) (left : Windows) :
    Windows → Option (Loc RtguiTopwin)
  | [] => none
  | topwin :: right =>
    -- reach the hidden region, no window shown in current layer
    if !topwin.label.shown then none
    else if layer topwin.label = flag then some (getTopmostChildShown right left [] topwin)
    else getTopmostWindowShownFrom flag (left ++ [topwin]) right

def rtguiTopwinGetTopmostWindowShown (flag : Bool × Bool) : Option (Loc RtguiTopwin) :=
  getTopmostWindowShownFrom flag [] tops

def rtguiTopwinGetTopmostWindowShownAll : Option (Loc RtguiTopwin) :=
  (rtguiTopwinGetTopmostWindowShown tops (true, false)).or
    ((rtguiTopwinGetTopmostWindowShown tops (false, false)).or
      (rtguiTopwinGetTopmostWindowShown tops (false, true)))

def couldShow (topwin : Loc RtguiTopwin) : Bool := topwin.up.all (·.2.1.shown)

section GetWnd

/-! `modaled` tells which windows have the flag of a modal one above them. -/

variable (modaled : ℕ → Bool) (x y : ℤ)

mutual

/-- `_rtgui_topwin_get_wnd_from_tree` at a window, with what is found behind it. -/
def getWndFromTop (more : Option RtguiTopwin) : RoseTree RtguiTopwin → Option RtguiTopwin
  | .node topwin child =>
    (getWndFromTree child).or
      (if modaled topwin.wid then none
      else if inBox topwin.extent x y then some topwin
      else more)

def getWndFromTree : Windows → Option RtguiTopwin
  | [] => none
  | topwin :: more =>
    if !topwin.label.shown then none else getWndFromTop (getWndFromTree more) topwin

end

def rtguiTopwinGetWndNoModaled : Option RtguiTopwin := getWndFromTree modaled x y tops

end GetWnd

end Search

section Raise

def stops (topwin : RtguiTopwin) (ntopwin : RtguiTopwin) : Bool :=
  if topwin.onTop then true
  else if topwin.onBtm then ntopwin.onBtm || !ntopwin.shown
  else !(ntopwin.onTop && ntopwin.shown)

def place (stop : RtguiTopwin → Bool) (topparent : RtguiTopwin) (left right : Windows) :
    Windows × Windows :=
  if !left.any (stop ·.label) && stop topparent then (left, right)
  else ((left ++ right).takeWhile (!stop ·.label), (left ++ right).dropWhile (!stop ·.label))

def placeUp (stop : RtguiTopwin → Bool) :
    List (Windows × RtguiTopwin × Windows) → List (Windows × RtguiTopwin × Windows)
  | [] => []
  | (left, topparent, right) :: [] =>
    [((place stop topparent left right).1, topparent, (place stop topparent left right).2)]
  | frame :: up => frame :: placeUp stop up

def moveWholeTree2top (topwin : Loc RtguiTopwin) : Loc RtguiTopwin :=
  let stop := stops topwin.focus.label
  match topwin.up with
  | [] =>
    { topwin with
      left := (place stop topwin.focus.label topwin.left topwin.right).1
      right := (place stop topwin.focus.label topwin.left topwin.right).2 }
  | _ => { topwin with up := placeUp stop topwin.up }

def raiseInSibling (topwin : Loc RtguiTopwin) : Loc RtguiTopwin :=
  { topwin with left := [], right := topwin.left ++ topwin.right }

def raiseTreeFromRoot (topwin : Loc RtguiTopwin) : Loc RtguiTopwin :=
  match topwin.up with
  | [] => moveWholeTree2top topwin
  | _ => raiseInSibling (moveWholeTree2top topwin)

end Raise

section Clip

variable (screen : Rect)

def clipToRegion (available : Region) (top : RtguiTopwin) : Region × RtguiTopwin :=
  (rtguiRegionSubtractRect available available top.extent,
    { top with
      outerClip := rtguiRegionIntersect false (rtguiRegionInitWithExtents top.outerExtent)
        (rtguiRegionInitWithExtents top.outerExtent) available })

def rtguiTopwinUpdateClip (tops : Windows) : Windows :=
  match tops with
  | [] => tops
  | first :: _ =>
    if !first.label.shown then tops
    else match rtguiTopwinGetTopmostWindowShownAll tops with
      | none => tops
      | some top => Loc.sweep RtguiTopwin.shown clipToRegion (Loc.labels tops).length
          (rtguiRegionInitWithExtents screen) top

end Clip

section Requests

variable (screen : Rect) (tops : Windows) (wid : ℕ)

def modify (f : RtguiTopwin → RtguiTopwin) : Windows :=
  RoseTree.maps (fun w ↦ if w.wid = wid then f w else w) tops

def onlyActivate (topwin : RtguiTopwin) : Windows :=
  if topwin.noFocus then tops else modify tops topwin.wid ({· with activate := true})

def activateNext (flag : Bool × Bool) : Windows :=
  match rtguiTopwinGetTopmostWindowShown tops flag with
  | none => tops
  | some topwin => onlyActivate tops topwin.focus.label

def deactivate : Windows := modify tops wid ({· with activate := false})

def rtguiTopwinAdd (parent : Option ℕ) (extent : Rect) (noFocus onTop onBtm : Bool) :
    Option Windows :=
  let topwin := RoseTree.node
    ⟨wid, extent, false, false, noFocus, onTop, onBtm, extent, rtguiRegionInitWithExtents extent⟩ []
  match parent with
  | none => some (tops ++ [topwin])
  | some parent => (rtguiTopwinSearchInList tops parent).map fun l ↦
      Loc.plug { l with focus := .node l.focus.label (l.focus.child ++ [topwin]) }

def rtguiTopwinRemove : Option Windows :=
  (rtguiTopwinSearchInList tops wid).map fun l ↦
    let topwin := l.focus.label
    let removed := Loc.plugUp (l.left ++ l.right) l.up
    let removed := if rtguiTopwinGetFocus tops = some topwin.wid then
        activateNext removed (layer topwin)
      else removed
    if topwin.shown then rtguiTopwinUpdateClip screen removed else removed

def rtguiTopwinActivateTopwin (l : Loc RtguiTopwin) : Option Windows :=
  let topwin := l.focus.label
  if !topwin.shown then none
  -- a window without focus is only raised
  else if topwin.noFocus then some (rtguiTopwinUpdateClip screen (raiseTreeFromRoot l).plug)
  else if topwin.activate then some l.plug
  else
    let tops := rtguiTopwinUpdateClip screen (raiseTreeFromRoot l).plug
    let tops := match rtguiTopwinGetFocus l.plug with
      | none => tops
      | some oldFocus => deactivate tops oldFocus
    some (onlyActivate tops topwin)

def rtguiTopwinActivate : Option Windows :=
  (rtguiTopwinSearchInList tops wid).bind (rtguiTopwinActivateTopwin screen)

def markShown (topwin : RtguiTopwin) : RtguiTopwin := { topwin with shown := true }

def markHidden (topwin : RtguiTopwin) : RtguiTopwin := { topwin with shown := false }

def rtguiTopwinShow : Option Windows :=
  (rtguiTopwinSearchInList tops wid).bind fun l ↦
    if !couldShow l then none
    else rtguiTopwinActivateTopwin screen { l with focus := l.focus.map markShown }

def rtguiTopwinHide : Option Windows :=
  (rtguiTopwinSearchInList tops wid).map fun l ↦
    let topwin := l.focus.label
    if !topwin.shown then tops
    else
      let hidden := Loc.plugUp (l.left ++ l.right ++ [l.focus.map markHidden]) l.up
      let hidden := rtguiTopwinUpdateClip screen hidden
      let hidden := if rtguiTopwinGetFocus tops = some topwin.wid then
          activateNext hidden (layer topwin)
        else hidden
      deactivate hidden topwin.wid

/-- The value of an `rt_int16_t`. -/
def wrap (z : ℤ) : ℤ := z.bmod 65536

def rectMove (rect : Rect) (x y : ℤ) : Rect :=
  ⟨wrap (rect.x1 + x), wrap (rect.y1 + y), wrap (rect.x2 + x), wrap (rect.y2 + y)⟩

def rtguiTopwinMove (x y : ℤ) : Option Windows :=
  (rtguiTopwinSearchInList tops wid).bind fun l ↦
    let extent := l.focus.label.extent
    if !l.focus.label.shown then none
    else some (rtguiTopwinUpdateClip screen
      (modify tops wid ({· with extent := rectMove extent (x - extent.x1) (y - extent.y1)})))

/-- What the application does in `rtgui_win_move` before it asks the server. -/
def moveOuterExtent (x y : ℤ) : Windows :=
  modify tops wid fun win ↦
    { win with
      outerExtent := rectMove win.outerExtent (x - win.outerExtent.x1) (y - win.outerExtent.y1) }

def rtguiWinMove (x y : ℤ) : Windows :=
  (rtguiTopwinMove screen (moveOuterExtent tops wid x y) wid x y).getD
    (moveOuterExtent tops wid x y)

def rtguiTopwinResize (rect : Rect) : Windows :=
  match rtguiTopwinSearchInList tops wid with
  | none => tops
  | some l =>
    if !l.focus.label.shown then tops
    else rtguiTopwinUpdateClip screen (modify tops wid ({· with extent := rect}))

end Requests

inductive Event
  | add (wid : ℕ) (parent : Option ℕ) (extent : Rect) (noFocus onTop onBtm : Bool)
  | remove (wid : ℕ)
  | activate (wid : ℕ)
  | show (wid : ℕ)
  | hide (wid : ℕ)
  | move (wid : ℕ) (x y : ℤ)
  | resize (wid : ℕ) (rect : Rect)

def step (screen : Rect) (tops : Windows) : Event → Windows
  | .add wid parent extent noFocus onTop onBtm =>
    (rtguiTopwinAdd tops wid parent extent noFocus onTop onBtm).getD tops
  | .remove wid => (rtguiTopwinRemove screen tops wid).getD tops
  | .activate wid => (rtguiTopwinActivate screen tops wid).getD tops
  | .show wid => (rtguiTopwinShow screen tops wid).getD tops
  | .hide wid => (rtguiTopwinHide screen tops wid).getD tops
  | .move wid x y => rtguiWinMove screen tops wid x y
  | .resize wid rect => rtguiTopwinResize screen tops wid rect

end GiantGecko.Gui.TopWin
