import GiantGecko.Foundation.Bands

namespace GiantGecko.Gui

open Foundation.Bands

/-- The rectangles of a region with more or less than one are behind `data`; where that is
null, there is none and the region is its extents. -/
structure Region where
  extents : Rect
  data : Option (List Rect)
  deriving DecidableEq

namespace Region

def rects (reg : Region) : List Rect := reg.data.getD [reg.extents]

def extentCheck (r1 r2 : Rect) : Bool :=
  ¬(r1.x2 ≤ r2.x1 ∨ r1.x1 ≥ r2.x2 ∨ r1.y2 ≤ r2.y1 ∨ r1.y1 ≥ r2.y2)

def subsumes (r1 r2 : Rect) : Bool := r1.x1 ≤ r2.x1 ∧ r1.x2 ≥ r2.x2 ∧ r1.y1 ≤ r2.y1 ∧ r1.y2 ≥ r2.y2

def inBox (r : Rect) (x y : ℤ) : Bool := r.x2 > x ∧ r.x1 ≤ x ∧ r.y2 > y ∧ r.y1 ≤ y

section Overlap

variable (y1 y2 : ℤ)

def intersectO : List Rect → List Rect → List Rect
  | r1 :: more1, r2 :: more2 =>
    (if max r1.x1 r2.x1 < min r1.x2 r2.x2 then
        [⟨max r1.x1 r2.x1, y1, min r1.x2 r2.x2, y2⟩]
      else []) ++
      intersectO (if r1.x2 = min r1.x2 r2.x2 then more1 else r1 :: more1)
        (if r2.x2 = min r1.x2 r2.x2 then more2 else r2 :: more2)
  | _, _ => []
termination_by r1 r2 => r1.length + r2.length
decreasing_by
  split <;> split <;> simp only [List.length_cons] <;> omega

/-- `MERGERECT`, with what comes after it. -/
def mergeRect (x1 x2 : ℤ) (r : Rect) (next : ℤ → ℤ → List Rect) : List Rect :=
  if r.x1 ≤ x2 then next x1 (if x2 < r.x2 then r.x2 else x2)
  else ⟨x1, y1, x2, y2⟩ :: next r.x1 r.x2

def unionLoop (x1 x2 : ℤ) : List Rect → List Rect → List Rect
  | r1 :: more1, r2 :: more2 =>
    if r1.x1 < r2.x1 then
      mergeRect y1 y2 x1 x2 r1 fun x1 x2 ↦ unionLoop x1 x2 more1 (r2 :: more2)
    else mergeRect y1 y2 x1 x2 r2 fun x1 x2 ↦ unionLoop x1 x2 (r1 :: more1) more2
  | r1 :: more1, [] => mergeRect y1 y2 x1 x2 r1 fun x1 x2 ↦ unionLoop x1 x2 more1 []
  | [], r2 :: more2 => mergeRect y1 y2 x1 x2 r2 fun x1 x2 ↦ unionLoop x1 x2 [] more2
  | [], [] => [⟨x1, y1, x2, y2⟩]
termination_by r1 r2 => r1.length + r2.length

def unionO : List Rect → List Rect → List Rect
  | r1 :: more1, r2 :: more2 =>
    if r1.x1 < r2.x1 then unionLoop y1 y2 r1.x1 r1.x2 more1 (r2 :: more2)
    else unionLoop y1 y2 r2.x1 r2.x2 (r1 :: more1) more2
  | _, _ => []

def fence (x1 : ℤ) : List Rect → ℤ
  | [] => x1
  | r1 :: _ => r1.x1

/-- `x1` is the left-most point of the minuend that is not yet checked. -/
def subtractLoop (x1 : ℤ) : List Rect → List Rect → List Rect
  | r1 :: more1, r2 :: more2 =>
    if r2.x2 ≤ x1 then subtractLoop x1 (r1 :: more1) more2
    else if r2.x1 ≤ x1 then
      if r2.x2 ≥ r1.x2 then subtractLoop (fence r2.x2 more1) more1 (r2 :: more2)
      else subtractLoop r2.x2 (r1 :: more1) more2
    else if r2.x1 < r1.x2 then
      ⟨x1, y1, r2.x1, y2⟩ ::
        if r2.x2 ≥ r1.x2 then subtractLoop (fence r2.x2 more1) more1 (r2 :: more2)
        else subtractLoop r2.x2 (r1 :: more1) more2
    else
      (if r1.x2 > x1 then [⟨x1, y1, r1.x2, y2⟩] else []) ++
        subtractLoop (fence x1 more1) more1 (r2 :: more2)
  | r1 :: more1, [] => ⟨x1, y1, r1.x2, y2⟩ :: subtractLoop (fence x1 more1) more1 []
  | [], _ => []
termination_by r1 r2 => r1.length + r2.length

def subtractO (r1 r2 : List Rect) : List Rect := subtractLoop y1 y2 (fence 0 r1) r1 r2

end Overlap

/-- The new rectangles and `prevBand`, the index of the first one of the last band. -/
abbrev Built := List Rect × ℕ

def coalesce (rects : List Rect) (prevStart curStart : ℕ) : Built :=
  match (rects.take curStart).drop prevStart, rects.drop curStart with
  | prev :: more, cur :: more' =>
    if prev.y2 ≠ cur.y1 then (rects, curStart)
    else if (prev :: more).map span ≠ (cur :: more').map span then (rects, curStart)
    else (rects.take prevStart ++ (prev :: more).map ({· with y2 := cur.y2}), prevStart)
  | _, _ => (rects, curStart)

/-- The macro `Coalesce`, for a current band that is added to the new rectangles. -/
def addBand (built : Built) (band : List Rect) : Built :=
  let curBand := built.1.length
  if curBand - built.2 = band.length then coalesce (built.1 ++ band) built.2 curBand
  else (built.1 ++ band, curBand)

def appendNonO (built : Built) (band : List Rect) (top bot : ℤ) : Built :=
  addBand built (band.map ({· with y1 := top, y2 := bot}))

structure Op where
  overlapFunc : ℤ → ℤ → List Rect → List Rect → List Rect
  appendNon1 : Bool
  appendNon2 : Bool

variable (o : Op)

def appendRest (r1 r2 : List Rect) (ybot : ℤ) (built : Built) : List Rect :=
  match r1, r2, o.appendNon1, o.appendNon2 with
  | r :: more, _, true, _ =>
    if max r.y1 ybot < r.y2 then
      (appendNonO built (firstBand r more) (max r.y1 ybot) r.y2).1 ++ otherBands r more
    else built.1
  | _, r :: more, _, true =>
    if max r.y1 ybot < r.y2 then
      (appendNonO built (firstBand r more) (max r.y1 ybot) r.y2).1 ++ otherBands r more
    else built.1
  | _, _, _, _ => built.1

def nonOverlapping (band1 band2 : List Rect) (r1 r2 : Rect) (ybot : ℤ) (built : Built) : Built :=
  if r1.y1 < r2.y1 then
    if o.appendNon1 = true ∧ max r1.y1 ybot < min r1.y2 r2.y1 then
      appendNonO built band1 (max r1.y1 ybot) (min r1.y2 r2.y1)
    else built
  else if r2.y1 < r1.y1 then
    if o.appendNon2 = true ∧ max r2.y1 ybot < min r2.y2 r1.y1 then
      appendNonO built band2 (max r2.y1 ybot) (min r2.y2 r1.y1)
    else built
  else built

def overlapping (band1 band2 : List Rect) (ytop ybot : ℤ) (built : Built) : Built :=
  if ybot > ytop then addBand built (o.overlapFunc ytop ybot band1 band2) else built

def opLoop (r1 r2 : List Rect) (ybot : ℤ) (built : Built) : List Rect :=
  match r1, r2 with
  | a :: more1, b :: more2 =>
    let ytop := max a.y1 b.y1
    let built := nonOverlapping o (firstBand a more1) (firstBand b more2) a b ybot built
    let ybot := min a.y2 b.y2
    let built := overlapping o (firstBand a more1) (firstBand b more2) ytop ybot built
    opLoop (if a.y2 = ybot then otherBands a more1 else a :: more1)
      (if b.y2 = ybot then otherBands b more2 else b :: more2) ybot built
  | r1, r2 => appendRest o r1 r2 ybot built
termination_by r1.length + r2.length
decreasing_by
  have hlength1 := otherBands_length_le a more1
  have hlength2 := otherBands_length_le b more2
  split <;> split <;> simp only [List.length_cons] <;> omega

def ofRects (extents : Rect) : List Rect → Region
  | [] => ⟨extents, some []⟩
  | [r] => ⟨r, none⟩
  | rects => ⟨extents, some rects⟩

/-- `rtgui_op` for two regions that are not empty, where the memory for the new rectangles can be
had; the coordinates, `rt_int16_t` values, are compared and copied only. -/
def rtguiOp (newReg reg1 reg2 : Region) : Region :=
  match reg1.rects, reg2.rects with
  | a :: more1, b :: more2 =>
    ofRects newReg.extents (opLoop o (a :: more1) (b :: more2) (min a.y1 b.y1) ([], 0))
  | _, _ => newReg

def widen (e r : Rect) : Rect :=
  { e with
    x1 := if r.x1 < e.x1 then r.x1 else e.x1
    x2 := if r.x2 > e.x2 then r.x2 else e.x2 }

def rtguiSetExtents (reg : Region) : Region :=
  match reg.data with
  | none => reg
  | some [] => ⟨⟨reg.extents.x1, reg.extents.y1, reg.extents.x1, reg.extents.y1⟩, reg.data⟩
  | some (box :: more) =>
    let boxEnd := (box :: more).getLast (List.cons_ne_nil box more)
    ⟨(box :: more).foldl widen ⟨box.x1, box.y1, boxEnd.x2, boxEnd.y2⟩, reg.data⟩

def rtguiRegionInit : Region := ⟨⟨0, 0, 0, 0⟩, some []⟩

def rtguiRegionInitWithExtents (extents : Rect) : Region := ⟨extents, none⟩

def isNil (reg : Region) : Bool := reg.data = some []

section Operations

/-! `same` says that `reg1` and `reg2` are the same object. -/

variable (same : Bool) (newReg reg1 reg2 : Region)

def emptied : Region :=
  ⟨{ newReg.extents with x2 := newReg.extents.x1, y2 := newReg.extents.y1 }, some []⟩

def rtguiRegionIntersect : Region :=
  if reg1.isNil ∨ reg2.isNil ∨ ¬extentCheck reg1.extents reg2.extents then emptied newReg
  else if reg1.data = none ∧ reg2.data = none then
    ⟨⟨max reg1.extents.x1 reg2.extents.x1, max reg1.extents.y1 reg2.extents.y1,
      min reg1.extents.x2 reg2.extents.x2, min reg1.extents.y2 reg2.extents.y2⟩, none⟩
  else if reg2.data = none ∧ subsumes reg2.extents reg1.extents then reg1
  else if reg1.data = none ∧ subsumes reg1.extents reg2.extents then reg2
  else if same then reg1
  else rtguiSetExtents (rtguiOp ⟨intersectO, false, false⟩ newReg reg1 reg2)

def rtguiRegionUnion : Region :=
  if same then reg1
  else if reg1.isNil then reg2
  else if reg2.isNil then reg1
  else if reg1.data = none ∧ subsumes reg1.extents reg2.extents then reg1
  else if reg2.data = none ∧ subsumes reg2.extents reg1.extents then reg2
  else
    ⟨⟨min reg1.extents.x1 reg2.extents.x1, min reg1.extents.y1 reg2.extents.y1,
      max reg1.extents.x2 reg2.extents.x2, max reg1.extents.y2 reg2.extents.y2⟩,
      (rtguiOp ⟨unionO, true, true⟩ newReg reg1 reg2).data⟩

def rtguiRegionSubtract (regD regM regS : Region) : Region :=
  if regM.isNil ∨ regS.isNil ∨ ¬extentCheck regM.extents regS.extents then regM
  else if same then emptied regD
  else rtguiSetExtents (rtguiOp ⟨subtractO, true, false⟩ regD regM regS)

def rtguiRegionInverse (invRect : Rect) : Region :=
  if reg1.isNil ∨ ¬extentCheck invRect reg1.extents then ⟨invRect, none⟩
  else rtguiSetExtents
    (rtguiOp ⟨subtractO, true, false⟩ newReg (rtguiRegionInitWithExtents invRect) reg1)

def rtguiRegionSubtractRect (rect : Rect) : Region :=
  rtguiRegionSubtract false newReg reg1 (rtguiRegionInitWithExtents rect)

end Operations

section Queries

def findBox (x y : ℤ) : List Rect → Option Rect
  | [] => none
  | pbox :: more =>
    if y ≥ pbox.y2 then findBox x y more
    else if y < pbox.y1 ∨ x < pbox.x1 then none
    else if x ≥ pbox.x2 then findBox x y more
    else some pbox

def rtguiRegionContainsPoint (reg : Region) (x y : ℤ) : Option Rect :=
  if reg.rects = [] ∨ ¬inBox reg.extents x y then none
  else if reg.rects.length = 1 then some reg.extents
  else findBox x y reg.rects

inductive Contained
  | out
  | inside
  | part
  deriving DecidableEq

/-- A box that has the row `y`; `x` is at the left edge of the rectangle whenever a box is
looked at. -/
def coverBox (prect : Rect) (y : ℤ) (partIn partOut : Bool) (pbox : Rect)
    (next : ℤ → Bool → Bool → Bool × ℤ) : Bool × ℤ :=
  -- not far enough over yet
  if pbox.x2 ≤ prect.x1 then next y partIn partOut
  -- missed part of rectangle to left
  else if pbox.x1 > prect.x1 ∧ partIn then (partIn, y)
  else
    let partOut := partOut || pbox.x1 > prect.x1
    let partIn := partIn || pbox.x1 < prect.x2
    if pbox.x1 < prect.x2 ∧ partOut then (partIn, y)
    else if pbox.x2 ≥ prect.x2 then
      -- finished with this band
      if pbox.y2 ≥ prect.y2 then (partIn, pbox.y2) else next pbox.y2 partIn partOut
    else (partIn, y)

def coverLoop (prect : Rect) : ℤ → Bool → Bool → List Rect → Bool × ℤ
  | y, partIn, _, [] => (partIn, y)
  | y, partIn, partOut, pbox :: more =>
    -- getting up to speed or skipping remainder of band
    if pbox.y2 ≤ y then coverLoop prect y partIn partOut more
    -- missed part of rectangle above
    else if pbox.y1 > y then
      if partIn ∨ pbox.y1 ≥ prect.y2 then (partIn, y)
      else coverBox prect pbox.y1 partIn true pbox fun y partIn partOut ↦
        coverLoop prect y partIn partOut more
    else coverBox prect y partIn partOut pbox fun y partIn partOut ↦
      coverLoop prect y partIn partOut more

def rtguiRegionContainsRectangle (reg : Region) (prect : Rect) : Contained :=
  if reg.rects = [] ∨ ¬extentCheck reg.extents prect then .out
  else if reg.rects.length = 1 then if subsumes reg.extents prect then .inside else .part
  else
    let (partIn, y) := coverLoop prect prect.y1 false false reg.rects
    if partIn then if y < prect.y2 then .part else .inside else .out

end Queries

end Region

end GiantGecko.Gui
