import GiantGecko.MemLcd.Pixels

namespace GiantGecko.MemLcd.Lines

open Driver Pixels

def u16 (i : ℤ) : UInt16 := UInt16.ofNat (truncate 16 i)

def drawHline (mlcd : Memlcd) (pixel : UInt8) (x1 x2 y : ℤ) : Memlcd :=
  memlcdFillRect mlcd (u16 x1) (u16 y) (u16 (x2 - x1 + 1)) 1 (pixel = 0)

def drawVline (mlcd : Memlcd) (pixel : UInt8) (x y1 y2 : ℤ) : Memlcd :=
  memlcdFillRect mlcd (u16 x) (u16 y1) 1 (u16 (y2 - y1 + 1)) (pixel = 0)

def drawpointPos (x y : UInt16) : ℕ :=
  truncate 16 (((mlcdX - x.toNat - 1 : ℤ).tdiv 8) + (mlcdY - y.toNat - 1) * mlcdBytesLine)

def refreshPositions (line : UInt8) : List ℕ :=
  (List.range mlcdBytesLine).map fun i ↦ i + truncate 8 (mlcdY - line.toNat - 1) * mlcdBytesLine

def fillRectPositions (x y width height : UInt16) : List ℕ :=
  (List.range height.toNat).flatMap fun h ↦
    (List.range width.toNat).map (fun w ↦ drawpointPos (x + UInt16.ofNat w) (y + UInt16.ofNat h)) ++
      refreshPositions (UInt8.ofNat (y + UInt16.ofNat h).toNat)

theorem drawpoint_frame (buf : FrameBuffer) (x y : UInt16) (bDraw : Bool) {pos : ℕ}
    (h : pos ≠ drawpointPos x y) : drawpoint buf x y bDraw pos = buf pos :=
  Function.update_of_ne h _ _

theorem refresh_sends (mlcd : Memlcd) (line : UInt8) :
    ∃ cmd addr, (memlcdRefresh mlcd line).sent = mlcd.sent ++
      [⟨cmd :: addr :: (refreshPositions line).map mlcd.buf ++ [0, 0], mlcd.buf⟩] := by
  refine ⟨mlcdWr ||| (mlcd.vcom ^^^ vcomMask),
    lineToAddr (UInt8.ofNat (truncate 8 (mlcdY - line.toNat - 1))), ?_⟩
  rw [refreshPositions, List.map_map]
  rfl

theorem fillLine_frame (buf : FrameBuffer) (x y : UInt16) (width : ℕ) (bDraw : Bool) {pos : ℕ}
    (h : ∀ w < width, pos ≠ drawpointPos (x + UInt16.ofNat w) y) :
    fillLine buf x y width bDraw pos = buf pos := by
  induction width with
  | zero => rfl
  | succ width ih =>
    rw [fillLine_succ, drawpoint_frame _ _ _ _ (h width (by omega)), ih fun w hw ↦ h w (by omega)]

theorem fillRect_frame (mlcd : Memlcd) (x y width height : UInt16) (bDraw : Bool) {pos : ℕ}
    (h : pos ∉ fillRectPositions x y width height) :
    (memlcdFillRect mlcd x y width height bDraw).buf pos = mlcd.buf pos := by
  have hrow : ∀ r < height.toNat, ∀ w < width.toNat,
      pos ≠ drawpointPos (x + UInt16.ofNat w) (y + UInt16.ofNat r) := by
    intro r hr w hw heq
    refine h (List.mem_flatMap.mpr ⟨r, List.mem_range.mpr hr, List.mem_append_left _ ?_⟩)
    exact List.mem_map.mpr ⟨w, List.mem_range.mpr hw, heq.symm⟩
  rw [memlcdFillRect]
  generalize height.toNat = rows at hrow ⊢
  induction rows with
  | zero => rfl
  | succ rows ih =>
    rw [fillLines_succ, memlcdRefresh_buf]
    exact (fillLine_frame _ _ _ _ _ (hrow rows (by omega))).trans
      (ih fun r hr ↦ hrow r (by omega))

/-- The quotient is cut towards zero, so the column right of the screen stays in
its row. -/
theorem column_div {x : UInt16} (hx : x.toNat ≤ 400) :
    (mlcdX - x.toNat - 1 : ℤ).tdiv 8 = ((399 - x.toNat) / 8 : ℕ) := by
  rcases Nat.lt_or_eq_of_le hx with hx | hx
  · have hsub : (mlcdX - x.toNat - 1 : ℤ) = ((399 - x.toNat : ℕ) : ℤ) := by
      simp only [mlcdX]
      omega
    rw [hsub, Int.natCast_tdiv_eq_ediv]
    rfl
  · rw [hx]
    rfl

theorem drawpointPos_eq {x y : UInt16} (hx : x.toNat ≤ 400) (hy : y.toNat < 240) :
    drawpointPos x y = pixelPos x.toNat y.toNat := by
  have hrow : (mlcdY - y.toNat - 1 : ℤ) * mlcdBytesLine = (((239 - y.toNat) * 50 : ℕ) : ℤ) := by
    simp only [mlcdY, mlcdBytesLine, mlcdX]
    push_cast
    omega
  rw [drawpointPos, column_div hx, hrow]
  norm_cast
  exact truncate_of_lt (by omega)

theorem drawpointPos_lt {x y : UInt16} (hx : x.toNat ≤ 400) (hy : y.toNat < 240) :
    drawpointPos x y < mlcdBufSize := by
  rw [drawpointPos_eq hx hy, show mlcdBufSize = 12000 from rfl, pixelPos]
  omega

/-- The row below the screen lies before the buffer, at an index that wraps. -/
theorem drawpointPos_below {x y : UInt16} (hx : x.toNat ≤ 400) (hy : y.toNat = 240) :
    mlcdBufSize ≤ drawpointPos x y := by
  have hrow : (mlcdY - y.toNat - 1 : ℤ) * mlcdBytesLine = -50 := by
    rw [hy]
    rfl
  have hcol : (399 - x.toNat) / 8 < 50 := by omega
  rw [drawpointPos, column_div hx, hrow, show mlcdBufSize = 12000 from rfl]
  generalize (399 - x.toNat) / 8 = col at hcol
  simp only [truncate, Int.reducePow]
  omega

theorem refreshPositions_lt {line : UInt8} (h : line.toNat < 240) :
    ∀ pos ∈ refreshPositions line, pos < mlcdBufSize := by
  intro pos hpos
  obtain ⟨i, hi, rfl⟩ := List.mem_map.mp hpos
  have hi' := List.mem_range.mp hi
  simp only [truncate, mlcdY, mlcdX, mlcdBytesLine, mlcdBufSize] at hi' ⊢
  omega

theorem fillRectPositions_lt {x y width height : UInt16} (hx : x.toNat + width.toNat ≤ 401)
    (hy : y.toNat + height.toNat ≤ 240) :
    ∀ pos ∈ fillRectPositions x y width height, pos < mlcdBufSize := by
  intro pos hpos
  obtain ⟨h, hh, hpos⟩ := List.mem_flatMap.mp hpos
  have hh' := List.mem_range.mp hh
  have hrow := toNat_add_ofNat (x := y) (n := h) (by omega)
  rcases List.mem_append.mp hpos with hpos | hpos
  · obtain ⟨w, hw, rfl⟩ := List.mem_map.mp hpos
    have hw' := List.mem_range.mp hw
    have hcol := toNat_add_ofNat (x := x) (n := w) (by omega)
    exact drawpointPos_lt (by omega) (by omega)
  · refine refreshPositions_lt ?_ pos hpos
    rw [UInt8.toNat_ofNat']
    omega

theorem drawpoint_edge (buf : FrameBuffer) {x : UInt16} (hx : x.toNat = 400) (y : UInt16)
    (bDraw : Bool) : drawpoint buf x y bDraw = buf := by
  have hmask : pointMask (truncate 16 ((mlcdX - x.toNat - 1 : ℤ).tmod 8)) = 0 := by
    rw [hx]
    rfl
  simp only [drawpoint, hmask]
  refine Function.update_eq_self_iff.mpr ?_
  cases bDraw <;> simp

inductive Line
  | hline (x1 x2 y : ℤ)
  | vline (x y1 y2 : ℤ)

def drawLine (mlcd : Memlcd) (pixel : UInt8) : Line → Memlcd
  | .hline x1 x2 y => drawHline mlcd pixel x1 x2 y
  | .vline x y1 y2 => drawVline mlcd pixel x y1 y2

def Line.positions : Line → List ℕ
  | .hline x1 x2 y => fillRectPositions (u16 x1) (u16 y) (u16 (x2 - x1 + 1)) 1
  | .vline x y1 y2 => fillRectPositions (u16 x) (u16 y1) 1 (u16 (y2 - y1 + 1))

def Line.Inside : Line → Prop
  | .hline x1 x2 y => 0 ≤ x1 ∧ x1 < x2 ∧ x2 ≤ mlcdX ∧ 0 ≤ y ∧ y < mlcdY
  | .vline x y1 y2 => 0 ≤ x ∧ x < mlcdX ∧ 0 ≤ y1 ∧ y1 < y2 ∧ y2 ≤ mlcdY

def Line.Covers : Line → ℕ → ℕ → Prop
  | .hline x1 x2 y, u, v => x1 ≤ u ∧ u < x2 ∧ v = y
  | .vline x y1 y2, u, v => u = x ∧ y1 ≤ v ∧ v < y2

/-- The pixels of the half-open line get the colour, every other one keeps its
own, and no access leaves the frame buffer. -/
structure Exact (mlcd : Memlcd) (pixel : UInt8) (line : Line) : Prop where
  drawn : ∀ u < 400, ∀ v < 240, line.Covers u v →
    pixelAt (drawLine mlcd pixel line).buf u v = decide (pixel ≠ 0)
  kept : ∀ u < 400, ∀ v < 240, ¬ line.Covers u v →
    pixelAt (drawLine mlcd pixel line).buf u v = pixelAt mlcd.buf u v
  inBounds : ∀ pos ∈ line.positions, pos < mlcdBufSize

/-- The pixel at the excluded end is off the screen to the right, or has the
colour of the line before it is drawn. -/
def Line.EndHarmless (mlcd : Memlcd) (pixel : UInt8) : Line → Prop
  | .hline _ x2 y => x2 = mlcdX ∨ pixelAt mlcd.buf x2.toNat y.toNat = decide (pixel ≠ 0)
  | .vline x _ y2 => y2 < mlcdY ∧ pixelAt mlcd.buf x.toNat y2.toNat = decide (pixel ≠ 0)

/-- The window's part of the screen, `x2` and `y2` being the first not in it. -/
structure Extent where
  x1 : ℤ
  y1 : ℤ
  x2 : ℤ
  y2 : ℤ
  onScreen : 0 ≤ x1 ∧ x1 ≤ x2 ∧ x2 ≤ mlcdX ∧ 0 ≤ y1 ∧ y1 ≤ y2 ∧ y2 ≤ mlcdY

def clipEnds (ext1 ext2 a b : ℤ) : Option (ℤ × ℤ) :=
  if a > ext2 ∨ b < ext1 then none
  else some (if a < ext1 then ext1 else a, if b > ext2 then ext2 else b)

/-- The clipping of the two line functions: `c` is the coordinate across the
line, limited by `lim1` and `lim2`, and `a` and `b` are its ends. -/
def clipLine (lim1 lim2 ext1 ext2 c a b : ℤ) : Option (ℤ × ℤ × ℤ) :=
  if c < 0 ∨ c + lim1 ≥ lim2 then none
  else
    (if a + ext1 > b + ext1 then clipEnds ext1 ext2 (b + ext1) (a + ext1)
      else clipEnds ext1 ext2 (a + ext1) (b + ext1)).map (c + lim1, ·)

def rtguiDcHwDrawVline (extent : Extent) (x y1 y2 : ℤ) : Option Line :=
  (clipLine extent.x1 extent.x2 extent.y1 extent.y2 x y1 y2).map fun (x, y1, y2) ↦ .vline x y1 y2

def rtguiDcHwDrawHline (extent : Extent) (x1 x2 y : ℤ) : Option Line :=
  (clipLine extent.y1 extent.y2 extent.x1 extent.x2 y x1 x2).map fun (y, x1, x2) ↦ .hline x1 x2 y

theorem clipEnds_bounds {ext1 ext2 a b a' b' : ℤ} (hext : ext1 ≤ ext2) (hab : a ≤ b)
    (h : clipEnds ext1 ext2 a b = some (a', b')) : ext1 ≤ a' ∧ a' ≤ b' ∧ b' ≤ ext2 := by
  rw [clipEnds] at h
  split at h
  · cases h
  · simp only [Option.some.injEq, Prod.mk.injEq] at h
    split_ifs at h <;> omega

theorem clipLine_bounds {lim1 lim2 ext1 ext2 c a b c' a' b' : ℤ} (hlim : 0 ≤ lim1)
    (hext : ext1 ≤ ext2) (h : clipLine lim1 lim2 ext1 ext2 c a b = some (c', a', b')) :
    (0 ≤ c' ∧ c' < lim2) ∧ ext1 ≤ a' ∧ a' ≤ b' ∧ b' ≤ ext2 := by
  rw [clipLine] at h
  split at h
  · cases h
  · obtain ⟨⟨a'', b''⟩, hends, heq⟩ := Option.map_eq_some_iff.mp h
    obtain ⟨rfl, rfl, rfl⟩ : c + lim1 = c' ∧ a'' = a' ∧ b'' = b' := by simpa using heq
    refine ⟨by omega, ?_⟩
    split at hends
    · exact clipEnds_bounds hext (by omega) hends
    · exact clipEnds_bounds hext (by omega) hends

/-- The drawing context passes lines on the screen, and empty ones. -/
theorem dcHw_passes_hline {extent : Extent} {a b c : ℤ} {line : Line}
    (h : rtguiDcHwDrawHline extent a b c = some line) :
    ∃ x1 x2 y, line = .hline x1 x2 y ∧ (x1 = x2 ∨ line.Inside) := by
  obtain ⟨⟨y, x1, x2⟩, hclip, rfl⟩ := Option.map_eq_some_iff.mp h
  obtain ⟨hx1, hx2, hx, hy1, hy2, hy⟩ := extent.onScreen
  have hbounds := clipLine_bounds hy1 hx2 hclip
  refine ⟨x1, x2, y, rfl, or_iff_not_imp_left.mpr fun hne ↦ ?_⟩
  simp only [Line.Inside]
  omega

theorem dcHw_passes_vline {extent : Extent} {a b c : ℤ} {line : Line}
    (h : rtguiDcHwDrawVline extent a b c = some line) :
    ∃ x y1 y2, line = .vline x y1 y2 ∧ (y1 = y2 ∨ line.Inside) := by
  obtain ⟨⟨x, y1, y2⟩, hclip, rfl⟩ := Option.map_eq_some_iff.mp h
  obtain ⟨hx1, hx2, hx, hy1, hy2, hy⟩ := extent.onScreen
  have hbounds := clipLine_bounds hx1 hy2 hclip
  refine ⟨x, y1, y2, rfl, or_iff_not_imp_left.mpr fun hne ↦ ?_⟩
  simp only [Line.Inside]
  omega

theorem toNat_u16 {i : ℤ} (h : 0 ≤ i) (hlt : i < 65536) : ((u16 i).toNat : ℤ) = i :=
  toNat_truncate h hlt

theorem hline_toNat {x1 x2 y : ℤ} (h : (Line.hline x1 x2 y).Inside) :
    ((u16 x1).toNat : ℤ) = x1 ∧ ((u16 y).toNat : ℤ) = y ∧
      ((u16 (x2 - x1 + 1)).toNat : ℤ) = x2 - x1 + 1 := by
  obtain ⟨hx1, hx, hx2, hy, hy2⟩ := h
  simp only [mlcdX, mlcdY] at hx2 hy2
  exact ⟨toNat_u16 hx1 (by omega), toNat_u16 hy (by omega), toNat_u16 (by omega) (by omega)⟩

theorem vline_toNat {x y1 y2 : ℤ} (h : (Line.vline x y1 y2).Inside) :
    ((u16 x).toNat : ℤ) = x ∧ ((u16 y1).toNat : ℤ) = y1 ∧
      ((u16 (y2 - y1 + 1)).toNat : ℤ) = y2 - y1 + 1 := by
  obtain ⟨hx, hx2, hy1, hy, hy2⟩ := h
  simp only [mlcdX, mlcdY] at hx2 hy2
  exact ⟨toNat_u16 hx (by omega), toNat_u16 hy1 (by omega), toNat_u16 (by omega) (by omega)⟩

theorem not_decide_eq_zero (pixel : UInt8) : (!decide (pixel = 0)) = decide (pixel ≠ 0) := by
  rw [decide_not]

/-- `draw_hline` ends one pixel late, or at the last column. -/
theorem pixelAt_drawHline (mlcd : Memlcd) (pixel : UInt8) {x1 x2 y : ℤ}
    (h : (Line.hline x1 x2 y).Inside) {u v : ℕ} (hu : u < 400) (hv : v < 240) :
    pixelAt (drawHline mlcd pixel x1 x2 y).buf u v =
      if x1 ≤ u ∧ u ≤ x2 ∧ v = y then decide (pixel ≠ 0) else pixelAt mlcd.buf u v := by
  obtain ⟨hcol, hrow, hwidth⟩ := hline_toNat h
  obtain ⟨hx1, hx, hx2, hy, hy2⟩ := h
  simp only [mlcdX, mlcdY] at hx2 hy2
  rw [drawHline, memlcdFillRect, ← not_decide_eq_zero]
  rcases Int.lt_or_eq_of_le hx2 with hx2 | hx2
  · rw [pixelAt_fillLines mlcd (by omega) (by rw [UInt16.toNat_one]; omega) _ hu hv,
      UInt16.toNat_one]
    exact if_congr (by omega) rfl rfl
  · obtain ⟨width, hw⟩ : ∃ width, (u16 (x2 - x1 + 1)).toNat = width + 1 :=
      ⟨(x2 - x1).toNat, by omega⟩
    have hcut : fillLines mlcd (u16 x1) (u16 y) (width + 1) 1 (decide (pixel = 0)) =
        fillLines mlcd (u16 x1) (u16 y) width 1 (decide (pixel = 0)) := by
      have hedge : (u16 x1 + UInt16.ofNat width).toNat = 400 := by
        rw [toNat_add_ofNat (by omega)]
        omega
      rw [fillLines_succ, fillLines_succ, fillLine_succ, drawpoint_edge _ hedge]
      rfl
    rw [hw, UInt16.toNat_one, hcut, pixelAt_fillLines mlcd (by omega) (by omega) _ hu hv]
    exact if_congr (by omega) rfl rfl

theorem pixelAt_drawVline (mlcd : Memlcd) (pixel : UInt8) {x y1 y2 : ℤ}
    (h : (Line.vline x y1 y2).Inside) (hend : y2 < mlcdY) {u v : ℕ} (hu : u < 400) (hv : v < 240) :
    pixelAt (drawVline mlcd pixel x y1 y2).buf u v =
      if u = x ∧ y1 ≤ v ∧ v ≤ y2 then decide (pixel ≠ 0) else pixelAt mlcd.buf u v := by
  obtain ⟨hcol, hrow, hheight⟩ := vline_toNat h
  obtain ⟨hx, hx2, hy1, hy, -⟩ := h
  simp only [mlcdX, mlcdY] at hx2 hend
  rw [drawVline, memlcdFillRect, ← not_decide_eq_zero, UInt16.toNat_one,
    pixelAt_fillLines mlcd (by omega) (by omega) _ hu hv]
  exact if_congr (by omega) rfl rfl

theorem drawHline_inBounds {x1 x2 y : ℤ} (h : (Line.hline x1 x2 y).Inside) :
    ∀ pos ∈ (Line.hline x1 x2 y).positions, pos < mlcdBufSize := by
  obtain ⟨hcol, hrow, hwidth⟩ := hline_toNat h
  obtain ⟨hx1, hx, hx2, hy, hy2⟩ := h
  simp only [mlcdX, mlcdY] at hx2 hy2
  exact fillRectPositions_lt (by omega) (by rw [UInt16.toNat_one]; omega)

theorem drawVline_inBounds_iff {x y1 y2 : ℤ} (h : (Line.vline x y1 y2).Inside) :
    (∀ pos ∈ (Line.vline x y1 y2).positions, pos < mlcdBufSize) ↔ y2 < mlcdY := by
  obtain ⟨hcol, hrow, hheight⟩ := vline_toNat h
  obtain ⟨hx, hx2, hy1, hy, hy2⟩ := h
  simp only [mlcdX, mlcdY] at hx2 hy2 ⊢
  constructor
  · intro hpos
    by_contra hend
    have hlast := hpos (drawpointPos (u16 x + UInt16.ofNat 0) (u16 y1 + UInt16.ofNat (y2 - y1).toNat))
      (List.mem_flatMap.mpr ⟨(y2 - y1).toNat, List.mem_range.mpr (by omega),
        List.mem_append_left _ (List.mem_map.mpr ⟨0, by decide, rfl⟩)⟩)
    have hbelow := drawpointPos_below (x := u16 x + UInt16.ofNat 0)
      (y := u16 y1 + UInt16.ofNat (y2 - y1).toNat) (by rw [toNat_add_ofNat (by omega)]; omega)
      (by rw [toNat_add_ofNat (by omega)]; omega)
    omega
  · intro hend
    exact fillRectPositions_lt (by rw [UInt16.toNat_one]; omega) (by omega)

theorem line_exact_iff (mlcd : Memlcd) (pixel : UInt8) (line : Line) (h : line.Inside) :
    Exact mlcd pixel line ↔ line.EndHarmless mlcd pixel := by
  cases line with
  | hline x1 x2 y =>
    obtain ⟨hx1, hx, hx2, hy, hy2⟩ := id h
    simp only [mlcdX, mlcdY] at hx2 hy2
    constructor
    · intro hexact
      refine or_iff_not_imp_left.mpr fun hend ↦ ?_
      simp only [mlcdX] at hend
      have hkept := hexact.kept x2.toNat (by omega) y.toNat (by omega)
        (by simp only [Line.Covers]; omega)
      rw [drawLine, pixelAt_drawHline mlcd pixel h (by omega) (by omega),
        if_pos (by omega)] at hkept
      exact hkept.symm
    · intro hend
      refine ⟨fun u hu v hv hin ↦ ?_, fun u hu v hv hout ↦ ?_, drawHline_inBounds h⟩
      · simp only [Line.Covers] at hin
        rw [drawLine, pixelAt_drawHline mlcd pixel h hu hv, if_pos (by omega)]
      · simp only [Line.Covers] at hout
        rw [drawLine, pixelAt_drawHline mlcd pixel h hu hv]
        split_ifs with hlast
        · obtain rfl : u = x2.toNat := by omega
          obtain rfl : v = y.toNat := by omega
          rcases hend with hend | hend
          · simp only [mlcdX] at hend
            omega
          · exact hend.symm
        · rfl
  | vline x y1 y2 =>
    obtain ⟨hx, hx2, hy1, hy, hy2⟩ := id h
    simp only [mlcdX, mlcdY] at hx2 hy2
    constructor
    · intro hexact
      have hend := (drawVline_inBounds_iff h).mp hexact.inBounds
      have hend' : y2 < 240 := hend
      refine ⟨hend, ?_⟩
      have hkept := hexact.kept x.toNat (by omega) y2.toNat (by omega)
        (by simp only [Line.Covers]; omega)
      rw [drawLine, pixelAt_drawVline mlcd pixel h hend (by omega) (by omega),
        if_pos (by omega)] at hkept
      exact hkept.symm
    · rintro ⟨hend, hcolour⟩
      refine ⟨fun u hu v hv hin ↦ ?_, fun u hu v hv hout ↦ ?_, (drawVline_inBounds_iff h).mpr hend⟩
      · simp only [Line.Covers] at hin
        rw [drawLine, pixelAt_drawVline mlcd pixel h hend hu hv, if_pos (by omega)]
      · simp only [Line.Covers] at hout
        rw [drawLine, pixelAt_drawVline mlcd pixel h hend hu hv]
        split_ifs with hlast
        · obtain rfl : u = x.toNat := by omega
          obtain rfl : v = y2.toNat := by omega
          exact hcolour.symm
        · rfl

theorem line_exact_last_column :
    Exact ⟨fun _ ↦ 0xFF, 0, [], .inl rfl⟩ 0 (.hline 390 400 239) ↔
      (Line.hline 390 400 239).EndHarmless ⟨fun _ ↦ 0xFF, 0, [], .inl rfl⟩ 0 :=
  line_exact_iff _ _ _ (by simp [Line.Inside, mlcdX, mlcdY])

/-- On a white screen a line of one pixel blackens two. -/
theorem line_one_pixel_late :
    ¬ ∀ mlcd pixel line, line.Inside → Exact mlcd pixel line := by
  intro h
  have hexact := h ⟨fun _ ↦ 0xFF, 0, [], .inl rfl⟩ 0 (.hline 0 1 0)
    (by simp [Line.Inside, mlcdX, mlcdY])
  have hkept := hexact.kept 1 (by decide) 0 (by decide) (by simp [Line.Covers])
  exact absurd hkept (by decide)

end GiantGecko.MemLcd.Lines
