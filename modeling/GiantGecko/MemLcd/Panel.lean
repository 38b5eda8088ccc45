import GiantGecko.MemLcd.Pixels
import Mathlib.Data.List.Chain

namespace GiantGecko.MemLcd.Panel

open Driver Pixels

abbrev Rows := ℕ → List UInt8

/-- What the LCD does with one transfer. A write-line command names its row,
counted from 1, with the bits reversed. -/
def panelStep (rows : Rows) : List UInt8 → Rows
  | [] => rows
  | cmd :: rest =>
    if cmd &&& mlcdCm ≠ 0 then fun _ ↦ List.replicate mlcdBytesLine 0xFF
    else if cmd &&& mlcdWr ≠ 0 then
      match rest with
      | [] => rows
      | addr :: data =>
        let row := addr.toBitVec.reverse.toNat
        if 1 ≤ row ∧ row ≤ mlcdY then Function.update rows (row - 1) (data.take mlcdBytesLine)
        else rows
    else rows

def panel (rows : Rows) (sent : List Transfer) : Rows :=
  sent.foldl (fun rows t ↦ panelStep rows t.bytes) rows

def frameRow (buf : FrameBuffer) (row : ℕ) : List UInt8 :=
  (List.range mlcdBytesLine).map fun i ↦ buf (i + row * mlcdBytesLine)

def Shows (rows : Rows) (mlcd : Memlcd) : Prop :=
  ∀ row < 240, panel rows mlcd.sent row = frameRow mlcd.buf row

/-- A write-line command carries the row it addresses, as it was then. -/
def WritesOwnRow (t : Transfer) : Prop :=
  ∀ cmd addr data, t.bytes = cmd :: addr :: data → cmd &&& mlcdWr ≠ 0 →
    ∃ row < 240, addr.toBitVec.reverse.toNat = row + 1 ∧
      data.take mlcdBytesLine = frameRow t.buf row

def vcomBit (t : Transfer) : UInt8 := t.bytes.headD 0 &&& vcomMask

/-- The commands so far are well addressed and alternate in VCOM, and the last
of them carried the driver's VCOM. -/
structure Orderly (mlcd : Memlcd) : Prop where
  ownRow : ∀ t ∈ mlcd.sent, WritesOwnRow t
  alternates : mlcd.sent.IsChain fun t t' ↦ vcomBit t ≠ vcomBit t'
  last : ∀ t ∈ mlcd.sent.getLast?, vcomBit t = mlcd.vcom

theorem reverse_lineToAddr : ∀ row < 240,
    (lineToAddr (UInt8.ofNat row)).toBitVec.reverse.toNat = row + 1 := by
  decide +kernel

theorem vcom_ne_toggle (mlcd : Memlcd) : mlcd.vcom ≠ mlcd.vcom ^^^ vcomMask := by
  rcases mlcd.vcomValid with h | h <;> rw [h] <;> decide

theorem command_bits (mlcd : Memlcd) :
    (mlcdWr ||| (mlcd.vcom ^^^ vcomMask)) &&& mlcdCm = 0 ∧
      (mlcdWr ||| (mlcd.vcom ^^^ vcomMask)) &&& mlcdWr ≠ 0 ∧
      (mlcdWr ||| (mlcd.vcom ^^^ vcomMask)) &&& vcomMask = mlcd.vcom ^^^ vcomMask ∧
      (mlcdCm ||| (mlcd.vcom ^^^ vcomMask)) &&& mlcdCm ≠ 0 ∧
      (mlcdCm ||| (mlcd.vcom ^^^ vcomMask)) &&& mlcdWr = 0 ∧
      (mlcdCm ||| (mlcd.vcom ^^^ vcomMask)) &&& vcomMask = mlcd.vcom ^^^ vcomMask := by
  rcases mlcd.vcomValid with h | h <;> rw [h] <;> decide

theorem orderly_append {mlcd mlcd' : Memlcd} (h : Orderly mlcd) {t : Transfer}
    (hsent : mlcd'.sent = mlcd.sent ++ [t]) (hvcom : mlcd'.vcom = mlcd.vcom ^^^ vcomMask)
    (hbit : vcomBit t = mlcd.vcom ^^^ vcomMask) (hown : WritesOwnRow t) : Orderly mlcd' where
  ownRow t' ht' := by
    rw [hsent, List.mem_append, List.mem_singleton] at ht'
    rcases ht' with ht' | rfl
    · exact h.ownRow t' ht'
    · exact hown
  alternates := by
    rw [hsent, List.isChain_append]
    refine ⟨h.alternates, List.isChain_singleton _, fun t' ht' t'' ht'' ↦ ?_⟩
    obtain rfl : t = t'' := by simpa using ht''
    rw [h.last t' ht', hbit]
    exact vcom_ne_toggle mlcd
  last t' ht' := by
    rw [hsent, List.getLast?_append_of_ne_nil _ (List.cons_ne_nil _ _)] at ht'
    obtain rfl : t = t' := by simpa using ht'
    rw [hbit, hvcom]

theorem orderly_clear {mlcd : Memlcd} (h : Orderly mlcd) : Orderly (memlcdClear mlcd) := by
  obtain ⟨-, -, -, -, hwr, hbit⟩ := command_bits mlcd
  refine orderly_append h rfl rfl hbit fun cmd addr data hbytes hcmd ↦ ?_
  obtain ⟨rfl, -⟩ := List.cons.inj hbytes
  exact absurd hwr hcmd

theorem panel_clear (rows : Rows) (mlcd : Memlcd) : Shows rows (memlcdClear mlcd) := by
  intro row hrow
  obtain ⟨-, -, -, hcm, -, -⟩ := command_bits mlcd
  have hframe : frameRow (memlcdClear mlcd).buf row = List.replicate mlcdBytesLine 0xFF := by
    refine List.eq_replicate_iff.mpr ⟨by simp [frameRow], fun b hb ↦ ?_⟩
    obtain ⟨i, hi, rfl⟩ := List.mem_map.mp hb
    have hi' := List.mem_range.mp hi
    have hpos : i + row * mlcdBytesLine < mlcdBufSize := by
      simp only [mlcdBufSize, mlcdY, mlcdBytesLine, mlcdX] at hi' ⊢
      omega
    simp only [memlcdClear, if_pos hpos]
  rw [hframe, panel, memlcdClear, List.foldl_append]
  simp only [List.foldl_cons, List.foldl_nil, panelStep, if_pos hcm]

theorem panel_refresh (rows : Rows) (mlcd : Memlcd) {line : UInt8} (hline : line.toNat < 240) :
    panel rows (memlcdRefresh mlcd line).sent =
      Function.update (panel rows mlcd.sent) (239 - line.toNat)
        (frameRow mlcd.buf (239 - line.toNat)) ∧
      (Orderly mlcd → Orderly (memlcdRefresh mlcd line)) := by
  obtain ⟨hcm, hwr, hbit, -, -, -⟩ := command_bits mlcd
  have hrow : truncate 8 (mlcdY - line.toNat - 1) = 239 - line.toNat := by
    have hsub : (mlcdY - line.toNat - 1 : ℤ) = ((239 - line.toNat : ℕ) : ℤ) := by
      simp only [mlcdY]
      omega
    rw [hsub]
    exact truncate_of_lt (by omega)
  have haddr := reverse_lineToAddr (239 - line.toNat) (by omega)
  have hdata : ((List.range mlcdBytesLine).map (fun i ↦ mlcd.buf (i + (239 - line.toNat) *
      mlcdBytesLine)) ++ [0, 0]).take mlcdBytesLine = frameRow mlcd.buf (239 - line.toNat) := by
    rw [List.take_append_of_le_length (by simp), List.take_of_length_le (by simp), frameRow]
  constructor
  · rw [panel, memlcdRefresh, List.foldl_append]
    simp only [List.foldl_cons, List.foldl_nil, hrow, List.cons_append, panelStep, hcm, hwr, haddr,
      hdata, ne_eq, not_true_eq_false, not_false_eq_true, if_true, if_false]
    rw [if_pos ⟨by omega, by simp only [mlcdY]; omega⟩]
    rfl
  · intro h
    refine orderly_append h rfl rfl hbit fun cmd addr data hbytes _ ↦ ?_
    simp only [hrow, List.cons_append] at hbytes
    obtain ⟨-, rfl, rfl⟩ : _ ∧ _ ∧ _ := by simpa using hbytes
    exact ⟨239 - line.toNat, by omega, haddr, hdata⟩

def ShowsExcept (rows : Rows) (mlcd : Memlcd) (dirty : ℕ) : Prop :=
  ∀ row < 240, row ≠ dirty → panel rows mlcd.sent row = frameRow mlcd.buf row

theorem shows_refresh {rows : Rows} {mlcd : Memlcd} {line : UInt8} (hline : line.toNat < 240)
    (h : ShowsExcept rows mlcd (239 - line.toNat)) : Shows rows (memlcdRefresh mlcd line) := by
  intro row hrow
  rw [(panel_refresh rows mlcd hline).1, memlcdRefresh_buf]
  by_cases hdirty : row = 239 - line.toNat
  · rw [hdirty, Function.update_self]
  · rw [Function.update_of_ne hdirty]
    exact h row hrow hdirty

theorem frameRow_drawpoint (buf : FrameBuffer) {x y : UInt16} (hx : x.toNat < 400)
    (hy : y.toNat < 240) (bDraw : Bool) {row : ℕ} (hrow : row ≠ 239 - y.toNat) :
    frameRow (drawpoint buf x y bDraw) row = frameRow buf row := by
  refine List.map_congr_left fun i hi ↦ ?_
  have hi' := List.mem_range.mp hi
  rw [drawpoint_eq buf hx hy, Function.update_of_ne]
  simp only [pixelPos, mlcdBytesLine, mlcdX] at hi' ⊢
  omega

theorem frameRow_fillLine (buf : FrameBuffer) {x y : UInt16} {width : ℕ}
    (hx : x.toNat + width ≤ 400) (hy : y.toNat < 240) (bDraw : Bool) {row : ℕ}
    (hrow : row ≠ 239 - y.toNat) :
    frameRow (fillLine buf x y width bDraw) row = frameRow buf row := by
  induction width with
  | zero => rfl
  | succ width ih =>
    have hcol := toNat_add_ofNat (x := x) (n := width) (by omega)
    rw [fillLine, List.range_succ, List.foldl_append]
    exact (frameRow_drawpoint _ (by omega) hy bDraw hrow).trans (ih (by omega))

theorem frameRow_blit (buf : FrameBuffer) {pixel : List UInt8} {x y : ℤ} (hx : 0 ≤ x)
    (hlen : x + pixel.length ≤ 400) (hy : 0 ≤ y) (hy' : y < 240) {row : ℕ}
    (hrow : row ≠ 239 - y.toNat) :
    frameRow (pixel.zipIdx.foldl (fun buf p ↦ drawpoint buf (UInt16.ofNat (truncate 16 (x + p.2)))
      (UInt16.ofNat (truncate 16 y)) (p.1 = 0)) buf) row = frameRow buf row := by
  induction pixel using List.reverseRecOn with
  | nil => rfl
  | append_singleton pixel a ih =>
    simp only [List.length_append, List.length_singleton, Nat.cast_add, Nat.cast_one] at hlen
    have hcol := toNat_truncate (i := x + pixel.length) (by omega) (by omega)
    have hline := toNat_truncate hy (by omega)
    rw [List.zipIdx_append, List.foldl_append]
    simp only [List.zipIdx_singleton, List.foldl_cons, List.foldl_nil, Nat.zero_add]
    exact (frameRow_drawpoint _ (by omega) (by omega) _ (by omega)).trans (ih (by omega))

theorem toNat_line {n : ℕ} (h : n < 240) : (UInt8.ofNat n).toNat = n := by
  rw [UInt8.toNat_ofNat']
  omega

theorem step_refresh {rows : Rows} {mlcd : Memlcd} (h : Shows rows mlcd) (ho : Orderly mlcd)
    {line : ℕ} (hline : line < 240) {buf : FrameBuffer}
    (hbuf : ∀ row, row ≠ 239 - line → frameRow buf row = frameRow mlcd.buf row) :
    Shows rows (memlcdRefresh { mlcd with buf := buf } (UInt8.ofNat line)) ∧
      Orderly (memlcdRefresh { mlcd with buf := buf } (UInt8.ofNat line)) := by
  have hlt : (UInt8.ofNat line).toNat < 240 := by rwa [toNat_line hline]
  refine ⟨shows_refresh hlt fun row hrow hdirty ↦ ?_,
    (panel_refresh rows _ hlt).2 ⟨ho.ownRow, ho.alternates, ho.last⟩⟩
  rw [toNat_line hline] at hdirty
  exact (h row hrow).trans (hbuf row hdirty).symm

theorem step_drawpoint {rows : Rows} {mlcd : Memlcd} (h : Shows rows mlcd) (ho : Orderly mlcd)
    {x y : UInt16} (hx : x.toNat < 400) (hy : y.toNat < 240) (bDraw : Bool) :
    Shows rows (memlcdDrawpoint mlcd x y bDraw) ∧ Orderly (memlcdDrawpoint mlcd x y bDraw) :=
  step_refresh h ho hy fun _ hrow ↦ frameRow_drawpoint mlcd.buf hx hy bDraw hrow

theorem step_fillLines {rows : Rows} {mlcd : Memlcd} (h : Shows rows mlcd) (ho : Orderly mlcd)
    {x y : UInt16} {width height : ℕ} (hx : x.toNat + width ≤ 400) (hy : y.toNat + height ≤ 240)
    (bDraw : Bool) : Shows rows (fillLines mlcd x y width height bDraw) ∧
      Orderly (fillLines mlcd x y width height bDraw) := by
  induction height with
  | zero => exact ⟨h, ho⟩
  | succ height ih =>
    have hrow := toNat_add_ofNat (x := y) (n := height) (by omega)
    obtain ⟨hshows, horderly⟩ := ih (by omega)
    rw [fillLines_succ]
    exact step_refresh hshows horderly (by omega) fun _ hne ↦
      frameRow_fillLine _ hx (by omega) bDraw hne

theorem step_draw {rows : Rows} {mlcd : Memlcd} (h : Shows rows mlcd) (ho : Orderly mlcd) {op : Op}
    (hop : op.Inside) : Shows rows (draw mlcd op) ∧ Orderly (draw mlcd op) := by
  cases op with
  | clear => exact ⟨panel_clear rows mlcd, orderly_clear ho⟩
  | drawpoint x y bDraw => exact step_drawpoint h ho hop.1 hop.2 bDraw
  | fillRect x y width height bDraw => exact step_fillLines h ho hop.1 hop.2 bDraw
  | setPixel pixel x y =>
    obtain ⟨hx, hx', hy, hy'⟩ := hop
    simp only [mlcdX, mlcdY] at hx' hy'
    have hcol := toNat_truncate hx (by omega)
    have hrow := toNat_truncate hy (by omega)
    exact step_drawpoint h ho (by omega) (by omega) _
  | blitLine pixel x y =>
    obtain ⟨hx, hlen, hy, hy'⟩ := hop
    simp only [mlcdX, mlcdY] at hlen hy'
    have hline : truncate 8 y = y.toNat := by
      obtain ⟨n, rfl⟩ := Int.eq_ofNat_of_zero_le hy
      rw [truncate_of_lt (by omega), Int.toNat_natCast]
    rw [draw, blitLine, hline]
    exact step_refresh h ho (by omega) fun _ hne ↦ frameRow_blit mlcd.buf hx hlen hy hy' hne

/-- After `memlcd_clear` and any drawing inside the screen, every row of the
panel is the corresponding row of the frame buffer, every write-line command
has carried the row it addresses, and VCOM has alternated. -/
theorem panel_shows_frame_buffer (rows : Rows) (buf : FrameBuffer) (vcom : UInt8)
    (hvcom : vcom = 0 ∨ vcom = vcomMask) (ops : List Op) (hops : ∀ op ∈ ops, op.Inside) :
    let mlcd := ops.foldl draw (memlcdClear ⟨buf, vcom, [], hvcom⟩)
    (∀ row < 240, panel rows mlcd.sent row = frameRow mlcd.buf row) ∧
      (∀ t ∈ mlcd.sent, WritesOwnRow t) ∧
      mlcd.sent.IsChain fun t t' ↦ vcomBit t ≠ vcomBit t' := by
  have hstart : Shows rows (memlcdClear ⟨buf, vcom, [], hvcom⟩) ∧
      Orderly (memlcdClear ⟨buf, vcom, [], hvcom⟩) :=
    ⟨panel_clear rows _, orderly_clear ⟨by simp, .nil, by simp⟩⟩
  have hrun : Shows rows (ops.foldl draw (memlcdClear ⟨buf, vcom, [], hvcom⟩)) ∧
      Orderly (ops.foldl draw (memlcdClear ⟨buf, vcom, [], hvcom⟩)) := by
    generalize memlcdClear ⟨buf, vcom, [], hvcom⟩ = mlcd at hstart
    induction ops generalizing mlcd with
    | nil => exact hstart
    | cons op ops ih =>
      exact ih (fun o ho ↦ hops o (List.mem_cons_of_mem _ ho)) _
        (step_draw hstart.1 hstart.2 (hops op (List.mem_cons_self ..)))
  exact ⟨hrun.1, hrun.2.ownRow, hrun.2.alternates⟩

theorem panel_shows_a_cross :
    let mlcd := [Op.fillRect 0 119 400 2 true, .fillRect 199 0 2 240 true, .blitLine [1, 0, 1] 10 10,
      .drawpoint 5 5 true].foldl draw (memlcdClear ⟨fun _ ↦ 0, 0, [], .inl rfl⟩)
    (∀ row < 240, panel (fun _ ↦ []) mlcd.sent row = frameRow mlcd.buf row) ∧
      (∀ t ∈ mlcd.sent, WritesOwnRow t) ∧
      mlcd.sent.IsChain fun t t' ↦ vcomBit t ≠ vcomBit t' :=
  panel_shows_frame_buffer (fun _ ↦ []) (fun _ ↦ 0) 0 (.inl rfl) _
    (by simp [Op.Inside, mlcdX, mlcdY])

/-- A point to the right of the screen lands in the row below the one that is
refreshed. -/
theorem point_beyond_edge_not_shown :
    ¬ ∀ row < 240,
      panel (fun _ ↦ []) ([Op.drawpoint 407 0 true].foldl draw
        (memlcdClear ⟨fun _ ↦ 0, 0, [], .inl rfl⟩)).sent row =
      frameRow ([Op.drawpoint 407 0 true].foldl draw
        (memlcdClear ⟨fun _ ↦ 0, 0, [], .inl rfl⟩)).buf row := by
  intro h
  have hbyte := congrArg (fun row ↦ row.getD 49 0) (h 238 (by decide))
  exact absurd hbyte (by decide +kernel)

end GiantGecko.MemLcd.Panel
