import GiantGecko.Foundation.Transition
import GiantGecko.MemLcd.Driver
import Mathlib.Algebra.Order.Ring.Int
import Mathlib.Data.List.GetD
import Mathlib.Data.List.Induction

namespace GiantGecko.MemLcd.Pixels

open Driver Foundation.Transition

/-- Byte and bit of a screen pixel, counted from the far corner. -/
def pixelPos (x y : ℕ) : ℕ := (399 - x) / 8 + (239 - y) * 50
def pixelBit (x : ℕ) : ℕ := 7 - (399 - x) % 8

def pixelAt (buf : FrameBuffer) (x y : ℕ) : Bool :=
  (buf (pixelPos x y)).toBitVec.getLsbD (pixelBit x)

theorem pixelPos_eq_iff {x y u v : ℕ} (hy : y < 240) (hv : v < 240) :
    pixelPos u v = pixelPos x y ↔ (399 - u) / 8 = (399 - x) / 8 ∧ v = y := by
  simp only [pixelPos]
  omega

theorem pixelBit_eq_iff {x u : ℕ} (hx : x < 400) (hu : u < 400)
    (h : (399 - u) / 8 = (399 - x) / 8) : pixelBit u = pixelBit x ↔ u = x := by
  simp only [pixelBit]
  omega

theorem pixelBit_lt (x : ℕ) : pixelBit x < 8 := by
  simp only [pixelBit]
  omega

theorem getLsbD_pointMask : ∀ bx < 8, ∀ k < 8,
    (pointMask bx).toBitVec.getLsbD k = decide (k = 7 - bx) := by
  decide

theorem and_pointMask_eq_zero_iff (b : UInt8) {bx : ℕ} (hbx : bx < 8) :
    b &&& pointMask bx = 0 ↔ b.toBitVec.getLsbD (7 - bx) = false := by
  have hbit (k : ℕ) (hk : k < 8) : (b &&& pointMask bx).toBitVec.getLsbD k =
      (b.toBitVec.getLsbD k && decide (k = 7 - bx)) := by
    rw [UInt8.toBitVec_and, BitVec.getLsbD_and, getLsbD_pointMask bx hbx k hk]
  constructor
  · intro h
    have hzero := hbit (7 - bx) (by omega)
    rw [h] at hzero
    simpa using hzero.symm
  · intro h
    refine UInt8.eq_of_toBitVec_eq (BitVec.eq_of_getLsbD_eq fun k hk ↦ ?_)
    rw [hbit k hk]
    by_cases hk' : k = 7 - bx
    · simp [hk', h]
    · simp [hk']

theorem truncate_of_lt {w n : ℕ} (h : n < 2 ^ w) : truncate w n = n := by
  rw [truncate]
  norm_cast
  exact Nat.mod_eq_of_lt h

theorem drawpoint_eq (buf : FrameBuffer) {x y : UInt16} (hx : x.toNat < 400) (hy : y.toNat < 240)
    (bDraw : Bool) : drawpoint buf x y bDraw = Function.update buf (pixelPos x.toNat y.toNat)
      (if bDraw then buf (pixelPos x.toNat y.toNat) &&& ~~~pointMask ((399 - x.toNat) % 8)
        else buf (pixelPos x.toNat y.toNat) ||| pointMask ((399 - x.toNat) % 8)) := by
  have hu : (mlcdX - x.toNat - 1 : ℤ) = ((399 - x.toNat : ℕ) : ℤ) := by
    simp only [mlcdX]
    omega
  have hv : (mlcdY - y.toNat - 1 : ℤ) * mlcdBytesLine = (((239 - y.toNat) * 50 : ℕ) : ℤ) := by
    simp only [mlcdY, mlcdBytesLine, mlcdX]
    push_cast
    omega
  have hpos : truncate 16 ((mlcdX - x.toNat - 1 : ℤ).tdiv 8 + (mlcdY - y.toNat - 1) * mlcdBytesLine) =
      pixelPos x.toNat y.toNat := by
    rw [hu, hv, Int.natCast_tdiv_eq_ediv]
    norm_cast
    exact truncate_of_lt (by omega)
  have hbx : truncate 16 ((mlcdX - x.toNat - 1 : ℤ).tmod 8) = (399 - x.toNat) % 8 := by
    rw [hu, Int.tmod_eq_emod_of_nonneg (Int.natCast_nonneg _)]
    norm_cast
    exact truncate_of_lt (by omega)
  rw [drawpoint, hpos, hbx]

theorem pixelAt_drawpoint (buf : FrameBuffer) {x y : UInt16} (hx : x.toNat < 400)
    (hy : y.toNat < 240) (bDraw : Bool) {u v : ℕ} (hu : u < 400) (hv : v < 240) :
    pixelAt (drawpoint buf x y bDraw) u v =
      if u = x.toNat ∧ v = y.toNat then !bDraw else pixelAt buf u v := by
  have hmask : (pointMask ((399 - x.toNat) % 8)).toBitVec.getLsbD (pixelBit u) =
      decide (pixelBit u = pixelBit x.toNat) :=
    getLsbD_pointMask _ (by omega) _ (pixelBit_lt u)
  have hlt := pixelBit_lt u
  rw [drawpoint_eq buf hx hy, pixelAt]
  by_cases hbyte : pixelPos u v = pixelPos x.toNat y.toNat
  · obtain ⟨hdiv, rfl⟩ := (pixelPos_eq_iff hy hv).mp hbyte
    rw [hbyte, Function.update_self, pixelAt, hbyte]
    simp only [pixelBit_eq_iff hx hu hdiv] at hmask
    cases bDraw <;>
      simp only [UInt8.toBitVec_and, UInt8.toBitVec_not, UInt8.toBitVec_or, BitVec.getLsbD_and,
        BitVec.getLsbD_not, BitVec.getLsbD_or, hmask, hlt, if_true, Bool.false_eq_true, if_false] <;>
      by_cases hsame : u = x.toNat <;> simp [hsame]
  · rw [Function.update_of_ne hbyte, if_neg, pixelAt]
    rintro ⟨rfl, rfl⟩
    exact hbyte rfl

theorem toNat_add_ofNat {x : UInt16} {n : ℕ} (h : x.toNat + n < 65536) :
    (x + UInt16.ofNat n).toNat = x.toNat + n := by
  rw [UInt16.toNat_add, UInt16.toNat_ofNat']
  omega

theorem fillLine_succ (buf : FrameBuffer) (x y : UInt16) (width : ℕ) (bDraw : Bool) :
    fillLine buf x y (width + 1) bDraw =
      drawpoint (fillLine buf x y width bDraw) (x + UInt16.ofNat width) y bDraw := by
  rw [fillLine, List.range_succ, List.foldl_append]
  rfl

theorem pixelAt_fillLine (buf : FrameBuffer) {x y : UInt16} {width : ℕ}
    (hx : x.toNat + width ≤ 400) (hy : y.toNat < 240) (bDraw : Bool) {u v : ℕ} (hu : u < 400)
    (hv : v < 240) : pixelAt (fillLine buf x y width bDraw) u v =
      if x.toNat ≤ u ∧ u < x.toNat + width ∧ v = y.toNat then !bDraw else pixelAt buf u v := by
  induction width with
  | zero => rw [if_neg (by omega)]; rfl
  | succ width ih =>
    have hcol := toNat_add_ofNat (x := x) (n := width) (by omega)
    rw [fillLine_succ, pixelAt_drawpoint _ (by omega) hy bDraw hu hv, hcol, ih (by omega)]
    split_ifs <;> first | rfl | omega

@[simp] theorem memlcdRefresh_buf (mlcd : Memlcd) (line : UInt8) :
    (memlcdRefresh mlcd line).buf = mlcd.buf := rfl

theorem fillLines_succ (mlcd : Memlcd) (x y : UInt16) (width height : ℕ) (bDraw : Bool) :
    fillLines mlcd x y width (height + 1) bDraw =
      memlcdRefresh
        { fillLines mlcd x y width height bDraw with
          buf := fillLine (fillLines mlcd x y width height bDraw).buf x (y + UInt16.ofNat height)
            width bDraw }
        (UInt8.ofNat (y + UInt16.ofNat height).toNat) := by
  rw [fillLines, List.range_succ, List.foldl_append]
  rfl

theorem pixelAt_fillLines (mlcd : Memlcd) {x y : UInt16} {width height : ℕ}
    (hx : x.toNat + width ≤ 400) (hy : y.toNat + height ≤ 240) (bDraw : Bool) {u v : ℕ}
    (hu : u < 400) (hv : v < 240) : pixelAt (fillLines mlcd x y width height bDraw).buf u v =
      if x.toNat ≤ u ∧ u < x.toNat + width ∧ y.toNat ≤ v ∧ v < y.toNat + height then !bDraw
      else pixelAt mlcd.buf u v := by
  induction height with
  | zero => rw [if_neg (by omega)]; rfl
  | succ height ih =>
    have hrow := toNat_add_ofNat (x := y) (n := height) (by omega)
    rw [fillLines_succ, memlcdRefresh_buf, pixelAt_fillLine _ hx (by omega) bDraw hu hv, hrow,
      ih (by omega)]
    split_ifs <;> first | rfl | omega

theorem toNat_truncate {i : ℤ} (h : 0 ≤ i) (hlt : i < 65536) :
    ((UInt16.ofNat (truncate 16 i)).toNat : ℤ) = i := by
  obtain ⟨n, rfl⟩ := Int.eq_ofNat_of_zero_le h
  rw [truncate_of_lt (by omega), UInt16.toNat_ofNat']
  omega

theorem pixelAt_blit (buf : FrameBuffer) {pixel : List UInt8} {x y : ℤ} (hx : 0 ≤ x)
    (hlen : x + pixel.length ≤ 400) (hy : 0 ≤ y) (hy' : y < 240) {u v : ℕ} (hu : u < 400)
    (hv : v < 240) :
    pixelAt (pixel.zipIdx.foldl (fun buf p ↦ drawpoint buf (UInt16.ofNat (truncate 16 (x + p.2)))
        (UInt16.ofNat (truncate 16 y)) (p.1 = 0)) buf) u v =
      if v = y ∧ x ≤ u ∧ u < x + pixel.length then decide (pixel.getD (u - x).toNat 0 ≠ 0)
      else pixelAt buf u v := by
  induction pixel using List.reverseRecOn with
  | nil =>
    rw [if_neg (by simp only [List.length_nil]; omega)]
    rfl
  | append_singleton pixel a ih =>
    simp only [List.length_append, List.length_singleton, Nat.cast_add, Nat.cast_one] at hlen ⊢
    have hcol := toNat_truncate (i := x + pixel.length) (by omega) (by omega)
    have hrow := toNat_truncate hy (by omega)
    rw [List.zipIdx_append, List.foldl_append]
    simp only [List.zipIdx_singleton, List.foldl_cons, List.foldl_nil, Nat.zero_add]
    rw [pixelAt_drawpoint _ (by omega) (by omega) _ hu hv, ih (by omega)]
    by_cases hat : u = x + pixel.length ∧ v = y
    · rw [if_pos (by omega), if_pos (by omega), show (u - x).toNat = pixel.length by omega]
      simp
    · rw [if_neg (by omega)]
      by_cases hin : v = y ∧ x ≤ u ∧ u < x + pixel.length
      · rw [if_pos hin, if_pos (by omega), List.getD_append _ _ _ _ (by omega)]
      · rw [if_neg hin, if_neg (by omega)]

/-- The pixels an operation names, with the colour it gives them. -/
def paints : Op → ℕ → ℕ → Option Bool
  | .clear, _, _ => some true
  | .drawpoint x y bDraw, u, v => if u = x.toNat ∧ v = y.toNat then some !bDraw else none
  | .fillRect x y width height bDraw, u, v =>
    if x.toNat ≤ u ∧ u < x.toNat + width.toNat ∧ y.toNat ≤ v ∧ v < y.toNat + height.toNat then
      some !bDraw
    else none
  | .setPixel pixel x y, u, v => if u = x ∧ v = y then some (pixel ≠ 0) else none
  | .blitLine pixel x y, u, v =>
    if v = y ∧ x ≤ u ∧ u < x + pixel.length then some (pixel.getD (u - x).toNat 0 ≠ 0) else none

theorem pixelAt_clear (mlcd : Memlcd) {u v : ℕ} (hu : u < 400) (hv : v < 240) :
    pixelAt (memlcdClear mlcd).buf u v = true := by
  have hpos : pixelPos u v < mlcdBufSize := by
    simp only [pixelPos, mlcdBufSize, mlcdY, mlcdBytesLine, mlcdX]
    omega
  have hset : ∀ k < 8, (0xFF : UInt8).toBitVec.getLsbD k = true := by decide
  simp only [pixelAt, memlcdClear, if_pos hpos]
  exact hset _ (pixelBit_lt u)

/-- An operation inside the screen stores its colour in the pixels it names and
leaves every other pixel alone. -/
theorem pixelAt_draw (mlcd : Memlcd) {op : Op} (hop : op.Inside) {u v : ℕ} (hu : u < 400)
    (hv : v < 240) :
    pixelAt (draw mlcd op).buf u v = (paints op u v).getD (pixelAt mlcd.buf u v) := by
  cases op with
  | clear => exact pixelAt_clear mlcd hu hv
  | drawpoint x y bDraw =>
    simp only [draw, memlcdDrawpoint, memlcdRefresh_buf, paints,
      pixelAt_drawpoint mlcd.buf hop.1 hop.2 bDraw hu hv]
    split_ifs <;> rfl
  | fillRect x y width height bDraw =>
    simp only [draw, memlcdFillRect, paints, pixelAt_fillLines mlcd hop.1 hop.2 bDraw hu hv]
    split_ifs <;> rfl
  | setPixel pixel x y =>
    obtain ⟨hx, hx', hy, hy'⟩ := hop
    simp only [mlcdX, mlcdY] at hx' hy'
    have hcol := toNat_truncate hx (by omega)
    have hrow := toNat_truncate hy (by omega)
    simp only [draw, setPixel, memlcdDrawpoint, memlcdRefresh_buf, paints]
    rw [pixelAt_drawpoint _ (by omega) (by omega) _ hu hv]
    by_cases hat : (u : ℤ) = x ∧ (v : ℤ) = y
    · rw [if_pos (by omega), if_pos hat]
      simp
    · rw [if_neg (by omega), if_neg hat]
      rfl
  | blitLine pixel x y =>
    obtain ⟨hx, hlen, hy, hy'⟩ := hop
    simp only [draw, blitLine, memlcdRefresh_buf, paints, pixelAt_blit mlcd.buf hx hlen hy hy' hu hv]
    split_ifs <;> rfl

def lastColour (ops : List Op) (u v : ℕ) : Option Bool :=
  ops.foldl (fun c op ↦ (paints op u v).or c) none

theorem pixelAt_run (mlcd : Memlcd) {ops : List Op} (hops : ∀ op ∈ ops, op.Inside) {u v : ℕ}
    (hu : u < 400) (hv : v < 240) :
    pixelAt (ops.foldl draw mlcd).buf u v = (lastColour ops u v).getD (pixelAt mlcd.buf u v) := by
  induction ops using List.reverseRecOn with
  | nil => rfl
  | append_singleton ops op ih =>
    rw [lastColour, List.foldl_append, List.foldl_append]
    simp only [List.foldl_cons, List.foldl_nil]
    rw [pixelAt_draw _ (hops op (by simp)) hu hv, ih fun o ho ↦ hops o (by simp [ho])]
    cases paints op u v <;> rfl

def mono (c : Bool) : UInt8 := rtguiColorToMono (if c then white else black)

theorem mono_injective {c d : Bool} (h : mono c = mono d) : c = d := by
  revert c d
  decide

theorem getPixel_eq (mlcd : Memlcd) {x y : ℕ} (hx : x < 400) (hy : y < 240) :
    getPixel mlcd x y = mono (pixelAt mlcd.buf (399 - x) (239 - y)) := by
  have hpos : truncate 16 ((x : ℤ).tdiv 8 + y * mlcdBytesLine) = pixelPos (399 - x) (239 - y) := by
    rw [Int.natCast_tdiv_eq_ediv, pixelPos, show mlcdBytesLine = 50 from rfl]
    norm_cast
    rw [truncate_of_lt (by omega)]
    omega
  have hbx : truncate 16 ((x : ℤ).tmod 8) = x % 8 := by
    rw [Int.tmod_eq_emod_of_nonneg (Int.natCast_nonneg _)]
    norm_cast
    exact truncate_of_lt (by omega)
  have hbit : pixelBit (399 - x) = 7 - x % 8 := by
    simp only [pixelBit]
    omega
  simp only [getPixel, hpos, hbx, pixelAt, mono, hbit]
  by_cases hclear : mlcd.buf (pixelPos (399 - x) (239 - y)) &&& pointMask (x % 8) = 0
  · rw [if_pos hclear, (and_pointMask_eq_zero_iff _ (by omega)).mp hclear]
    rfl
  · rw [if_neg hclear, Bool.eq_true_of_not_eq_false (mt (and_pointMask_eq_zero_iff _ (by omega)).mpr hclear)]
    rfl

/-- After the run every named pixel reads as its last colour, and no operation
changed the reading of a pixel it does not name. -/
def RoundTrip (mlcd : Memlcd) (ops : List Op) : Prop :=
  (∀ x < 400, ∀ y < 240, ∀ c, lastColour ops x y = some c →
    getPixel (ops.foldl draw mlcd) x y = mono c) ∧
  Along draw (fun m op ↦ ∀ x < 400, ∀ y < 240, paints op x y = none →
    getPixel (draw m op) x y = getPixel m x y) mlcd ops

/-- The picture is drawn point-symmetric: the pixel opposite to a named one
ends in the same colour, and an operation that names only the opposite one of
two pixels gives it the colour it has. -/
def Symmetric (mlcd : Memlcd) (ops : List Op) : Prop :=
  (∀ x < 400, ∀ y < 240, ∀ c, lastColour ops x y = some c →
    (lastColour ops (399 - x) (239 - y)).getD (pixelAt mlcd.buf (399 - x) (239 - y)) = c) ∧
  Along draw (fun m op ↦ ∀ x < 400, ∀ y < 240, paints op x y = none →
    ∀ c, paints op (399 - x) (239 - y) = some c → pixelAt m.buf (399 - x) (239 - y) = c) mlcd ops

theorem getPixel_draw_iff (m : Memlcd) {op : Op} (hop : op.Inside) {x y : ℕ} (hx : x < 400)
    (hy : y < 240) : getPixel (draw m op) x y = getPixel m x y ↔
      ∀ c, paints op (399 - x) (239 - y) = some c → pixelAt m.buf (399 - x) (239 - y) = c := by
  rw [getPixel_eq _ hx hy, getPixel_eq _ hx hy, pixelAt_draw m hop (by omega) (by omega)]
  cases paints op (399 - x) (239 - y) with
  | none => simp
  | some c =>
    simp only [Option.getD_some, Option.some.injEq, forall_eq']
    exact ⟨fun h ↦ (mono_injective h).symm, fun h ↦ by rw [h]⟩

theorem pixel_round_trip_iff (mlcd : Memlcd) (ops : List Op) (hops : ∀ op ∈ ops, op.Inside) :
    RoundTrip mlcd ops ↔ Symmetric mlcd ops := by
  refine and_congr ?_ ?_
  · refine forall₂_congr fun x hx ↦ forall₂_congr fun y hy ↦ forall₂_congr fun c _ ↦ ?_
    rw [getPixel_eq _ hx hy, pixelAt_run mlcd hops (by omega) (by omega)]
    exact ⟨mono_injective, congrArg mono⟩
  · induction ops generalizing mlcd with
    | nil => exact Iff.rfl
    | cons op ops ih =>
      simp only [along_cons]
      refine and_congr ?_ (ih _ fun o ho ↦ hops o (List.mem_cons_of_mem _ ho))
      refine forall₂_congr fun x hx ↦ forall₂_congr fun y hy ↦ imp_congr_right fun _ ↦ ?_
      exact getPixel_draw_iff mlcd (hops op (List.mem_cons_self ..)) hx hy

theorem pixel_round_trip_clear_and_corners :
    RoundTrip ⟨fun _ ↦ 0, 0, [], .inl rfl⟩ [.clear, .setPixel 0 0 0, .drawpoint 399 239 true] ↔
      Symmetric ⟨fun _ ↦ 0, 0, [], .inl rfl⟩ [.clear, .setPixel 0 0 0, .drawpoint 399 239 true] :=
  pixel_round_trip_iff _ _ (by simp [Op.Inside, mlcdX, mlcdY])

/-- One black pixel in a corner is read as white, and the opposite corner as
black. -/
theorem corner_pixel_misread :
    ¬ RoundTrip ⟨fun _ ↦ 0, 0, [], .inl rfl⟩ [.clear, .setPixel 0 0 0] := by
  intro h
  exact absurd (h.1 0 (by decide) 0 (by decide) false rfl) (by decide)

end GiantGecko.MemLcd.Pixels
