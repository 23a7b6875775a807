/-
# The plane of nametables

Four nametables, two by two, are one plane of 512 by 480 pixels, and the background is a window on
it.  `planeColour` says in plain numbers what colour each pixel of the plane has: which tile lies
there, which palette its quarter of the attribute byte names, and which two bits of the tile's row.

The position register walks over this plane.  `planeColumn` and `planeLine` are where it stands:
**a step to the right is one tile modulo 64 and a step down one line modulo 480**, as long as it
stands on a row that holds tiles; and what is fetched there is the plane's tile
(`read_composedCell_tileAt`).
-/
import Famicom.Proofs.Ppu.BackgroundStream

namespace Famicom

namespace Ppu

/-! ## 1. What lies on the plane -/

section Spec

variable (f : UInt16 → UInt8)

/-- The number of the nametable a pixel lies in. -/
def planeTable (x y : Nat) : Nat := y / 240 * 2 + x / 256

/-- The number of the tile a pixel lies in. -/
def planeTile (x y : Nat) : UInt8 :=
  f (.ofNat (0x2000 + planeTable x y * 0x400 + y % 240 / 8 * 32 + x % 256 / 8))

/-- The number of its palette: two bits out of the byte for its neighbourhood of four by four
tiles, by the quarter of two by two. -/
def planePalette (x y : Nat) : Nat :=
  let neighbourhood :=
    f (.ofNat (0x23C0 + planeTable x y * 0x400 + y % 240 / 32 * 8 + x % 256 / 32))
  let quarter := y % 240 / 16 % 2 * 2 + x % 256 / 16 % 2
  neighbourhood.toNat / 4 ^ quarter % 4

/-- The two bits of a pixel, from the two planes of its tile's pattern. -/
def planePixel (table : UInt16) (x y : Nat) : Nat :=
  let row := table.toNat + (planeTile f x y).toNat * 16 + y % 8
  rowBit (f (.ofNat (row + 8))) (x % 8) * 2 + rowBit (f (.ofNat row)) (x % 8)

/-- The colour of a pixel: where its two bits are 0 the backdrop shows. -/
def planeColour (table : UInt16) (palette : Palette) (x y : Nat) : UInt8 :=
  if planePixel f table x y = 0 then palette.read 0x3F00
  else palette.read (.ofNat (0x3F00 + planePalette f x y * 4 + planePixel f table x y))

end Spec

end Ppu

/-! ## 2. Where the position stands -/

namespace VramAddress

/-- The column of tiles on the plane. -/
def planeColumn (v : VramAddress) : Nat := v.right.toNat * 32 + v.column

/-- The line of pixels on the plane. -/
def planeLine (v : VramAddress) : Nat := v.lower.toNat * 240 + v.row * 8 + v.line

theorem planeColumn_lt (v : VramAddress) : v.planeColumn < 64 := by
  have hc := v.column.isLt
  have hr := Bool.toNat_le v.right
  unfold planeColumn
  omega

theorem planeLine_lt {v : VramAddress} (h : v.row.val < 30) : v.planeLine < 480 := by
  have hl := v.line.isLt
  have hb := Bool.toNat_le v.lower
  unfold planeLine
  omega

theorem planeColumn_incrementX (v : VramAddress) :
    v.incrementX.planeColumn = (v.planeColumn + 1) % 64 := by
  have hc := v.column.isLt
  have hv : (v.column + 1).val = (v.column.val + 1) % 32 := Fin.val_add v.column 1
  unfold planeColumn incrementX
  dsimp only
  rw [hv]
  by_cases h31 : v.column = 31
  · have hn : v.column.val = 31 := congrArg Fin.val h31
    rw [hn, beq_iff_eq.mpr h31]
    cases v.right <;> rfl
  · have hn : v.column.val ≠ 31 := fun h => h31 (Fin.ext h)
    have hr := Bool.toNat_le v.right
    rw [beq_eq_false_iff_ne.mpr h31, Bool.bne_false]
    omega

theorem planeColumn_tiles (v : VramAddress) (k : Nat) :
    (v.tiles k).planeColumn = (v.planeColumn + k) % 64 := by
  induction k with
  | zero => exact (Nat.mod_eq_of_lt v.planeColumn_lt).symm
  | succ k ih =>
    rw [tiles_succ, planeColumn_incrementX, ih]
    omega

/-- A step to the right leaves the vertical position alone. -/
theorem tiles_vertical (v : VramAddress) (k : Nat) :
    (v.tiles k).row = v.row ∧ (v.tiles k).lower = v.lower ∧ (v.tiles k).line = v.line := by
  induction k with
  | zero => exact ⟨rfl, rfl, rfl⟩
  | succ k ih => rwa [tiles_succ]

/-- A step down leaves the horizontal position alone. -/
theorem incrementY_horizontal (v : VramAddress) :
    v.incrementY.column = v.column ∧ v.incrementY.right = v.right := by
  unfold incrementY
  split
  · split <;> exact ⟨rfl, rfl⟩
  · exact ⟨rfl, rfl⟩

/-- What a step down does to a position on a row that holds tiles. -/
theorem incrementY_vertical {v : VramAddress} (h : v.row.val < 30) :
    v.incrementY.row.val < 30 ∧ v.incrementY.planeLine = (v.planeLine + 1) % 480 := by
  have hb := Bool.toNat_le v.lower
  have hl := v.line.isLt
  unfold incrementY
  by_cases h7 : v.line = 7
  · have hn7 : v.line.val = 7 := congrArg Fin.val h7
    rw [if_pos h7]
    by_cases h29 : v.row = 29
    · have hn29 : v.row.val = 29 := congrArg Fin.val h29
      rw [if_pos h29]
      refine ⟨Nat.zero_lt_succ 29, ?_⟩
      unfold planeLine
      dsimp only
      rw [hn29, hn7]
      cases v.lower <;> rfl
    · have hn29 : v.row.val ≠ 29 := fun h => h29 (Fin.ext h)
      have hr : (v.row + 1).val = v.row.val + 1 := by
        rw [Fin.val_add]
        exact Nat.mod_eq_of_lt (by omega)
      rw [if_neg h29]
      unfold planeLine
      dsimp only
      rw [hr, hn7]
      refine ⟨by omega, ?_⟩
      change _ + _ + 0 = _
      omega
  · have hn7 : v.line.val ≠ 7 := fun h => h7 (Fin.ext h)
    have hr : (v.line + 1).val = v.line.val + 1 := by
      rw [Fin.val_add]
      exact Nat.mod_eq_of_lt (by omega)
    rw [if_neg h7]
    unfold planeLine
    dsimp only
    rw [hr]
    exact ⟨h, by omega⟩

end VramAddress

/-! ## 3. What is fetched there -/

namespace Ppu

variable {f : UInt16 → UInt8} {v : VramAddress}

/-- A pixel of the plane is in the tile at a position and on its line. -/
structure Covers (v : VramAddress) (x y : Nat) : Prop where
  row_lt : v.row.val < 30
  column_eq : x / 8 = v.planeColumn
  line_eq : y = v.planeLine

/-- The coordinates of a pixel, part by part. -/
theorem Covers.parts {x y : Nat} (h : Covers v x y) :
    x / 256 = v.right.toNat ∧ x % 256 / 8 = v.column ∧
      y / 240 = v.lower.toNat ∧ y % 240 / 8 = v.row ∧ y % 8 = v.line := by
  obtain ⟨hrow, hx, hy⟩ := h
  have hc := v.column.isLt
  have hl := v.line.isLt
  have hr := Bool.toNat_le v.right
  have hb := Bool.toNat_le v.lower
  unfold VramAddress.planeColumn at hx
  unfold VramAddress.planeLine at hy
  refine ⟨by omega, by omega, by omega, by omega, by omega⟩

theorem planeTable_eq {x y : Nat} (h : Covers v x y) : planeTable x y = v.nametable := by
  obtain ⟨hr, -, hb, -, -⟩ := h.parts
  rw [planeTable, hr, hb, VramAddress.nametable]
  cases v.right <;> cases v.lower <;> rfl

theorem planeTile_eq {x y : Nat} (h : Covers v x y) : planeTile f x y = f v.tileAddress := by
  obtain ⟨-, hc, -, hr, -⟩ := h.parts
  rw [planeTile, planeTable_eq h, hc, hr, VramAddress.tileAddress]

/-- Two bits out of a byte. -/
theorem toNat_two_bits (b : UInt8) {s : Nat} (hs : s < 8) :
    ((b >>> .ofNat s) &&& 0x03).toNat = b.toNat / 2 ^ s % 4 := by
  have h3 : (0x03 : UInt8).toNat = 2 ^ 2 - 1 := rfl
  have hm : (UInt8.ofNat s).toNat % 8 = s := by
    rw [UInt8.toNat_ofNat_of_lt' (Nat.lt_of_lt_of_le hs (by decide))]
    omega
  rw [UInt8.toNat_and, h3, Nat.and_two_pow_sub_one_eq_mod, UInt8.toNat_shiftRight, hm,
    Nat.shiftRight_eq_div_pow]

theorem planePalette_eq {table : UInt16} {x y : Nat} (h : Covers v x y) :
    planePalette f x y = (Background.tileAt f table v).palette.toNat := by
  obtain ⟨-, hc, -, hr, -⟩ := h.parts
  have hx4 : x % 256 / 32 = v.column / 4 := by omega
  have hy4 : y % 240 / 32 = v.row / 4 := by omega
  have hx2 : x % 256 / 16 = v.column / 2 := by omega
  have hy2 : y % 240 / 16 = v.row / 2 := by omega
  have hs : v.attributeShift = 2 * (v.row / 2 % 2 * 2 + v.column / 2 % 2) := by
    unfold VramAddress.attributeShift
    omega
  have hlt : v.attributeShift < 8 := by omega
  rw [Background.tileAt, toNat_two_bits _ hlt, hs, Nat.pow_mul]
  simp only [planePalette, planeTable_eq h, hx4, hy4, hx2, hy2, VramAddress.attributeAddress]

theorem planePixel_eq {table : UInt16} {x y : Nat} (h : Covers v x y) :
    planePixel f table x y =
      (Background.tilePixel (Background.tileAt f table v) (x % 8)).1.toNat := by
  obtain ⟨-, -, -, -, hl⟩ := h.parts
  have hx : x % 8 < 8 := Nat.mod_lt _ (by decide)
  have hlow : UInt16.ofNat (table.toNat + (f v.tileAddress).toNat * 16 + v.line) =
      table + .ofNat ((f v.tileAddress).toNat * 16 + v.line) := by
    rw [Nat.add_assoc, UInt16.ofNat_add, UInt16.ofNat_toNat]
  have hhigh : UInt16.ofNat (table.toNat + (f v.tileAddress).toNat * 16 + v.line + 8) =
      table + .ofNat ((f v.tileAddress).toNat * 16 + v.line) + 8 := by
    rw [UInt16.ofNat_add, hlow]
    rfl
  simp only [planePixel, planeTile_eq h, hl, Background.tilePixel, Background.tileAt,
    toNat_two_planes, hlow, hhigh, rowBit_eq _ hx]

/-- **What the unit shows of a fetched tile is what lies on the plane.** -/
theorem read_composedCell_tileAt {table : UInt16} {x y : Nat} (h : Covers v x y)
    (palette : Palette) :
    palette.read (composedCell
        (Background.tilePixel (Background.tileAt f table v) (x % 8)).1
        (Background.tilePixel (Background.tileAt f table v) (x % 8)).2 none) =
      planeColour f table palette x y := by
  have hpixel : (Background.tilePixel (Background.tileAt f table v) (x % 8)).1.toNat < 4 :=
    two_planes_lt _ _
  have hpalette : (Background.tileAt f table v).palette.toNat < 4 :=
    Background.palette_tileAt_lt v
  have hnumber : planePalette f x y = (Background.tileAt f table v).palette.toNat :=
    planePalette_eq h
  rw [planeColour, planePixel_eq h, hnumber]
  generalize (Background.tilePixel (Background.tileAt f table v) (x % 8)).1 = pixel at hpixel
  unfold composedCell
  by_cases h0 : pixel = 0
  · rw [if_pos (beq_iff_eq.mpr h0), if_pos (by rw [h0]; rfl)]
  · have hn0 : pixel.toNat ≠ 0 := fun hn => h0 (UInt8.toNat_inj.mp hn)
    rw [if_neg (fun hb => h0 (beq_iff_eq.mp hb)), if_neg hn0]
    exact congrArg palette.read (paletteCell_eq 0x3F00 hpixel hpalette)

end Ppu

end Famicom
