/-
# Positions in the nametable plane

The picture unit keeps its place in the picture and its place in memory in one register of fifteen
bits, `yyy NN YYYYY XXXXX`: a column and a row of tiles, which of the four nametables, and the line
within the tile.  Read as a position the low bits walk over the plane of nametables; read as an
address they are the tile's place in memory.

`VramAddress` keeps the parts apart, each in a type it cannot leave, and `raw` puts them together.
So a step along the plane is arithmetic on the parts, and **no step can spill into a part it should
not reach**.
-/
import Famicom.Word

namespace Famicom

/-- A tile position in the plane of nametables, and a line within the tile. -/
structure VramAddress where
  /-- The column of the tile in its nametable. -/
  column : Fin 32 := 0
  /-- The row of the tile in its nametable.  Rows 30 and 31 hold no tiles but attributes. -/
  row : Fin 32 := 0
  /-- Whether the nametable is a right one. -/
  right : Bool := false
  /-- Whether the nametable is a lower one. -/
  lower : Bool := false
  /-- The line within the tile. -/
  line : Fin 8 := 0
  deriving DecidableEq, Repr, Inhabited

namespace VramAddress

/-! ## 1. The register as a number -/

/-- The number of the nametable, from left to right and top to bottom. -/
@[inline] def nametable (v : VramAddress) : Nat :=
  (if v.lower then 2 else 0) + (if v.right then 1 else 0)

/-- The fifteen bits of the register. -/
def raw (v : VramAddress) : Nat :=
  v.line * 4096 + v.nametable * 1024 + v.row * 32 + v.column

/-- The register with the given bits; a sixteenth is dropped. -/
def ofRaw (n : Nat) : VramAddress where
  column := .ofNat 32 n
  row := .ofNat 32 (n / 32)
  right := n / 1024 % 2 == 1
  lower := n / 2048 % 2 == 1
  line := .ofNat 8 (n / 4096)

theorem raw_lt (v : VramAddress) : v.raw < 0x8000 := by
  have hn : v.nametable ≤ 3 := by
    simp only [nametable]; cases v.lower <;> cases v.right <;> decide
  have := v.column.isLt
  have := v.row.isLt
  have := v.line.isLt
  simp only [raw]
  omega

/-- Nothing is lost in the bits. -/
theorem ofRaw_raw (v : VramAddress) : ofRaw v.raw = v := by
  obtain ⟨column, row, right, lower, line⟩ := v
  have hc := column.isLt
  have hr := row.isLt
  have hl := line.isLt
  cases right <;> cases lower <;>
    simp only [ofRaw, raw, nametable, mk.injEq, Fin.ext_iff, Fin.val_ofNat, beq_iff_eq,
      Bool.false_eq_true, if_true, if_false, beq_eq_false_iff_ne, ne_eq] <;>
    omega

/-- Every number of fifteen bits is a position; of a larger one the low fifteen count. -/
theorem raw_ofRaw (n : Nat) : (ofRaw n).raw = n % 0x8000 := by
  have hr := Nat.mod_two_eq_zero_or_one (n / 1024)
  have hl := Nat.mod_two_eq_zero_or_one (n / 2048)
  rcases hr with hr | hr <;> rcases hl with hl | hl <;>
    simp only [ofRaw, raw, nametable, Fin.val_ofNat, hr, hl, Nat.reduceBEq, Bool.false_eq_true,
      if_true, if_false] <;>
    omega

/-- The address of the register's position, as the bus of the picture unit shows it. -/
@[inline] def busAddress (v : VramAddress) : UInt16 := .ofNat (v.raw % 0x4000)

/-! ## 2. Setting parts -/

@[inline] def setColumn (v : VramAddress) (n : Nat) : VramAddress :=
  { v with column := .ofNat 32 n }

@[inline] def setRow (v : VramAddress) (n : Nat) : VramAddress := { v with row := .ofNat 32 n }

@[inline] def setLine (v : VramAddress) (n : Nat) : VramAddress := { v with line := .ofNat 8 n }

/-- Only the two low bits name a nametable. -/
@[inline] def setNametable (v : VramAddress) (n : Nat) : VramAddress :=
  { v with right := n % 2 == 1, lower := n / 2 % 2 == 1 }

/-- Takes the horizontal position of another register. -/
@[inline] def copyHorizontal (v w : VramAddress) : VramAddress :=
  { v with column := w.column, right := w.right }

/-- Takes the vertical position of another register. -/
@[inline] def copyVertical (v w : VramAddress) : VramAddress :=
  { v with row := w.row, lower := w.lower, line := w.line }

/-! ## 3. Walking the plane -/

/-- One tile to the right, from the last column into the nametable beside. -/
@[inline] def incrementX (v : VramAddress) : VramAddress :=
  { v with column := v.column + 1, right := v.right != (v.column == 31) }

/-- One line down.  From row 29, the last that shows, the step goes into the nametable below; from
row 31 it goes back to the top of the same one. -/
@[inline] def incrementY (v : VramAddress) : VramAddress :=
  if v.line = 7 then
    if v.row = 29 then { v with line := 0, row := 0, lower := !v.lower }
    else { v with line := 0, row := v.row + 1 }
  else { v with line := v.line + 1 }

/-- Moves `n` steps along the register's addresses. -/
def advance (v : VramAddress) (n : Nat) : VramAddress := ofRaw (v.raw + n)

/-! ## 4. What lies at a position -/

/-- Where the nametable keeps the tile's number. -/
@[inline] def tileAddress (v : VramAddress) : UInt16 :=
  .ofNat (0x2000 + v.nametable * 0x400 + v.row * 32 + v.column)

/-- Where the nametable keeps the colours of the tile's neighbourhood, four tiles by four. -/
@[inline] def attributeAddress (v : VramAddress) : UInt16 :=
  .ofNat (0x23C0 + v.nametable * 0x400 + v.row / 4 * 8 + v.column / 4)

/-- Where in that byte the two bits for the tile's quarter begin. -/
@[inline] def attributeShift (v : VramAddress) : Nat :=
  v.row / 2 % 2 * 4 + v.column / 2 % 2 * 2

end VramAddress

end Famicom
