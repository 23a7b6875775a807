/-
# The position as a word

A position is four parts side by side in a word, `yyy NN YYYYY XXXXX`, with a sixteenth bit that is
never set (`VramAddress.bits`).  A unit that keeps the word sets a part by masking the others, takes
a step by adding to it, and must carry from one part into the next by hand.  `Position` is those
operations on words.  A step is a sum, and a sum may not have a result.

**Of the word of a position each of them is the word of what it does to the position**, and a step
always has a result (`Position.incrementX_bits`, `Position.incrementY_bits`).  The proofs cut words
into the four parts, on which the operations on bits act one by one (`and_parts`, `or_parts`).
-/
import Famicom.Ppu.VramAddress
import Famicom.Proofs.Words

namespace Famicom

/-! ## 1. Words in four parts -/

/-- The word of four parts. -/
def parts (line table row column : Nat) : Nat :=
  ((line * 2 ^ 2 + table) * 2 ^ 5 + row) * 2 ^ 5 + column

/-- Each part but the topmost is in its range. -/
def InParts (table row column : Nat) : Prop := table < 4 ∧ row < 32 ∧ column < 32

instance (table row column : Nat) : Decidable (InParts table row column) :=
  inferInstanceAs (Decidable (_ ∧ _ ∧ _))

section Parts

variable {line line' table table' row row' column column' : Nat} (h : InParts table row column)
  (h' : InParts table' row' column')

include h h'

theorem and_parts :
    parts line table row column &&& parts line' table' row' column' =
      parts (line &&& line') (table &&& table') (row &&& row') (column &&& column') := by
  unfold parts
  rw [← and_fields 2 h.1 h'.1, ← and_fields 5 h.2.1 h'.2.1, ← and_fields 5 h.2.2 h'.2.2]

theorem or_parts :
    parts line table row column ||| parts line' table' row' column' =
      parts (line ||| line') (table ||| table') (row ||| row') (column ||| column') := by
  unfold parts
  rw [← or_fields 2 h.1 h'.1, ← or_fields 5 h.2.1 h'.2.1, ← or_fields 5 h.2.2 h'.2.2]

theorem xor_parts :
    parts line table row column ^^^ parts line' table' row' column' =
      parts (line ^^^ line') (table ^^^ table') (row ^^^ row') (column ^^^ column') := by
  unfold parts
  rw [← xor_fields 2 h.1 h'.1, ← xor_fields 5 h.2.1 h'.2.1, ← xor_fields 5 h.2.2 h'.2.2]

omit h in
theorem InParts.and : InParts (table &&& table') (row &&& row') (column &&& column') :=
  ⟨Nat.and_lt_two_pow (n := 2) table h'.1, Nat.and_lt_two_pow (n := 5) row h'.2.1,
    Nat.and_lt_two_pow (n := 5) column h'.2.2⟩

end Parts

namespace VramAddress

theorem nametable_lt (v : VramAddress) : v.nametable < 4 := by
  unfold nametable
  cases v.lower <;> cases v.right <;> decide

/-- The word of a position. -/
def bits (v : VramAddress) : UInt16 := .ofNat v.raw

theorem toNat_bits (v : VramAddress) : v.bits.toNat = v.raw :=
  UInt16.toNat_ofNat_of_lt' (v.raw_lt.trans (by decide))

theorem raw_eq_parts (v : VramAddress) : v.raw = parts v.line v.nametable v.row v.column := by
  unfold raw parts
  omega

/-- A word is that of a position if it has the position's parts. -/
theorem eq_bits {v : VramAddress} {w : UInt16} {line table row column : Nat}
    (h : w.toNat = parts line table row column) (hline : line = v.line)
    (htable : table = v.nametable) (hrow : row = v.row) (hcolumn : column = v.column) :
    w = v.bits := by
  rw [← UInt16.toNat_inj, h, toNat_bits, raw_eq_parts, hline, htable, hrow, hcolumn]

section Masks

variable (v : VramAddress)

theorem inParts : InParts v.nametable v.row v.column := ⟨v.nametable_lt, v.row.isLt, v.column.isLt⟩

theorem line_and_mask : (v.line : Nat) &&& 15 = v.line :=
  Nat.and_two_pow_sub_one_of_lt_two_pow (n := 4) (v.line.isLt.trans (by decide))

theorem nametable_and_mask : v.nametable &&& 3 = v.nametable :=
  Nat.and_two_pow_sub_one_of_lt_two_pow (n := 2) v.nametable_lt

theorem row_and_mask : (v.row : Nat) &&& 31 = v.row :=
  Nat.and_two_pow_sub_one_of_lt_two_pow (n := 5) v.row.isLt

theorem column_and_mask : (v.column : Nat) &&& 31 = v.column :=
  Nat.and_two_pow_sub_one_of_lt_two_pow (n := 5) v.column.isLt

/-- The parts of a position that a mask leaves. -/
theorem toNat_bits_and {m : UInt16} {line table row column : Nat}
    (hm : m.toNat = parts line table row column) (h : InParts table row column) :
    (v.bits &&& m).toNat =
      parts (v.line &&& line) (v.nametable &&& table) (v.row &&& row) (v.column &&& column) := by
  rw [UInt16.toNat_and, v.toNat_bits, v.raw_eq_parts, hm, and_parts v.inParts h]

end Masks

end VramAddress

namespace Position

/-! ## 2. Operations on words -/

/-- A word without the bits of a mask. -/
def without (w mask : UInt16) : UInt16 := w &&& ~~~mask

def column (w : UInt16) : UInt16 := w &&& 0x001F

def row (w : UInt16) : UInt16 := (w >>> 5) &&& 0x001F

def line (w : UInt16) : UInt16 := (w >>> 12) &&& 0x0007

def setColumn (w : UInt16) (b : UInt8) : UInt16 := without w 0x001F ||| (b.toUInt16 &&& 0x1F)

/-- A word with its row replaced. -/
def withRow (w row : UInt16) : UInt16 := without w 0x03E0 ||| (row <<< (5 : UInt16))

def setRow (w : UInt16) (b : UInt8) : UInt16 := withRow w (b.toUInt16 &&& 0x1F)

def setNametable (w : UInt16) (b : UInt8) : UInt16 :=
  without w 0x0C00 ||| ((b.toUInt16 &&& 0x03) <<< (10 : UInt16))

def setLine (w : UInt16) (b : UInt8) : UInt16 :=
  without w 0x7000 ||| ((b.toUInt16 &&& 0x07) <<< (12 : UInt16))

def copyHorizontal (w x : UInt16) : UInt16 := without w 0x041F ||| (x &&& 0x041F)

def copyVertical (w x : UInt16) : UInt16 := without w 0x7BE0 ||| (x &&& 0x7BE0)

/-- The position of a word; its sixteenth bit is dropped. -/
def ofWord (w : UInt16) : UInt16 := w &&& 0x7FFF

/-- The high six bits of an address take the place of the position's high byte. -/
def setHigh (w : UInt16) (b : UInt8) : UInt16 :=
  ofWord ((w &&& 0x00FF) ||| ((b.toUInt16 &&& 0x3F) <<< (8 : UInt16)))

/-- The low eight bits of an address take the place of the position's low byte. -/
def setLow (w : UInt16) (b : UInt8) : UInt16 := ofWord ((w &&& 0xFF00) ||| b.toUInt16)

/-- Some steps along the addresses; past the last they go on with the first. -/
def advance (w steps : UInt16) : UInt16 := ofWord (w + steps)

/-- One tile to the right. -/
def incrementX (w : UInt16) : Option UInt16 :=
  if column w = 31 then some (without w 0x001F ^^^ 0x0400) else add16 w 1

/-- One row down. -/
def nextRow (w : UInt16) : Option UInt16 :=
  if row w = 29 then some (withRow (w ^^^ 0x0800) 0)
  else if row w = 31 then some (withRow w 0)
  else (add16 (row w) 1).map (withRow w)

/-- One line down. -/
def incrementY (w : UInt16) : Option UInt16 :=
  if line w < 7 then add16 w 0x1000 else nextRow (without w 0x7000)

def tileAddress (w : UInt16) : UInt16 := 0x2000 ||| (w &&& 0x0FFF)

def attributeAddress (w : UInt16) : UInt16 :=
  0x23C0 ||| (w &&& 0x0C00) ||| ((w >>> (4 : UInt16)) &&& 0x38) |||
    ((w >>> (2 : UInt16)) &&& 0x07)

def attributeShift (w : UInt16) : UInt16 :=
  let high : UInt16 := row w &&& 0x02
  (high <<< (1 : UInt16)) ||| (column w &&& 0x02)

/-! ## 3. Reading parts -/

section Reading

variable (v : VramAddress)

theorem toNat_column : (column v.bits).toNat = v.column := by
  rw [column, UInt16.toNat_and, v.toNat_bits]
  change v.raw &&& 2 ^ 5 - 1 = _
  rw [Nat.and_two_pow_sub_one_eq_mod]
  unfold VramAddress.raw
  omega

theorem toNat_row : (row v.bits).toNat = v.row := by
  have hc := v.column.isLt
  have hr := v.row.isLt
  rw [row, UInt16.toNat_and, toNat_shiftRight_word v.bits (by decide), v.toNat_bits]
  change v.raw / 2 ^ 5 &&& 2 ^ 5 - 1 = _
  rw [Nat.and_two_pow_sub_one_eq_mod]
  unfold VramAddress.raw
  omega

theorem toNat_line : (line v.bits).toNat = v.line := by
  have hc := v.column.isLt
  have hr := v.row.isLt
  have hn := v.nametable_lt
  have hl := v.line.isLt
  rw [line, UInt16.toNat_and, toNat_shiftRight_word v.bits (by decide), v.toNat_bits]
  change v.raw / 2 ^ 12 &&& 2 ^ 3 - 1 = _
  rw [Nat.and_two_pow_sub_one_eq_mod]
  unfold VramAddress.raw
  omega

theorem column_bits : column v.bits = .ofNat v.column := by
  rw [← UInt16.toNat_inj, toNat_column, UInt16.toNat_ofNat_of_lt' (v.column.isLt.trans (by decide))]

theorem row_bits : row v.bits = .ofNat v.row := by
  rw [← UInt16.toNat_inj, toNat_row, UInt16.toNat_ofNat_of_lt' (v.row.isLt.trans (by decide))]

theorem line_bits : line v.bits = .ofNat v.line := by
  rw [← UInt16.toNat_inj, toNat_line, UInt16.toNat_ofNat_of_lt' (v.line.isLt.trans (by decide))]

end Reading

/-! ## 4. Setting parts -/

section Setting

variable (v : VramAddress)

/-- What stays of a position beside what is put in the place of a mask. -/
theorem toNat_without_or {mask x : UInt16} {line table row column line' table' row' column' : Nat}
    (hmask : (~~~mask).toNat = parts line table row column) (h : InParts table row column)
    (hx : x.toNat = parts line' table' row' column') (h' : InParts table' row' column') :
    (without v.bits mask ||| x).toNat =
      parts (v.line &&& line ||| line') (v.nametable &&& table ||| table')
        (v.row &&& row ||| row') (v.column &&& column ||| column') := by
  rw [without, UInt16.toNat_or, v.toNat_bits_and hmask h, hx, or_parts h.and h']

/-- A part stays that its mask leaves and nothing is put into. -/
theorem kept {n m x : Nat} (h : n &&& m = n) (hx : x = 0) : n &&& m ||| x = n := by
  rw [h, hx, Nat.or_zero]

/-- A part is replaced that its mask takes away. -/
theorem replaced (n : Nat) {x y : Nat} (h : x = y) : n &&& 0 ||| x = y := by
  rw [Nat.and_zero, Nat.zero_or, h]

/-- The low bits of a byte. -/
theorem toNat_low (b : UInt8) (k : Nat) {m : UInt16} (hm : m.toNat = 2 ^ k - 1) :
    (b.toUInt16 &&& m).toNat = b.toNat % 2 ^ k := by
  rw [UInt16.toNat_and, UInt8.toNat_toUInt16, hm, Nat.and_two_pow_sub_one_eq_mod]

/-- The low bits of a byte, moved up. -/
theorem toNat_low_shiftLeft (b : UInt8) (k : Nat) {m s : UInt16} (hm : m.toNat = 2 ^ k - 1)
    (hs : s.toNat < 16) (hk : k + s.toNat ≤ 16) :
    ((b.toUInt16 &&& m) <<< s).toNat = b.toNat % 2 ^ k * 2 ^ s.toNat := by
  have hlow := toNat_low b k hm
  have hlt : b.toNat % 2 ^ k * 2 ^ s.toNat < 2 ^ k * 2 ^ s.toNat :=
    Nat.mul_lt_mul_of_pos_right (Nat.mod_lt _ (Nat.two_pow_pos k)) (Nat.two_pow_pos _)
  have hle : 2 ^ k * 2 ^ s.toNat ≤ 2 ^ 16 := by
    rw [← Nat.pow_add]
    exact Nat.pow_le_pow_right (by decide) hk
  rw [toNat_shiftLeft_word _ hs (by rw [hlow]; exact hlt.trans_le hle), hlow]

theorem setColumn_bits (b : UInt8) : setColumn v.bits b = (v.setColumn b.toNat).bits := by
  have hx : (b.toUInt16 &&& 0x1F).toNat = parts 0 0 0 (b.toNat % 32) := by
    rw [toNat_low b 5 rfl, parts]
    omega
  have hin : InParts 0 0 (b.toNat % 32) := ⟨by decide, by decide, Nat.mod_lt _ (by decide)⟩
  exact VramAddress.eq_bits
    (toNat_without_or v (show _ = parts 15 3 31 0 from rfl) (by decide) hx hin)
    (kept v.line_and_mask rfl) (kept v.nametable_and_mask rfl) (kept v.row_and_mask rfl)
    (replaced _ rfl)

theorem withRow_bits {r : UInt16} (hr : r.toNat < 32) :
    withRow v.bits r = { v with row := ⟨r.toNat, hr⟩ }.bits := by
  have hx : (r <<< (5 : UInt16)).toNat = parts 0 0 r.toNat 0 := by
    rw [toNat_shiftLeft_word r (s := 5) (by decide) (show r.toNat * 2 ^ 5 < 65536 by omega), parts]
    change r.toNat * 2 ^ 5 = _
    omega
  exact VramAddress.eq_bits
    (toNat_without_or v (show _ = parts 15 3 0 31 from rfl) (by decide) hx
      ⟨by decide, hr, by decide⟩)
    (kept v.line_and_mask rfl) (kept v.nametable_and_mask rfl) (replaced _ rfl)
    (kept v.column_and_mask rfl)

theorem setRow_bits (b : UInt8) : setRow v.bits b = (v.setRow b.toNat).bits := by
  have hlow := toNat_low b 5 (m := 0x1F) rfl
  have hlt : (b.toUInt16 &&& 0x1F).toNat < 32 := by
    rw [hlow]
    exact Nat.mod_lt _ (by decide)
  rw [setRow, withRow_bits v hlt]
  simp only [hlow]
  rfl

theorem setNametable_bits (b : UInt8) :
    setNametable v.bits b = (v.setNametable b.toNat).bits := by
  have hx : ((b.toUInt16 &&& 0x03) <<< (10 : UInt16)).toNat = parts 0 (b.toNat % 4) 0 0 := by
    rw [toNat_low_shiftLeft b 2 rfl (by decide) (by decide), parts]
    change b.toNat % 4 * 1024 = _
    omega
  have htable : b.toNat % 4 = (v.setNametable b.toNat).nametable := by
    have hright := Nat.mod_two_eq_zero_or_one b.toNat
    have hlower := Nat.mod_two_eq_zero_or_one (b.toNat / 2)
    unfold VramAddress.nametable VramAddress.setNametable
    rcases hright with hright | hright <;> rcases hlower with hlower | hlower <;>
      simp only [hright, hlower, Nat.reduceBEq, Bool.false_eq_true, if_true, if_false] <;> omega
  exact VramAddress.eq_bits
    (toNat_without_or v (show _ = parts 15 0 31 31 from rfl) (by decide) hx
      ⟨Nat.mod_lt _ (by decide), by decide, by decide⟩)
    (kept v.line_and_mask rfl) (replaced _ htable) (kept v.row_and_mask rfl)
    (kept v.column_and_mask rfl)

theorem setLine_bits (b : UInt8) : setLine v.bits b = (v.setLine b.toNat).bits := by
  have hx : ((b.toUInt16 &&& 0x07) <<< (12 : UInt16)).toNat = parts (b.toNat % 8) 0 0 0 := by
    rw [toNat_low_shiftLeft b 3 rfl (by decide) (by decide), parts]
    change b.toNat % 8 * 4096 = _
    omega
  have hline : ∀ l : Fin 8, l.val &&& 8 = 0 := by decide
  refine VramAddress.eq_bits
    (toNat_without_or v (show _ = parts 8 3 31 31 from rfl) (by decide) hx (by decide)) ?_
    (kept v.nametable_and_mask rfl) (kept v.row_and_mask rfl) (kept v.column_and_mask rfl)
  rw [hline, Nat.zero_or]
  rfl

theorem copyHorizontal_bits (u : VramAddress) :
    copyHorizontal v.bits u.bits = (v.copyHorizontal u).bits := by
  have htake := u.toNat_bits_and (m := 0x041F) (show _ = parts 0 1 0 31 from rfl) (by decide)
  have htable : v.nametable &&& 2 ||| u.nametable &&& 1 = (v.copyHorizontal u).nametable := by
    unfold VramAddress.nametable VramAddress.copyHorizontal
    dsimp only
    cases v.lower <;> cases v.right <;> cases u.lower <;> cases u.right <;> rfl
  exact VramAddress.eq_bits
    (toNat_without_or v (show _ = parts 15 2 31 0 from rfl) (by decide) htake
      (InParts.and (by decide)))
    (kept v.line_and_mask (Nat.and_zero _)) htable (kept v.row_and_mask (Nat.and_zero _))
    (replaced _ u.column_and_mask)

theorem copyVertical_bits (u : VramAddress) :
    copyVertical v.bits u.bits = (v.copyVertical u).bits := by
  have htake := u.toNat_bits_and (m := 0x7BE0) (show _ = parts 7 2 31 0 from rfl) (by decide)
  have hline : ∀ l l' : Fin 8, l.val &&& 8 ||| l'.val &&& 7 = l'.val := by decide
  have htable : v.nametable &&& 1 ||| u.nametable &&& 2 = (v.copyVertical u).nametable := by
    unfold VramAddress.nametable VramAddress.copyVertical
    dsimp only
    cases v.lower <;> cases v.right <;> cases u.lower <;> cases u.right <;> rfl
  exact VramAddress.eq_bits
    (toNat_without_or v (show _ = parts 8 1 0 31 from rfl) (by decide) htake
      (InParts.and (by decide)))
    (hline v.line u.line) htable (replaced _ u.row_and_mask)
    (kept v.column_and_mask (Nat.and_zero _))

end Setting

/-! ## 5. Addresses as positions -/

section Addresses

variable (v : VramAddress)

/-- The position of a word is that of its number. -/
theorem ofWord_eq (w : UInt16) : ofWord w = (VramAddress.ofRaw w.toNat).bits := by
  rw [← UInt16.toNat_inj, VramAddress.toNat_bits, VramAddress.raw_ofRaw, ofWord, UInt16.toNat_and]
  exact Nat.and_two_pow_sub_one_eq_mod w.toNat 15

theorem setHigh_bits (b : UInt8) :
    setHigh v.bits b = (VramAddress.ofRaw (b.toNat % 64 * 256 + v.raw % 256)).bits := by
  have hkeep : (v.bits &&& 0x00FF).toNat = v.raw % 2 ^ 8 := by
    rw [UInt16.toNat_and, v.toNat_bits]
    exact Nat.and_two_pow_sub_one_eq_mod v.raw 8
  have hhigh : ((b.toUInt16 &&& 0x3F) <<< (8 : UInt16)).toNat = b.toNat % 64 * 2 ^ 8 :=
    toNat_low_shiftLeft b 6 rfl (by decide) (by decide)
  rw [setHigh, ofWord_eq, UInt16.toNat_or, hkeep, hhigh, Nat.or_comm,
    or_low _ 8 (Nat.mod_lt _ (by decide))]
  rfl

theorem setLow_bits (b : UInt8) :
    setLow v.bits b = (VramAddress.ofRaw (v.raw / 256 * 256 + b.toNat)).bits := by
  have hkeep : (v.bits &&& 0xFF00).toNat = v.raw / 256 * 256 := by
    have hlt := v.raw_lt
    rw [UInt16.toNat_and, v.toNat_bits]
    change v.raw &&& (2 ^ 8 - 1) * 2 ^ 8 = _
    rw [and_shifted_mask]
    omega
  rw [setLow, ofWord_eq, UInt16.toNat_or, hkeep, UInt8.toNat_toUInt16]
  exact congrArg (fun n => (VramAddress.ofRaw n).bits) (or_low (v.raw / 256) 8 b.toNat_lt)

theorem advance_bits {n : Nat} (hn : n < 0x8000) :
    advance v.bits (.ofNat n) = (v.advance n).bits := by
  have hlt := v.raw_lt
  have htoNat : (UInt16.ofNat n).toNat = n := UInt16.toNat_ofNat_of_lt' (show n < 2 ^ 16 by omega)
  have hsum : (v.bits + .ofNat n).toNat = v.raw + n := by
    rw [UInt16.toNat_add, v.toNat_bits, htoNat]
    omega
  rw [advance, ofWord_eq, hsum]
  rfl

end Addresses

/-! ## 6. Steps -/

section Steps

variable (v : VramAddress)

/-- The step to the right from the last column. -/
theorem incrementX_of_last {v : VramAddress} (h : v.column = 31) :
    v.incrementX = { v with column := 0, right := !v.right } := by
  unfold VramAddress.incrementX
  rw [h]
  cases v.right <;> rfl

theorem incrementX_of_ne {v : VramAddress} (h : v.column ≠ 31) :
    v.incrementX = { v with column := v.column + 1 } := by
  unfold VramAddress.incrementX
  rw [beq_false_of_ne h, Bool.bne_false]

/-- **A step to the right always has a result.** -/
theorem incrementX_bits : incrementX v.bits = some v.incrementX.bits := by
  unfold incrementX
  by_cases hlast : v.column = 31
  · have hcolumn : column v.bits = 31 := by rw [column_bits, hlast]; rfl
    have hkeep := v.toNat_bits_and (m := ~~~0x001F) (show _ = parts 15 3 31 0 from rfl) (by decide)
    have hword : (without v.bits 0x001F ^^^ 0x0400).toNat =
        parts v.line (v.nametable ^^^ 1) v.row 0 := by
      rw [UInt16.toNat_xor, without, hkeep, v.line_and_mask, v.nametable_and_mask, v.row_and_mask,
        Nat.and_zero]
      change _ ^^^ parts 0 1 0 0 = _
      rw [xor_parts ⟨v.nametable_lt, v.row.isLt, by decide⟩ (by decide)]
      simp only [Nat.xor_zero]
    have htable : v.nametable ^^^ 1 = { v with column := 0, right := !v.right }.nametable := by
      change _ ^^^ 1 = (if v.lower then 2 else 0) + if !v.right then 1 else 0
      unfold VramAddress.nametable
      cases v.lower <;> cases v.right <;> decide
    rw [if_pos hcolumn, incrementX_of_last hlast]
    exact congrArg some (VramAddress.eq_bits hword rfl htable rfl rfl)
  · have hcolumn : column v.bits ≠ 31 := by
      intro h
      have hval := (toNat_column v).symm.trans (congrArg UInt16.toNat h)
      exact hlast (Fin.ext hval)
    have hnext : (v.column + 1).val = v.column + 1 := (Fin.val_add_one _).trans (if_neg hlast)
    have hraw : v.raw + 1 = { v with column := v.column + 1 }.raw := by
      unfold VramAddress.raw VramAddress.nametable
      rw [hnext, Nat.add_assoc]
    have hlt := v.raw_lt
    rw [if_neg hcolumn, incrementX_of_ne hlast]
    exact (add16_ofNat (n := 1) (by omega)).trans (congrArg (fun n => some (UInt16.ofNat n)) hraw)

theorem nextRow_bits :
    nextRow v.bits = some
      (if v.row = 29 then { v with row := 0, lower := !v.lower }
        else { v with row := v.row + 1 }).bits := by
  have hat : ∀ n : Fin 32, row v.bits = .ofNat n ↔ v.row = n := by
    intro n
    rw [← UInt16.toNat_inj, toNat_row, UInt16.toNat_ofNat_of_lt' (n.isLt.trans (by decide)),
      Fin.ext_iff]
  have h29 : row v.bits = 29 ↔ v.row = 29 := hat 29
  have h31 : row v.bits = 31 ↔ v.row = 31 := hat 31
  unfold nextRow
  by_cases hturn : v.row = 29
  · have hflip : v.bits ^^^ 0x0800 = { v with lower := !v.lower }.bits := by
      have htable : v.nametable ^^^ 2 = { v with lower := !v.lower }.nametable := by
        change _ ^^^ 2 = (if !v.lower then 2 else 0) + if v.right then 1 else 0
        unfold VramAddress.nametable
        cases v.lower <;> cases v.right <;> decide
      have hword : (v.bits ^^^ 0x0800).toNat =
          parts v.line (v.nametable ^^^ 2) v.row v.column := by
        rw [UInt16.toNat_xor, v.toNat_bits, v.raw_eq_parts]
        change _ ^^^ parts 0 2 0 0 = _
        rw [xor_parts v.inParts (by decide)]
        simp only [Nat.xor_zero]
      exact VramAddress.eq_bits hword rfl htable rfl rfl
    rw [if_pos (h29.mpr hturn), if_pos hturn, hflip, withRow_bits _ (r := 0) (by decide)]
    rfl
  · rw [if_neg (mt h29.mp hturn), if_neg hturn]
    by_cases hlast : v.row = 31
    · rw [if_pos (h31.mpr hlast), withRow_bits v (r := 0) (by decide), hlast]
      rfl
    · have hnext : (v.row + 1).val = v.row + 1 :=
        (Fin.val_add_one _).trans (if_neg hlast)
      have hlt := (v.row + 1).isLt
      have hsum : add16 (row v.bits) 1 = some (.ofNat (v.row + 1).val) := by
        rw [row_bits, hnext]
        exact add16_ofNat (n := 1) (by omega)
      have htoNat : (UInt16.ofNat (v.row + 1).val).toNat = (v.row + 1).val :=
        UInt16.toNat_ofNat_of_lt' (hlt.trans (by decide))
      rw [if_neg (mt h31.mp hlast), hsum, Option.map_some, withRow_bits v (by rwa [htoNat])]
      simp only [htoNat]

/-- **A step down always has a result.** -/
theorem incrementY_bits : incrementY v.bits = some v.incrementY.bits := by
  unfold incrementY VramAddress.incrementY
  by_cases hend : v.line = 7
  · have hlast : ¬line v.bits < 7 := by rw [line_bits, hend]; decide
    have htop : without v.bits 0x7000 = { v with line := 0 }.bits := by
      have hkeep := v.toNat_bits_and (m := ~~~0x7000) (show _ = parts 8 3 31 31 from rfl)
        (by decide)
      rw [v.nametable_and_mask, v.row_and_mask, v.column_and_mask, hend] at hkeep
      exact VramAddress.eq_bits hkeep rfl rfl rfl rfl
    rw [if_neg hlast, if_pos hend, htop, nextRow_bits]
  · have hmore : line v.bits < 7 := by
      rw [UInt16.lt_iff_toNat_lt, toNat_line]
      exact Nat.lt_of_le_of_ne (Nat.le_of_lt_succ v.line.isLt) fun h => hend (Fin.ext h)
    have hnext : (v.line + 1).val = v.line + 1 :=
      (Fin.val_add_one _).trans (if_neg hend)
    have hraw : v.raw + 0x1000 = { v with line := v.line + 1 }.raw := by
      unfold VramAddress.raw VramAddress.nametable
      rw [hnext]
      dsimp only
      omega
    have hlt := v.raw_lt
    rw [if_pos hmore, if_neg hend]
    exact (add16_ofNat (n := 0x1000) (by omega)).trans
      (congrArg (fun n => some (UInt16.ofNat n)) hraw)

end Steps

/-! ## 7. What lies at a position -/

section Places

variable (v : VramAddress)

theorem tileAddress_bits : tileAddress v.bits = v.tileAddress := by
  have hand := v.toNat_bits_and (m := 0x0FFF) (show _ = parts 0 3 31 31 from rfl) (by decide)
  have hword : (tileAddress v.bits).toNat = parts 2 v.nametable v.row v.column := by
    rw [tileAddress, UInt16.toNat_or, hand, v.nametable_and_mask, v.row_and_mask, v.column_and_mask,
      Nat.and_zero]
    change parts 2 0 0 0 ||| _ = _
    rw [or_parts (by decide) v.inParts]
    simp only [Nat.zero_or, Nat.or_zero]
  have hnumber : parts 2 v.nametable v.row v.column =
      0x2000 + v.nametable * 0x400 + v.row * 32 + v.column := by
    unfold parts
    omega
  rw [← UInt16.ofNat_toNat (x := tileAddress v.bits), hword, hnumber, VramAddress.tileAddress]

theorem attributeAddress_bits : attributeAddress v.bits = v.attributeAddress := by
  have hcolumn := v.column.isLt
  have hrow := v.row.isLt
  have htable : (v.bits &&& 0x0C00).toNat = parts 0 v.nametable 0 0 := by
    rw [v.toNat_bits_and (show _ = parts 0 3 0 0 from rfl) (by decide), v.nametable_and_mask]
    simp only [Nat.and_zero]
  have hhigh : ((v.bits >>> (4 : UInt16)) &&& 0x38).toNat = v.row / 4 * 2 ^ 3 := by
    rw [UInt16.toNat_and, toNat_shiftRight_word v.bits (by decide), v.toNat_bits]
    change v.raw / 2 ^ 4 &&& (2 ^ 3 - 1) * 2 ^ 3 = _
    rw [and_shifted_mask]
    unfold VramAddress.raw
    omega
  have hlow : ((v.bits >>> (2 : UInt16)) &&& 0x07).toNat = v.column / 4 := by
    rw [UInt16.toNat_and, toNat_shiftRight_word v.bits (by decide), v.toNat_bits]
    change v.raw / 2 ^ 2 &&& 2 ^ 3 - 1 = _
    rw [Nat.and_two_pow_sub_one_eq_mod]
    unfold VramAddress.raw
    omega
  have hbase : (0x23C0 : UInt16).toNat ||| (v.bits &&& 0x0C00).toNat =
      (0x8F + v.nametable * 0x10) * 2 ^ 6 := by
    rw [htable]
    change parts 2 0 30 0 ||| _ = _
    rw [or_parts (by decide) ⟨v.nametable_lt, by decide, by decide⟩]
    simp only [Nat.or_zero, Nat.zero_or]
    unfold parts
    omega
  have hword : (attributeAddress v.bits).toNat =
      0x23C0 + v.nametable * 0x400 + v.row / 4 * 8 + v.column / 4 := by
    rw [attributeAddress, UInt16.toNat_or, UInt16.toNat_or, UInt16.toNat_or, hbase, hhigh, hlow,
      or_low _ 6 (by omega)]
    have hjoin : (0x8F + v.nametable * 0x10) * 2 ^ 6 + v.row / 4 * 2 ^ 3 =
        ((0x8F + v.nametable * 0x10) * 8 + v.row / 4) * 2 ^ 3 := by omega
    rw [hjoin, or_low _ 3 (by omega)]
    omega
  rw [← UInt16.ofNat_toNat (x := attributeAddress v.bits), hword, VramAddress.attributeAddress]

theorem toNat_attributeShift : (attributeShift v.bits).toNat = v.attributeShift := by
  have hrow : (row v.bits &&& 0x02).toNat = v.row / 2 % 2 * 2 := by
    rw [UInt16.toNat_and, toNat_row]
    exact and_shifted_mask v.row 1 1
  have hcolumn : (column v.bits &&& 0x02).toNat = v.column / 2 % 2 * 2 := by
    rw [UInt16.toNat_and, toNat_column]
    exact and_shifted_mask v.column 1 1
  have hhigh : ((row v.bits &&& 0x02) <<< (1 : UInt16)).toNat = v.row / 2 % 2 * 2 ^ 2 := by
    have hfits : (row v.bits &&& 0x02).toNat * 2 < 65536 := by
      rw [hrow]
      omega
    rw [toNat_shiftLeft_word _ (s := 1) (by decide) hfits, hrow]
    change _ * 2 = _
    omega
  rw [attributeShift, UInt16.toNat_or, hhigh, hcolumn, or_low _ 2 (by omega)]
  rfl

end Places

end Position

end Famicom
