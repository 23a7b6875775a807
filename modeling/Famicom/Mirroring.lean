/-
# Nametable mirroring

The picture unit draws from a plane of four nametables, two by two, but the console has memory for
only two of them.  The cartridge decides which table lies in which page of that memory, and so
which tables show the same contents.  A board with memory of its own can give every table its own
page.
-/
import Famicom.Memory

namespace Famicom

/-- Which nametables share a page. -/
inductive Mirroring where
  /-- The two upper tables share a page, and the two lower ones. -/
  | horizontal
  /-- The two left tables share a page, and the two right ones. -/
  | vertical
  /-- All four tables are the first page. -/
  | singleLower
  /-- All four tables are the second page. -/
  | singleUpper
  /-- Every table has a page. -/
  | fourScreen
  deriving DecidableEq, Repr, Inhabited

namespace Mirroring

/-- The page that holds a nametable; tables are counted from left to right and top to bottom. -/
def page : Mirroring → Nat → Nat
  | horizontal, table => table / 2
  | vertical, table => table % 2
  | singleLower, _ => 0
  | singleUpper, _ => 1
  | fourScreen, table => table

/-- The cell of nametable memory behind an address: only the low twelve bits count, so the plane
repeats every 4 KiB. -/
def cell (m : Mirroring) (a : UInt16) : Nat :=
  let offset := a.toNat % 0x1000
  m.page (offset / 0x400) * 0x400 + offset % 0x400

/-- A page is one of four. -/
theorem page_lt (m : Mirroring) {table : Nat} (h : table < 4) : m.page table < 4 := by
  cases m <;> simp only [page] <;> omega

theorem cell_lt (m : Mirroring) (a : UInt16) : m.cell a < 0x1000 := by
  have := m.page_lt (show a.toNat % 0x1000 / 0x400 < 4 by omega)
  simp only [cell]
  omega

end Mirroring

/-! ## Nametable memory

Two pages in the console and two that only a four-screen board reaches, kept as one memory of four
pages. -/

/-- The four pages of nametable memory. -/
structure Nametables where
  cells : Memory 4096 := Memory.filled 4096 0

namespace Nametables

@[inline] def read (n : Nametables) (m : Mirroring) (a : UInt16) : UInt8 :=
  n.cells.read (m.cell a)

@[inline] def write : Nametables → Mirroring → UInt16 → UInt8 → Nametables
  | ⟨cells⟩, m, a, v => ⟨cells.write (m.cell a) v⟩

/-- Two addresses are one cell exactly when the mirroring says so. -/
theorem read_write (n : Nametables) (m : Mirroring) (a b : UInt16) (v : UInt8) :
    (n.write m a v).read m b = if m.cell a = m.cell b then v else n.read m b := by
  simp only [read, write, Memory.read_write, Nat.mod_eq_of_lt (m.cell_lt _)]

end Nametables

end Famicom
