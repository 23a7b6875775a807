/-
# The controller

Eight buttons stand behind a shift register.  While the strobe is high the register keeps taking
the buttons as they are; when it falls they are held, and each read shifts the next one out: A, B,
Select, Start, Up, Down, Left, Right.  After the eighth the line reads as one.

`peek` says what the next read will answer without shifting.
-/
import Famicom.Word

namespace Famicom

/-- A controller: its buttons now, one bit each, and the shift register behind them. -/
structure Controller where
  buttons : UInt8 := 0
  /-- The buttons as they were when last taken. -/
  shift : UInt8 := 0
  strobe : Bool := false
  /-- How many buttons have been shifted out. -/
  index : Nat := 0
  deriving DecidableEq, Repr, Inhabited

namespace Controller

/-- The names of the buttons, bit 0 first. -/
def buttonNames : List String := ["A", "B", "SELECT", "START", "UP", "DOWN", "LEFT", "RIGHT"]

/-- All eight buttons at once. -/
def setButtons (c : Controller) (buttons : UInt8) : Controller := { c with buttons }

/-- Presses or releases the buttons of a mask. -/
def setButton (c : Controller) (mask : UInt8) (pressed : Bool) : Controller :=
  { c with buttons := if pressed then c.buttons ||| mask else c.buttons &&& ~~~mask }

/-- The register takes the buttons and starts over. -/
def take (c : Controller) : Controller := { c with shift := c.buttons, index := 0 }

/-- Bit 0 of the written byte is the strobe. -/
def writeStrobe (c : Controller) (v : UInt8) : Controller :=
  let c := { c with strobe := v &&& 1 != 0 }
  if c.strobe then c.take else c

/-- The button at the end of the shift register. -/
def shifted (c : Controller) : UInt8 :=
  if 8 ≤ c.index then 1 else (c.shift >>> .ofNat c.index) &&& 1

/-- What the next read will answer. -/
def peek (c : Controller) : UInt8 := if c.strobe then c.buttons &&& 1 else c.shifted

/-- Reads the line and shifts. -/
def read (c : Controller) : UInt8 × Controller :=
  if c.strobe then (c.buttons &&& 1, c.take)
  else if 8 ≤ c.index then (1, c)
  else (c.shifted, { c with index := c.index + 1 })

/-- A read answers what a peek announced. -/
theorem read_fst (c : Controller) : c.read.1 = c.peek := by
  simp only [read, peek, shifted]
  split
  · rfl
  · split <;> rfl

end Controller

end Famicom
