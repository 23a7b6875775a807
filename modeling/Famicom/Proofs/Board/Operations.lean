/-
# What is done to a board

Reading a board does not change it.  What changes it is a write, of the processor or of the picture
unit, an address of the picture unit that goes by, and a reset; a history of a board is a list of
these.

`run` is the board after a history, and **what was done last is what acts last** (`run_append`,
`run_concat`): an account of all histories goes by what one operation does to a board.
-/
import Famicom.Board

namespace Famicom.Board

/-- What is done to a board. -/
inductive Operation where
  | cpuWrite (address : UInt16) (value : UInt8)
  | ppuWrite (address : UInt16) (value : UInt8)
  | observe (address : UInt16)
  | reset
  deriving DecidableEq, Repr

/-- The board after an operation. -/
def after (b : Board) : Operation → Board
  | .cpuWrite a v => b.cpuWrite a v
  | .ppuWrite a v => b.ppuWrite a v
  | .observe a => b.observe a
  | .reset => b.reset

/-- The board after a history. -/
def run (b : Board) (history : List Operation) : Board := history.foldl after b

theorem run_append (b : Board) (first second : List Operation) :
    b.run (first ++ second) = (b.run first).run second := List.foldl_append

theorem run_concat (b : Board) (history : List Operation) (op : Operation) :
    b.run (history ++ [op]) = (b.run history).after op := run_append b history [op]

/-- No operation reaches program memory. -/
theorem prg_after (b : Board) (op : Operation) : (b.after op).chips.prg = b.chips.prg := by
  obtain ⟨⟨prg, ram, chr, writable⟩, mapper⟩ := b
  cases op with
  | cpuWrite a v =>
    unfold after cpuWrite
    dsimp only
    split
    · rfl
    split
    · split <;> rfl
    · rfl
  | ppuWrite a v => cases writable <;> rfl
  | observe a => rfl
  | reset => rfl

theorem prg_run (b : Board) (history : List Operation) :
    (b.run history).chips.prg = b.chips.prg := by
  induction history generalizing b with
  | nil => rfl
  | cons op history ih => exact (ih (b.after op)).trans (b.prg_after op)

end Famicom.Board
