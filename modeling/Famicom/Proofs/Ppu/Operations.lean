/-
# What is done to a picture unit

The unit's clock moves it by a dot, and a program reads and writes its registers; the machine around
it hands bytes to sprite memory, takes the unit's reports, resets it, and changes cartridges.
Between any two of these the memory on the unit's bus may become another: a program switches banks.
A history of a unit is a list of such operations, in any order.

`run` is the unit with its memory after a history.  **What every operation keeps, every history
keeps** (`run_invariant`), and what a history turns from true to false, one of its operations does
(`exists_falling`).
-/
import Famicom.Ppu.Dot
import Famicom.Ppu.RegisterAccess

namespace Famicom.Ppu

variable {μ : Type}

/-- What is done to a unit, or to the memory on its bus. -/
inductive Operation (μ : Type) where
  | tick
  | readRegister (address : UInt16)
  | writeRegister (address : UInt16) (value : UInt8)
  | writeOam (value : UInt8)
  | pokeOam (place : Nat) (value : UInt8)
  | takeFrameComplete
  | takeNmiRequest
  | clearCartridgeState
  | reset
  /-- Something else leaves this memory on the bus. -/
  | elsewhere (mem : μ)

variable [AddressBus μ]

/-- A unit with its memory after an operation. -/
def after : Ppu × μ → Operation μ → Ppu × μ
  | (p, mem), .tick => p.tick mem
  | (p, mem), .readRegister a => (p.readRegister a mem).2
  | (p, mem), .writeRegister a v => p.writeRegister a v mem
  | (p, mem), .writeOam v => (p.writeOam v, mem)
  | (p, mem), .pokeOam i v => ({ p with oam := p.oam.write i v }, mem)
  | (p, mem), .takeFrameComplete => (p.takeFrameComplete.2, mem)
  | (p, mem), .takeNmiRequest => (p.takeNmiRequest.2, mem)
  | (p, mem), .clearCartridgeState => (p.clearCartridgeState, mem)
  | (p, mem), .reset => (p.reset, mem)
  | (p, _), .elsewhere mem => (p, mem)

/-- A unit with its memory after a history. -/
def run (s : Ppu × μ) (history : List (Operation μ)) : Ppu × μ := history.foldl after s

theorem run_append (s : Ppu × μ) (first second : List (Operation μ)) :
    run s (first ++ second) = run (run s first) second := List.foldl_append

theorem run_concat (s : Ppu × μ) (history : List (Operation μ)) (op : Operation μ) :
    run s (history ++ [op]) = after (run s history) op := run_append s history [op]

/-- What every operation keeps, every history keeps. -/
theorem run_invariant {I : Ppu × μ → Prop} (step : ∀ s op, I s → I (after s op)) {s : Ppu × μ}
    (h : I s) (history : List (Operation μ)) : I (run s history) := by
  induction history generalizing s with
  | nil => exact h
  | cons op history ih => exact ih (step s op h)

/-- What a history turns from true to false, one of its operations does. -/
theorem exists_falling {P : Ppu × μ → Prop} {s : Ppu × μ} {history : List (Operation μ)} (h : P s)
    (hlast : ¬P (run s history)) :
    ∃ before op later, history = before ++ op :: later ∧ P (run s before) ∧
      ¬P (after (run s before) op) := by
  induction history generalizing s with
  | nil => exact absurd h hlast
  | cons op history ih =>
    by_cases hop : P (after s op)
    · obtain ⟨before, falls, later, he, hbefore, hfalls⟩ := ih hop hlast
      exact ⟨op :: before, falls, later, congrArg (op :: ·) he, hbefore, hfalls⟩
    · exact ⟨[], op, history, rfl, h, hop⟩

end Famicom.Ppu
