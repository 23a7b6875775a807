/-
# Which flags an operation sets

Operations note their results in four flags of the status byte and leave the other bits of it alone
(`status_read`, `status_modify`).  Among the four there is an order only where two operations follow
each other: **what the second notes replaces what the first noted** (`noteResult_noteResult`), and
flags that are set apart from each other can be set in either order (`assign_comm`).
-/
import Famicom.Cpu.Operation

namespace Famicom.Cpu

/-- The flags in which operations note their results. -/
def Flag.results : UInt8 := 0xC3

namespace Registers

/-! ## 1. The bits that operations leave alone -/

section Kept

variable {kept : UInt8} (h : Flag.results &&& kept = 0) (r : Registers) (v : UInt8)

include h

/-- What lies apart from all four flags lies apart from each. -/
theorem and_kept {mask : UInt8} (hm : mask &&& Flag.results = mask) : mask &&& kept = 0 := by
  rw [← hm, UInt8.and_assoc, h, UInt8.and_zero]

theorem status_noteResult : (r.noteResult v).status &&& kept = r.status &&& kept := by
  rw [noteResult, status_assign (and_kept h (by decide)), status_assign (and_kept h (by decide))]

theorem status_add : (r.add v).status &&& kept = r.status &&& kept := by
  rw [add]
  exact (status_noteResult h _ _).trans
    ((status_assign (and_kept h (by decide)) _ _).trans
      (status_assign (and_kept h (by decide)) _ _))

theorem status_compare (reg : UInt8) :
    (r.compare reg v).status &&& kept = r.status &&& kept := by
  rw [compare, status_noteResult h, status_assign (and_kept h (by decide))]

theorem status_shifted (out : Bool) :
    (r.shifted out v).2.status &&& kept = r.status &&& kept := by
  rw [shifted, status_noteResult h, status_assign (and_kept h (by decide))]

theorem status_read (op : ReadOp) :
    (op.apply v r).status &&& kept = r.status &&& kept := by
  have hc : Flag.carry &&& kept = 0 := and_kept h (by decide)
  have hz : Flag.zero &&& kept = 0 := and_kept h (by decide)
  have ho : Flag.overflow &&& kept = 0 := and_kept h (by decide)
  have hn : Flag.negative &&& kept = 0 := and_kept h (by decide)
  cases op <;>
    simp [ReadOp.apply, ReadOp.loadBoth, loadA, loadX, loadY, sub, shiftRight, status_noteResult h,
      status_add h, status_compare h, status_shifted h, status_assign hc, status_assign hz,
      status_assign ho, status_assign hn]

theorem status_modify (op : ModifyOp) :
    (op.apply v r).2.status &&& kept = r.status &&& kept := by
  cases op <;>
    simp [ModifyOp.apply, loadA, sub, shiftLeft, shiftRight, rotateLeft, rotateRight,
      status_noteResult h, status_add h, status_compare h, status_shifted h]

theorem has_read (op : ReadOp) : (op.apply v r).has kept = r.has kept := by
  rw [has, status_read h, has]

theorem has_modify (op : ModifyOp) : (op.apply v r).2.has kept = r.has kept := by
  rw [has, status_modify h, has]

end Kept

/-! ## 2. What is set last stays -/

theorem assign_assign (r : Registers) (mask : UInt8) (before on : Bool) :
    (r.assign mask before).assign mask on = r.assign mask on := by
  have hstatus : ((r.assign mask before).assign mask on).status = (r.assign mask on).status := by
    apply UInt8.toBitVec_inj.mp
    apply BitVec.eq_of_getLsbD_eq
    intro i _
    cases before <;> cases on <;> simp [assign] <;> grind
  exact congrArg (fun status => { r with status }) hstatus

/-- Flags that lie apart can be set in either order. -/
theorem assign_comm {mask other : UInt8} (h : mask &&& other = 0) (r : Registers)
    (on on' : Bool) :
    (r.assign mask on).assign other on' = (r.assign other on').assign mask on := by
  have hbits (i : Nat) : (mask.toBitVec.getLsbD i && other.toBitVec.getLsbD i) = false := by
    simpa using congrArg (fun b => b.toBitVec.getLsbD i) h
  have hstatus : ((r.assign mask on).assign other on').status =
      ((r.assign other on').assign mask on).status := by
    apply UInt8.toBitVec_inj.mp
    apply BitVec.eq_of_getLsbD_eq
    intro i _
    have hi := hbits i
    cases on <;> cases on' <;> simp [assign] <;> grind
  exact congrArg (fun status => { r with status }) hstatus

/-- Flags apart from those of a result can be set before it is noted. -/
theorem assign_noteResult {mask : UInt8} (hz : Flag.zero &&& mask = 0)
    (hn : Flag.negative &&& mask = 0) (r : Registers) (v : UInt8) (on : Bool) :
    (r.noteResult v).assign mask on = (r.assign mask on).noteResult v := by
  rw [noteResult, assign_comm hn, assign_comm hz, noteResult]

/-- **Of two results the second is noted.** -/
theorem noteResult_noteResult (r : Registers) (v w : UInt8) :
    (r.noteResult v).noteResult w = r.noteResult w := by
  have hapart : Flag.negative &&& Flag.zero = 0 := by decide
  simp only [noteResult]
  rw [assign_comm hapart, assign_assign, assign_assign]

/-- A byte that is loaded is noted like any other result. -/
theorem loadA_noteResult (r : Registers) (v w : UInt8) : (r.noteResult v).loadA w = r.loadA w :=
  noteResult_noteResult { r with a := w } v w

/-- A sum notes its own result, whatever was noted before. -/
theorem add_noteResult (r : Registers) (v w : UInt8) : (r.noteResult v).add w = r.add w := by
  have hcarry : (r.noteResult v).has Flag.carry = r.has Flag.carry := by
    rw [noteResult, has_assign_of_disjoint (by decide), has_assign_of_disjoint (by decide)]
  simp only [add, hcarry]
  rw [assign_noteResult (by decide) (by decide), assign_noteResult (by decide) (by decide)]
  exact loadA_noteResult _ _ _

/-- So does a comparison. -/
theorem compare_noteResult (r : Registers) (v reg w : UInt8) :
    (r.noteResult v).compare reg w = r.compare reg w := by
  rw [compare, assign_noteResult (by decide) (by decide), noteResult_noteResult, compare]

end Registers
end Famicom.Cpu
