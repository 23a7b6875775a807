/-
# What an observer sees

`peek` is for an observer who must not disturb the machine, a debugger or a listing: it should show
the byte that a clocked read would get from the same state.  The two are decoded alike, and below
the decoder each device has a view of its own beside its read.

They agree everywhere but in one place.  A read of picture memory inside the palettes drives only
six lines, and the other two keep what last crossed the registers; the observer's view leaves these
two out.  So **a peek is wrong exactly when the data register stands in the palettes and the latch
holds one of its two top bits** (`peek_eq_read_iff`), and two writes from power-on lead there
(`peek_ne_read_in_palette`).
-/
import Famicom.Mainboard

namespace Famicom

/-! ## 1. The picture unit's registers -/

namespace Ppu

variable {μ : Type} [AddressBus μ]

/-- The register behind an address is the data register, and it stands in the palettes. -/
def ShowsPalette (p : Ppu) (a : UInt16) : Prop :=
  a.toNat % 8 = 7 ∧ paletteStart ≤ p.v.busAddress

instance (p : Ppu) (a : UInt16) : Decidable (p.ShowsPalette a) :=
  inferInstanceAs (Decidable (_ ∧ _))

/-- The lines that a read of a register leaves as they were. -/
def undriven (p : Ppu) (a : UInt16) : UInt8 :=
  if p.ShowsPalette a then p.ioLatch &&& 0xC0 else 0

/-- Reading the data register: palettes drive six lines, and elsewhere the buffer answers. -/
theorem readData_fst (p : Ppu) (mem : μ) :
    (p.readData mem).1 =
      if paletteStart ≤ p.v.busAddress then
        p.palette.read p.v.busAddress ||| (p.ioLatch &&& 0xC0)
      else p.readBuffer := by
  simp only [readData]
  split <;> rfl

/-- **A read answers what the observer sees, and the lines that it does not drive.** -/
theorem readRegister_fst (p : Ppu) (a : UInt16) (mem : μ) :
    (p.readRegister a mem).1 = p.peekRegister a ||| p.undriven a := by
  by_cases h7 : a.toNat % 8 = 7
  · have hread : (p.readRegister a mem).1 = (p.readData mem).1 := by
      simp only [readRegister, h7]
    rw [hread, readData_fst]
    by_cases hp : paletteStart ≤ p.v.busAddress
    · simp only [peekRegister, undriven, ShowsPalette, h7, hp, and_self, if_true]
    · simp only [peekRegister, undriven, ShowsPalette, h7, hp, and_false, if_false, UInt8.or_zero]
  · have hu : p.undriven a = 0 := by
      simp only [undriven, ShowsPalette, h7, false_and, if_false]
    rw [hu, UInt8.or_zero]
    simp only [readRegister, peekRegister]
    split <;> simp_all

theorem or_and_distrib (x y z : UInt8) : (x ||| y) &&& z = (x &&& z) ||| (y &&& z) := by
  apply UInt8.toNat_inj.mp
  simp only [UInt8.toNat_and, UInt8.toNat_or, Nat.and_or_distrib_right]

/-- A colour has only six bits, so a line left as it was shows. -/
theorem read_or_eq_iff (q : Palette) (a : UInt16) (latch : UInt8) :
    q.read a ||| (latch &&& 0xC0) = q.read a ↔ latch &&& 0xC0 = 0 := by
  constructor
  · intro h
    have hlow : q.read a &&& 0xC0 = 0 := by
      rw [Palette.read, UInt8.and_assoc]
      exact UInt8.and_zero
    have hand : (q.read a ||| (latch &&& 0xC0)) &&& 0xC0 = q.read a &&& 0xC0 := by rw [h]
    rw [or_and_distrib, hlow, UInt8.zero_or, UInt8.and_assoc, UInt8.and_self] at hand
    exact hand
  · intro h
    rw [h, UInt8.or_zero]

/-- The observer is right unless a line that is not driven was left set. -/
theorem peekRegister_eq_iff (p : Ppu) (a : UInt16) (mem : μ) :
    p.peekRegister a = (p.readRegister a mem).1 ↔
      (p.ShowsPalette a → p.ioLatch &&& 0xC0 = 0) := by
  rw [readRegister_fst, undriven]
  by_cases hs : p.ShowsPalette a
  · have hpeek : p.peekRegister a = p.palette.read p.v.busAddress := by
      simp only [peekRegister, hs.1, hs.2, if_true]
    rw [if_pos hs, hpeek, eq_comm, read_or_eq_iff]
    exact ⟨fun h _ => h, fun h => h hs⟩
  · rw [if_neg hs, UInt8.or_zero]
    exact iff_of_true rfl (fun h => absurd h hs)

end Ppu

/-! ## 2. The mainboard -/

namespace Mainboard

/-- The address reads a colour through the picture unit's data register. -/
def ShowsPalette (m : Mainboard) (a : UInt16) : Prop :=
  device a = .ppu ∧ m.ppu.ShowsPalette a

instance (m : Mainboard) (a : UInt16) : Decidable (m.ShowsPalette a) :=
  inferInstanceAs (Decidable (_ ∧ _))

/-- The registers of the picture unit, as the mainboard reads them. -/
theorem read_fst_ppu {m : Mainboard} {a : UInt16} (h : device a = .ppu) :
    (m.read a).1 = (m.ppu.readRegister a m.video).1 := by
  simp only [read, h]

/-- Every other device shows the observer what it would answer. -/
theorem read_fst_of_ne_ppu {m : Mainboard} {a : UInt16} (h : device a ≠ .ppu) :
    (m.read a).1 = m.peek a := by
  cases hd : device a with
  | ppu => exact absurd hd h
  | pad0 => simp only [read, peek, hd, Controller.read_fst]
  | pad1 => simp only [read, peek, hd, Controller.read_fst]
  | _ => simp only [read, peek, hd]

/-- **Where a peek and a read agree.**  In every state and at every address the read answers the
byte that the observer sees, with the two undriven lines of the palettes on top; so the two are
equal unless the address reads a colour while one of these lines is set. -/
theorem peek_eq_read_iff (m : Mainboard) (a : UInt16) :
    (m.read a).1 = m.peek a ||| (if m.ShowsPalette a then m.ppu.ioLatch &&& 0xC0 else 0) ∧
      (m.peek a = (m.read a).1 ↔ (m.ShowsPalette a → m.ppu.ioLatch &&& 0xC0 = 0)) := by
  by_cases h : device a = .ppu
  · have hpeek : m.peek a = m.ppu.peekRegister a := by simp only [peek, h]
    have hshow : m.ShowsPalette a ↔ m.ppu.ShowsPalette a := by
      simp only [ShowsPalette, h, true_and]
    simp only [read_fst_ppu h, hpeek, hshow]
    exact ⟨Ppu.readRegister_fst m.ppu a m.video, Ppu.peekRegister_eq_iff m.ppu a m.video⟩
  · have hshow : ¬ m.ShowsPalette a := fun hs => h hs.1
    simp only [hshow, if_false, UInt8.or_zero, false_implies, iff_true]
    exact ⟨read_fst_of_ne_ppu h, (read_fst_of_ne_ppu h).symm⟩

/-- Two writes from power-on put the data register into the palettes and leave both lines set. -/
theorem peek_ne_read_in_palette :
    let m := (({} : Mainboard).write 0x2006 0x3F).write 0x2006 0xC0
    m.peek 0x2007 = 0x00 ∧ (m.read 0x2007).1 = 0xC0 := by
  decide

end Mainboard

end Famicom
