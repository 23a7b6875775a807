/-
# A transfer and the loop that copies a page

A program can copy a page into sprite memory by itself: it reads each byte and writes it to the data
register of sprite memory (`copyPage`).  A transfer is there to do the same without the program.  It
reads as the program would, with every effect of reading, but hands its bytes to sprite memory
directly, past the register: and **a write through the registers leaves its byte on their latch,
while a byte handed over leaves the latch alone**.

That is the whole difference (`copyPage_eq`), and it shows afterwards in the registers that answer
with the latch.  It does not arise for a page of registers, where every read has left the byte on
the latch already.  So `transfer_eq_copy_iff`: **a transfer leaves the machine as the loop does
exactly if its page is one of registers, or the latch held the last byte of the page before**.
After two writes from power-on it did not (`transfer_ne_copy_after_mask`).
-/
import Famicom.Proofs.Transfer.Stages
import Mathlib.Tactic.SplitIfs

namespace Famicom.Mainboard

open SpriteDma

/-! ## 1. The two ways -/

/-- A byte goes from an address into sprite memory through the register, as a program does it. -/
def copyByte (m : Mainboard) (a : UInt16) : Mainboard := (m.read a).2.write 0x2004 (m.read a).1

/-- A byte goes from an address straight into sprite memory, as a transfer does it. -/
def handByte (m : Mainboard) (a : UInt16) : Mainboard :=
  { (m.read a).2 with ppu := (m.read a).2.ppu.writeOam (m.read a).1 }

/-- The first bytes of a page, one after the other. -/
def eachByte (step : Mainboard → UInt16 → Mainboard) (page : UInt8) (n : Nat) (m : Mainboard) :
    Mainboard :=
  (List.range n).foldl (fun m i => step m (byteAddress page i)) m

/-- The loop of a program that copies a page into sprite memory. -/
def copyPage (page : UInt8) (m : Mainboard) : Mainboard := eachByte copyByte page 256 m

/-- A cycle in which only the transfer is at work. -/
def transferCycle (m : Mainboard) : Mainboard := m.stepDma.2

theorem eachByte_succ (step : Mainboard → UInt16 → Mainboard) (page : UInt8) (n : Nat)
    (m : Mainboard) :
    eachByte step page (n + 1) m = step (eachByte step page n m) (byteAddress page n) := by
  simp only [eachByte, List.range_succ, List.foldl_append, List.foldl_cons, List.foldl_nil]

/-! ## 2. What a transfer does -/

theorem write_dma (m : Mainboard) (page : UInt8) :
    m.write 0x4014 page = m.withDma (start page m.cycle) := rfl

variable (page : UInt8) (m : Mainboard)

/-- Nothing happens while a transfer waits. -/
theorem transfer_waiting : ∀ n,
    transferCycle^[n] (m.withDma (waiting page n)) = m.withDma (handed page 0 0)
  | 0 => rfl
  | n + 1 => by
    have hstep : transferCycle (m.withDma (waiting page (n + 1))) =
        m.withDma (waiting page n) := by
      rw [transferCycle, stepDma_align (next_waiting page n), withDma_dma, advance_waiting,
        withDma_withDma]
    rw [Function.iterate_succ_apply, hstep, transfer_waiting n]

/-- **Two cycles hand over a byte.** -/
theorem transfer_byte {i : Nat} (hi : i < 256) (latch : UInt8) :
    transferCycle (transferCycle (m.withDma (handed page i latch))) =
      (m.handByte (byteAddress page i)).withDma
        (handed page (i + 1) (m.read (byteAddress page i)).1) := by
  have hread : transferCycle (m.withDma (handed page i latch)) =
      (m.read (byteAddress page i)).2.withDma (holding page i (m.read (byteAddress page i)).1) := by
    rw [transferCycle, stepDma_read (next_handed page hi latch), read_withDma, withDma_dma,
      advance_handed page hi, withDma_withDma]
  rw [hread, transferCycle, stepDma_write (next_holding page i _), withDma_dma, advance_holding]
  rfl

theorem transfer_bytes : ∀ {n : Nat}, n ≤ 256 → ∃ latch,
    transferCycle^[2 * n] (m.withDma (handed page 0 0)) =
      (eachByte handByte page n m).withDma (handed page n latch)
  | 0, _ => ⟨0, rfl⟩
  | n + 1, hn => by
    obtain ⟨latch, h⟩ := transfer_bytes (n := n) (by omega)
    refine ⟨((eachByte handByte page n m).read (byteAddress page n)).1, ?_⟩
    rw [Nat.mul_succ, Function.iterate_succ_apply', Function.iterate_succ_apply', h,
      transfer_byte page _ (by omega), eachByte_succ]

/-- **A transfer hands over its page**, and then it has ended. -/
theorem transfer_done : ∃ latch,
    transferCycle^[513 + m.cycle % 2] (m.write 0x4014 page) =
      (eachByte handByte page 256 m).withDma (handed page 256 latch) := by
  obtain ⟨latch, h⟩ := transfer_bytes page m (Nat.le_refl 256)
  refine ⟨latch, ?_⟩
  have hsplit : 513 + m.cycle % 2 = 2 * 256 + (1 + m.cycle % 2) := by omega
  rw [hsplit, Function.iterate_add_apply, write_dma, start_eq, transfer_waiting, h]

/-! ## 3. Pages of registers -/

/-- The pages whose every place is a register of the picture unit. -/
def IsRegisterPage (page : UInt8) : Prop := 0x20 ≤ page ∧ page < 0x40

instance : Decidable (IsRegisterPage page) := inferInstanceAs (Decidable (_ ∧ _))

theorem device_eq_ppu_iff (a : UInt16) :
    device a = .ppu ↔ 0x2000 ≤ a.toNat ∧ a.toNat < 0x4000 := by
  have h2 : a < 0x2000 ↔ a.toNat < 0x2000 := UInt16.lt_iff_toNat_lt
  have h4 : a < 0x4000 ↔ a.toNat < 0x4000 := UInt16.lt_iff_toNat_lt
  unfold device
  by_cases hram : a < 0x2000
  · have := h2.mp hram
    rw [if_pos hram]
    exact iff_of_false Device.noConfusion (by omega)
  · have hge := mt h2.mpr hram
    rw [if_neg hram]
    by_cases hppu : a < 0x4000
    · have hlt := h4.mp hppu
      rw [if_pos hppu]
      exact iff_of_true rfl (by omega)
    · have := mt h4.mpr hppu
      rw [if_neg hppu]
      refine iff_of_false ?_ (by omega)
      split_ifs <;> exact not_false

theorem device_byteAddress {i : Nat} (hi : i < 256) :
    device (byteAddress page i) = .ppu ↔ IsRegisterPage page := by
  have hp := page.toNat_lt
  have h2 : 0x20 ≤ page ↔ 0x20 ≤ page.toNat := UInt8.le_iff_toNat_le
  have h4 : page < 0x40 ↔ page.toNat < 0x40 := UInt8.lt_iff_toNat_lt
  rw [device_eq_ppu_iff, IsRegisterPage, byteAddress, UInt16.toNat_ofNat', h2, h4]
  omega

/-! ## 4. What the latch keeps -/

/-- The same mainboard with another byte on the latch of the registers. -/
def withIoLatch (m : Mainboard) (l : UInt8) : Mainboard :=
  { m with ppu := { m.ppu with ioLatch := l } }

@[simp] theorem withIoLatch_ioLatch (m : Mainboard) (l : UInt8) :
    (m.withIoLatch l).ppu.ioLatch = l := rfl

@[simp] theorem withIoLatch_withIoLatch (m : Mainboard) (l k : UInt8) :
    (m.withIoLatch l).withIoLatch k = m.withIoLatch k := rfl

theorem withIoLatch_eq_self_iff (m : Mainboard) (l : UInt8) :
    m.withIoLatch l = m ↔ m.ppu.ioLatch = l := by
  constructor
  · intro h
    rw [← h, withIoLatch_ioLatch]
  · intro h
    rw [← h]
    rfl

/-- **The two ways differ by what they leave on the latch.** -/
theorem copyByte_eq (a : UInt16) :
    m.copyByte a = (m.handByte a).withIoLatch (m.read a).1 := rfl

/-- Where the picture unit does not answer, a read leaves the latch alone, and does not depend on
it. -/
theorem read_withIoLatch {a : UInt16} (ha : device a ≠ .ppu) (l : UInt8) :
    (m.withIoLatch l).read a = ((m.read a).1, (m.read a).2.withIoLatch l) := by
  cases hd : device a with
  | ppu => exact absurd hd ha
  | _ => simp only [read, hd, withIoLatch]

theorem handByte_withIoLatch {a : UInt16} (ha : device a ≠ .ppu) (l : UInt8) :
    (m.withIoLatch l).handByte a = (m.handByte a).withIoLatch l := by
  rw [handByte, read_withIoLatch m ha]
  rfl

theorem handByte_ioLatch_of_ne_ppu {a : UInt16} (ha : device a ≠ .ppu) :
    (m.handByte a).ppu.ioLatch = m.ppu.ioLatch := by
  -- To put the latch where it stands changes nothing, so the law above has it on both sides.
  have h := handByte_withIoLatch m ha m.ppu.ioLatch
  rw [(withIoLatch_eq_self_iff m _).mpr rfl] at h
  rw [h, withIoLatch_ioLatch]

/-- Whatever register is read, its byte is on the latch afterwards. -/
theorem handByte_ioLatch_of_ppu {a : UInt16} (ha : device a = .ppu) :
    (m.handByte a).ppu.ioLatch = (m.read a).1 := by
  simp only [handByte, read, ha, Ppu.writeOam, Ppu.readRegister]

/-! ## 5. The whole page -/

/-- Outside these pages a transfer leaves the latch alone. -/
theorem handed_ioLatch (hp : ¬ IsRegisterPage page) : ∀ {n : Nat}, n ≤ 256 →
    (eachByte handByte page n m).ppu.ioLatch = m.ppu.ioLatch
  | 0, _ => rfl
  | n + 1, hn => by
    have hd : device (byteAddress page n) ≠ .ppu := mt (device_byteAddress page (by omega)).mp hp
    rw [eachByte_succ, handByte_ioLatch_of_ne_ppu _ hd, handed_ioLatch hp (by omega)]

/-- In a page of registers every read leaves its byte on the latch before the write does. -/
theorem copied_of_isRegisterPage (hp : IsRegisterPage page) : ∀ {n : Nat}, n ≤ 256 →
    eachByte copyByte page n m = eachByte handByte page n m
  | 0, _ => rfl
  | n + 1, hn => by
    have hd : device (byteAddress page n) = .ppu := (device_byteAddress page (by omega)).mpr hp
    rw [eachByte_succ, eachByte_succ, copied_of_isRegisterPage hp (by omega), copyByte_eq,
      withIoLatch_eq_self_iff, handByte_ioLatch_of_ppu _ hd]

/-- In any other page the latch is carried along and nothing asks for it. -/
theorem copied_of_not_isRegisterPage (hp : ¬ IsRegisterPage page) : ∀ {n : Nat}, n ≤ 256 → ∃ l,
    eachByte copyByte page n m = (eachByte handByte page n m).withIoLatch l
  | 0, _ => ⟨m.ppu.ioLatch, rfl⟩
  | n + 1, hn => by
    obtain ⟨l, h⟩ := copied_of_not_isRegisterPage hp (n := n) (by omega)
    have hd : device (byteAddress page n) ≠ .ppu := mt (device_byteAddress page (by omega)).mp hp
    refine ⟨((eachByte handByte page n m).read (byteAddress page n)).1, ?_⟩
    rw [eachByte_succ, eachByte_succ, h, copyByte_eq, handByte_withIoLatch _ hd,
      withIoLatch_withIoLatch, read_withIoLatch _ hd]

/-- The last byte of the page, as the transfer finds it. -/
def lastByte : UInt8 := ((eachByte handByte page 255 m).read (byteAddress page 255)).1

/-- **The loop does what a transfer does, and leaves the last byte on the latch.** -/
theorem copyPage_eq :
    copyPage page m = (eachByte handByte page 256 m).withIoLatch (lastByte page m) := by
  rw [copyPage, eachByte_succ copyByte, copyByte_eq, eachByte_succ handByte page 255, lastByte]
  -- Either way the last byte is read alike, and what the latch held before it is lost.
  by_cases hp : IsRegisterPage page
  · rw [copied_of_isRegisterPage page m hp (by omega)]
  · obtain ⟨l, h⟩ := copied_of_not_isRegisterPage page m hp (n := 255) (by omega)
    have hd : device (byteAddress page 255) ≠ .ppu := mt (device_byteAddress page (by omega)).mp hp
    rw [h, handByte_withIoLatch _ hd, withIoLatch_withIoLatch, read_withIoLatch _ hd]

/-- What a transfer leaves on the latch. -/
theorem handed_page_ioLatch :
    (eachByte handByte page 256 m).ppu.ioLatch =
      if IsRegisterPage page then lastByte page m else m.ppu.ioLatch := by
  by_cases hp : IsRegisterPage page
  · have hd : device (byteAddress page 255) = .ppu := (device_byteAddress page (by omega)).mpr hp
    rw [if_pos hp, eachByte_succ, handByte_ioLatch_of_ppu _ hd]
    rfl
  · rw [if_neg hp, handed_ioLatch page m hp (by omega)]

theorem handByte_oamAddress (a : UInt16) :
    (m.handByte a).ppu.oamAddress = m.ppu.oamAddress + 1 := by
  have hport : (m.read a).2.ppu.oamAddress = m.ppu.oamAddress :=
    Ppu.oamAddress_of_port (read_port m a)
  rw [handByte, Ppu.writeOam, hport]

theorem handed_oamAddress : ∀ n,
    (eachByte handByte page n m).ppu.oamAddress = m.ppu.oamAddress + .ofNat n
  | 0 => (UInt8.add_zero _).symm
  | n + 1 => by
    rw [eachByte_succ, handByte_oamAddress, handed_oamAddress n, UInt8.ofNat_add, UInt8.add_assoc]
    rfl

/-- The last byte of the page is the one below the place where the transfer began. -/
theorem handed_page_oam :
    (eachByte handByte page 256 m).ppu.oam.read (m.ppu.oamAddress + 255).toNat =
      lastByte page m := by
  have hplace : m.ppu.oamAddress + 255 = (eachByte handByte page 255 m).ppu.oamAddress :=
    (handed_oamAddress page m 255).symm
  have hport : ((eachByte handByte page 255 m).read (byteAddress page 255)).2.ppu.oamAddress =
      (eachByte handByte page 255 m).ppu.oamAddress :=
    Ppu.oamAddress_of_port (read_port _ _)
  rw [eachByte_succ, hplace, handByte, Ppu.writeOam, hport, Memory.read_write_self]
  rfl

/-- **A transfer against the loop that copies its page.**  From every state of the mainboard the
transfer runs for 513 cycles, or 514 if it was started on an odd one.  The loop leaves the same
mainboard but for the latch of the registers, which holds the last byte of the page; so the two
are the same exactly if that byte is on the latch after the transfer too: in a page of registers,
and where the latch held it from before. -/
theorem transfer_eq_copy_iff :
    let cycles := 513 + m.cycle % 2
    let done := transferCycle^[cycles] (m.write 0x4014 page)
    let copied := (copyPage page m).withDma done.dma
    let last := done.ppu.oam.read (m.ppu.oamAddress + 255).toNat
    (∀ k, k ≤ cycles →
        ((transferCycle^[k] (m.write 0x4014 page)).dma.active = true ↔ k < cycles)) ∧
      copied = done.withIoLatch last ∧
      (copied = done ↔ IsRegisterPage page ∨ m.ppu.ioLatch = last) := by
  intro cycles done copied last
  obtain ⟨latch, hdone⟩ := transfer_done page m
  have hdone : done = (eachByte handByte page 256 m).withDma (handed page 256 latch) := hdone
  have hlast : last = lastByte page m := by
    rw [← handed_page_oam page m]
    exact congrArg (fun b => b.ppu.oam.read (m.ppu.oamAddress + 255).toNat) hdone
  have hcopied : copied = done.withIoLatch last := by
    rw [hlast]
    show (copyPage page m).withDma done.dma = _
    rw [copyPage_eq, hdone]
    rfl
  have hlatch : done.ppu.ioLatch = if IsRegisterPage page then last else m.ppu.ioLatch := by
    rw [hlast, hdone]
    exact handed_page_ioLatch page m
  refine ⟨?_, hcopied, ?_⟩
  · intro k hk
    have hstart : (m.write 0x4014 page).dma = start page m.cycle := by rw [write_dma, withDma_dma]
    exact active_run transferCycle dma (fun b _ => stepDma_dma b) hstart hk
  · rw [hcopied, withIoLatch_eq_self_iff, hlatch]
    by_cases hp : IsRegisterPage page
    · rw [if_pos hp]
      exact iff_of_true rfl (.inl hp)
    · rw [if_neg hp, or_iff_right hp]

/-- The mask is written and then a page of blank memory is transferred.  The five lines that the
status does not drive show the mask still, where the loop has left a zero on them. -/
theorem transfer_ne_copy_after_mask :
    let m := ({} : Mainboard).write 0x2001 0x1E
    let done := transferCycle^[513] (m.write 0x4014 0x02)
    let copied := copyPage 0x02 m
    done.dma.active = false ∧ (done.read 0x2002).1 = 0x1E ∧ (copied.read 0x2002).1 = 0x00 := by
  decide +kernel

end Famicom.Mainboard
