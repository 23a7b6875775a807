/-
# The MMC3

Eight bank registers feed the chip's windows: R0 and R1 select 2 KiB of patterns, R2 to R5 select
1 KiB each, and R6 and R7 select 8 KiB of program.  A program names a register and then gives its
value, in two writes.  The first of them also carries two bits that rearrange the windows without
touching the registers: one exchanges the windows at `$8000` and `$C000`, the other the two halves
of the pattern space.

**The last 8 KiB of the program are always at `$E000`**, and the ones before it in whichever of the
two exchanged windows R6 does not have.

The chip also chooses the mirroring, guards work memory, and counts scanlines (`ScanlineCounter`).
-/
import Famicom.Board.Chips
import Famicom.Board.ScanlineCounter
import Famicom.Mirroring

namespace Famicom

/-- The registers of an MMC3. -/
structure Mmc3 where
  /-- Register to write in bits 0 to 2, window exchanges in bits 6 and 7. -/
  select : UInt8 := 0
  /-- R0 to R7. -/
  banks : Memory 8 := Memory.filled 8 0
  mirroring : Mirroring
  /-- A board with four-screen memory ignores the mirroring register. -/
  fourScreen : Bool
  ramEnabled : Bool := true
  ramProtected : Bool := false
  counter : ScanlineCounter := {}

namespace Mmc3

/-- The chip after power-on, on a board wired for the given mirroring. -/
def powerOn (wired : Mirroring) : Mmc3 where
  mirroring := wired
  fourScreen := wired == .fourScreen

/-- The chip after a reset.  The bank registers take values that show the start of each memory;
the mirroring stays as it was. -/
def reset (r : Mmc3) : Mmc3 where
  banks := #v[0, 2, 4, 5, 6, 7, 0, 1]
  mirroring := r.mirroring
  fourScreen := r.fourScreen

/-! ## 1. Writing -/

/-- A write to the chip: the top three address bits and the lowest select a register. -/
def write : Mmc3 → UInt16 → UInt8 → Mmc3
  | ⟨select, banks, mirroring, fourScreen, ramEnabled, ramProtected, counter⟩, a, v =>
    match a.toNat / 0x2000 % 4, a.toNat % 2 with
    | 0, 0 => ⟨v, banks, mirroring, fourScreen, ramEnabled, ramProtected, counter⟩
    | 0, _ =>
      ⟨select, banks.write (select &&& 0x07).toNat v, mirroring, fourScreen, ramEnabled,
        ramProtected, counter⟩
    | 1, 0 =>
      let chosen : Mirroring := if v &&& 1 == 0 then .vertical else .horizontal
      ⟨select, banks, if fourScreen then mirroring else chosen, fourScreen, ramEnabled,
        ramProtected, counter⟩
    | 1, _ =>
      ⟨select, banks, mirroring, fourScreen, v &&& 0x80 != 0, v &&& 0x40 != 0, counter⟩
    | 2, 0 =>
      ⟨select, banks, mirroring, fourScreen, ramEnabled, ramProtected, counter.setLatch v⟩
    | 2, _ =>
      ⟨select, banks, mirroring, fourScreen, ramEnabled, ramProtected, counter.requestReload⟩
    | _, 0 =>
      ⟨select, banks, mirroring, fourScreen, ramEnabled, ramProtected, counter.disable⟩
    | _, _ =>
      ⟨select, banks, mirroring, fourScreen, ramEnabled, ramProtected, counter.enable⟩

/-- The picture unit put an address on its bus. -/
@[inline] def observe : Mmc3 → UInt16 → Mmc3
  | ⟨select, banks, mirroring, fourScreen, ramEnabled, ramProtected, counter⟩, a =>
    ⟨select, banks, mirroring, fourScreen, ramEnabled, ramProtected, counter.observe a⟩

/-! ## 2. What the registers select -/

/-- True while R6 is at `$C000` instead of `$8000`. -/
def prgExchanged (r : Mmc3) : Bool := r.select &&& 0x40 != 0

/-- True while the two halves of the pattern space are exchanged. -/
def chrExchanged (r : Mmc3) : Bool := r.select &&& 0x80 != 0

/-- The 8 KiB program bank behind an address, of a memory of `size` bytes. -/
def prgBank (r : Mmc3) (size : Nat) (a : UInt16) : Nat :=
  let count := max (size / 0x2000) 2
  let r6 := (r.banks.read 6 &&& 0x3F).toNat
  match a.toNat / 0x2000 % 4 with
  | 0 => if r.prgExchanged then count - 2 else r6
  | 1 => (r.banks.read 7 &&& 0x3F).toNat
  | 2 => if r.prgExchanged then r6 else count - 2
  | _ => count - 1

/-- The offset in program memory behind an address. -/
def prgOffset (r : Mmc3) (size : Nat) (a : UInt16) : Nat :=
  bankedOffset size (r.prgBank size a) 0x2000 a.toNat

/-- The 1 KiB pattern bank behind an address. -/
def chrBank (r : Mmc3) (a : UInt16) : Nat :=
  let slot := a.toNat / 0x400 % 8
  match if r.chrExchanged then (slot + 4) % 8 else slot with
  | 0 => (r.banks.read 0 &&& 0xFE).toNat
  | 1 => (r.banks.read 0 ||| 0x01).toNat
  | 2 => (r.banks.read 1 &&& 0xFE).toNat
  | 3 => (r.banks.read 1 ||| 0x01).toNat
  | s => (r.banks.read (s - 2)).toNat

/-- The offset in pattern memory behind an address. -/
def chrOffset (r : Mmc3) (size : Nat) (a : UInt16) : Nat :=
  bankedOffset size (r.chrBank a) 0x400 a.toNat

end Mmc3

end Famicom
