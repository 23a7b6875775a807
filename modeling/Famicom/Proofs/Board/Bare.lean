/-
# A board of bare memories

The memories of a board fold whatever place they are asked for.  `Bare` is the same board **with
memories that have ends** and with logic whose steps can fail.  An access first finds the place of
its byte (`workPlace`, `programPlace`, `patternPlace`), and fails if the memory has no such place.

`Board.bare` writes a board so.  If there is some program, there are some patterns, and fewer than
five bits are under way on an MMC1 (`Within`), then **each place is the one that the logic hands
out, folded once** (`programPlace_bare`, `patternPlace_bare`).  So every read answers what it
answers on the board (`cpuRead_bare`, `ppuRead_bare`), and every operation, at whatever address,
leaves what it leaves there (`after_bare`).
-/
import Famicom.Proofs.Board.BareLogic
import Famicom.Proofs.Board.PowerOn

namespace Famicom.Board

/-! ## 1. Bare boards -/

/-- The logic of a board with what it has counted. -/
inductive Bare.Logic where
  | nrom (mirroring : Mirroring)
  | mmc1 (chip : Mmc1.Bare)
  | uxrom (latch : Uxrom.Bare)
  | mmc3 (chip : Mmc3.Bare)

/-- A board whose memories have ends. -/
structure Bare where
  chips : Chips
  logic : Bare.Logic

namespace Bare

namespace Logic

def ramReadable : Logic → Bool
  | mmc1 r => r.prg &&& 0x10 == 0
  | mmc3 r => r.chip.ramEnabled
  | _ => true

def ramWritable : Logic → Bool
  | mmc1 r => r.prg &&& 0x10 == 0
  | mmc3 r => r.chip.ramEnabled && !r.chip.ramProtected
  | _ => true

/-- The place in a program memory of `size` bytes behind an address. -/
def programPlace (l : Logic) (size : Nat) (a : UInt16) : Option Nat :=
  match l with
  | nrom _ => do
    let offset ← sub16 a 0x8000
    modNat offset.toNat size
  | mmc1 r => do
    let banks ← r.prgBanks
    bankedPlace size (if a < 0xC000 then banks.1 else banks.2) 0x4000 a.toNat
  | uxrom r =>
    if a < 0xC000 then do
      let offset ← sub16 a 0x8000
      bankedPlace size r.bank.toNat 0x4000 offset.toNat
    else do
      let offset ← sub16 a 0xC000
      bankedPlace size r.last 0x4000 offset.toNat
  | mmc3 r => do
    let bank ← r.prgBank a
    bankedPlace size bank 0x2000 a.toNat

/-- The place in a pattern memory of `size` bytes behind an address. -/
def patternPlace (l : Logic) (size : Nat) (a : UInt16) : Option Nat :=
  match l with
  | nrom _ | uxrom _ => bankedPlace size 0 0x2000 a.toNat
  | mmc1 r =>
    bankedPlace size (if a &&& 0x1000 == 0 then r.chrBanks.1 else r.chrBanks.2) 0x1000 a.toNat
  | mmc3 r => do
    let bank ← r.chrBank a
    bankedPlace size bank 0x400 a.toNat

def write (l : Logic) (a : UInt16) (v : UInt8) : Option Logic :=
  match l with
  | nrom m => some (nrom m)
  | mmc1 r => (r.write a v).map mmc1
  | uxrom r => some (uxrom { r with bank := v &&& r.mask })
  | mmc3 r => (r.write a v).map mmc3

def observe (l : Logic) (a : UInt16) : Option Logic :=
  match l with
  | mmc3 r => (r.observe a).map mmc3
  | l => some l

def reset : Logic → Logic
  | nrom m => nrom m
  | mmc1 r => mmc1 r.reset
  | uxrom r => uxrom { r with bank := 0 }
  | mmc3 r => mmc3 r.reset

end Logic

/-- The place in a work memory of `size` bytes behind an address. -/
def workPlace (size : Nat) (a : UInt16) : Option Nat := do
  let offset ← subNat a.toNat 0x6000
  modNat offset size

/-- The byte of work memory at an address of its window; without any it answers 0. -/
def readWork (c : Chips) (a : UInt16) : Option UInt8 :=
  if c.ram.isEmpty then some 0
  else do
    let i ← workPlace c.ram.size a
    c.ram[i]?

def writeWork (c : Chips) (a : UInt16) (v : UInt8) : Option Chips :=
  if c.ram.isEmpty then some c
  else do
    let i ← workPlace c.ram.size a
    let ram ← c.ram.put? i v
    some { c with ram }

/-- The byte the processor reads. -/
def cpuRead (x : Bare) (a : UInt16) : Option UInt8 :=
  if a < 0x6000 then some 0
  else if a < 0x8000 then if x.logic.ramReadable then readWork x.chips a else some 0
  else do
    let i ← x.logic.programPlace x.chips.prg.size a
    x.chips.prg[i]?

def cpuWrite (x : Bare) (a : UInt16) (v : UInt8) : Option Bare :=
  if a < 0x6000 then some x
  else if a < 0x8000 then
    if x.logic.ramWritable then (writeWork x.chips a v).map ({ x with chips := · }) else some x
  else (x.logic.write a v).map ({ x with logic := · })

/-- The byte of a pattern. -/
def ppuRead (x : Bare) (a : UInt16) : Option UInt8 := do
  let i ← x.logic.patternPlace x.chips.chr.size a
  x.chips.chr[i]?

/-- The place is looked for even where patterns cannot be written. -/
def ppuWrite (x : Bare) (a : UInt16) (v : UInt8) : Option Bare := do
  let i ← x.logic.patternPlace x.chips.chr.size a
  if x.chips.chrWritable then do
    let chr ← x.chips.chr.put? i v
    some { x with chips := { x.chips with chr } }
  else some x

/-- The board after an operation. -/
def after (x : Bare) : Operation → Option Bare
  | .cpuWrite a v => x.cpuWrite a v
  | .ppuWrite a v => x.ppuWrite a v
  | .observe a => (x.logic.observe a).map ({ x with logic := · })
  | .reset => some { x with logic := x.logic.reset }

/-- The board after a history. -/
def run (x : Bare) (history : List Operation) : Option Bare := history.foldlM after x

/-- A board of a kind after power-on; it counts its banks. -/
def powerOn (kind : Kind) (chips : Chips) (wired : Mirroring) : Option Bare :=
  match kind with
  | .nrom => some ⟨chips, .nrom wired⟩
  | .mmc1 => some ⟨chips, .mmc1 { banks := max (chips.prg.size / 0x4000) 1 }⟩
  | .uxrom => do
    let latch ← Uxrom.Bare.powerOn chips.prg.size wired
    some ⟨{ chips with ram := #[] }, .uxrom latch⟩
  | .mmc3 => some ⟨chips, .mmc3 ⟨.powerOn wired, max (chips.prg.size / 0x2000) 2⟩⟩

end Bare

/-! ## 2. Boards as bare ones -/

/-- Logic with what it counts in a program of `size` bytes. -/
def bareLogic (size : Nat) : Mapper → Bare.Logic
  | .nrom m => .nrom m
  | .mmc1 r => .mmc1 (r.bare size)
  | .uxrom m bank => .uxrom (Uxrom.bare size m bank)
  | .mmc3 r => .mmc3 (r.bare size)

/-- The board as a bare one. -/
def bare (b : Board) : Bare := ⟨b.chips, bareLogic b.chips.prg.size b.mapper⟩

theorem powerOn_bare (kind : Kind) (chips : Chips) (wired : Mirroring) :
    Bare.powerOn kind chips wired = some (powerOn kind chips wired).bare := by
  cases kind with
  | uxrom =>
    rw [Bare.powerOn, Uxrom.powerOn_bare]
    rfl
  | _ => rfl

/-! ## 3. Places -/

section Places

variable {size : Nat} (hsize : 0 < size) (m : Mapper)

include hsize

omit m in
/-- Counted from where its window starts, an address is at the same place of a bank. -/
theorem windowPlace (bank : Nat) {a start : UInt16} (hstart : start.toNat % 0x4000 = 0)
    (h : start ≤ a) :
    ((sub16 a start).bind fun offset => bankedPlace size bank 0x4000 offset.toNat) =
      some (bankedOffset size bank 0x4000 a.toNat % size) := by
  have hle : start.toNat ≤ a.toNat := UInt16.le_iff_toNat_le.mp h
  have hsub : sub16 a start = some (a - start) := if_pos hle
  have hplace : (a - start).toNat % 0x4000 = a.toNat % 0x4000 := by
    rw [UInt16.toNat_sub_of_le _ _ h]
    omega
  rw [hsub, Option.bind_some, bankedPlace_eq hsize (by decide : 0x4000 = 2 ^ 14),
    bankedOffset_congr _ _ hplace]

/-- **The place of a byte of program** is what the logic hands out, folded once. -/
theorem programPlace_bare {a : UInt16} (ha : 0x8000 ≤ a) :
    (bareLogic size m).programPlace size a = some (m.prgOffset size a % size) := by
  cases m with
  | nrom w =>
    have hlow : sub16 a 0x8000 = some (a - 0x8000) := if_pos (UInt16.le_iff_toNat_le.mp ha)
    change (sub16 a 0x8000).bind (fun offset => modNat offset.toNat size) = _
    rw [hlow, Option.bind_some, UInt16.toNat_sub_of_le _ _ ha, modNat_of_pos _ hsize]
    rfl
  | mmc1 r =>
    change (r.bare size).prgBanks.bind (fun banks =>
      bankedPlace size (if a < 0xC000 then banks.1 else banks.2) 0x4000 a.toNat) = _
    rw [r.prgBanks_bare, Option.bind_some, bankedPlace_eq hsize (by decide : 0x4000 = 2 ^ 14)]
    rfl
  | uxrom w bank =>
    unfold bareLogic Bare.Logic.programPlace Mapper.prgOffset Uxrom.prgOffset
    dsimp only
    split
    · exact windowPlace hsize bank.toNat (by decide) ha
    · next hfixed =>
      exact windowPlace hsize (Uxrom.bankCount size - 1) (by decide) (UInt16.not_lt.mp hfixed)
  | mmc3 r =>
    change ((r.bare size).prgBank a).bind (fun bank => bankedPlace size bank 0x2000 a.toNat) = _
    rw [r.prgBank_bare, Option.bind_some, bankedPlace_eq hsize (by decide : 0x2000 = 2 ^ 13)]
    rfl

/-- **The place of a byte of a pattern** is what the logic hands out, folded once.  `program` is the
size of the program, which has no part in it. -/
theorem patternPlace_bare (program : Nat) (a : UInt16) :
    (bareLogic program m).patternPlace size a = some (m.chrOffset size a % size) := by
  cases m with
  | nrom w => exact bankedPlace_eq hsize (by decide : 0x2000 = 2 ^ 13) 0 a.toNat
  | uxrom w bank => exact bankedPlace_eq hsize (by decide : 0x2000 = 2 ^ 13) 0 a.toNat
  | mmc1 r =>
    change bankedPlace size (if a &&& 0x1000 == 0 then (r.bare program).chrBanks.1
      else (r.bare program).chrBanks.2) 0x1000 a.toNat = _
    rw [r.chrBanks_bare, bankedPlace_eq hsize (by decide : 0x1000 = 2 ^ 12)]
    rfl
  | mmc3 r =>
    change ((r.bare program).chrBank a).bind (fun bank => bankedPlace size bank 0x400 a.toNat) = _
    rw [r.chrBank_bare, Option.bind_some, bankedPlace_eq hsize (by decide : 0x400 = 2 ^ 10)]
    rfl

end Places

/-! ## 4. Accesses -/

/-- A serial line waits for a bit; other logic has none. -/
def Waits : Mapper → Prop
  | .mmc1 r => r.pending.length < 5
  | _ => True

/-- There is some program, there are some patterns, and a serial line waits for a bit. -/
structure Within (b : Board) : Prop where
  program : 0 < b.chips.prg.size
  patterns : 0 < b.chips.chr.size
  serial : Waits b.mapper

section Work

variable (chips : Chips) {a : UInt16} (ha : 0x6000 ≤ a)

include ha

theorem workPlace_eq {size : Nat} (h : 0 < size) :
    Bare.workPlace size a = some ((a.toNat - 0x6000) % size) := by
  have hle : 0x6000 ≤ a.toNat := UInt16.le_iff_toNat_le.mp ha
  rw [Bare.workPlace, subNat_of_le hle, Option.bind_eq_bind, Option.bind_some, modNat_of_pos _ h]

theorem readWork_eq : Bare.readWork chips a = some (chips.readRam a) := by
  unfold Bare.readWork Chips.readRam
  split
  · next hempty =>
    rw [Array.isEmpty_iff.mp hempty, Chip.read_empty]
  · next hram =>
    have hsize : 0 < chips.ram.size :=
      Nat.pos_of_ne_zero (mt Array.isEmpty_iff_size_eq_zero.mpr hram)
    rw [workPlace_eq ha hsize, Option.bind_eq_bind, Option.bind_some, Chip.getElem?_mod _ hsize]

theorem writeWork_eq (v : UInt8) : Bare.writeWork chips a v = some (chips.writeRam a v) := by
  obtain ⟨prg, ram, chr, writable⟩ := chips
  unfold Bare.writeWork Chips.writeRam
  dsimp only
  split
  · next hempty =>
    obtain rfl : ram = #[] := Array.isEmpty_iff.mp hempty
    have hwrite : Chip.write #[] (a.toNat - 0x6000) v = #[] :=
      Array.eq_empty_of_size_eq_zero (Chip.size_write ..)
    rw [hwrite]
  · next hram =>
    have hsize : 0 < ram.size := Nat.pos_of_ne_zero (mt Array.isEmpty_iff_size_eq_zero.mpr hram)
    rw [workPlace_eq ha hsize, Option.bind_eq_bind, Option.bind_some, Chip.put?_mod _ hsize]
    rfl

end Work

theorem ramReadable_bare (size : Nat) (m : Mapper) :
    (bareLogic size m).ramReadable = m.ramReadable := by
  cases m <;> rfl

theorem ramWritable_bare (size : Nat) (m : Mapper) :
    (bareLogic size m).ramWritable = m.ramWritable := by
  cases m <;> rfl

theorem write_bare {size : Nat} {m : Mapper} (h : Waits m) (a : UInt16) (v : UInt8) :
    (bareLogic size m).write a v = some (bareLogic size (m.write size a v)) := by
  cases m with
  | nrom w => rfl
  | mmc1 r =>
    change ((r.bare size).write a v).map _ = _
    rw [r.write_bare size h]
    rfl
  | uxrom w bank => rfl
  | mmc3 r =>
    change ((r.bare size).write a v).map _ = _
    rw [r.write_bare]
    rfl

section Accesses

variable {b : Board} (h : b.Within)

include h

/-- **The processor reads what it reads on the board**, at every address. -/
theorem cpuRead_bare (a : UInt16) : b.bare.cpuRead a = some (b.cpuRead a) := by
  unfold Bare.cpuRead cpuRead
  split
  · rfl
  next h6 =>
  split
  · change (if (bareLogic _ b.mapper).ramReadable then Bare.readWork b.chips a else some 0) = _
    rw [ramReadable_bare, readWork_eq b.chips (UInt16.not_lt.mp h6)]
    split <;> rfl
  · next h8 =>
    change ((bareLogic b.chips.prg.size b.mapper).programPlace b.chips.prg.size a).bind
      (fun i => b.chips.prg[i]?) = _
    rw [programPlace_bare h.program _ (UInt16.not_lt.mp h8), Option.bind_some,
      Chip.getElem?_mod _ h.program]

/-- **The picture unit reads what it reads on the board**, at every address. -/
theorem ppuRead_bare (a : UInt16) : b.bare.ppuRead a = some (b.ppuRead a) := by
  change ((bareLogic b.chips.prg.size b.mapper).patternPlace b.chips.chr.size a).bind
    (fun i => b.chips.chr[i]?) = _
  rw [patternPlace_bare h.patterns, Option.bind_some, Chip.getElem?_mod _ h.patterns]
  rfl

theorem cpuWrite_bare (a : UInt16) (v : UInt8) :
    b.bare.cpuWrite a v = some (b.cpuWrite a v).bare := by
  obtain ⟨⟨prg, ram, chr, writable⟩, m⟩ := b
  unfold Bare.cpuWrite cpuWrite
  dsimp only
  split
  · rfl
  next h6 =>
  split
  · change (if (bareLogic prg.size m).ramWritable then
      (Bare.writeWork ⟨prg, ram, chr, writable⟩ a v).map _ else _) = _
    rw [ramWritable_bare, writeWork_eq _ (UInt16.not_lt.mp h6)]
    split <;> rfl
  · change ((bareLogic prg.size m).write a v).map _ = _
    rw [write_bare h.serial]
    rfl

theorem ppuWrite_bare (a : UInt16) (v : UInt8) :
    b.bare.ppuWrite a v = some (b.ppuWrite a v).bare := by
  have hpatterns := h.patterns
  obtain ⟨⟨prg, ram, chr, writable⟩, m⟩ := b
  change ((bareLogic prg.size m).patternPlace chr.size a).bind _ = _
  rw [patternPlace_bare hpatterns, Option.bind_some]
  cases writable with
  | false => rfl
  | true =>
    change (chr.put? (m.chrOffset chr.size a % chr.size) v).bind _ = _
    rw [Chip.put?_mod _ hpatterns]
    rfl

/-- **Every operation leaves what it leaves on the board.** -/
theorem after_bare (op : Operation) : b.bare.after op = some (b.after op).bare := by
  cases op with
  | cpuWrite a v => exact cpuWrite_bare h a v
  | ppuWrite a v => exact ppuWrite_bare h a v
  | observe a =>
    obtain ⟨chips, m⟩ := b
    cases m with
    | mmc3 r =>
      change (((r.bare _).observe a).map _).map _ = _
      rw [r.observe_bare]
      rfl
    | _ => rfl
  | reset =>
    obtain ⟨chips, m⟩ := b
    cases m <;> rfl

end Accesses

end Famicom.Board
