/-
# The data register

A program has one register for all of picture memory.  It sets an address in two writes, and every
access to the data register then goes to the address and moves it on; patterns, nametables and
colours all lie behind it, some of them under many addresses.  A read answers what the previous one
fetched, and only colours come at once.

Of all that is done to the unit while nothing is shown, few accesses matter here: those to the data
register and those that reach the scroll.  They make a small machine, `DataPort`: the scroll, the
address, the byte fetched, and which byte lies where.  **What is done to the unit does to this
machine what the access does, if it is one, and otherwise nothing** (`after_dataPort`), however many
dots pass and whatever becomes of the rest of the unit and of the board.

So the port is an honest window (`faithful_dataPort`).  A byte read is the last that was written to
its cell, under whatever address; and a list of bytes that is written comes back as it was, provided
no two of them fall on one cell and no address reaches the colours.
-/
import Famicom.Proofs.Histories
import Famicom.Proofs.Ppu.Operations
import Famicom.Proofs.Ppu.Scroll
import Famicom.VideoMemory

namespace Famicom

/-! ## 1. Cells of picture memory -/

namespace VideoMemory

/-- A cell of picture memory. -/
inductive Location where
  | pattern (offset : Nat)
  | nametable (cell : Nat)
  | colour (cell : Nat)
  deriving DecidableEq, Repr

/-- The cell of pattern memory behind an address. -/
def patternOffset (slot : Option Cartridge) (a : UInt16) : Nat :=
  match slot with
  | some c => c.board.mapper.chrOffset c.board.chips.chr.size a % c.board.chips.chr.size
  | none => 0

/-- The cell behind an address. -/
def locate (mem : VideoMemory) (a : UInt16) : Location :=
  if a < 0x2000 then .pattern (patternOffset mem.slot a)
  else if a < 0x3F00 then .nametable ((mirroring mem.slot).cell a)
  else .colour (Palette.cell a)

/-- The byte behind an address. -/
def byteAt (palette : Palette) (mem : VideoMemory) (a : UInt16) : UInt8 :=
  if a < 0x2000 then readPattern mem.slot a
  else if a < 0x3F00 then mem.nametables.read (mirroring mem.slot) a
  else palette.read a

/-- What a cell keeps of a byte: a colour has six bits. -/
def kept (a : UInt16) (v : UInt8) : UInt8 := if a < 0x3F00 then v else v &&& 0x3F

/-- There is a cartridge, and its patterns are RAM. -/
def TakesPatterns (mem : VideoMemory) : Prop :=
  ∃ c, mem.slot = some c ∧ c.board.chips.chrWritable = true ∧ 0 < c.board.chips.chr.size

end VideoMemory

/-- The address that goes by moves no bank. -/
theorem Mapper.chrOffset_observe (m : Mapper) (x : UInt16) (size : Nat) (a : UInt16) :
    (m.observe x).chrOffset size a = m.chrOffset size a := by
  cases m with
  | mmc3 r => obtain ⟨⟩ := r; rfl
  | _ => rfl

theorem Mapper.mirroring_observe (m : Mapper) (x : UInt16) :
    (m.observe x).mirroring = m.mirroring := by
  cases m with
  | mmc3 r => obtain ⟨⟩ := r; rfl
  | _ => rfl

namespace VideoMemory

variable {mem : VideoMemory} (palette : Palette)

theorem mirroring_observe (slot : Option Cartridge) (x : UInt16) :
    mirroring (observe slot x) = mirroring slot := by
  cases slot with
  | none => rfl
  | some c => exact c.board.mapper.mirroring_observe x

theorem patternOffset_observe (slot : Option Cartridge) (x : UInt16) :
    patternOffset (observe slot x) = patternOffset slot := by
  funext a
  cases slot with
  | none => rfl
  | some c => exact congrArg (· % c.board.chips.chr.size) (c.board.mapper.chrOffset_observe x _ a)

theorem readPattern_observe (slot : Option Cartridge) (x : UInt16) :
    readPattern (observe slot x) = readPattern slot := by
  funext a
  cases slot with
  | none => rfl
  | some c => exact congrArg c.board.chips.chr.read (c.board.mapper.chrOffset_observe x _ a)

/-- **That the cartridge sees an access changes neither where a byte lies nor a byte.** -/
theorem TakesPatterns.observe (h : TakesPatterns mem) (x : UInt16) :
    TakesPatterns ⟨mem.nametables, VideoMemory.observe mem.slot x⟩ := by
  obtain ⟨c, hc, hw, hsize⟩ := h
  exact ⟨⟨c.header, c.board.observe x⟩, by rw [hc]; rfl, hw, hsize⟩

theorem locate_observe (nametables : Nametables) (slot : Option Cartridge) (x : UInt16) :
    locate ⟨nametables, observe slot x⟩ = locate ⟨nametables, slot⟩ := by
  funext a
  simp only [locate, patternOffset_observe, mirroring_observe]

theorem byteAt_observe (nametables : Nametables) (slot : Option Cartridge) (x : UInt16) :
    byteAt palette ⟨nametables, observe slot x⟩ = byteAt palette ⟨nametables, slot⟩ := by
  funext a
  simp only [byteAt, readPattern_observe, mirroring_observe]

/-- Fourteen lines reach the memory. -/
theorem and_of_lt {x : UInt16} (h : x < 0x4000) : x &&& 0x3FFF = x := by
  have hx : x.toNat < 2 ^ 14 := UInt16.lt_iff_toNat_lt.mp h
  apply UInt16.toNat_inj.mp
  rw [UInt16.toNat_and]
  exact (Nat.and_two_pow_sub_one_eq_mod _ 14).trans (Nat.mod_eq_of_lt hx)

/-- A read brings the byte and leaves every byte where it was. -/
theorem read_spec (h : TakesPatterns mem) {x : UInt16} (hx : x < 0x3F00) :
    (AddressBus.read x mem).1 = byteAt palette mem x ∧ TakesPatterns (AddressBus.read x mem).2 ∧
      (AddressBus.read x mem).2.locate = mem.locate ∧
      byteAt palette (AddressBus.read x mem).2 = byteAt palette mem := by
  obtain ⟨nametables, slot⟩ := mem
  have hread : AddressBus.read x (⟨nametables, slot⟩ : VideoMemory) =
      (if x < 0x2000 then readPattern (observe slot x) x
        else nametables.read (mirroring (observe slot x)) x, ⟨nametables, observe slot x⟩) := by
    dsimp only [AddressBus.read]
    rw [and_of_lt (UInt16.lt_trans hx (by decide))]
  rw [hread]
  refine ⟨?_, h.observe x, locate_observe .., byteAt_observe ..⟩
  simp only [byteAt, readPattern_observe, mirroring_observe, if_pos hx]

theorem writePattern_spec (h : TakesPatterns mem) {x : UInt16} (hx : x < 0x2000) (v : UInt8) :
    let mem' : VideoMemory := ⟨mem.nametables, writePattern mem.slot x v⟩
    TakesPatterns mem' ∧ mem'.locate = mem.locate ∧
      ∀ a, byteAt palette mem' a =
        if mem.locate x = mem.locate a then kept a v else byteAt palette mem a := by
  obtain ⟨nametables, slot⟩ := mem
  obtain ⟨⟨header, ⟨prg, ram, chr, _⟩, mapper⟩, rfl, rfl, hsize⟩ := h
  have hsame (i : Nat) : (chr.write i v).size = chr.size := chr.size_write i v
  refine ⟨⟨_, rfl, rfl, (hsame _).symm ▸ hsize⟩, ?_, fun a => ?_⟩
  · funext a
    simp only [locate, patternOffset, writePattern, Board.ppuWrite, Chips.writeChr, hsame]
    rfl
  · simp only [locate, byteAt, if_pos hx, kept]
    by_cases ha : a < 0x2000
    · have ha' : a < 0x3F00 := UInt16.lt_trans ha (by decide)
      simp only [if_pos ha, if_pos ha', Location.pattern.injEq, readPattern, writePattern,
        patternOffset, Board.ppuRead, Board.ppuWrite, Chips.writeChr, hsame,
        Chip.read_write _ _ _ _ hsize]
    · by_cases ha' : a < 0x3F00
      · simp only [if_neg ha, if_pos ha', reduceCtorEq, if_false]
        rfl
      · simp only [if_neg ha, if_neg ha', reduceCtorEq, if_false]

theorem writeNametable_spec (mem : VideoMemory) {x : UInt16} (hlow : ¬x < 0x2000) (hx : x < 0x3F00)
    (v : UInt8) :
    let mem' : VideoMemory := ⟨mem.nametables.write (mirroring mem.slot) x v, mem.slot⟩
    ∀ a, byteAt palette mem' a =
      if mem.locate x = mem.locate a then kept a v else byteAt palette mem a := by
  intro mem' a
  simp only [mem', byteAt, locate, if_neg hlow, if_pos hx, kept]
  by_cases ha : a < 0x2000
  · simp only [if_pos ha, reduceCtorEq, if_false]
  · by_cases ha' : a < 0x3F00
    · simp only [if_neg ha, if_pos ha', Nametables.read_write, Location.nametable.injEq]
    · simp only [if_neg ha, if_neg ha', reduceCtorEq, if_false]

/-- A write stores the byte in its cell and leaves the others. -/
theorem write_spec (h : TakesPatterns mem) {x : UInt16} (hx : x < 0x3F00) (v : UInt8) :
    let mem' := AddressBus.write x v mem
    TakesPatterns mem' ∧ mem'.locate = mem.locate ∧
      ∀ a, byteAt palette mem' a =
        if mem.locate x = mem.locate a then kept a v else byteAt palette mem a := by
  obtain ⟨nametables, slot⟩ := mem
  have hobserved := h.observe x
  have hwrite : AddressBus.write x v (⟨nametables, slot⟩ : VideoMemory) =
      if x < 0x2000 then ⟨nametables, writePattern (observe slot x) x v⟩
      else ⟨nametables.write (mirroring (observe slot x)) x v, observe slot x⟩ := by
    dsimp only [AddressBus.write]
    rw [and_of_lt (UInt16.lt_trans hx (by decide))]
  -- Both kinds of bytes are written on the board that has seen the address.
  rw [hwrite, ← locate_observe nametables slot x, ← byteAt_observe palette nametables slot x]
  by_cases hlow : x < 0x2000
  · rw [if_pos hlow]
    exact writePattern_spec palette hobserved hlow v
  · rw [if_neg hlow]
    exact ⟨hobserved, rfl, writeNametable_spec palette ⟨nametables, _⟩ hlow hx v⟩

/-- A colour that is written goes into its cell. -/
theorem byteAt_write_palette {x : UInt16} (hx : ¬x < 0x3F00) (v : UInt8) (a : UInt16) :
    byteAt (palette.write x v) mem a =
      if mem.locate x = mem.locate a then kept a v else byteAt palette mem a := by
  have hlow : ¬x < 0x2000 := fun h => hx (UInt16.lt_trans h (by decide))
  simp only [byteAt, locate, if_neg hlow, if_neg hx, kept]
  by_cases ha : a < 0x2000
  · simp only [if_pos ha, reduceCtorEq, if_false]
  · by_cases ha' : a < 0x3F00
    · simp only [if_neg ha, if_pos ha', reduceCtorEq, if_false]
    · simp only [if_neg ha, if_neg ha', Palette.read_write, Location.colour.injEq]

end VideoMemory

namespace VramAddress

/-! ## 2. Addresses -/

theorem ofRaw_mod (n : Nat) : ofRaw (n % 0x8000) = ofRaw n := by
  rw [← raw_ofRaw, ofRaw_raw]

theorem advance_add (v : VramAddress) (m n : Nat) :
    (v.advance m).advance n = v.advance (m + n) := by
  rw [advance, advance, advance, raw_ofRaw, ← ofRaw_mod, Nat.mod_add_mod, ofRaw_mod, Nat.add_assoc]

theorem advance_zero (v : VramAddress) : v.advance 0 = v := by
  rw [advance, Nat.add_zero, ofRaw_raw]

/-- On the bus a position has fourteen bits. -/
theorem toNat_busAddress_advance (v : VramAddress) (n : Nat) :
    (v.advance n).busAddress.toNat = (v.raw + n) % 0x4000 := by
  rw [busAddress, advance, raw_ofRaw, UInt16.toNat_ofNat']
  omega

theorem busAddress_lt (v : VramAddress) : v.busAddress < 0x4000 := by
  rw [UInt16.lt_iff_toNat_lt, ← v.advance_zero, toNat_busAddress_advance]
  exact Nat.mod_lt _ (by decide)

end VramAddress

namespace Ppu

open VideoMemory

/-! ## 3. The port -/

/-- All that an access to picture memory depends on while nothing is shown. -/
structure DataPort where
  scroll : Scroll
  /-- The address. -/
  v : VramAddress
  /-- The byte that was fetched last. -/
  buffer : UInt8
  /-- Which cell lies behind an address. -/
  place : UInt16 → Location
  /-- Which byte. -/
  bytes : UInt16 → UInt8

/-- The port of a unit with its memory. -/
def dataPort (s : Ppu × VideoMemory) : DataPort :=
  ⟨s.1.scroll, s.1.v, s.1.readBuffer, s.2.locate, byteAt s.1.palette s.2⟩

/-- What a program does to the port. -/
inductive DataAccess where
  | scroll (x : ScrollAccess)
  | read
  | write (value : UInt8)
  deriving DecidableEq, Repr

/-- The access to the port that an operation is, if it is one. -/
def Operation.dataAccess {μ : Type} : Operation μ → Option DataAccess
  | .readRegister a =>
    match a.toNat % 8 with
    | 2 => some (.scroll .status)
    | 7 => some .read
    | _ => none
  | .writeRegister a v =>
    match a.toNat % 8 with
    | 0 => some (.scroll (.control v))
    | 5 => some (.scroll (.scroll v))
    | 6 => some (.scroll (.address v))
    | 7 => some (.write v)
    | _ => none
  | _ => none

/-- Where a read of an address fetches: behind the colours lie nametables. -/
def fetchAddress (a : UInt16) : UInt16 := if a < 0x3F00 then a else a - 0x1000

namespace DataPort

/-- The address after `n` accesses. -/
def ahead (w : DataPort) (n : Nat) : VramAddress := w.v.advance (n * w.scroll.control.increment)

/-- The port after an access. -/
def access (w : DataPort) : DataAccess → DataPort
  | .scroll (.address b) =>
    { w with
      scroll := w.scroll.access (.address b)
      v := if w.scroll.toggle then (w.scroll.access (.address b)).t else w.v }
  | .scroll x => { w with scroll := w.scroll.access x }
  | .read => { w with v := w.ahead 1, buffer := w.bytes (fetchAddress w.v.busAddress) }
  | .write b =>
    { w with
      v := w.ahead 1
      bytes := fun a => if w.place w.v.busAddress = w.place a then kept a b else w.bytes a }

/-- The port after an access, if there is one. -/
def follow (w : DataPort) : Option DataAccess → DataPort
  | some x => w.access x
  | none => w

end DataPort

/-! ## 4. The unit does what the port does -/

/-- Nothing is shown, and patterns are RAM. -/
structure AtRest (s : Ppu × VideoMemory) : Prop where
  dark : s.1.mask.rendering = false
  takesPatterns : s.2.TakesPatterns

/-- An operation with which the program goes on working on a dark unit.  Nothing is shown afterwards
either, and what happens elsewhere, on the board or to it, moves no byte of picture memory and
changes none. -/
def Leaves (s : Ppu × VideoMemory) : Operation VideoMemory → Prop
  | .writeRegister a v => a.toNat % 8 = 1 → (⟨v⟩ : Mask).rendering = false
  | .elsewhere mem => mem.TakesPatterns ∧ dataPort (s.1, mem) = dataPort s
  | .clearCartridgeState | .reset => False
  | _ => True

/-- Every operation of a history is one of these. -/
def LeavesAll : Ppu × VideoMemory → List (Operation VideoMemory) → Prop
  | _, [] => True
  | s, op :: later => Leaves s op ∧ LeavesAll (after s op) later

/-- While nothing is shown, a dot reaches neither the memory nor the port. -/
theorem tick_of_dark {p : Ppu} (h : p.mask.rendering = false) (mem : VideoMemory) :
    (p.tick mem).2 = mem ∧ (p.tick mem).1.v = p.v ∧ (p.tick mem).1.readBuffer = p.readBuffer := by
  unfold tick
  simp only [h, Bool.false_and, Bool.false_eq_true, if_false, true_and]
  unfold beginBlanking pixelDot clearReports
  dsimp only
  split_ifs <;> exact ⟨rfl, rfl⟩

theorem nextPosition_of_dark {p : Ppu} (h : p.mask.rendering = false) :
    p.nextPosition = p.v.advance p.control.increment := by
  rw [nextPosition, h]
  rfl

/-- Below the colours a read fetches what it is asked for. -/
theorem fetchAddress_of_lt {x : UInt16} (h : x < 0x3F00) : fetchAddress x = x := if_pos h

theorem fetchAddress_lt {x : UInt16} (h : x < 0x4000) : fetchAddress x < 0x3F00 := by
  by_cases hx : x < 0x3F00
  · rwa [fetchAddress_of_lt hx]
  · rw [fetchAddress, if_neg hx]
    have hle : (0x1000 : UInt16) ≤ x := UInt16.le_trans (by decide) (UInt16.not_lt.mp hx)
    have hlt : x.toNat < 0x4000 := UInt16.lt_iff_toNat_lt.mp h
    rw [UInt16.lt_iff_toNat_lt, UInt16.toNat_sub_of_le _ _ hle]
    change x.toNat - 0x1000 < 0x3F00
    omega

/-- A read of the data register, but for what it answers. -/
theorem readData_snd {μ : Type} [AddressBus μ] (p : Ppu) (mem : μ) :
    (p.readData mem).2 =
      ({ p with
          readBuffer := (AddressBus.read (fetchAddress p.v.busAddress) mem).1
          v := p.nextPosition },
        (AddressBus.read (fetchAddress p.v.busAddress) mem).2) := by
  unfold readData fetchAddress
  by_cases h : p.v.busAddress < 0x3F00
  · rw [if_pos h]
    exact congrArg Prod.snd (if_neg (UInt16.not_le.mpr h))
  · rw [if_neg h]
    exact congrArg Prod.snd (if_pos (UInt16.not_lt.mp h))

section AtRest

variable {s : Ppu × VideoMemory} (h : AtRest s)

include h

/-- **A dot does nothing to the port.** -/
theorem AtRest.tick : AtRest (s.1.tick s.2) ∧ dataPort (s.1.tick s.2) = dataPort s := by
  obtain ⟨p, mem⟩ := s
  obtain ⟨hmem, hv, hbuffer⟩ := tick_of_dark h.dark mem
  have hsettings {q : Ppu} (hq : q.settings = p.settings) :
      q.mask = p.mask ∧ q.palette = p.palette :=
    ⟨congrArg Settings.mask hq, congrArg Settings.palette hq⟩
  obtain ⟨hmask, hpalette⟩ := hsettings (tick_settings p mem)
  refine ⟨⟨?_, ?_⟩, ?_⟩
  · rw [hmask]
    exact h.dark
  · rw [hmem]
    exact h.takesPatterns
  · rw [dataPort, tick_scroll, hv, hbuffer, hpalette, hmem]
    rfl

theorem AtRest.readData :
    AtRest (s.1.readData s.2).2 ∧
      dataPort (s.1.readData s.2).2 = (dataPort s).access .read := by
  obtain ⟨p, mem⟩ := s
  have hx := fetchAddress_lt p.v.busAddress_lt
  obtain ⟨hvalue, htakes, hlocate, hbytes⟩ := read_spec p.palette h.takesPatterns hx
  rw [readData_snd]
  refine ⟨⟨h.dark, htakes⟩, ?_⟩
  simp only [dataPort, DataPort.access, DataPort.ahead, hvalue, hlocate, hbytes, Nat.one_mul,
    nextPosition_of_dark h.dark]
  rfl

theorem AtRest.writeData (v : UInt8) :
    AtRest (s.1.writeData v s.2) ∧
      dataPort (s.1.writeData v s.2) = (dataPort s).access (.write v) := by
  obtain ⟨p, mem⟩ := s
  have hnext : p.nextPosition = (dataPort (p, mem)).ahead 1 := by
    rw [nextPosition_of_dark h.dark, DataPort.ahead, Nat.one_mul]
    rfl
  by_cases hx : p.v.busAddress < 0x3F00
  · obtain ⟨htakes, hlocate, hbytes⟩ := write_spec p.palette h.takesPatterns hx v
    have hwrite : p.writeData v mem =
        ({ p with v := p.nextPosition }, AddressBus.write p.v.busAddress v mem) :=
      if_neg (UInt16.not_le.mpr hx)
    rw [hwrite]
    refine ⟨⟨h.dark, htakes⟩, ?_⟩
    simp only [dataPort, DataPort.access, hlocate, funext hbytes, hnext]
    rfl
  · have hwrite : p.writeData v mem =
        ({ p with palette := p.palette.write p.v.busAddress v, v := p.nextPosition }, mem) :=
      if_pos (UInt16.not_lt.mp hx)
    rw [hwrite]
    refine ⟨⟨h.dark, h.takesPatterns⟩, ?_⟩
    have hbytes : ∀ a, byteAt (p.palette.write p.v.busAddress v) mem a =
        if mem.locate p.v.busAddress = mem.locate a then kept a v else byteAt p.palette mem a :=
      byteAt_write_palette p.palette hx v
    simp only [dataPort, DataPort.access, funext hbytes, hnext]
    rfl

/-- What sets the scroll, and at most the address with it. -/
theorem AtRest.rescroll {p : Ppu}
    (hp : p.mask = s.1.mask ∧ p.readBuffer = s.1.readBuffer ∧ p.palette = s.1.palette) :
    AtRest (p, s.2) ∧
      dataPort (p, s.2) = { dataPort s with scroll := p.scroll, v := p.v } := by
  obtain ⟨hmask, hbuffer, hpalette⟩ := hp
  refine ⟨⟨?_, h.takesPatterns⟩, ?_⟩
  · rw [hmask]
    exact h.dark
  · rw [dataPort, hbuffer, hpalette]
    rfl

theorem AtRest.writeScroll (v : UInt8) :
    AtRest (s.1.writeScroll v, s.2) ∧
      dataPort (s.1.writeScroll v, s.2) = (dataPort s).access (.scroll (.scroll v)) := by
  have hkept : (s.1.writeScroll v).v = s.1.v ∧ (s.1.writeScroll v).mask = s.1.mask ∧
      (s.1.writeScroll v).readBuffer = s.1.readBuffer ∧
      (s.1.writeScroll v).palette = s.1.palette := by
    unfold Ppu.writeScroll
    split <;> exact ⟨rfl, rfl, rfl, rfl⟩
  obtain ⟨hrest, hport⟩ := h.rescroll hkept.2
  refine ⟨hrest, ?_⟩
  rw [hport, writeScroll_scroll, hkept.1]
  rfl

theorem AtRest.writeAddress (v : UInt8) :
    AtRest (s.1.writeAddress v, s.2) ∧
      dataPort (s.1.writeAddress v, s.2) = (dataPort s).access (.scroll (.address v)) := by
  have hkept : (s.1.writeAddress v).mask = s.1.mask ∧
      (s.1.writeAddress v).readBuffer = s.1.readBuffer ∧
      (s.1.writeAddress v).palette = s.1.palette := by
    unfold Ppu.writeAddress
    split <;> exact ⟨rfl, rfl, rfl⟩
  have hv : (s.1.writeAddress v).v =
      if s.1.toggle then (s.1.writeAddress v).scroll.t else s.1.v := by
    unfold Ppu.writeAddress
    split <;> rfl
  obtain ⟨hrest, hport⟩ := h.rescroll hkept
  refine ⟨hrest, ?_⟩
  rw [hport, hv, writeAddress_scroll]
  rfl

theorem AtRest.readRegister (a : UInt16) :
    AtRest (s.1.readRegister a s.2).2 ∧
      dataPort (s.1.readRegister a s.2).2 =
        (dataPort s).follow (Operation.readRegister a : Operation VideoMemory).dataAccess := by
  obtain ⟨p, mem⟩ := s
  have ha : a.toNat % 8 < 8 := Nat.mod_lt _ (by decide)
  unfold Ppu.readRegister Operation.dataAccess
  dsimp only
  generalize a.toNat % 8 = register at ha
  interval_cases register
  case «7» =>
    obtain ⟨hrest, hport⟩ := h.readData
    exact ⟨⟨hrest.dark, hrest.takesPatterns⟩, hport⟩
  all_goals exact ⟨⟨h.dark, h.takesPatterns⟩, rfl⟩

theorem AtRest.writeRegister {a : UInt16} {v : UInt8}
    (hmask : a.toNat % 8 = 1 → (⟨v⟩ : Mask).rendering = false) :
    AtRest (s.1.writeRegister a v s.2) ∧
      dataPort (s.1.writeRegister a v s.2) =
        (dataPort s).follow (Operation.writeRegister a v : Operation VideoMemory).dataAccess := by
  obtain ⟨p, mem⟩ := s
  have ha : a.toNat % 8 < 8 := Nat.mod_lt _ (by decide)
  have hlatched : AtRest ({ p with ioLatch := v }, mem) := ⟨h.dark, h.takesPatterns⟩
  unfold Ppu.writeRegister Operation.dataAccess
  dsimp only
  generalize a.toNat % 8 = register at ha hmask
  interval_cases register
  case «1» => exact ⟨⟨hmask rfl, h.takesPatterns⟩, rfl⟩
  case «5» => exact hlatched.writeScroll v
  case «6» => exact hlatched.writeAddress v
  case «7» => exact hlatched.writeData v
  all_goals exact ⟨⟨h.dark, h.takesPatterns⟩, rfl⟩

/-- **What is done to the unit does to the port what the access does, if it is one.** -/
theorem after_dataPort {op : Operation VideoMemory} (hop : Leaves s op) :
    AtRest (after s op) ∧ dataPort (after s op) = (dataPort s).follow op.dataAccess := by
  cases op with
  | tick => exact h.tick
  | readRegister a => exact h.readRegister a
  | writeRegister a v => exact h.writeRegister hop
  | writeOam v => exact ⟨⟨h.dark, h.takesPatterns⟩, rfl⟩
  | pokeOam i v => exact ⟨⟨h.dark, h.takesPatterns⟩, rfl⟩
  | takeFrameComplete =>
    have hkept : s.1.takeFrameComplete.2.mask = s.1.mask ∧
        dataPort (s.1.takeFrameComplete.2, s.2) = dataPort s := by
      unfold takeFrameComplete
      dsimp only
      split <;> exact ⟨rfl, rfl⟩
    exact ⟨⟨(congrArg Mask.rendering hkept.1).trans h.dark, h.takesPatterns⟩, hkept.2⟩
  | takeNmiRequest =>
    have hkept : s.1.takeNmiRequest.2.mask = s.1.mask ∧
        dataPort (s.1.takeNmiRequest.2, s.2) = dataPort s := by
      unfold takeNmiRequest
      dsimp only
      split <;> exact ⟨rfl, rfl⟩
    exact ⟨⟨(congrArg Mask.rendering hkept.1).trans h.dark, h.takesPatterns⟩, hkept.2⟩
  | clearCartridgeState => exact hop.elim
  | reset => exact hop.elim
  | elsewhere mem => exact ⟨⟨h.dark, hop.1⟩, hop.2⟩

/-- **After a history the port is what the accesses have made of it.** -/
theorem run_dataPort {history : List (Operation VideoMemory)} (hall : LeavesAll s history) :
    AtRest (run s history) ∧
      dataPort (run s history) =
        (history.filterMap Operation.dataAccess).foldl DataPort.access (dataPort s) := by
  induction history generalizing s with
  | nil => exact ⟨h, rfl⟩
  | cons op history ih =>
    obtain ⟨hrest, hport⟩ := after_dataPort h hall.1
    obtain ⟨hrest', hport'⟩ := ih hrest hall.2
    refine ⟨hrest', hport'.trans ?_⟩
    rw [hport, List.filterMap_cons]
    cases op.dataAccess <;> rfl

end AtRest

theorem leavesAll_append {s : Ppu × VideoMemory} {first second : List (Operation VideoMemory)} :
    LeavesAll s (first ++ second) ↔ LeavesAll s first ∧ LeavesAll (run s first) second := by
  induction first generalizing s with
  | nil => simp [LeavesAll, run]
  | cons op first ih =>
    rw [List.cons_append, LeavesAll, LeavesAll, ih, and_assoc]
    rfl

/-! ## 5. What a byte is -/

/-- The byte that an operation leaves in the cell behind `x`, after the operations `before`: it is a
write of the data register, and the address then leads to this cell. -/
def stores (s : Ppu × VideoMemory) (x : UInt16) (before : List (Operation VideoMemory))
    (op : Operation VideoMemory) : Option UInt8 :=
  match op.dataAccess with
  | some (.write v) =>
    if s.2.locate (run s before).1.v.busAddress = s.2.locate x then some (kept x v) else none
  | _ => none

/-- The byte that was left last in the cell behind `x`, or the one it held at first. -/
def lastStored (s : Ppu × VideoMemory) (history : List (Operation VideoMemory)) (x : UInt16) :
    UInt8 :=
  (latest (stores s x) history).getD (byteAt s.1.palette s.2 x)

theorem lastStored_concat (s : Ppu × VideoMemory) (history : List (Operation VideoMemory))
    (op : Operation VideoMemory) (x : UInt16) :
    lastStored s (history ++ [op]) x = (stores s x history op).getD (lastStored s history x) := by
  rw [lastStored, latest_concat, lastStored]
  cases stores s x history op <;> rfl

namespace DataPort

theorem place_follow (w : DataPort) (x : Option DataAccess) : (w.follow x).place = w.place := by
  cases x with
  | none => rfl
  | some x =>
    cases x with
    | scroll x => cases x <;> rfl
    | _ => rfl

/-- Only a write changes a byte. -/
theorem bytes_follow (w : DataPort) (x : Option DataAccess) (a : UInt16) :
    (w.follow x).bytes a = match x with
      | some (.write b) => if w.place w.v.busAddress = w.place a then kept a b else w.bytes a
      | _ => w.bytes a := by
  cases x with
  | none => rfl
  | some x =>
    cases x with
    | scroll x => cases x <;> rfl
    | _ => rfl

/-- Only a read changes the byte that was fetched. -/
theorem buffer_follow (w : DataPort) {x : Option DataAccess} (hx : x ≠ some .read) :
    (w.follow x).buffer = w.buffer := by
  cases x with
  | none => rfl
  | some x =>
    cases x with
    | scroll x => cases x <;> rfl
    | read => exact absurd rfl hx
    | write => rfl

end DataPort

/-- **After a history the port shows of every address the byte that was written last to its
cell.** -/
theorem bytes_run {s : Ppu × VideoMemory} (h : AtRest s) {history : List (Operation VideoMemory)}
    (hall : LeavesAll s history) :
    (dataPort (run s history)).place = s.2.locate ∧
      (dataPort (run s history)).bytes = lastStored s history := by
  induction history using List.reverseRecOn with
  | nil => exact ⟨rfl, rfl⟩
  | append_singleton history op ih =>
    obtain ⟨hbefore, hop, -⟩ := leavesAll_append.mp hall
    obtain ⟨hplace, hbytes⟩ := ih hbefore
    obtain ⟨-, hport⟩ := after_dataPort (run_dataPort h hbefore).1 hop
    rw [run_concat, hport, DataPort.place_follow]
    refine ⟨hplace, funext fun x => ?_⟩
    rw [DataPort.bytes_follow, hplace, hbytes, lastStored_concat, stores]
    cases op.dataAccess with
    | none => rfl
    | some access =>
      cases access with
      | scroll => rfl
      | read => rfl
      | write v =>
        let p := (run s history).1
        change (if s.2.locate p.v.busAddress = s.2.locate x then kept x v else _) = _
        dsimp only
        split <;> rfl

/-- Between two reads the byte fetched stays. -/
theorem buffer_run {s : Ppu × VideoMemory} (h : AtRest s) {history : List (Operation VideoMemory)}
    (hall : LeavesAll s history) (hnone : ∀ op ∈ history, op.dataAccess ≠ some .read) :
    (dataPort (run s history)).buffer = (dataPort s).buffer := by
  induction history generalizing s with
  | nil => rfl
  | cons op history ih =>
    obtain ⟨hrest, hport⟩ := after_dataPort h hall.1
    have hlater := ih hrest hall.2 fun op' hop' => hnone op' (List.mem_cons_of_mem _ hop')
    refine hlater.trans ?_
    rw [hport, DataPort.buffer_follow _ (hnone op List.mem_cons_self)]

/-! ## 6. What a read answers -/

/-- What a read of the data register answers. -/
def dataAnswer (s : Ppu × VideoMemory) : UInt8 := (s.1.readData s.2).1

theorem readRegister_of_mod {a : UInt16} (ha : a.toNat % 8 = 7) (s : Ppu × VideoMemory) :
    (s.1.readRegister a s.2).1 = dataAnswer s := by
  unfold readRegister
  rw [ha]
  rfl

/-- Below the colours a read answers what was fetched last. -/
theorem dataAnswer_of_lt {s : Ppu × VideoMemory} (h : s.1.v.busAddress < 0x3F00) :
    dataAnswer s = (dataPort s).buffer :=
  congrArg Prod.fst (if_neg (UInt16.not_le.mpr h))

theorem and_low_six (c l : UInt8) : ((c &&& 0x3F) ||| (l &&& 0xC0)) &&& 0x3F = c &&& 0x3F := by
  apply UInt8.toNat_inj.mp
  rw [UInt8.toNat_and, UInt8.toNat_or, Nat.and_or_distrib_right, UInt8.toNat_and, UInt8.toNat_and,
    Nat.and_assoc, Nat.and_assoc]
  change c.toNat &&& 63 ||| l.toNat &&& 0 = _
  rw [Nat.and_zero, Nat.or_zero]
  rfl

/-- Colours come at once, in the low six bits. -/
theorem dataAnswer_of_not_lt {s : Ppu × VideoMemory} (h : ¬s.1.v.busAddress < 0x3F00) :
    dataAnswer s &&& 0x3F = (dataPort s).bytes s.1.v.busAddress := by
  have hanswer : dataAnswer s = s.1.palette.read s.1.v.busAddress ||| (s.1.ioLatch &&& 0xC0) :=
    congrArg Prod.fst (if_pos (UInt16.not_lt.mp h))
  have hlow : ¬s.1.v.busAddress < 0x2000 := fun hlt => h (UInt16.lt_trans hlt (by decide))
  have hbyte : (dataPort s).bytes s.1.v.busAddress = s.1.palette.read s.1.v.busAddress := by
    simp only [dataPort, byteAt, if_neg hlow, if_neg h]
  rw [hanswer, hbyte, Palette.read, and_low_six]

/-- The answers that a program gets from the data register in the course of a history. -/
def dataAnswers : Ppu × VideoMemory → List (Operation VideoMemory) → List UInt8
  | _, [] => []
  | s, .readRegister a :: later =>
    if a.toNat % 8 = 7 then
      (s.1.readRegister a s.2).1 :: dataAnswers (after s (.readRegister a)) later
    else dataAnswers (after s (.readRegister a)) later
  | s, op :: later => dataAnswers (after s op) later

theorem dataAccess_readRegister_iff {a : UInt16} :
    (Operation.readRegister a : Operation VideoMemory).dataAccess = some .read ↔
      a.toNat % 8 = 7 := by
  unfold Operation.dataAccess
  dsimp only
  split <;> simp_all

/-- The answers are those to the accesses that read. -/
theorem dataAnswers_cons (s : Ppu × VideoMemory) (op : Operation VideoMemory)
    (later : List (Operation VideoMemory)) :
    dataAnswers s (op :: later) =
      if op.dataAccess = some .read then dataAnswer s :: dataAnswers (after s op) later
      else dataAnswers (after s op) later := by
  cases op with
  | readRegister a =>
    rw [dataAnswers]
    by_cases ha : a.toNat % 8 = 7
    · rw [if_pos ha, if_pos (dataAccess_readRegister_iff.mpr ha), readRegister_of_mod ha]
    · rw [if_neg ha, if_neg (mt dataAccess_readRegister_iff.mp ha)]
  | writeRegister a v =>
    have haccess :
        (Operation.writeRegister a v : Operation VideoMemory).dataAccess ≠ some .read := by
      unfold Operation.dataAccess
      dsimp only
      split <;> simp
    exact (if_neg haccess).symm
  | _ => rfl

theorem dataAnswers_append (s : Ppu × VideoMemory) (first second : List (Operation VideoMemory)) :
    dataAnswers s (first ++ second) = dataAnswers s first ++ dataAnswers (run s first) second := by
  induction first generalizing s with
  | nil => rfl
  | cons op first ih =>
    simp only [List.cons_append, dataAnswers_cons, ih]
    split <;> rfl

theorem dataAnswers_of_no_read {history : List (Operation VideoMemory)}
    (h : ∀ op ∈ history, op.dataAccess ≠ some .read) (s : Ppu × VideoMemory) :
    dataAnswers s history = [] := by
  induction history generalizing s with
  | nil => rfl
  | cons op history ih =>
    rw [dataAnswers_cons, if_neg (h op List.mem_cons_self)]
    exact ih (fun op' hop' => h op' (List.mem_cons_of_mem _ hop')) _

/-! ## 7. Bytes in a row -/

namespace DataPort

/-- What the reads to come answer if nothing else is done: the byte fetched, and then those from
here on. -/
def upcoming (w : DataPort) : Nat → UInt8
  | 0 => w.buffer
  | i + 1 => w.bytes (w.ahead i).busAddress

theorem ahead_ahead (w w' : DataPort) (m : Nat) (hv : w'.v = w.ahead m)
    (hscroll : w'.scroll = w.scroll) (n : Nat) : w'.ahead n = w.ahead (m + n) := by
  rw [ahead, hv, hscroll, ahead, VramAddress.advance_add, ← Nat.add_mul]
  rfl

theorem ahead_zero (w : DataPort) : w.ahead 0 = w.v := by
  rw [ahead, Nat.zero_mul, VramAddress.advance_zero]

/-- A read brings the next of them nearer. -/
theorem upcoming_read (w : DataPort) (h : (w.ahead 0).busAddress < 0x3F00) (i : Nat) :
    (w.access .read).upcoming i = w.upcoming (i + 1) := by
  cases i with
  | zero =>
    rw [ahead_zero] at h
    change w.bytes (fetchAddress w.v.busAddress) = w.bytes (w.ahead 0).busAddress
    rw [fetchAddress_of_lt h, ahead_zero]
  | succ i =>
    have hahead : (w.access .read).ahead i = w.ahead (1 + i) :=
      ahead_ahead w (w.access .read) 1 rfl rfl i
    change w.bytes ((w.access .read).ahead i).busAddress = w.bytes (w.ahead (i + 1)).busAddress
    rw [hahead, Nat.add_comm]

/-- **Writes in a row lay their bytes one after the other**, if no two of them fall on one cell. -/
theorem writes (w : DataPort) (bytes : List UInt8) :
    let w' := (bytes.map .write).foldl access w
    w'.scroll = w.scroll ∧ w'.place = w.place ∧ w'.v = w.ahead bytes.length ∧
      (((List.range bytes.length).map fun i => w.place (w.ahead i).busAddress).Nodup →
        ∀ i (hi : i < bytes.length),
          w'.bytes (w.ahead i).busAddress = kept (w.ahead i).busAddress bytes[i]) := by
  induction bytes using List.reverseRecOn with
  | nil => exact ⟨rfl, rfl, w.ahead_zero.symm, fun _ i hi => absurd hi (Nat.not_lt_zero i)⟩
  | append_singleton bytes b ih =>
    obtain ⟨hscroll, hplace, hv, hbytes⟩ := ih
    rw [List.map_append, List.foldl_append]
    generalize (bytes.map DataAccess.write).foldl access w = w₁ at hscroll hplace hv hbytes ⊢
    have hlength : (bytes ++ [b]).length = bytes.length + 1 := List.length_append
    refine ⟨hscroll, hplace, ?_, fun hnodup i hi => ?_⟩
    · rw [hlength]
      exact ahead_ahead w w₁ _ hv hscroll 1
    rw [hlength, List.range_succ, List.map_append, List.nodup_append] at hnodup
    obtain ⟨hearlier, -, hapart⟩ := hnodup
    have hbyte (a : UInt16) : (w₁.access (.write b)).bytes a =
        if w.place (w.ahead bytes.length).busAddress = w.place a then kept a b else w₁.bytes a := by
      rw [← hplace, ← hv]
      rfl
    change (w₁.access (.write b)).bytes _ = _
    rw [hbyte]
    by_cases hlast : i = bytes.length
    · subst hlast
      rw [if_pos rfl, List.getElem_concat_length rfl]
    · have hi' : i < bytes.length := by omega
      have hne : w.place (w.ahead bytes.length).busAddress ≠ w.place (w.ahead i).busAddress :=
        (hapart _ (List.mem_map_of_mem (List.mem_range.mpr hi')) _ (by simp)).symm
      rw [if_neg hne, hbytes hearlier i hi', List.getElem_append_left hi']

end DataPort

/-- **Reads in a row answer what is to come**, whatever else is done in between, as long as they
stay below the colours. -/
theorem dataAnswers_reads {s : Ppu × VideoMemory} (h : AtRest s)
    {history : List (Operation VideoMemory)} (hall : LeavesAll s history) {n : Nat}
    (hreads : history.filterMap Operation.dataAccess = List.replicate n .read)
    (hbelow : ∀ i < n, ((dataPort s).ahead i).busAddress < 0x3F00) :
    dataAnswers s history = (List.range n).map (dataPort s).upcoming := by
  induction history generalizing s n with
  | nil =>
    have hn : n = 0 := by simpa using congrArg List.length hreads.symm
    subst hn
    rfl
  | cons op history ih =>
    obtain ⟨hrest, hport⟩ := after_dataPort h hall.1
    rw [dataAnswers_cons]
    cases haccess : op.dataAccess with
    | none =>
      rw [haccess] at hport
      rw [List.filterMap_cons_none haccess] at hreads
      rw [if_neg (by simp), ih hrest hall.2 hreads (by rwa [hport]), hport]
      rfl
    | some access =>
      rw [List.filterMap_cons_some haccess] at hreads
      obtain _ | n := n
      · exact nomatch hreads
      obtain ⟨rfl, hreads'⟩ := List.cons.inj (hreads.trans List.replicate_succ)
      rw [haccess] at hport
      have hhere := hbelow 0 (Nat.succ_pos n)
      have hahead (i : Nat) : (dataPort (after s op)).ahead i = (dataPort s).ahead (1 + i) := by
        rw [hport]
        exact (dataPort s).ahead_ahead ((dataPort s).access .read) 1 rfl rfl i
      have hlater : ∀ i < n, ((dataPort (after s op)).ahead i).busAddress < 0x3F00 := by
        intro i hi
        rw [hahead]
        exact hbelow _ (by omega)
      have hfirst : s.1.v.busAddress < 0x3F00 := by
        rwa [DataPort.ahead_zero] at hhere
      rw [if_pos rfl, ih hrest hall.2 hreads' hlater, hport, dataAnswer_of_lt hfirst,
        List.range_succ_eq_map, List.map_cons, List.map_map]
      exact congrArg _ (List.map_congr_left fun i _ => (dataPort s).upcoming_read hhere i)

/-! ## 8. The window -/

/-- The two accesses that set the address. -/
def setAddress (hi lo : UInt8) : List DataAccess :=
  [.scroll (.address hi), .scroll (.address lo)]

/-- The address that `n` accesses come to from there, `increment` at a time; fourteen bits count. -/
def addressAfter (hi lo : UInt8) (increment n : Nat) : UInt16 :=
  .ofNat ((hi.toNat * 256 + lo.toNat + n * increment) % 0x4000)

namespace DataPort

/-- **Two writes set the address**, once a status read has made the first of them the first. -/
theorem access_setAddress (w : DataPort) (htoggle : w.scroll.toggle = false) (hi lo : UInt8) :
    let w' := (setAddress hi lo).foldl access w
    (∀ n, (w'.ahead n).busAddress = addressAfter hi lo w.scroll.control.increment n) ∧
      w'.scroll.toggle = false ∧ w'.scroll.control = w.scroll.control ∧ w'.place = w.place ∧
      w'.bytes = w.bytes := by
  obtain ⟨⟨control, t, fineX, toggle⟩, v, buffer, place, bytes⟩ := w
  obtain rfl : toggle = false := htoggle
  refine ⟨fun n => ?_, rfl, rfl, rfl, rfl⟩
  apply UInt16.toNat_inj.mp
  have hlo := lo.toNat_lt
  let t' := VramAddress.ofRaw (hi.toNat % 64 * 256 + t.raw % 256)
  change ((VramAddress.ofRaw (t'.raw / 256 * 256 + lo.toNat)).advance
    (n * control.increment)).busAddress.toNat = _
  rw [VramAddress.toNat_busAddress_advance, VramAddress.raw_ofRaw, VramAddress.raw_ofRaw,
    addressAfter, UInt16.toNat_ofNat']
  generalize n * control.increment = steps
  omega

end DataPort

/-- The data register is a window on picture memory. -/
structure Faithful (s : Ppu × VideoMemory) : Prop where
  /-- A list of bytes that is written from an address on comes back as it was, behind one byte to
  discard, if the address is set again and as many bytes are read: provided no two of them fall on
  one cell and no address on the way reaches the colours. -/
  returns : ∀ (history : List (Operation VideoMemory)) (hi lo : UInt8) (bytes : List UInt8),
    LeavesAll s history →
    history.filterMap Operation.dataAccess =
      .scroll .status :: setAddress hi lo ++ bytes.map .write ++ setAddress hi lo ++
        List.replicate (bytes.length + 1) .read →
    (∀ i ≤ bytes.length, addressAfter hi lo s.1.control.increment i < 0x3F00) →
    ((List.range bytes.length).map fun i =>
      s.2.locate (addressAfter hi lo s.1.control.increment i)).Nodup →
    ∃ discarded, dataAnswers s history = discarded :: bytes
  /-- Below the colours a read answers the byte that the last write before the previous read left in
  the cell which that one read. -/
  buffered : ∀ (before between : List (Operation VideoMemory)) (a a' : UInt16),
    LeavesAll s (before ++ .readRegister a :: between) → a.toNat % 8 = 7 → a'.toNat % 8 = 7 →
    (∀ op ∈ between, op.dataAccess ≠ some .read) →
    let s' := run s (before ++ .readRegister a :: between)
    s'.1.v.busAddress < 0x3F00 →
      (s'.1.readRegister a' s'.2).1 =
        lastStored s before (fetchAddress (run s before).1.v.busAddress)
  /-- A colour comes at once, in the low six bits. -/
  colours : ∀ (history : List (Operation VideoMemory)) (a : UInt16), LeavesAll s history →
    a.toNat % 8 = 7 →
    let s' := run s history
    0x3F00 ≤ s'.1.v.busAddress →
      (s'.1.readRegister a s'.2).1 &&& 0x3F = lastStored s history s'.1.v.busAddress

section Faithful

variable {s : Ppu × VideoMemory} (h : AtRest s)

include h

theorem returns_of_atRest {history : List (Operation VideoMemory)} {hi lo : UInt8}
    {bytes : List UInt8} (hall : LeavesAll s history)
    (haccesses : history.filterMap Operation.dataAccess =
      .scroll .status :: setAddress hi lo ++ bytes.map .write ++ setAddress hi lo ++
        List.replicate (bytes.length + 1) .read)
    (hbelow : ∀ i ≤ bytes.length, addressAfter hi lo s.1.control.increment i < 0x3F00)
    (hapart : ((List.range bytes.length).map fun i =>
      s.2.locate (addressAfter hi lo s.1.control.increment i)).Nodup) :
    ∃ discarded, dataAnswers s history = discarded :: bytes := by
  obtain ⟨first, second, rfl, hfirst, hsecond⟩ := List.filterMap_eq_append_iff.mp haccesses
  obtain ⟨hall₁, hall₂⟩ := leavesAll_append.mp hall
  have hnoread : ∀ op ∈ first, op.dataAccess ≠ some .read := by
    intro op hop hread
    have hmem : DataAccess.read ∈ first.filterMap Operation.dataAccess :=
      List.mem_filterMap.mpr ⟨op, hop, hread⟩
    rw [hfirst] at hmem
    simp [setAddress] at hmem
  obtain ⟨hrest, hport⟩ := run_dataPort h hall₁
  rw [hfirst, List.foldl_append, List.foldl_append, List.foldl_cons] at hport
  -- The port after the status read, after the address, after the bytes, and after the address once
  -- more.
  generalize hw₀ : (dataPort s).access (.scroll .status) = w₀ at hport
  have hcontrol₀ : w₀.scroll.control = s.1.control := by rw [← hw₀]; rfl
  have hplace₀ : w₀.place = s.2.locate := by rw [← hw₀]; rfl
  obtain ⟨haddress₁, htoggle₁, hcontrol₁, hplace₁, -⟩ :=
    w₀.access_setAddress (by rw [← hw₀]; rfl) hi lo
  generalize (setAddress hi lo).foldl DataPort.access w₀ = w₁ at *
  obtain ⟨hscroll₂, hplace₂, -, hbytes₂⟩ := w₁.writes bytes
  generalize (bytes.map DataAccess.write).foldl DataPort.access w₁ = w₂ at *
  obtain ⟨haddress₃, -, hcontrol₃, hplace₃, hbytes₃⟩ :=
    w₂.access_setAddress (by rw [hscroll₂, htoggle₁]) hi lo
  generalize (setAddress hi lo).foldl DataPort.access w₂ = w₃ at *
  rw [hcontrol₀] at haddress₁
  rw [hscroll₂, hcontrol₁, hcontrol₀] at haddress₃
  rw [dataAnswers_append, dataAnswers_of_no_read hnoread, List.nil_append,
    dataAnswers_reads hrest hall₂ hsecond ?below, hport, List.range_succ_eq_map, List.map_cons,
    List.map_map]
  case below =>
    intro i hi
    rw [hport, haddress₃]
    exact hbelow i (Nat.le_of_lt_succ hi)
  refine ⟨_, congrArg _ (List.ext_getElem (by simp) fun i hi hi' => ?_)⟩
  have hnodup :
      ((List.range bytes.length).map fun i => w₁.place (w₁.ahead i).busAddress).Nodup := by
    simp only [haddress₁, hplace₁, hplace₀]
    exact hapart
  rw [List.getElem_map, List.getElem_range]
  calc w₃.upcoming (i + 1)
    _ = w₃.bytes (w₃.ahead i).busAddress := rfl
    _ = w₂.bytes (w₁.ahead i).busAddress := by rw [hbytes₃, haddress₃, haddress₁]
    _ = kept (w₁.ahead i).busAddress bytes[i] := hbytes₂ hnodup i hi'
    _ = bytes[i] := by
      rw [haddress₁]
      exact if_pos (hbelow i hi'.le)

/-- **The data register is a window on picture memory**, as long as nothing is shown, patterns are
RAM, and neither banks nor mirroring change. -/
theorem faithful_dataPort : Faithful s where
  returns history hi lo bytes hall haccesses hbelow hapart :=
    returns_of_atRest h hall haccesses hbelow hapart
  buffered before between a a' hall ha ha' hbetween hlt := by
    obtain ⟨hbefore, hread, hafter⟩ := leavesAll_append.mp hall
    obtain ⟨hrest, hport⟩ := after_dataPort (run_dataPort h hbefore).1 hread
    rw [dataAccess_readRegister_iff.mpr ha] at hport
    obtain ⟨-, hbytes⟩ := bytes_run h hbefore
    rw [readRegister_of_mod ha', dataAnswer_of_lt hlt, run_append]
    change (dataPort (run (after (run s before) (.readRegister a)) between)).buffer = _
    rw [buffer_run hrest hafter hbetween, hport, ← hbytes]
    rfl
  colours history a hall ha hle := by
    obtain ⟨-, hbytes⟩ := bytes_run h hall
    rw [readRegister_of_mod ha, dataAnswer_of_not_lt (UInt16.not_lt.mpr hle), hbytes]

omit h in
/-- Three bytes written to a nametable, with dots passing in between and the registers reached under
several addresses. -/
theorem faithful_dataPort_three_bytes :
    ∃ discarded, dataAnswers
      ({}, ⟨{}, some ⟨⟨false, 0, 0x8000, 0, 0, .vertical, false, false, false⟩,
        .nrom { prg := #[], chr := #[0], chrWritable := true } .vertical⟩⟩)
      [.readRegister 0x2002, .tick, .writeRegister 0x2006 0x2C, .writeRegister 0x2006 0xFE,
        .writeRegister 0x2007 7, .tick, .writeRegister 0x2007 8, .writeRegister 0x3FFF 9,
        .writeRegister 0x2006 0x2C, .writeRegister 0x200E 0xFE, .readRegister 0x2007, .tick,
        .readRegister 0x2007, .readRegister 0x2007, .readRegister 0x2007] = [discarded, 7, 8, 9] :=
  (faithful_dataPort ⟨by decide, _, rfl, rfl, by decide⟩).returns _ 0x2C 0xFE [7, 8, 9]
    (by simp [LeavesAll, Leaves]) rfl (by decide) (by decide)

end Faithful

end Ppu

end Famicom
