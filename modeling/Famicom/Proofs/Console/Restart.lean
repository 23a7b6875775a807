/-
# Where a program starts again

The reset button resets the boards before the processor looks for its vector, so the vector is read
through the windows as a reset leaves them and not as the program has.  On every kind of board
**the last 8 KiB of the address space then show the last 8 KiB of the program** (`cpuRead_reset`):
they are fixed there, or the switch falls back to the last bank, or the whole program repeats there.
With a board that has no switch this takes a program that fits, of at most two units.

A program can do much to its cartridge, but nothing that makes another of it.  `Descends` says that
a cartridge in the slot is what some history of its board has made of the one that was put there,
and every operation keeps that, except changing cartridges (`Descends.operated`).  Histories of a
board keep its kind, and its program memory is never written.

So **from wherever it was, the processor starts at the word that the image holds four bytes before
the end of its program** (`reset_starts_program`).
-/
import Famicom.Proofs.Console.Operations
import Famicom.Proofs.Loading

namespace Famicom

/-! ## 1. The last window after a reset -/

section LastWindow

variable {units : Nat} (hunits : 1 ≤ units) {a : UInt16} (ha : 0xE000 ≤ a.toNat)

include hunits ha

/-- A program without a switch fills its two windows, or repeats in them. -/
theorem unswitched_end (hfits : units ≤ 2) :
    (a.toNat - 0x8000) % (16384 * units) =
      (16384 * units - (0x10000 - a.toNat)) % (16384 * units) := by
  have hlt := a.toNat_lt
  obtain rfl | rfl : units = 1 ∨ units = 2 := by omega
  · omega
  · omega

/-- In the second half of the program space the last 16 KiB end where the space ends. -/
theorem bankedOffset_end :
    bankedOffset (16384 * units) (units - 1) 0x4000 a.toNat =
      16384 * units - (0x10000 - a.toNat) := by
  have hlt := a.toNat_lt
  rw [Board.bankedOffset_last (by decide) rfl (by omega)]
  omega

omit hunits in
/-- The last window is above all others. -/
theorem not_lt_of_last {start : UInt16} (hstart : start.toNat ≤ 0xE000) : ¬a < start := fun hlt =>
  absurd (UInt16.lt_iff_toNat_lt.mp hlt) (Nat.not_lt.mpr (hstart.trans ha))

/-- After power-on an MMC1 has its last bank in the second half. -/
theorem Mmc1.prgOffset_end :
    Mmc1.prgOffset {} (16384 * units) a = 16384 * units - (0x10000 - a.toNat) := by
  have hmode : Mmc1.prgMode {} = 3 := by decide
  have hbanks : (Mmc1.prgBanks {} (16384 * units)).2 = units - 1 := by
    rw [Mmc1.prgBanks, hmode]
    change max (16384 * units / 0x4000) 1 - 1 = _
    omega
  rw [Mmc1.prgOffset]
  dsimp only
  rw [if_neg (not_lt_of_last ha (by decide)), hbanks, bankedOffset_end hunits ha]

/-- A UxROM has it there whatever its latch holds. -/
theorem Uxrom.prgOffset_end (bank : UInt8) :
    Uxrom.prgOffset bank (16384 * units) a = 16384 * units - (0x10000 - a.toNat) := by
  have hbank : Uxrom.bankCount (16384 * units) - 1 = units - 1 := by
    rw [Uxrom.bankCount]
    omega
  rw [Uxrom.prgOffset, if_neg (not_lt_of_last ha (by decide)), hbank, bankedOffset_end hunits ha]

/-- An MMC3 has the last 8 KiB in its last window, whatever its registers hold. -/
theorem Mmc3.prgOffset_end (r : Mmc3) :
    r.prgOffset (16384 * units) a = 16384 * units - (0x10000 - a.toNat) := by
  have hlt := a.toNat_lt
  have hwindow : a.toNat / 0x2000 % 4 = 3 := by omega
  have hbank : r.prgBank (16384 * units) a = 2 * units - 1 := by
    rw [Mmc3.prgBank, hwindow]
    change max (16384 * units / 0x2000) 2 - 1 = _
    omega
  rw [Mmc3.prgOffset, hbank, Board.bankedOffset_last (by decide) rfl (by omega)]
  omega

end LastWindow

namespace Board

/-- **After a reset the last window shows the end of the program.** -/
theorem cpuRead_reset {kind : Kind} {wired : Mirroring} {b : Board} (h : IsOf kind wired b)
    {units : Nat} (hsize : b.chips.prg.size = 16384 * units) (hunits : 1 ≤ units)
    (hfits : kind = .nrom → units ≤ 2) {a : UInt16} (ha : 0xE000 ≤ a.toNat) :
    b.reset.cpuRead a = b.chips.prg.read (16384 * units - (0x10000 - a.toNat)) := by
  obtain ⟨hlogic, -⟩ := h
  obtain ⟨chips, m⟩ := b
  dsimp only at hsize hlogic ⊢
  rw [cpuRead, if_neg (not_lt_of_last ha (by decide)), if_neg (not_lt_of_last ha (by decide))]
  change chips.prg.read (m.reset.prgOffset chips.prg.size a) = _
  rw [hsize]
  cases hlogic with
  | nrom =>
    change chips.prg.read (a.toNat - 0x8000) = _
    rw [Chip.read, Chip.read, hsize, unswitched_end hunits ha (hfits rfl)]
  | mmc1 r => exact congrArg chips.prg.read (Mmc1.prgOffset_end hunits ha)
  | uxrom bank => exact congrArg chips.prg.read (Uxrom.prgOffset_end hunits ha 0)
  | mmc3 r hr => exact congrArg chips.prg.read (Mmc3.prgOffset_end hunits ha r.reset)

end Board

/-! ## 2. The cartridge in the slot -/

namespace Ppu

variable {μ : Type} [AddressBus μ]

/-- What reads and writes keep of the memory on its bus, a picture unit keeps. -/
theorem run_memory {J : μ → Prop} (hread : ∀ a mem, J mem → J (AddressBus.read a mem).2)
    (hwrite : ∀ a v mem, J mem → J (AddressBus.write a v mem)) {s : Ppu × μ}
    {history : List (Operation μ)} (helsewhere : ∀ mem, .elsewhere mem ∈ history → J mem)
    (h : J s.2) : J (run s history).2 := by
  have hreads (as : List UInt16) (mem : μ) (h : J mem) : J (afterReads mem as) := by
    induction as generalizing mem with
    | nil => exact h
    | cons a as ih => exact ih _ (hread a mem h)
  induction history generalizing s with
  | nil => exact h
  | cons op history ih =>
    refine ih (fun mem hmem => helsewhere mem (List.mem_cons_of_mem _ hmem)) ?_
    obtain ⟨p, mem⟩ := s
    cases op with
    | tick =>
      change J (p.tick mem).2
      rw [tick_snd]
      exact hreads p.fetches mem h
    | readRegister a =>
      change J (p.readRegister a mem).2.2
      by_cases ha : a.toNat % 8 = 7
      · unfold readRegister readData
        simp only [ha]
        split
        · exact hread _ mem h
        · exact hread _ mem h
      · rw [readRegister_memory p ha]
        exact h
    | writeRegister a v =>
      change J (p.writeRegister a v mem).2
      by_cases ha : a.toNat % 8 = 7
      · unfold writeRegister writeData
        simp only [ha]
        split
        · exact h
        · exact hwrite _ v mem h
      · rw [writeRegister_memory p ha]
        exact h
    | elsewhere mem' => exact helsewhere mem' List.mem_cons_self
    | _ => exact h

end Ppu

/-- In the slot is what a history has made of a cartridge. -/
def Descends (c : Cartridge) (slot : Option Cartridge) : Prop :=
  ∃ history, slot = some { c with board := c.board.run history }

namespace Descends

variable {c : Cartridge} {slot : Option Cartridge} (h : Descends c slot)

include h

theorem observe (a : UInt16) : Descends c (VideoMemory.observe slot a) := by
  obtain ⟨history, rfl⟩ := h
  exact ⟨history ++ [.observe a], by rw [Board.run_concat]; rfl⟩

theorem writePattern (a : UInt16) (v : UInt8) : Descends c (VideoMemory.writePattern slot a v) := by
  obtain ⟨history, rfl⟩ := h
  exact ⟨history ++ [.ppuWrite a v], by rw [Board.run_concat]; rfl⟩

theorem writeSlot (a : UInt16) (v : UInt8) : Descends c (Mainboard.writeSlot slot a v) := by
  obtain ⟨history, rfl⟩ := h
  exact ⟨history ++ [.cpuWrite a v], by rw [Board.run_concat]; rfl⟩

theorem reset : Descends c (slot.map Cartridge.reset) := by
  obtain ⟨history, rfl⟩ := h
  exact ⟨history ++ [.reset], by rw [Board.run_concat]; rfl⟩

end Descends

namespace Mainboard

variable {c : Cartridge}

/-- Its memory becomes another only where a program writes to the cartridge. -/
theorem elsewhere_mem_ofActivity {m : Mainboard} {e : Activity} {video : VideoMemory}
    (h : .elsewhere video ∈ m.ofActivity e) :
    ∃ a v, video = { m.video with slot := writeSlot m.video.slot a v } := by
  have haccess {cycle : BusCycle} (h : .elsewhere video ∈ m.ofAccess cycle) :
      ∃ a v, video = { m.video with slot := writeSlot m.video.slot a v } := by
    cases cycle with
    | read a => cases hd : device a <;> simp [ofAccess, hd] at h
    | write a v =>
      cases hd : device a <;> simp [ofAccess, hd] at h
      exact ⟨a, v, h⟩
  cases e with
  | access cycle => exact haccess h
  | transfer =>
    unfold ofActivity at h
    dsimp only at h
    split at h
    · exact haccess h
    · simp at h
    · simp at h
  | _ => simp [ofActivity] at h

/-- **Nothing on the mainboard makes another cartridge of the one in the slot.** -/
theorem descends_after {m : Mainboard} (h : Descends c m.video.slot) (e : Activity) :
    Descends c (m.after e).video.slot := by
  have hafter : (m.after e).video = (Ppu.run m.picture (m.ofActivity e)).2 :=
    congrArg Prod.snd (m.picture_after e)
  rw [hafter]
  refine Ppu.run_memory (J := fun video : VideoMemory => Descends c video.slot)
    (fun a video h => h.observe _) (fun a v video h => ?_) (fun video hmem => ?_) h
  · obtain ⟨nametables, slot⟩ := video
    change Descends c (if a &&& 0x3FFF < 0x2000 then
      (⟨nametables, VideoMemory.writePattern (VideoMemory.observe slot (a &&& 0x3FFF))
        (a &&& 0x3FFF) v⟩ : VideoMemory) else _).slot
    split
    · exact (Descends.observe h _).writePattern _ v
    · exact Descends.observe h _
  · obtain ⟨a, v, rfl⟩ := elsewhere_mem_ofActivity hmem
    exact h.writeSlot a v

theorem descends_run {m : Mainboard} (h : Descends c m.video.slot) (es : List Activity) :
    Descends c (m.run es).video.slot := by
  induction es generalizing m with
  | nil => exact h
  | cons e es ih => exact ih (descends_after h e)

end Mainboard

namespace Console

variable {σ : Type} [FrameListener σ]

/-- The operations that leave the cartridge where it is. -/
def Operation.keepsCartridge : Operation σ → Bool
  | .insert _ | .eject => false
  | _ => true

/-- **Whatever is done to a console, its cartridge comes of the one that was put there.** -/
theorem descends_operate {c : Cartridge} {d : Console σ} (h : Descends c d.board.video.slot)
    {op : Operation σ} (hop : op.keepsCartridge = true) :
    Descends c (d.operate op).board.video.slot := by
  refine operate_invariant (I := fun m => Descends c m.video.slot) (fun d h => ?_)
    (fun m e _ h => Mainboard.descends_after h e) (fun cartridge he => ?_) (fun he => ?_)
    (fun _ => h.reset) h
  · rw [tick_activities]
    exact Mainboard.descends_run h _
  · rw [he] at hop
    exact absurd hop Bool.false_ne_true
  · rw [he] at hop
    exact absurd hop Bool.false_ne_true

theorem descends_operated {c : Cartridge} {d : Console σ} (h : Descends c d.board.video.slot)
    {history : List (Operation σ)} (hkeeps : ∀ op ∈ history, op.keepsCartridge = true) :
    Descends c (d.operated history).board.video.slot :=
  operated_invariant (I := fun d : Console σ => Descends c d.board.video.slot)
    (fun _ op hop h => descends_operate h (hkeeps op hop)) h

/-! ## 3. Reset -/

/-- A console has been reset and starts at an address. -/
structure Restarted (before after : Console σ) (start : UInt16) : Prop where
  boundary : after.cpu.atBoundary = true
  registers : after.cpu.regs = { a := 0, x := 0, y := 0, sp := 0xFD, pc := start, status := 0x24 }
  /-- No interrupt is pending in the processor or on its way there, -/
  requests : after.cpu.nmi = false ∧ after.cpu.irq = false ∧ after.board.ppu.nmiRequest = false ∧
    after.board.irqLine = false
  /-- and no transfer keeps it waiting. -/
  transfer : after.board.dma.active = false
  ram : after.board.ram = before.board.ram
  nametables : after.board.video.nametables = before.board.video.nametables

omit [FrameListener σ] in
/-- **The reset button starts the processor at what the cartridge shows after its own reset.** -/
theorem restarted_reset {c : Console σ} {cartridge : Cartridge}
    (hslot : c.board.video.slot = some cartridge) :
    Restarted c c.reset
      (word (cartridge.board.reset.cpuRead 0xFFFC) (cartridge.board.reset.cpuRead 0xFFFD)) := by
  have hslot' : c.board.reset.video.slot = some cartridge.reset :=
    congrArg (Option.map Cartridge.reset) hslot
  have hread {a : UInt16} (ha : Mainboard.device a = .cartridge) :
      AddressBus.read a c.board.reset = (cartridge.board.reset.cpuRead a, c.board.reset) := by
    rw [Mainboard.read_cartridge ha, hslot']
    rfl
  have hreset : c.cpu.reset c.board.reset =
      ({ c.cpu with
          regs :=
            { pc := word (cartridge.board.reset.cpuRead 0xFFFC)
                (cartridge.board.reset.cpuRead 0xFFFD) }
          phase := .boundary, nmi := false, irq := false }, c.board.reset) := by
    have hlow := hread (by decide : Mainboard.device Cpu.resetVector = .cartridge)
    have hhigh := hread (by decide : Mainboard.device (Cpu.resetVector + 1) = .cartridge)
    rw [Cpu.reset, Cpu.restart, hlow]
    dsimp only
    rw [hhigh]
    rfl
  have hline : c.board.reset.irqLine = false := by
    rw [Mainboard.irqLine, hslot']
    obtain ⟨header, chips, mapper⟩ := cartridge
    cases mapper <;> rfl
  rw [reset, hreset]
  exact ⟨rfl, rfl, ⟨rfl, rfl, rfl, hline⟩, rfl, rfl, rfl⟩

end Console

/-! ## 4. The vector of an image -/

namespace Image

variable {image : Chip}

theorem wellFormed_of_ofImage {c : Cartridge} (h : Cartridge.ofImage image = .ok c) :
    WellFormed image ∧ c = described image := by
  rw [ofImage_eq] at h
  cases hfault : firstFault image with
  | some e =>
    rw [hfault] at h
    cases h
  | none =>
    rw [hfault] at h
    exact ⟨firstFault_eq_none_iff.mp hfault, (Except.ok.inj h).symm⟩

section Program

variable (h : WellFormed image)

include h

theorem size_program : (chips image).prg.size = 16384 * (layout image).programUnits := by
  have hle := (layout image).patternStart_le.trans h.size
  change (image.extract (layout image).programStart (layout image).patternStart).size = _
  rw [Array.size_extract, Nat.min_eq_left hle, Layout.patternStart, Nat.add_sub_cancel_left]

/-- The program holds the bytes of the image from its place on. -/
theorem read_program {i : Nat} (hi : i < 16384 * (layout image).programUnits) :
    (chips image).prg.read i = byteAt image ((layout image).programStart + i) := by
  have hle := (layout image).patternStart_le.trans h.size
  have hend : (layout image).programStart + i < (layout image).patternStart :=
    Nat.add_lt_add_left hi _
  rw [Chip.read, size_program h, Nat.mod_eq_of_lt hi, byteAt]
  change (image.extract (layout image).programStart (layout image).patternStart).getD i 0 = _
  rw [Array.getD_eq_getD_getElem?, Array.getD_eq_getD_getElem?, Array.getElem?_extract,
    Nat.min_eq_left hle, if_pos (by omega)]

end Program

/-- **After a reset a cartridge shows at the vector what ends the program of its image**, whatever
was done to its board. -/
theorem cpuRead_vector (h : WellFormed image)
    (hfits : (layout image).board = 0 → (layout image).programUnits ≤ 2)
    (history : List Board.Operation) {a : UInt16} (ha : 0xE000 ≤ a.toNat) :
    ((described image).board.run history).reset.cpuRead a =
      byteAt image ((layout image).patternStart - (0x10000 - a.toNat)) := by
  have hlt := a.toNat_lt
  have hunits := h.program
  have hprg : ((described image).board.run history).chips.prg = (chips image).prg := by
    rw [Board.prg_run, described, Board.chips_powerOn]
  have hkind : Board.IsOf (.ofNumber (layout image).board) (header image).mirroring
      ((described image).board.run history) :=
    (Board.isOf_powerOn _ (chips image) _).run history
  rw [Board.cpuRead_reset hkind (by rw [← size_program h]; exact congrArg Array.size hprg) hunits
    (fun hn => hfits (Board.Kind.ofNumber_eq_nrom.mp hn)) ha]
  change Chip.read ((described image).board.run history).chips.prg _ = _
  rw [hprg, read_program h (by omega), Layout.patternStart]
  congr 1
  omega

end Image

namespace Console

variable {σ : Type} [FrameListener σ]

/-- **Reset starts the program of the image.**  Put a cartridge with an image of any size, and
with any past, into any console; a board without a switch takes two units at most.  Then do
whatever you like but change cartridges, and press the reset button: the processor starts at the
word four bytes before the end of the program. -/
theorem reset_starts_program {image : Chip} {cartridge : Cartridge}
    (hload : Cartridge.ofImage image = .ok cartridge)
    (hfits : (Image.layout image).board = 0 → (Image.layout image).programUnits ≤ 2)
    (past : List Board.Operation) (c : Console σ) {history : List (Operation σ)}
    (hkeeps : ∀ op ∈ history, op.keepsCartridge = true) :
    let d := (c.insert { cartridge with board := cartridge.board.run past }).2.operated history
    let vector := (Image.layout image).patternStart - 4
    Restarted d d.reset (word (Image.byteAt image vector) (Image.byteAt image (vector + 1))) := by
  intro d vector
  obtain ⟨hw, rfl⟩ := Image.wellFormed_of_ofImage hload
  have hinserted : Descends (Image.described image)
      (c.insert { Image.described image with
        board := (Image.described image).board.run past }).2.board.video.slot :=
    Mainboard.descends_run (m := (c.board.insert _).2) ⟨past, rfl⟩
      [.access (.read 0xFFFC), .access (.read 0xFFFD)]
  obtain ⟨done, hslot⟩ := descends_operated hinserted hkeeps
  have hlow := Image.cpuRead_vector hw hfits done (a := 0xFFFC) (by decide)
  have hhigh := Image.cpuRead_vector hw hfits done (a := 0xFFFD) (by decide)
  have hlong : 4 ≤ (Image.layout image).patternStart := by
    have := hw.program
    unfold Image.Layout.patternStart
    omega
  have hnext : (Image.layout image).patternStart - (0x10000 - (0xFFFD : UInt16).toNat) =
      vector + 1 := by
    change (Image.layout image).patternStart - 3 = (Image.layout image).patternStart - 4 + 1
    omega
  have hrestarted := restarted_reset hslot
  rwa [hlow, hhigh, hnext] at hrestarted

end Console

namespace Image

/-! ## 5. Images from parts -/

section Parts

variable (first rest : Chip)

theorem byteAt_append_left {i : Nat} (h : i < first.size) :
    byteAt (first ++ rest) i = byteAt first i := by
  rw [byteAt, byteAt, Array.getD_eq_getD_getElem?, Array.getD_eq_getD_getElem?,
    Array.getElem?_append_left h]

theorem byteAt_append_right (i : Nat) :
    byteAt (first ++ rest) (first.size + i) = byteAt rest i := by
  rw [byteAt, byteAt, Array.getD_eq_getD_getElem?, Array.getD_eq_getD_getElem?,
    Array.getElem?_append_right (Nat.le_add_right _ _), Nat.add_sub_cancel_left]

variable {first} (h : first.size = 16)

include h

/-- What follows the header has no part in the layout. -/
theorem layout_append : layout (first ++ rest) = layout first := by
  simp only [layout, byteAt_append_left first rest (by rw [h]; decide : 4 < first.size),
    byteAt_append_left first rest (by rw [h]; decide : 5 < first.size),
    byteAt_append_left first rest (by rw [h]; decide : 6 < first.size),
    byteAt_append_left first rest (by rw [h]; decide : 7 < first.size)]

theorem start_append : start (first ++ rest) = start first := by
  rw [start, start, Array.extract_append, h]
  simp only [Nat.zero_sub, Nat.reduceSub, Array.extract_zero, Array.append_empty]

end Parts

/-- A header for an MMC1 with one unit of program. -/
def shortHeader : Chip := #[0x4E, 0x45, 0x53, 0x1A, 1, 0, 0x10, 0, 0, 0, 0, 0, 0, 0, 0, 0]

/-- A unit of program that does nothing; its vector is `$1234`. -/
def shortProgram : Chip := Array.replicate 16380 0xEA ++ #[0x34, 0x12, 0, 0]

/-- An image of these two. -/
def shortImage : Chip := shortHeader ++ shortProgram

theorem shortImage_layout : layout shortImage = ⟨1, 0, false, 1⟩ :=
  layout_append shortProgram rfl

theorem shortImage_size : shortImage.size = 16400 := by
  rw [shortImage, shortProgram, Array.size_append, Array.size_append, Array.size_replicate]
  rfl

theorem shortImage_start : start shortImage = [0x4E, 0x45, 0x53, 0x1A] :=
  start_append shortProgram rfl

theorem shortImage_wellFormed : WellFormed shortImage where
  header := by rw [shortImage_size]; decide
  start := shortImage_start
  program := by rw [shortImage_layout]
  size := by rw [shortImage_layout, shortImage_size]; decide
  board := by rw [shortImage_layout]; decide

theorem shortProgram_vector :
    word (byteAt shortProgram 16380) (byteAt shortProgram 16381) = 0x1234 := by
  have hbyte (i : Nat) : byteAt shortProgram (16380 + i) = byteAt #[0x34, 0x12, 0, 0] i := by
    have h := byteAt_append_right (Array.replicate 16380 0xEA) #[0x34, 0x12, 0, 0] i
    rwa [Array.size_replicate] at h
  rw [hbyte 0, hbyte 1]
  decide

theorem shortImage_vector :
    word (byteAt shortImage 16396) (byteAt shortImage 16397) = 0x1234 :=
  (congrArg₂ word (byteAt_append_right shortHeader shortProgram 16380)
    (byteAt_append_right shortHeader shortProgram 16381)).trans shortProgram_vector

end Image

namespace Console

/-- It starts there too from the middle of a transfer, with two bits waiting on the board. -/
theorem restarted_shortImage :
    let cartridge := Image.described Image.shortImage
    let past : List Board.Operation := [.cpuWrite 0xE000 1, .cpuWrite 0xE000 0]
    let history : List (Operation Unit) := [.stepInstruction, .access (.write 0x4014 2), .tick]
    let c : Console Unit := { listener := () }
    let d := (c.insert { cartridge with board := cartridge.board.run past }).2.operated history
    Cartridge.ofImage Image.shortImage = .ok cartridge ∧
      (∀ op ∈ history, op.keepsCartridge = true) ∧ Restarted d d.reset 0x1234 := by
  intro cartridge past history c d
  have hload : Cartridge.ofImage Image.shortImage = .ok cartridge := by
    rw [Image.ofImage_eq, Image.firstFault_eq_none_iff.mpr Image.shortImage_wellFormed]
  have hfits : (Image.layout Image.shortImage).board = 0 →
      (Image.layout Image.shortImage).programUnits ≤ 2 := by
    rw [Image.shortImage_layout]
    decide
  have hkeeps : ∀ op ∈ history, op.keepsCartridge = true := List.all_eq_true.mp rfl
  have hvector : (Image.layout Image.shortImage).patternStart - 4 = 16396 := by
    rw [Image.shortImage_layout]
    rfl
  have hrestarted := reset_starts_program hload hfits past c hkeeps
  dsimp only at hrestarted
  rw [hvector, Image.shortImage_vector] at hrestarted
  exact ⟨hload, hkeeps, hrestarted⟩

end Console
end Famicom
