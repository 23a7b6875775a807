/-
# Putting the same cartridge in again

The registers of a board are on the cartridge, and nothing that a console does when its cartridge is
taken out, or put in, reaches them.  So a cartridge that is put in again **is as it was taken out**
(`slot_exchanged`): its banks, the bits on their way to it, its mirroring and its interrupt are as
the program has left them, and the processor starts at the vector that they show.

One that has just been loaded has its registers as power-on leaves them.  Whether the difference is
noticed can be asked of the board from outside: a cartridge comes back *as new* if, but for what its
memories hold, it cannot be told from a fresh one (`AsNew`).

* A board with no registers always does.
* The latch of a UxROM shows only if its banks differ (`Repeats`).
* An MMC1 keeps the mirroring that a program has chosen, and an MMC3 goes on asking for interrupts.

`eject_keeps_registers` is these together: it says of every image whether its cartridge always comes
back as new.  Where it does not, not even the start is the same: the vector itself can have been in
a bank that the program has changed (`pc_reinserted`).
-/
import Famicom.Proofs.Console.Ejection
import Famicom.Proofs.Console.Restart

namespace Famicom

/-! ## 1. Registers that show -/

/-- Every bank of a program is the first one again. -/
def Repeats (prg : Chip) : Prop := ∀ i, prg.read i = prg.read (i % 0x4000)

/-- Rounded up to whole bits, a number is not less. -/
theorem le_nextPowerOfTwo {n : Nat} (h : n < 256) : n ≤ n.nextPowerOfTwo := by
  have hall : ∀ k : Fin 256, k.val ≤ k.val.nextPowerOfTwo := by decide +kernel
  exact hall ⟨n, h⟩

/-- Every bank that there is can be selected. -/
theorem Uxrom.select_of_lt {size : Nat} (hcount : bankCount size < 256) {bank : UInt8}
    (h : bank.toNat < bankCount size) : select size bank = bank := by
  obtain ⟨k, hk⟩ := Nat.isPowerOfTwo_nextPowerOfTwo (bankCount size)
  have hle : bankCount size ≤ 2 ^ k := hk ▸ le_nextPowerOfTwo hcount
  have hlt := bank.toNat_lt
  have hmask : (bankMask size).toNat = min (2 ^ k - 1) 0xFF := by
    rw [bankMask, hk]
    exact UInt8.toNat_ofNat_of_lt' (by change _ < 256; omega)
  apply UInt8.toNat_inj.mp
  rw [select, UInt8.toNat_and, hmask]
  obtain hsmall | hlarge := Nat.le_total (2 ^ k - 1) 0xFF
  · rw [Nat.min_eq_left hsmall, Nat.and_two_pow_sub_one_eq_mod]
    exact Nat.mod_eq_of_lt (by omega)
  · rw [Nat.min_eq_right hlarge]
    exact (Nat.and_two_pow_sub_one_eq_mod _ 8).trans (Nat.mod_eq_of_lt hlt)

namespace Board

/-- Where all banks are alike, it is of no account which is selected. -/
theorem read_prgOffset_of_repeats {prg : Chip} (h : Repeats prg) (bank : UInt8) (a : UInt16) :
    prg.read (Uxrom.prgOffset bank prg.size a) = prg.read (a.toNat % 0x4000) := by
  rw [h, Uxrom.prgOffset, bankedOffset, Nat.mul_add_mod_self_right, Nat.mod_mod]

/-- Two UxROM boards whose latches differ at most, and whose banks are all alike. -/
inductive SameBanks : Board → Board → Prop
  | mk {chips : Chips} (wired : Mirroring) (bank bank' : UInt8) (h : Repeats chips.prg) :
      SameBanks ⟨chips, .uxrom wired bank⟩ ⟨chips, .uxrom wired bank'⟩

theorem SameBanks.alike {b c : Board} (h : SameBanks b c) : Alike b c := by
  obtain @⟨chips, wired, bank, bank', hrepeats⟩ := h
  refine ⟨fun a => ?_, fun _ => rfl, rfl, rfl⟩
  unfold cpuRead
  split
  · rfl
  split
  · rfl
  · exact (read_prgOffset_of_repeats hrepeats bank a).trans
      (read_prgOffset_of_repeats hrepeats bank' a).symm

/-- A write to the board: its work memory is never shut. -/
theorem cpuWrite_uxrom (chips : Chips) (wired : Mirroring) (bank : UInt8) (a : UInt16)
    (v : UInt8) :
    cpuWrite ⟨chips, .uxrom wired bank⟩ a v =
      if a < 0x6000 then ⟨chips, .uxrom wired bank⟩
      else if a < 0x8000 then ⟨chips.writeRam a v, .uxrom wired bank⟩
      else ⟨chips, .uxrom wired (Uxrom.select chips.prg.size v)⟩ := rfl

/-- **Every operation leaves them so.** -/
theorem SameBanks.after {b c : Board} (h : SameBanks b c) (op : Operation) :
    SameBanks (b.after op) (c.after op) := by
  have hprg := b.prg_after op
  obtain @⟨chips, wired, bank, bank', hrepeats⟩ := h
  have hkept {chips' : Chips} (h : chips'.prg = chips.prg) (one other : UInt8) :
      SameBanks ⟨chips', .uxrom wired one⟩ ⟨chips', .uxrom wired other⟩ :=
    ⟨wired, one, other, h ▸ hrepeats⟩
  cases op with
  | cpuWrite a v =>
    simp only [Board.after, cpuWrite_uxrom] at hprg ⊢
    split_ifs at hprg ⊢
    · exact hkept hprg _ _
    · exact hkept hprg _ _
    · exact hkept hprg _ _
  | ppuWrite a v => exact hkept hprg _ _
  | observe a => exact hkept hprg _ _
  | reset => exact hkept hprg _ _

end Board

/-! ## 2. Out and in again -/

/-- A cartridge with the registers of another; what its memories hold stays. -/
def Cartridge.renewed (c loaded : Cartridge) : Cartridge :=
  { c with board := { c.board with mapper := loaded.board.mapper } }

namespace Console

variable {σ : Type}

/-- What is put in is in the slot. -/
theorem slot_insert (c : Console σ) (cartridge : Cartridge) :
    (c.insert cartridge).2.board.video.slot = some cartridge := by
  rw [insert_board]
  rfl

/-- The processor starts at the vector that the cartridge shows. -/
theorem pc_insert (c : Console σ) (cartridge : Cartridge) :
    (c.insert cartridge).2.cpu.regs.pc =
      word (cartridge.board.cpuRead 0xFFFC) (cartridge.board.cpuRead 0xFFFD) := by
  have hlow := Mainboard.read_cartridge (by decide : Mainboard.device Cpu.resetVector = .cartridge)
  have hhigh :=
    Mainboard.read_cartridge (by decide : Mainboard.device (Cpu.resetVector + 1) = .cartridge)
  simp only [insert, Cpu.reset, Cpu.restart, hlow, hhigh]
  rfl

/-- The console after its cartridge has been taken out and this one put in. -/
def exchanged (c : Console σ) (cartridge : Cartridge) : Console σ := (c.eject.2.insert cartridge).2

theorem slot_exchanged (c : Console σ) (cartridge : Cartridge) :
    (c.exchanged cartridge).board.video.slot = some cartridge := slot_insert _ _

/-- **The cartridge of a console comes back as new**: taken out and put in again, it starts the
processor where one with the registers of `loaded` does, and cannot be told from it afterwards. -/
def AsNew (loaded : Cartridge) (c : Console σ) : Prop :=
  ∃ taken again fresh, c.eject.1 = some taken ∧
    (c.exchanged taken).board.video.slot = some again ∧
    (c.exchanged (taken.renewed loaded)).board.video.slot = some fresh ∧
    (c.exchanged taken).cpu.regs.pc = (c.exchanged (taken.renewed loaded)).cpu.regs.pc ∧
    again.board.Indistinguishable fresh.board

/-- It does if the registers do not show as the program has left them. -/
theorem asNew_iff {c : Console σ} {taken : Cartridge} (hslot : c.board.video.slot = some taken)
    (loaded : Cartridge) :
    AsNew loaded c ↔ taken.board.Indistinguishable (taken.renewed loaded).board := by
  constructor
  · rintro ⟨taken', again, fresh, htaken, hagain, hfresh, -, h⟩
    obtain rfl : taken = taken' := Option.some.inj (hslot.symm.trans htaken)
    obtain rfl := Option.some.inj ((c.slot_exchanged taken).symm.trans hagain)
    obtain rfl := Option.some.inj ((c.slot_exchanged (taken.renewed loaded)).symm.trans hfresh)
    exact h
  · intro h
    refine ⟨taken, taken, taken.renewed loaded, hslot, slot_exchanged _ _, slot_exchanged _ _,
      ?_, h⟩
    have hvector := (h []).cpuRead
    rw [exchanged, exchanged, pc_insert, pc_insert]
    exact congrArg₂ word (hvector 0xFFFC) (hvector 0xFFFD)

/-! ## 3. What a program can leave behind -/

variable [FrameListener σ]

/-- Writes from outside reach the board in the slot. -/
theorem slot_operated_writes {c : Console σ} {cartridge : Cartridge}
    (hslot : c.board.video.slot = some cartridge) (writes : List (UInt16 × UInt8))
    (h : ∀ w ∈ writes, Mainboard.device w.1 = .cartridge) :
    (c.operated (writes.map fun w => .access (.write w.1 w.2))).board.video.slot =
      some { cartridge with
        board := cartridge.board.run (writes.map fun w => .cpuWrite w.1 w.2) } := by
  induction writes generalizing c cartridge with
  | nil => exact hslot
  | cons w writes ih =>
    have hwritten : (c.operate (.access (.write w.1 w.2))).board.video.slot =
        some { cartridge with board := cartridge.board.cpuWrite w.1 w.2 } := by
      change (c.board.write w.1 w.2).video.slot = _
      simp only [Mainboard.write, h w List.mem_cons_self, hslot]
      rfl
    exact ih hwritten fun w' hw' => h w' (List.mem_cons_of_mem _ hw')

/-- Five bits put the first bank of an MMC1 where the vector is.  Of two units, the processor starts
at a word of the first when the cartridge comes back, and with a new one at a word of the second. -/
theorem pc_reinserted {loaded : Cartridge} {chips : Chips} (hboard : loaded.board = .mmc1 chips)
    (hsize : chips.prg.size = 32768) (c : Console σ) :
    let history : List (Operation σ) := [0, 0, 0, 1, 0].map fun v => .access (.write 0x8000 v)
    let d := (c.insert loaded).2.operated history
    ∃ taken, d.eject.1 = some taken ∧
      (d.exchanged taken).cpu.regs.pc = word (chips.prg.read 0x3FFC) (chips.prg.read 0x3FFD) ∧
      (d.exchanged (taken.renewed loaded)).cpu.regs.pc =
        word (chips.prg.read 0x7FFC) (chips.prg.read 0x7FFD) := by
  intro history d
  obtain ⟨header, board⟩ := loaded
  obtain rfl : board = .mmc1 chips := hboard
  have hslot : d.board.video.slot = some ⟨header, ⟨chips, .mmc1 { control := 0x08 }⟩⟩ :=
    slot_operated_writes (slot_insert c _) ([0, 0, 0, 1, 0].map fun v => (0x8000, v))
      (List.forall_mem_map.mpr fun _ _ => rfl)
  have hread (r : Mmc1) {a : UInt16} (ha : ¬a < 0x6000 ∧ ¬a < 0x8000) :
      Board.cpuRead ⟨chips, .mmc1 r⟩ a = chips.prg.read (r.prgOffset 32768 a) := by
    rw [Board.cpuRead, if_neg ha.1, if_neg ha.2, ← hsize]
    rfl
  refine ⟨_, hslot, (pc_insert _ _).trans ?_, (pc_insert _ _).trans ?_⟩
  · exact congrArg₂ word (hread _ (by decide)) (hread _ (by decide))
  · exact congrArg₂ word (hread {} (by decide)) (hread {} (by decide))

end Console

/-! ## 4. Which boards come back as new -/

namespace Board

/-- An MMC1 keeps the mirroring that a program has chosen. -/
theorem mmc1_keeps_mirroring (chips : Chips) :
    let b := (mmc1 chips).run ([0, 1, 1, 1, 0].map fun v => .cpuWrite 0x8000 v)
    ¬Indistinguishable b ⟨b.chips, .mmc1 {}⟩ := by
  intro b h
  have hmirroring : Mirroring.vertical = .singleLower := (h []).mirroring
  exact Mirroring.noConfusion hmirroring

/-- An MMC3 still asks for interrupts if a program has let it. -/
theorem mmc3_keeps_asking (chips : Chips) (wired : Mirroring) :
    let b := (mmc3 chips wired).run [.cpuWrite 0xE001 0]
    ¬Indistinguishable b ⟨b.chips, .mmc3 (.powerOn wired)⟩ := by
  intro b h
  -- A first rise brings the counter to its latch, and that is 0.
  have hirq : true = false :=
    (h [.observe 0, .observe 0, .observe 0, .observe 0x1000]).irq
  exact Bool.noConfusion hirq

section Kinds

variable {kind : Kind} {chips : Chips} {wired : Mirroring}

/-- A board without registers, or with a latch that does not show, is always as new. -/
theorem indistinguishable_renewed (h : kind = .nrom ∨ kind = .uxrom ∧ Repeats chips.prg)
    (done : List Operation) :
    Indistinguishable ((powerOn kind chips wired).run done)
      ⟨((powerOn kind chips wired).run done).chips, (powerOn kind chips wired).mapper⟩ := by
  obtain ⟨hlogic, -⟩ := (isOf_powerOn kind chips wired).run done
  have hprg := (powerOn kind chips wired).prg_run done
  generalize (powerOn kind chips wired).run done = b at hlogic hprg ⊢
  obtain ⟨chips', m⟩ := b
  obtain rfl | ⟨rfl, hrepeats⟩ := h
  · cases hlogic
    exact .refl _
  · cases hlogic with
    | uxrom bank =>
      exact .of_relation (fun _ _ => SameBanks.alike) (fun _ _ op h => h.after op)
        ⟨wired, bank, 0, hprg ▸ hrepeats⟩

/-- What the switched window of a UxROM shows. -/
theorem cpuRead_switched (chips : Chips) (wired : Mirroring) (bank : UInt8) (i : Nat) :
    cpuRead ⟨chips, .uxrom wired bank⟩ (.ofNat (0x8000 + i % 0x4000)) =
      chips.prg.read (bank.toNat % Uxrom.bankCount chips.prg.size * 0x4000 + i % 0x4000) := by
  have hi : i % 0x4000 < 0x4000 := Nat.mod_lt _ (by decide)
  have ha : (UInt16.ofNat (0x8000 + i % 0x4000)).toNat = 0x8000 + i % 0x4000 :=
    UInt16.toNat_ofNat_of_lt' (by change _ < 65536; omega)
  have hbelow {b : UInt16} (h : b.toNat ≤ 0x8000) : ¬UInt16.ofNat (0x8000 + i % 0x4000) < b := by
    rw [UInt16.lt_iff_toNat_lt, ha]
    omega
  have hswitched : UInt16.ofNat (0x8000 + i % 0x4000) < 0xC000 := by
    rw [UInt16.lt_iff_toNat_lt, ha]
    change _ < 0xC000
    omega
  rw [cpuRead, if_neg (hbelow (by decide)), if_neg (hbelow (by decide))]
  change chips.prg.read (Uxrom.prgOffset bank chips.prg.size _) = _
  rw [Uxrom.prgOffset, if_pos hswitched, ha, bankedOffset, ← Uxrom.bankCount]
  congr 2
  omega

variable (wired) in
/-- Conversely, if no bank that is selected shows, then all banks are alike. -/
theorem repeats_of_latch (hcount : Uxrom.bankCount chips.prg.size < 256)
    (hsize : chips.prg.size = 0x4000 * Uxrom.bankCount chips.prg.size)
    (h : ∀ bank : UInt8, Indistinguishable ((uxrom chips wired).run [.cpuWrite 0x8000 bank])
      (uxrom chips wired)) : Repeats chips.prg := by
  intro i
  generalize hj : i % chips.prg.size = j
  have hpos : 0 < Uxrom.bankCount chips.prg.size := by
    rw [Uxrom.bankCount]
    omega
  have hj' : j < 0x4000 * Uxrom.bankCount chips.prg.size := by
    rw [← hj, ← hsize]
    exact Nat.mod_lt _ (by omega)
  have hlt : j / 0x4000 < Uxrom.bankCount chips.prg.size := Nat.div_lt_of_lt_mul hj'
  have hmod : j % 0x4000 = i % 0x4000 := by
    rw [← hj, hsize, Nat.mod_mul_right_mod]
  -- The bank in which the byte is can be selected, and shows it.
  have hbank : (UInt8.ofNat (j / 0x4000)).toNat = j / 0x4000 :=
    UInt8.toNat_ofNat_of_lt' (hlt.trans hcount)
  have hselect : Uxrom.select chips.prg.size (.ofNat (j / 0x4000)) = .ofNat (j / 0x4000) :=
    Uxrom.select_of_lt hcount (by rwa [hbank])
  have hshown (bank : UInt8) := cpuRead_switched { chips with ram := #[] } wired bank i
  have hread : cpuRead ⟨_, .uxrom wired (Uxrom.select chips.prg.size _)⟩ _ = _ :=
    (h (.ofNat (j / 0x4000)) []).cpuRead (.ofNat (0x8000 + i % 0x4000))
  rw [hselect, hshown] at hread
  calc chips.prg.read i = chips.prg.read j := by rw [← hj, Chip.read, Chip.read, Nat.mod_mod]
    _ = chips.prg.read (j / 0x4000 % Uxrom.bankCount chips.prg.size * 0x4000 + i % 0x4000) := by
      rw [Nat.mod_eq_of_lt hlt, ← hmod, Nat.div_add_mod']
    _ = cpuRead ⟨{ chips with ram := #[] }, .uxrom wired 0⟩ (.ofNat (0x8000 + i % 0x4000)) := by
      rw [← hbank]
      exact hread
    _ = chips.prg.read (i % 0x4000) := by
      rw [hshown, UInt8.toNat_zero, Nat.zero_mod, Nat.zero_mul, Nat.zero_add]

/-- **Every other board can be left so that it is told from a new one**, by what the processor, the
picture unit or the interrupt line sees of it. -/
theorem exists_telling_writes (hcount : Uxrom.bankCount chips.prg.size < 256)
    (hsize : chips.prg.size = 0x4000 * Uxrom.bankCount chips.prg.size)
    (h : ¬(kind = .nrom ∨ kind = .uxrom ∧ Repeats chips.prg)) :
    ∃ writes : List (UInt16 × UInt8), (∀ w ∈ writes, Mainboard.device w.1 = .cartridge) ∧
      let b := (powerOn kind chips wired).run (writes.map fun w => .cpuWrite w.1 w.2)
      ¬Indistinguishable b ⟨b.chips, (powerOn kind chips wired).mapper⟩ := by
  cases kind with
  | nrom => exact absurd (.inl rfl) h
  | mmc1 =>
    exact ⟨[0, 1, 1, 1, 0].map fun v => (0x8000, v), List.forall_mem_map.mpr fun _ _ => rfl,
      mmc1_keeps_mirroring chips⟩
  | uxrom =>
    by_contra hnone
    refine h (.inr ⟨rfl, repeats_of_latch wired hcount hsize fun bank => ?_⟩)
    by_contra hbank
    exact hnone ⟨[(0x8000, bank)], List.forall_mem_singleton.mpr rfl, hbank⟩
  | mmc3 =>
    exact ⟨[(0xE001, 0)], List.forall_mem_singleton.mpr rfl, mmc3_keeps_asking chips wired⟩

end Kinds

end Board

/-! ## 5. Which cartridges do -/

namespace Image

variable {image : Chip}

/-- A UxROM has a bank for every unit of the program. -/
theorem bankCount_program (h : WellFormed image) :
    Uxrom.bankCount (chips image).prg.size = (layout image).programUnits := by
  have hunits := h.program
  rw [Uxrom.bankCount, size_program h]
  omega

/-- A header for an MMC1 with two units of program. -/
def doubleHeader : Chip := #[0x4E, 0x45, 0x53, 0x1A, 2, 0, 0x10, 0, 0, 0, 0, 0, 0, 0, 0, 0]

/-- Two units that do nothing.  The vector at the end of the second is `$1234`; at the end of the
first it would be `$EAEA`. -/
def doubleImage : Chip := doubleHeader ++ (Array.replicate 16384 0xEA ++ shortProgram)

theorem doubleImage_layout : layout doubleImage = ⟨2, 0, false, 1⟩ := layout_append _ rfl

theorem doubleImage_wellFormed : WellFormed doubleImage := by
  have hsize : doubleImage.size = 32784 := by
    rw [doubleImage, shortProgram, Array.size_append, Array.size_append, Array.size_append,
      Array.size_replicate, Array.size_replicate]
    rfl
  exact
    { header := by rw [hsize]; decide
      start := start_append _ rfl
      program := by rw [doubleImage_layout]; decide
      size := by rw [doubleImage_layout, hsize]; decide
      board := by rw [doubleImage_layout]; decide }

theorem ofImage_doubleImage : Cartridge.ofImage doubleImage = .ok (described doubleImage) := by
  rw [ofImage_eq, firstFault_eq_none_iff.mpr doubleImage_wellFormed]

theorem doubleImage_vectors :
    let prg := (chips doubleImage).prg
    word (prg.read 0x3FFC) (prg.read 0x3FFD) = 0xEAEA ∧
      word (prg.read 0x7FFC) (prg.read 0x7FFD) = 0x1234 := by
  intro prg
  have hread {i : Nat} (hi : i < 32768) :
      prg.read i = byteAt (Array.replicate 16384 0xEA ++ shortProgram) i := by
    rw [read_program doubleImage_wellFormed (by rw [doubleImage_layout]; exact hi),
      doubleImage_layout]
    exact byteAt_append_right doubleHeader _ i
  have hfirst {i : Nat} (hi : i < 16384) : prg.read i = 0xEA := by
    rw [hread (hi.trans (by decide)),
      byteAt_append_left _ _ (by rwa [Array.size_replicate]), byteAt,
      Array.getD_eq_getD_getElem?, Array.getElem?_replicate, if_pos hi, Option.getD_some]
  have hsecond {i : Nat} (hi : i < 16384) :
      prg.read (16384 + i) = byteAt shortProgram i := by
    have h := byteAt_append_right (Array.replicate 16384 0xEA) shortProgram i
    rw [Array.size_replicate] at h
    rw [hread (by omega), h]
  rw [hfirst (by decide : 0x3FFC < 16384), hfirst (by decide : 0x3FFD < 16384),
    hsecond (by decide : 16380 < 16384), hsecond (by decide : 16381 < 16384)]
  exact ⟨by decide, shortProgram_vector⟩

theorem board_of_mmc1 {image : Chip} (h : (layout image).board = 1) :
    (described image).board = .mmc1 (chips image) := by
  rw [described, h]
  rfl

end Image

namespace Console

variable {σ : Type} [FrameListener σ]

section PoweredOn

variable {loaded : Cartridge} {kind : Board.Kind} {chips : Chips} {wired : Mirroring}
  (hboard : loaded.board = .powerOn kind chips wired)

include hboard

/-- Such a cartridge always comes back as new, -/
theorem asNew_operated (h : kind = .nrom ∨ kind = .uxrom ∧ Repeats chips.prg) (c : Console σ)
    {history : List (Operation σ)} (hkeeps : ∀ op ∈ history, op.keepsCartridge = true) :
    AsNew loaded ((c.insert loaded).2.operated history) := by
  obtain ⟨done, hslot⟩ := descends_operated ⟨[], slot_insert c loaded⟩ hkeeps
  refine (asNew_iff hslot loaded).mpr ?_
  change Board.Indistinguishable (loaded.board.run done)
    ⟨(loaded.board.run done).chips, loaded.board.mapper⟩
  rw [hboard]
  exact Board.indistinguishable_renewed h done

/-- and any other may have been left so that it does not. -/
theorem exists_not_asNew (hcount : Uxrom.bankCount chips.prg.size < 256)
    (hsize : chips.prg.size = 0x4000 * Uxrom.bankCount chips.prg.size)
    (h : ¬(kind = .nrom ∨ kind = .uxrom ∧ Repeats chips.prg)) (c : Console σ) :
    ∃ history : List (Operation σ), (∀ op ∈ history, op.keepsCartridge = true) ∧
      ¬AsNew loaded ((c.insert loaded).2.operated history) := by
  obtain ⟨writes, haddress, htold⟩ := Board.exists_telling_writes hcount hsize h
  refine ⟨writes.map fun w => .access (.write w.1 w.2), ?_, ?_⟩
  · rw [List.forall_mem_map]
    exact fun _ _ => rfl
  · rw [asNew_iff (slot_operated_writes (slot_insert c loaded) writes haddress)]
    change ¬Board.Indistinguishable (loaded.board.run _)
      ⟨(loaded.board.run _).chips, loaded.board.mapper⟩
    rw [hboard]
    exact htold

end PoweredOn

/-- **A cartridge comes back as it was taken out.**  Put a cartridge with an image of any size into
any console, do whatever you like but change cartridges, and take it out: what is handed back is
what was in the slot, and it is there again, registers and all, once it has been put in.  The
processor starts at the vector that those registers show.

So it comes back as new, whatever was done, exactly if its board has no registers, or only a latch
that chooses among banks that are all alike. -/
theorem eject_keeps_registers {image : Chip} {loaded : Cartridge}
    (hload : Cartridge.ofImage image = .ok loaded) (c : Console σ) :
    (∀ history : List (Operation σ), (∀ op ∈ history, op.keepsCartridge = true) →
      let d := (c.insert loaded).2.operated history
      ∃ taken, d.board.video.slot = some taken ∧ d.eject.1 = some taken ∧
        (d.exchanged taken).board.video.slot = some taken ∧
        (d.exchanged taken).cpu.regs.pc =
          word (taken.board.cpuRead 0xFFFC) (taken.board.cpuRead 0xFFFD)) ∧
    ((∀ history : List (Operation σ), (∀ op ∈ history, op.keepsCartridge = true) →
        AsNew loaded ((c.insert loaded).2.operated history)) ↔
      loaded.header.mapper = 0 ∨
        loaded.header.mapper = 2 ∧ Repeats loaded.board.chips.prg) := by
  constructor
  · intro history hkeeps
    obtain ⟨done, hslot⟩ := descends_operated ⟨[], slot_insert c loaded⟩ hkeeps
    exact ⟨_, hslot, hslot, slot_exchanged _ _, pc_insert _ _⟩
  · obtain ⟨hw, rfl⟩ := Image.wellFormed_of_ofImage hload
    have hcount := Image.bankCount_program hw
    have hunits : (Image.layout image).programUnits < 256 := (Image.byteAt image 4).toNat_lt
    have hboard : (Image.described image).board = .powerOn (.ofNumber (Image.layout image).board)
        (Image.chips image) (Image.header image).mirroring := rfl
    have hprg : (Image.described image).board.chips.prg = (Image.chips image).prg := by
      rw [hboard, Board.chips_powerOn]
    have hmapper : (Image.described image).header.mapper = (Image.layout image).board :=
      Image.header_mapper
    rw [hprg, hmapper, ← Board.Kind.ofNumber_eq_nrom, ← Board.Kind.ofNumber_eq_uxrom]
    constructor
    · intro hall
      by_contra hnot
      obtain ⟨history, hkeeps, htold⟩ := exists_not_asNew hboard (hcount.trans_lt hunits)
        (by rw [hcount, Image.size_program hw]) hnot c
      exact htold (hall history hkeeps)
    · exact fun h history hkeeps => asNew_operated hboard h c hkeeps

/-- Of the image of two units a cartridge comes back as it was, and that is not always as new. -/
theorem eject_keeps_registers_doubleImage :
    let loaded := Image.described Image.doubleImage
    let history : List (Operation Unit) := [.stepInstruction, .access (.write 0x8000 1)]
    let c : Console Unit := { listener := () }
    let d := (c.insert loaded).2.operated history
    Cartridge.ofImage Image.doubleImage = .ok loaded ∧
      (∃ taken, d.eject.1 = some taken ∧ (d.exchanged taken).board.video.slot = some taken) ∧
      ¬∀ history : List (Operation Unit), (∀ op ∈ history, op.keepsCartridge = true) →
        AsNew loaded ((c.insert loaded).2.operated history) := by
  intro loaded history c d
  obtain ⟨hkept, hnew⟩ := eject_keeps_registers Image.ofImage_doubleImage c
  obtain ⟨taken, -, htaken, hagain, -⟩ := hkept history (List.all_eq_true.mp rfl)
  refine ⟨Image.ofImage_doubleImage, ⟨taken, htaken, hagain⟩, fun h => ?_⟩
  have hmapper : loaded.header.mapper = 1 := by
    change (Image.header Image.doubleImage).mapper = 1
    rw [Image.header_mapper, Image.doubleImage_layout]
  have hkind := hnew.mp h
  rw [hmapper] at hkind
  omega

/-- And once the program has exchanged the banks, it does not even start where a new one would. -/
theorem reinserted_starts_elsewhere :
    let loaded := Image.described Image.doubleImage
    let history : List (Operation Unit) :=
      [0, 0, 0, 1, 0].map fun v => .access (.write 0x8000 v)
    let c : Console Unit := { listener := () }
    let d := (c.insert loaded).2.operated history
    Cartridge.ofImage Image.doubleImage = .ok loaded ∧
      (∀ op ∈ history, op.keepsCartridge = true) ∧
      (∃ taken, d.eject.1 = some taken ∧ (d.exchanged taken).cpu.regs.pc = 0xEAEA ∧
        (d.exchanged (taken.renewed loaded)).cpu.regs.pc = 0x1234) ∧
      ¬AsNew loaded d := by
  intro loaded history c d
  have hboard : loaded.board = .mmc1 (Image.chips Image.doubleImage) :=
    Image.board_of_mmc1 (by rw [Image.doubleImage_layout])
  have hsize : (Image.chips Image.doubleImage).prg.size = 32768 := by
    rw [Image.size_program Image.doubleImage_wellFormed, Image.doubleImage_layout]
    rfl
  obtain ⟨taken, htaken, hpc, hfresh⟩ := pc_reinserted hboard hsize c
  obtain ⟨hfirst, hsecond⟩ := Image.doubleImage_vectors
  rw [hfirst] at hpc
  rw [hsecond] at hfresh
  refine ⟨Image.ofImage_doubleImage, List.all_eq_true.mp rfl, ⟨taken, htaken, hpc, hfresh⟩, ?_⟩
  rintro ⟨taken', again, fresh, htaken', -, -, hsame, -⟩
  obtain rfl : taken = taken' := Option.some.inj (htaken.symm.trans htaken')
  exact absurd (hpc.symm.trans (hsame.trans hfresh)) (by decide)

end Console
end Famicom
