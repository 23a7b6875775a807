/-
# A transfer in the console

While a transfer runs the processor stands still and the picture unit goes on.  So three things have
to be followed through its cycles at once, and they keep out of each other's way:

* the **processor** is not touched at all, but for a request that blanking may leave with it;
* the **picture unit** makes three dots in every cycle.  While nothing is shown, a dot reaches
  neither sprite memory nor the place in it (`Ppu.tick_port`);
* the **transfer** goes from stage to stage: it waits, and then reads and hands over a byte in every
  two cycles.  `Carried` is what holds after a number of bytes, and two cycles take it to the next
  (`Carried.next`).

`carriesOut` puts them together: **from the cycle in which a program names a page, the console
carries out the transfer of that page**, for as many cycles as the parity of that cycle asks for,
and then goes on with the program.
-/
import Famicom.Console
import Famicom.Proofs.Cpu.Traffic
import Famicom.Proofs.Transfer.Stages

namespace Famicom

/-! ## 1. Dots while nothing is shown -/

namespace Ppu

/-- The same, some dots later. -/
def Port.afterDots (n : Nat) (q : Port) : Port :=
  { q with raster := (fun r => r.next false)^[n] q.raster }

theorem Port.afterDots_add (m n : Nat) (q : Port) :
    q.afterDots (m + n) = (q.afterDots n).afterDots m := by
  simp only [afterDots, Function.iterate_add_apply]

/-- Dots change no settings. -/
theorem mask_of_afterDots {p q : Ppu} {n : Nat} (h : p.port = q.port.afterDots n) :
    p.mask = q.mask := mask_of_port h

/-- Each of them moves the raster. -/
theorem raster_of_afterDots {p q : Ppu} {n : Nat} (h : p.port = q.port.afterDots n) :
    p.raster = (fun r => r.next false)^[n] q.raster := raster_of_port h

/-- A byte has come to the current place, which has moved on. -/
def Port.stored (v : UInt8) (q : Port) : Port :=
  { q with oam := q.oam.write q.oamAddress.toNat v, oamAddress := q.oamAddress + 1 }

theorem writeOam_port (p : Ppu) (v : UInt8) : (p.writeOam v).port = p.port.stored v := rfl

theorem clearReports_port (p : Ppu) : p.clearReports.port = p.port := by
  unfold clearReports
  split <;> rfl

theorem beginBlanking_port (p : Ppu) : p.beginBlanking.port = p.port := by
  unfold beginBlanking
  split <;> rfl

theorem takeNmiRequest_port (p : Ppu) : p.takeNmiRequest.2.port = p.port := by
  unfold takeNmiRequest
  dsimp only
  split <;> rfl

theorem takeFrameComplete_port (p : Ppu) : p.takeFrameComplete.2.port = p.port := by
  unfold takeFrameComplete
  dsimp only
  split <;> rfl

/-- **While nothing is shown, a dot moves the raster and reaches nothing of a transfer.** -/
theorem tick_port {μ : Type} [AddressBus μ] {p : Ppu} (hr : p.mask.rendering = false) (mem : μ) :
    (p.tick mem).1.port = p.port.afterDots 1 := by
  have hpixel (q : Ppu) (shown : Bool) : (if shown then q.pixelDot else q).port = q.port := by
    split <;> rfl
  have hlast (q : Ppu) : ({ q with raster := q.raster.next false } : Ppu).port =
      q.port.afterDots 1 := rfl
  unfold tick
  simp only [hr, Bool.false_and, Bool.false_eq_true, if_false]
  rw [hlast, beginBlanking_port, hpixel, clearReports_port]

end Ppu

namespace Mainboard

theorem tickPpu_dma (m : Mainboard) : m.tickPpu.dma = m.dma := by
  cases m
  simp only [tickPpu]

theorem tickPpu_port {m : Mainboard} (hr : m.ppu.mask.rendering = false) :
    m.tickPpu.ppu.port = m.ppu.port.afterDots 1 := by
  rw [← Ppu.tick_port hr m.video]
  cases m
  simp only [tickPpu]

/-- The three dots of a cycle. -/
theorem tickPpu_thrice_port {m : Mainboard} (hr : m.ppu.mask.rendering = false) :
    m.tickPpu.tickPpu.tickPpu.ppu.port = m.ppu.port.afterDots 3 := by
  have h1 := tickPpu_port hr
  have hr1 : m.tickPpu.ppu.mask.rendering = false := by
    rw [Ppu.mask_of_afterDots h1, hr]
  have h2 := tickPpu_port hr1
  have hr2 : m.tickPpu.tickPpu.ppu.mask.rendering = false := by
    rw [Ppu.mask_of_afterDots h2, hr1]
  rw [tickPpu_port hr2, h2, h1, ← Ppu.Port.afterDots_add, ← Ppu.Port.afterDots_add]

/-- A cycle of the transfer reaches neither the mask nor the raster. -/
theorem stepDma_scan (m : Mainboard) :
    m.stepDma.2.ppu.mask = m.ppu.mask ∧ m.stepDma.2.ppu.raster = m.ppu.raster := by
  cases h : m.dma.next with
  | idle => simp only [stepDma, h, and_self]
  | align => simp only [stepDma, h, and_self]
  | read a =>
    rw [stepDma_read h]
    have hport := read_port m a
    exact ⟨Ppu.mask_of_port hport, Ppu.raster_of_port hport⟩
  | write v => simp only [stepDma, h, Ppu.writeOam, and_self]

end Mainboard

namespace Console

open SpriteDma

variable {σ : Type} [FrameListener σ]

/-! ## 2. One cycle -/

/-- What a cycle leaves of the mainboard, once the processor or the transfer has had it. -/
theorem tick_board (c : Console σ) :
    c.tick.2.board =
      (deliverFrame c.listener
        (forwardNmi (processorCycle c.cpu c.board.beginCycle).1
          (processorCycle c.cpu c.board.beginCycle).2.tickPpu.tickPpu.tickPpu).2).2.2 := by
  cases c
  simp only [tick]

theorem forwardNmi_dma (cpu : Cpu) (m : Mainboard) : (forwardNmi cpu m).2.dma = m.dma := rfl

theorem forwardNmi_port (cpu : Cpu) (m : Mainboard) :
    (forwardNmi cpu m).2.ppu.port = m.ppu.port := Ppu.takeNmiRequest_port m.ppu

theorem deliverFrame_dma (listener : σ) (m : Mainboard) :
    (deliverFrame listener m).2.2.dma = m.dma := rfl

theorem deliverFrame_port (listener : σ) (m : Mainboard) :
    (deliverFrame listener m).2.2.ppu.port = m.ppu.port := Ppu.takeFrameComplete_port m.ppu

theorem tick_dma (c : Console σ) :
    c.tick.2.board.dma = (processorCycle c.cpu c.board.beginCycle).2.dma := by
  rw [tick_board, deliverFrame_dma, forwardNmi_dma, Mainboard.tickPpu_dma, Mainboard.tickPpu_dma,
    Mainboard.tickPpu_dma]

theorem tick_port {c : Console σ}
    (hr : (processorCycle c.cpu c.board.beginCycle).2.ppu.mask.rendering = false) :
    c.tick.2.board.ppu.port =
      (processorCycle c.cpu c.board.beginCycle).2.ppu.port.afterDots 3 := by
  rw [tick_board, deliverFrame_port, forwardNmi_port, Mainboard.tickPpu_thrice_port hr]

/-- Besides its own cycle, the processor is told at most of an interrupt. -/
theorem tick_cpu (c : Console σ) : ∃ nmi,
    c.tick.2.cpu = { (processorCycle c.cpu c.board.beginCycle).1 with nmi } ∧
      ((processorCycle c.cpu c.board.beginCycle).1.nmi = true → nmi = true) := by
  have hcpu : c.tick.2.cpu =
      (forwardNmi (processorCycle c.cpu c.board.beginCycle).1
        (processorCycle c.cpu c.board.beginCycle).2.tickPpu.tickPpu.tickPpu).1 := by
    cases c
    simp only [tick]
  rw [hcpu]
  generalize (processorCycle c.cpu c.board.beginCycle).1 = cpu
  generalize (processorCycle c.cpu c.board.beginCycle).2.tickPpu.tickPpu.tickPpu = board
  unfold forwardNmi
  dsimp only
  split
  · exact ⟨cpu.nmi || !cpu.isEntering, rfl, fun h => by rw [h, Bool.true_or]⟩
  · exact ⟨cpu.nmi, rfl, id⟩

theorem processorCycle_of_active {m : Mainboard} (h : m.dma.active = true) (cpu : Cpu) :
    processorCycle cpu m = (cpu, m.stepDma.2) := if_pos h

theorem processorCycle_of_idle {m : Mainboard} (h : m.dma.active = false) (cpu : Cpu) :
    processorCycle cpu m = cpu.tick m := by
  rw [processorCycle, h]
  rfl

/-! ## 3. Cycles of a transfer -/

/-- The byte that an address answers in the next cycle. -/
def answer (c : Console σ) (a : UInt16) : UInt8 := (c.board.beginCycle.read a).1

section Stalled

variable {c : Console σ} (hr : c.board.ppu.mask.rendering = false)

theorem tick_dma_of_active (ha : c.board.dma.active = true) :
    c.tick.2.board.dma = c.board.beginCycle.stepDma.2.dma := by
  have ha' : c.board.beginCycle.dma.active = true := ha
  rw [tick_dma, processorCycle_of_active ha']

include hr

theorem tick_port_of_active (ha : c.board.dma.active = true) :
    c.tick.2.board.ppu.port = c.board.beginCycle.stepDma.2.ppu.port.afterDots 3 := by
  have ha' : c.board.beginCycle.dma.active = true := ha
  have hmask : c.board.beginCycle.stepDma.2.ppu.mask = c.board.ppu.mask :=
    c.board.beginCycle.stepDma_scan.1
  have hcycle := processorCycle_of_active ha' c.cpu
  rw [tick_port (by rw [hcycle, hmask, hr]), hcycle]

theorem tick_align (h : c.board.dma.next = .align) :
    c.tick.2.board.dma = c.board.dma.advance 0 ∧
      c.tick.2.board.ppu.port = c.board.ppu.port.afterDots 3 := by
  have ha : c.board.dma.active = true := active_of_next_ne_idle (by rw [h]; exact Cycle.noConfusion)
  have h' : c.board.beginCycle.dma.next = .align := h
  rw [tick_dma_of_active ha, tick_port_of_active hr ha, Mainboard.stepDma_align h']
  exact ⟨rfl, rfl⟩

theorem tick_read {a : UInt16} (h : c.board.dma.next = .read a) :
    c.tick.2.board.dma = c.board.dma.advance (c.answer a) ∧
      c.tick.2.board.ppu.port = c.board.ppu.port.afterDots 3 := by
  have ha : c.board.dma.active = true := active_of_next_ne_idle (by rw [h]; exact Cycle.noConfusion)
  have h' : c.board.beginCycle.dma.next = .read a := h
  rw [tick_dma_of_active ha, tick_port_of_active hr ha, Mainboard.stepDma_read h']
  exact ⟨rfl, congrArg (Ppu.Port.afterDots 3) (Mainboard.read_port _ a)⟩

theorem tick_write {v : UInt8} (h : c.board.dma.next = .write v) :
    c.tick.2.board.dma = c.board.dma.advance 0 ∧
      c.tick.2.board.ppu.port = (c.board.ppu.port.stored v).afterDots 3 := by
  have ha : c.board.dma.active = true := active_of_next_ne_idle (by rw [h]; exact Cycle.noConfusion)
  have h' : c.board.beginCycle.dma.next = .write v := h
  rw [tick_dma_of_active ha, tick_port_of_active hr ha, Mainboard.stepDma_write h']
  exact ⟨rfl, congrArg (Ppu.Port.afterDots 3) (Ppu.writeOam_port _ v)⟩

end Stalled

/-! ## 4. Some cycles later -/

/-- The console some cycles later. -/
def after (c : Console σ) (n : Nat) : Console σ := (fun c => c.tick.2)^[n] c

theorem after_succ (c : Console σ) (n : Nat) : c.after (n + 1) = (c.after n).tick.2 :=
  Function.iterate_succ_apply' _ _ _

/-- What the transfer needs in the first cycles, in order.  In each cycle that it has, the mainboard
makes the access that it needs, and no other. -/
def needs (c : Console σ) (n : Nat) : List Cycle :=
  (List.range n).map fun k => (c.after k).board.dma.next

theorem needs_succ (c : Console σ) (n : Nat) :
    c.needs (n + 1) = c.needs n ++ [(c.after n).board.dma.next] := by
  simp only [needs, List.range_succ, List.map_append, List.map_cons, List.map_nil]

/-- What a console shows after some cycles of a transfer, apart from the transfer itself: the
processor stands where it stood, and the raster has moved. -/
structure Undisturbed (c d : Console σ) (cycles : Nat) : Prop where
  processor : ∃ nmi, d.cpu = { c.cpu with nmi } ∧ (c.cpu.nmi = true → nmi = true)
  mask : d.board.ppu.mask = c.board.ppu.mask
  raster : d.board.ppu.raster = (fun r => r.next false)^[3 * cycles] c.board.ppu.raster

namespace Undisturbed

omit [FrameListener σ] in
theorem start (c : Console σ) : Undisturbed c c 0 := ⟨⟨c.cpu.nmi, rfl, id⟩, rfl, rfl⟩

theorem next {c d : Console σ} {n : Nat} (h : Undisturbed c d n)
    (hr : c.board.ppu.mask.rendering = false) (ha : d.board.dma.active = true) :
    Undisturbed c d.tick.2 (n + 1) := by
  have ha' : d.board.beginCycle.dma.active = true := ha
  have hrd : d.board.ppu.mask.rendering = false := by rw [h.mask, hr]
  have hport := tick_port_of_active hrd ha
  obtain ⟨hmask, hraster⟩ : d.board.beginCycle.stepDma.2.ppu.mask = d.board.ppu.mask ∧
      d.board.beginCycle.stepDma.2.ppu.raster = d.board.ppu.raster :=
    d.board.beginCycle.stepDma_scan
  obtain ⟨nmi, hcpu, hnmi⟩ := h.processor
  obtain ⟨later, hlater, hkept⟩ := d.tick_cpu
  rw [processorCycle_of_active ha', hcpu] at hlater hkept
  refine ⟨⟨later, hlater, fun hn => hkept (hnmi hn)⟩, ?_, ?_⟩
  · rw [Ppu.mask_of_afterDots hport, hmask, h.mask]
  · rw [Ppu.raster_of_afterDots hport, hraster, h.raster, Nat.mul_succ, Nat.add_comm,
      Function.iterate_add_apply]

end Undisturbed

/-- **The processor stands still and the dots go on**, through all cycles of a transfer. -/
theorem undisturbed_run {c : Console σ} {page : UInt8} {cycle : Nat}
    (hd : c.board.dma = start page cycle) (hr : c.board.ppu.mask.rendering = false) :
    ∀ k, k ≤ 513 + cycle % 2 →
      ((c.after k).board.dma.active = true ↔ k < 513 + cycle % 2) ∧
        Undisturbed c (c.after k) k := by
  have hactive : ∀ k, k ≤ 513 + cycle % 2 →
      ((c.after k).board.dma.active = true ↔ k < 513 + cycle % 2) := by
    intro k hk
    refine active_run (fun c : Console σ => c.tick.2) (fun c => c.board.dma) ?_ hd hk
    intro d ha
    obtain ⟨v, hv⟩ := d.board.beginCycle.stepDma_dma
    exact ⟨v, (tick_dma_of_active ha).trans hv⟩
  intro k hk
  refine ⟨hactive k hk, ?_⟩
  induction k with
  | zero => exact .start c
  | succ k ih =>
    rw [after_succ]
    exact (ih (by omega)).next hr ((hactive k (by omega)).mpr (by omega))

/-! ## 5. Byte after byte -/

/-- A transfer that waits does nothing else. -/
theorem waiting_run {c : Console σ} {page : UInt8} (hr : c.board.ppu.mask.rendering = false) :
    ∀ k n, c.board.dma = waiting page (n + k) →
      (c.after k).board.dma = waiting page n ∧
        (c.after k).board.ppu.port = c.board.ppu.port.afterDots (3 * k) ∧
        c.needs k = List.replicate k .align := by
  intro k
  -- The wait still to come is left open, since a cycle more behind us is one less before us.
  induction k with
  | zero =>
    intro n hd
    exact ⟨hd, rfl, rfl⟩
  | succ k ih =>
    intro n hd
    obtain ⟨hdma, hport, hneeds⟩ := ih (n + 1) (by rw [hd, Nat.add_right_comm, Nat.add_assoc])
    have hrk : (c.after k).board.ppu.mask.rendering = false := by
      rw [Ppu.mask_of_afterDots hport, hr]
    have hnext : (c.after k).board.dma.next = .align := by rw [hdma, next_waiting]
    obtain ⟨htick, hlater⟩ := tick_align hrk hnext
    refine ⟨?_, ?_, ?_⟩
    · rw [after_succ, htick, hdma, advance_waiting]
    · rw [after_succ, hlater, hport, ← Ppu.Port.afterDots_add, Nat.mul_succ, Nat.add_comm]
    · rw [needs_succ, hneeds, hnext, ← List.replicate_succ']

/-- A transfer that has handed over some bytes of its page, the first of them to a place in sprite
memory. -/
structure Carried (page first : UInt8) (bytes : Nat → UInt8) (count : Nat) (c : Console σ) :
    Prop where
  stage : ∃ latch, c.board.dma = handed page count latch
  place : c.board.ppu.oamAddress = first + .ofNat count
  cells : ∀ i, i < count → c.board.ppu.oam.read (first + .ofNat i).toNat = bytes i

namespace Carried

variable {page first : UInt8} {bytes : Nat → UInt8} {i : Nat} {c : Console σ}

omit [FrameListener σ] in
/-- A byte more reaches a place of its own, as long as a page is not full. -/
theorem cells_snoc (h : Carried page first bytes i c) (hi : i < 256) {j : Nat} (hj : j < i + 1) :
    (c.board.ppu.port.stored (bytes i)).oam.read (first + .ofNat j).toNat = bytes j := by
  have hport : (c.board.ppu.port.stored (bytes i)).oam =
      c.board.ppu.oam.write (first + .ofNat i).toNat (bytes i) := by
    rw [← h.place]
    rfl
  rw [hport]
  -- Sprite memory is as long as a page, so the place does not come round to an earlier byte.
  rcases Nat.lt_succ_iff_lt_or_eq.mp hj with hlt | rfl
  · have hne : (first + .ofNat i).toNat % 256 ≠ (first + .ofNat j).toNat % 256 := by
      simp only [UInt8.toNat_add, UInt8.toNat_ofNat']
      omega
    rw [Memory.read_write, if_neg hne, h.cells j hlt]
  · exact Memory.read_write_self _ _ _

/-- **Two cycles read a byte and hand it over.** -/
theorem next (h : Carried page first bytes i c) (hi : i < 256)
    (hr : c.board.ppu.mask.rendering = false) (hb : c.answer (byteAddress page i) = bytes i) :
    c.board.dma.next = .read (byteAddress page i) ∧
      c.tick.2.board.dma.next = .write (bytes i) ∧
      Carried page first bytes (i + 1) c.tick.2.tick.2 := by
  obtain ⟨latch, hdma⟩ := h.stage
  have hread : c.board.dma.next = .read (byteAddress page i) := by rw [hdma, next_handed page hi]
  -- Between the two cycles the byte is with the transfer and nowhere else.
  obtain ⟨hdma₁, hport₁⟩ := tick_read hr hread
  rw [hb, hdma, advance_handed page hi] at hdma₁
  have hr₁ : c.tick.2.board.ppu.mask.rendering = false := by
    rw [Ppu.mask_of_afterDots hport₁, hr]
  have hwrite : c.tick.2.board.dma.next = .write (bytes i) := by rw [hdma₁, next_holding]
  obtain ⟨hdma₂, hport₂⟩ := tick_write hr₁ hwrite
  rw [hdma₁, advance_holding] at hdma₂
  rw [hport₁] at hport₂
  refine ⟨hread, hwrite, ⟨bytes i, hdma₂⟩, ?_, ?_⟩
  · have hplace : c.tick.2.tick.2.board.ppu.oamAddress = c.board.ppu.oamAddress + 1 := by
      rw [Ppu.oamAddress_of_port hport₂]
      rfl
    rw [hplace, h.place, UInt8.ofNat_add, UInt8.add_assoc]
    rfl
  · intro j hj
    have hoam : c.tick.2.tick.2.board.ppu.oam = (c.board.ppu.port.stored (bytes i)).oam := by
      rw [Ppu.oam_of_port hport₂]
      rfl
    rw [hoam, h.cells_snoc hi hj]

end Carried

/-- The byte that the transfer of a page reads at its turn, after some cycles of waiting. -/
def byteRead (c : Console σ) (page : UInt8) (wait i : Nat) : UInt8 :=
  (c.after (wait + 2 * i)).answer (byteAddress page i)

/-- What a transfer needs for a byte: it reads it and hands it over. -/
def needsOfByte (c : Console σ) (page : UInt8) (wait i : Nat) : List Cycle :=
  [.read (byteAddress page i), .write (c.byteRead page wait i)]

theorem carried_run {c : Console σ} {page : UInt8} {cycle wait : Nat} (hw : wait = 1 + cycle % 2)
    (hd : c.board.dma = start page cycle) (hr : c.board.ppu.mask.rendering = false) :
    ∀ n, n ≤ 256 →
      Carried page c.board.ppu.oamAddress (c.byteRead page wait) n (c.after (wait + 2 * n)) ∧
        c.needs (wait + 2 * n) =
          List.replicate wait .align ++ (List.range n).flatMap (c.needsOfByte page wait) := by
  intro n
  induction n with
  | zero =>
    intro _
    have hwaiting : c.board.dma = waiting page (0 + wait) := by
      rw [hd, start_eq, hw, Nat.zero_add]
    obtain ⟨hdma, hport, hneeds⟩ := waiting_run hr wait 0 hwaiting
    refine ⟨⟨⟨0, hdma⟩, ?_, fun i hi => absurd hi (Nat.not_lt_zero i)⟩, ?_⟩
    · rw [Nat.mul_zero, Nat.add_zero, Ppu.oamAddress_of_port hport]
      exact (UInt8.add_zero _).symm
    · exact hneeds.trans (List.append_nil _).symm
  | succ n ih =>
    intro hn
    obtain ⟨hcarried, hneeds⟩ := ih (by omega)
    have hrn : (c.after (wait + 2 * n)).board.ppu.mask.rendering = false := by
      rw [((undisturbed_run hd hr _ (by omega)).2).mask, hr]
    obtain ⟨hread, hwrite, hnext⟩ := hcarried.next (by omega) hrn rfl
    rw [← after_succ] at hwrite
    rw [← after_succ, ← after_succ] at hnext
    refine ⟨hnext, ?_⟩
    rw [Nat.mul_succ, ← Nat.add_assoc, needs_succ, needs_succ, hneeds, hread, hwrite,
      List.range_succ, List.flatMap_append, List.append_assoc, List.append_assoc]
    rfl

/-! ## 6. The whole transfer -/

/-- A console right after the number of a page was written to the register of transfers, and the
cycle in which this happened.  The processor wrote it in a cycle of its own, or it was written from
outside. -/
inductive WrotePage (page : UInt8) : Console σ → Nat → Prop where
  | processor (before : Console σ) (hidle : before.board.dma.active = false)
      (hwrite : before.cpu.nextCycle = .write 0x4014 page) :
      WrotePage page before.tick.2 (before.board.cycle + 1)
  | outside (c : Console σ) :
      WrotePage page { c with board := c.board.write 0x4014 page } c.board.cycle

theorem WrotePage.dma {page : UInt8} {c : Console σ} {cycle : Nat} (h : WrotePage page c cycle) :
    c.board.dma = start page cycle := by
  cases h with
  | processor before hidle hwrite =>
    have hidle' : before.board.beginCycle.dma.active = false := hidle
    rw [tick_dma, processorCycle_of_idle hidle', Cpu.tick_snd, hwrite]
    rfl
  | outside c => rfl

/-- How a console carries out the transfer of a page that was named in some cycle. -/
structure CarriesOut (c : Console σ) (page : UInt8) (cycle : Nat) : Prop where
  /-- The transfer has all these cycles, and only these. -/
  stalled : ∀ k, k ≤ 513 + cycle % 2 →
    ((c.after k).board.dma.active = true ↔ k < 513 + cycle % 2)
  /-- Meanwhile the processor keeps its registers, its latches and its place in the microcode; it
  may only be left a request. -/
  processor : ∀ k, k ≤ 513 + cycle % 2 →
    ∃ nmi, (c.after k).cpu = { c.cpu with nmi } ∧ (c.cpu.nmi = true → nmi = true)
  /-- Every cycle is three dots. -/
  dots : ∀ k, k ≤ 513 + cycle % 2 →
    (c.after k).board.ppu.raster = (fun r => r.next false)^[3 * k] c.board.ppu.raster
  /-- The transfer waits, and then reads the page in order, each byte followed by its delivery. -/
  accesses : c.needs (513 + cycle % 2) =
    List.replicate (1 + cycle % 2) .align ++
      (List.range 256).flatMap fun i =>
        [.read (.ofNat (page.toNat * 256 + i)), .write (c.byteRead page (1 + cycle % 2) i)]
  /-- The bytes are where they belong, from the place on where sprite memory stood. -/
  copied : ∀ i, i < 256 →
    (c.after (513 + cycle % 2)).board.ppu.oam.read (c.board.ppu.oamAddress + .ofNat i).toNat =
      c.byteRead page (1 + cycle % 2) i
  /-- It has come round and stands there again. -/
  place : (c.after (513 + cycle % 2)).board.ppu.oamAddress = c.board.ppu.oamAddress
  /-- The next cycle is the processor's. -/
  resumed :
    processorCycle (c.after (513 + cycle % 2)).cpu
        (c.after (513 + cycle % 2)).board.beginCycle =
      (c.after (513 + cycle % 2)).cpu.tick (c.after (513 + cycle % 2)).board.beginCycle

/-- **While nothing is shown, a console carries out every transfer**, from whatever state the page
was named in. -/
theorem carriesOut {c : Console σ} {page : UInt8} {cycle : Nat} (hw : WrotePage page c cycle)
    (hr : c.board.ppu.mask.rendering = false) : CarriesOut c page cycle := by
  have hd := hw.dma
  have hrun := undisturbed_run hd hr
  obtain ⟨hcarried, hneeds⟩ := carried_run rfl hd hr 256 (Nat.le_refl 256)
  have hlength : 1 + cycle % 2 + 2 * 256 = 513 + cycle % 2 := by omega
  rw [hlength] at hcarried hneeds
  refine
    { stalled := fun k hk => (hrun k hk).1
      processor := fun k hk => (hrun k hk).2.processor
      dots := fun k hk => (hrun k hk).2.raster
      accesses := hneeds
      copied := hcarried.cells
      place := ?_
      resumed := ?_ }
  · rw [hcarried.place]
    exact UInt8.add_zero _
  · refine processorCycle_of_idle ?_ _
    have hstalled := (hrun _ (Nat.le_refl _)).1
    exact Bool.eq_false_iff.mpr fun ha => Nat.lt_irrefl _ (hstalled.mp ha)

/-- The last cycle of a store, whose page is then transferred. -/
theorem carriesOut_of_store :
    let before : Console Unit :=
      { cpu := { regs := { a := 2 }, latch := { address := 0x4014 },
                 phase := .executing (.store .sta) [] },
        listener := () }
    WrotePage 2 before.tick.2 1 ∧ before.tick.2.board.ppu.mask.rendering = false ∧
      CarriesOut before.tick.2 2 1 := by
  intro before
  have hw : WrotePage 2 before.tick.2 1 := .processor before rfl rfl
  have hidle : before.board.beginCycle.dma.active = false := rfl
  have hcycle :
      (processorCycle before.cpu before.board.beginCycle).2.ppu.mask.rendering = false := by
    rw [processorCycle_of_idle hidle, Cpu.tick_snd]
    decide
  have hr : before.tick.2.board.ppu.mask.rendering = false := by
    rw [Ppu.mask_of_afterDots (tick_port hcycle), hcycle]
  exact ⟨hw, hr, carriesOut hw hr⟩

end Console

end Famicom
