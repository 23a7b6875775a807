/-
# What happens on the mainboard

Between two resets and with one cartridge in the slot, six things happen on the mainboard: a dot of
the picture unit, a cycle that begins, an access of the processor, a cycle of a transfer, the
console's look for requests and a finished picture, and fingers on a controller.  A cycle of the
console is six of them in turn (`tick_activities`), so whatever a console does is a run of these.

Only three reach picture memory: a dot, which fetches, and an access or a transfer's read that goes
through the picture unit's data register.  `pictureLog` is what each puts on the picture unit's bus,
as a recorder there would note it, and `clockPlaces` says of a run **where the beam stood whenever
the scanline counter was clocked**.  A dot clocks the cartridge's own counter neither more nor less
often than that (`counter?_dot`).

Everything else leaves alone what the counter listens to: how long its line has been low
(`lowRun?_after`), and where the beam is (`raster_after`).
-/
import Famicom.Console
import Famicom.Proofs.Board.Rises
import Famicom.Proofs.Cpu.Traffic
import Famicom.Proofs.Ppu.Fetches
import Famicom.Proofs.Transfer.Stall

namespace Famicom

open ScanlineCounter

/-- The address of a cycle of a bus. -/
def BusCycle.address : BusCycle → UInt16
  | read a | write a _ => a

namespace ScanlineCounter

/-- How often the counter is clocked by addresses that it sees. -/
def clockings (c : ScanlineCounter) : List UInt16 → Nat
  | [] => 0
  | a :: as => (counts c.lowRun (isHigh a)).toNat + (c.observe a).clockings as

/-- How often a line is counted that goes through these levels, after being low for some time. -/
def risesAlong (run : Nat) : List Bool → Nat
  | [] => 0
  | high :: levels => (counts run high).toNat + risesAlong (runAfter run high) levels

/-- Nothing of an address matters but the level of the line. -/
theorem clockings_eq (c : ScanlineCounter) (as : List UInt16) :
    c.clockings as = risesAlong c.lowRun (as.map isHigh) := by
  induction as generalizing c with
  | nil => rfl
  | cons a as ih => rw [clockings, ih, observe_eq]; rfl

/-- **The counter is clocked as often as that**, and but for how long the line has been low, nothing
else becomes of it. -/
theorem foldl_observe (c : ScanlineCounter) (as : List UInt16) :
    as.foldl observe c =
      { clock^[c.clockings as] c with lowRun := (as.map isHigh).foldl runAfter c.lowRun } := by
  induction as generalizing c with
  | nil => rfl
  | cons a as ih =>
    -- How long the line has been low is nothing to a clock.
    have hclock (n run : Nat) (c : ScanlineCounter) :
        clock^[n] { c with lowRun := run } = { clock^[n] c with lowRun := run } := by
      induction n generalizing c with
      | zero => rfl
      | succ n ih => exact ih c.clock
    rw [List.foldl_cons, ih, clockings, observe_eq, hclock, Nat.add_comm,
      Function.iterate_add_apply]
    cases counts c.lowRun (isHigh a) <;> rfl

end ScanlineCounter

namespace VideoMemory

/-- The scanline counter of the cartridge, if there is one. -/
def counter? (v : VideoMemory) : Option ScanlineCounter :=
  v.slot.bind fun c => c.board.mapper.counter?

/-- How long its line has been low. -/
def lowRun? (v : VideoMemory) : Option Nat := v.counter?.map ScanlineCounter.lowRun

theorem lowRun?_of_chip (v : VideoMemory) (h : v.counter?.isSome = true) :
    ∃ run, v.lowRun? = some run := by
  obtain ⟨c, hc⟩ := Option.isSome_iff_exists.mp h
  exact ⟨c.lowRun, by rw [lowRun?, hc]; rfl⟩

/-- The watched line is one of those that reach the cartridge. -/
theorem isHigh_and (a : UInt16) : isHigh (a &&& 0x3FFF) = isHigh a := by
  unfold isHigh
  rw [UInt16.and_assoc]
  rfl

/-- Every read is seen by the counter. -/
theorem counter?_read (v : VideoMemory) (a : UInt16) :
    (AddressBus.read a v).2.counter? = v.counter?.map (·.observe a) := by
  obtain ⟨nametables, slot⟩ := v
  cases slot with
  | none => rfl
  | some c =>
    refine (c.board.mapper.counter?_observe (a &&& 0x3FFF)).trans ?_
    refine congrArg (Option.map · _) (funext fun c => ?_)
    rw [observe_eq, observe_eq, isHigh_and]

theorem lowRun?_writeSlot (v : VideoMemory) (a : UInt16) (b : UInt8) :
    { v with slot := Mainboard.writeSlot v.slot a b }.lowRun? = v.lowRun? := by
  obtain ⟨nametables, slot⟩ := v
  cases slot with
  | none => rfl
  | some c => exact c.board.lowRun?_cpuWrite a b

theorem counter?_afterReads (v : VideoMemory) (as : List UInt16) :
    (Ppu.afterReads v as).counter? = v.counter?.map fun c => as.foldl ScanlineCounter.observe c := by
  induction as generalizing v with
  | nil => exact Option.map_id'.symm
  | cons a as ih =>
    rw [Ppu.afterReads, ih, counter?_read, Option.map_map]
    rfl

theorem lowRun?_afterReads (v : VideoMemory) (as : List UInt16) :
    (Ppu.afterReads v as).lowRun? = v.lowRun?.map fun run => (as.map isHigh).foldl runAfter run := by
  rw [lowRun?, lowRun?, counter?_afterReads, Option.map_map, Option.map_map]
  refine congrArg (Option.map · _) (funext fun c => ?_)
  exact congrArg lowRun (foldl_observe c as)

end VideoMemory

namespace Mainboard

/-! ## 1. Activities -/

/-- What happens on the mainboard. -/
inductive Activity where
  | dot
  | cycle
  | access (c : BusCycle)
  | transfer
  | collect
  | press (pad : Nat) (buttons : UInt8)
  deriving DecidableEq, Repr

/-- The mainboard after an activity. -/
def after (m : Mainboard) : Activity → Mainboard
  | .dot => m.tickPpu
  | .cycle => m.beginCycle
  | .access c => c.after m
  | .transfer => m.stepDma.2
  | .collect => { m with ppu := m.ppu.takeNmiRequest.2.takeFrameComplete.2 }
  | .press pad buttons => m.setButtons pad buttons

/-- The mainboard after a run of activities. -/
def run (m : Mainboard) (es : List Activity) : Mainboard := es.foldl after m

/-! ## 2. The picture unit's bus -/

/-- Picture memory with a recorder in front of it. -/
def watched (m : Mainboard) : Recorded VideoMemory := ⟨m.video, #[]⟩

/-- What an access makes the picture unit do on its bus. -/
def accessLog (m : Mainboard) : BusCycle → Array Access
  | .read a => if device a = .ppu then (m.ppu.readRegister a m.watched).2.2.log else #[]
  | .write a v => if device a = .ppu then (m.ppu.writeRegister a v m.watched).2.log else #[]

/-- What an activity puts on the picture unit's bus. -/
def pictureLog (m : Mainboard) : Activity → Array Access
  | .dot => (m.ppu.tick m.watched).2.log
  | .access c => m.accessLog c
  | .transfer =>
    match m.dma.next with
    | .read a => m.accessLog (.read a)
    | _ => #[]
  | _ => #[]

/-- How often an activity clocks the scanline counter. -/
def clockings (m : Mainboard) (e : Activity) : Nat :=
  match m.video.counter? with
  | some c => c.clockings ((m.pictureLog e).toList.map Access.address)
  | none => 0

/-- **Where the beam stands whenever a run clocks the scanline counter**, by line and dot. -/
def clockPlaces (m : Mainboard) : List Activity → List (Nat × Nat)
  | [] => []
  | e :: es =>
    List.replicate (m.clockings e) (m.ppu.raster.line, m.ppu.raster.dot) ++
      (m.after e).clockPlaces es

/-! ## 3. Dots -/

theorem after_dot_eq (m : Mainboard) :
    m.after .dot = { m with ppu := (m.ppu.tick m.video).1, video := (m.ppu.tick m.video).2 } := by
  cases m
  rfl

/-- **A dot moves the beam, and the counter sees what it fetches.** -/
theorem after_dot (m : Mainboard) :
    (m.after .dot).ppu.raster = m.ppu.raster.next m.ppu.mask.rendering ∧
      (m.after .dot).video.lowRun? =
        m.video.lowRun?.map fun run => (m.ppu.fetches.map isHigh).foldl runAfter run := by
  rw [after_dot_eq]
  refine ⟨Ppu.tick_raster _ _, ?_⟩
  dsimp only
  rw [Ppu.tick_snd, VideoMemory.lowRun?_afterReads]

theorem clockings_dot {m : Mainboard} {c : ScanlineCounter} (h : m.video.counter? = some c) :
    m.clockings .dot = c.clockings m.ppu.fetches := by
  rw [clockings, h, pictureLog, Ppu.tick_log]
  rfl

/-- **A dot clocks the counter as often as that.** -/
theorem counter?_dot (m : Mainboard) :
    (m.after .dot).video.counter? = m.video.counter?.map fun c =>
      { clock^[m.clockings .dot] c with
        lowRun := (m.ppu.fetches.map isHigh).foldl runAfter c.lowRun } := by
  rw [after_dot_eq]
  dsimp only
  rw [Ppu.tick_snd, VideoMemory.counter?_afterReads]
  cases h : m.video.counter? with
  | none => rfl
  | some c => rw [clockings_dot h, Option.map_some, Option.map_some, foldl_observe]

/-! ## 4. Everything else -/

/-- The addresses of the picture unit's data register. -/
def IsDataPort (a : UInt16) : Prop := device a = .ppu ∧ a.toNat % 8 = 7

/-- An activity that makes the picture unit reach its memory for a program. -/
def UsesDataPort (m : Mainboard) : Activity → Prop
  | .access c => IsDataPort c.address
  | .transfer => ∃ a, m.dma.next = .read a ∧ IsDataPort a
  | _ => False

/-- What the counter listens to stays as it was, and it hears nothing. -/
structure Unheard (m : Mainboard) (e : Activity) : Prop where
  raster : (m.after e).ppu.raster = m.ppu.raster
  lowRun? : (m.after e).video.lowRun? = m.video.lowRun?
  log : m.pictureLog e = #[]

theorem unheard_read {m : Mainboard} {a : UInt16} (h : ¬IsDataPort a) :
    m.Unheard (.access (.read a)) := by
  have hraster : (m.read a).2.ppu.raster = m.ppu.raster := Ppu.raster_of_port (read_port m a)
  cases hd : device a with
  | ppu =>
    have hmem {μ : Type} [AddressBus μ] (mem : μ) : (m.ppu.readRegister a mem).2.2 = mem :=
      Ppu.readRegister_memory _ (fun h7 => h ⟨hd, h7⟩) mem
    have hvideo : (m.read a).2.video = m.video := by
      simp only [read, hd, hmem]
    refine ⟨hraster, congrArg VideoMemory.lowRun? hvideo, ?_⟩
    rw [pictureLog, accessLog, if_pos hd, hmem, watched]
  | _ =>
    have hvideo : (m.read a).2.video = m.video := by simp only [read, hd]
    refine ⟨hraster, congrArg VideoMemory.lowRun? hvideo, ?_⟩
    rw [pictureLog, accessLog, if_neg (by rw [hd]; decide)]

/-- A write reaches the picture unit only at its own addresses. -/
theorem write_ppu {m : Mainboard} {a : UInt16} {v : UInt8} (h : device a ≠ .ppu) :
    (m.write a v).ppu = m.ppu := by
  cases hd : device a with
  | ppu => exact absurd hd h
  | _ =>
    cases m
    simp only [write, hd]

theorem unheard_write {m : Mainboard} {a : UInt16} (h : ¬IsDataPort a) (v : UInt8) :
    m.Unheard (.access (.write a v)) := by
  cases hd : device a with
  | ppu =>
    have hmem {μ : Type} [AddressBus μ] (mem : μ) : (m.ppu.writeRegister a v mem).2 = mem :=
      Ppu.writeRegister_memory _ (fun h7 => h ⟨hd, h7⟩) v mem
    have hw : m.write a v =
        { m with
          ppu := (m.ppu.writeRegister a v m.video).1
          video := (m.ppu.writeRegister a v m.video).2 } := by
      cases m
      simp only [write, hd]
    have hraster : (m.write a v).ppu.raster = m.ppu.raster := by
      rw [hw]
      exact Ppu.writeRegister_raster _ a v _
    have hvideo : (m.write a v).video = m.video := by rw [hw, hmem]
    refine ⟨hraster, congrArg VideoMemory.lowRun? hvideo, ?_⟩
    rw [pictureLog, accessLog, if_pos hd, hmem, watched]
  | cartridge =>
    have hraster := congrArg Ppu.raster (write_ppu (m := m) (v := v) (by rw [hd]; decide))
    have hlow : (m.write a v).video.lowRun? = m.video.lowRun? := by
      have hw : (m.write a v).video = { m.video with slot := writeSlot m.video.slot a v } := by
        cases m
        simp only [write, hd]
      rw [hw, VideoMemory.lowRun?_writeSlot]
    refine ⟨hraster, hlow, ?_⟩
    rw [pictureLog, accessLog, if_neg (by rw [hd]; decide)]
  | _ =>
    have hraster := congrArg Ppu.raster (write_ppu (m := m) (v := v) (by rw [hd]; decide))
    have hvideo : (m.write a v).video = m.video := by
      cases m
      simp only [write, hd]
    refine ⟨hraster, congrArg VideoMemory.lowRun? hvideo, ?_⟩
    rw [pictureLog, accessLog, if_neg (by rw [hd]; decide)]

theorem unheard_transfer {m : Mainboard} (h : ¬m.UsesDataPort .transfer) :
    m.Unheard .transfer := by
  cases hn : m.dma.next with
  | idle =>
    have hm : m.stepDma.2 = m := by simp only [stepDma, hn]
    refine ⟨congrArg (·.ppu.raster) hm, congrArg (·.video.lowRun?) hm, ?_⟩
    rw [pictureLog, hn]
  | align =>
    have hm := congrArg Prod.snd (stepDma_align hn)
    refine ⟨congrArg (·.ppu.raster) hm, congrArg (·.video.lowRun?) hm, ?_⟩
    rw [pictureLog, hn]
  | read a =>
    have hm := congrArg Prod.snd (stepDma_read hn)
    obtain ⟨hraster, hlow, hlog⟩ := unheard_read (m := m) fun hp => h ⟨a, hn, hp⟩
    refine ⟨(congrArg (·.ppu.raster) hm).trans hraster,
      (congrArg (·.video.lowRun?) hm).trans hlow, ?_⟩
    rw [pictureLog, hn]
    exact hlog
  | write v =>
    have hm := congrArg Prod.snd (stepDma_write hn)
    refine ⟨congrArg (·.ppu.raster) hm, congrArg (·.video.lowRun?) hm, ?_⟩
    rw [pictureLog, hn]

/-- **Only dots and the data port reach the counter**, and only dots move the beam. -/
theorem unheard {m : Mainboard} {e : Activity} (hdot : e ≠ .dot) (hport : ¬m.UsesDataPort e) :
    m.Unheard e := by
  cases e with
  | dot => exact absurd rfl hdot
  | cycle => exact ⟨rfl, rfl, rfl⟩
  | access c =>
    cases c with
    | read a => exact unheard_read hport
    | write a v => exact unheard_write hport v
  | transfer => exact unheard_transfer hport
  | collect =>
    have hraster : m.ppu.takeNmiRequest.2.takeFrameComplete.2.raster = m.ppu.raster := by
      unfold Ppu.takeFrameComplete Ppu.takeNmiRequest
      dsimp only
      split <;> split <;> rfl
    exact ⟨hraster, rfl, rfl⟩
  | press pad buttons =>
    have hm : (m.setButtons pad buttons).ppu = m.ppu ∧
        (m.setButtons pad buttons).video = m.video := by
      unfold setButtons
      split <;> exact ⟨rfl, rfl⟩
    exact ⟨congrArg Ppu.raster hm.1, congrArg VideoMemory.lowRun? hm.2, rfl⟩

/-- What is not heard does not clock the counter. -/
theorem Unheard.clockings {m : Mainboard} {e : Activity} (h : m.Unheard e) :
    m.clockings e = 0 := by
  rw [Mainboard.clockings, h.log]
  split <;> rfl

/-! ## 5. Runs -/

/-- A property holds of everything that happens in a run. -/
def Along (P : Mainboard → Activity → Prop) : Mainboard → List Activity → Prop
  | _, [] => True
  | m, e :: es => P m e ∧ Along P (m.after e) es

end Mainboard

namespace Console

variable {σ : Type} [FrameListener σ]

/-- What happens on the mainboard in a cycle of the console. -/
def activities (c : Console σ) : List Mainboard.Activity :=
  [.cycle, if c.board.dma.active then .transfer else .access c.cpu.nextCycle, .dot, .dot, .dot,
    .collect]

/-- The processor's part of a cycle, or the transfer's, is an activity of the mainboard. -/
theorem processorCycle_snd (cpu : Cpu) (m : Mainboard) :
    (processorCycle cpu m).2 =
      m.after (if m.dma.active then .transfer else .access cpu.nextCycle) := by
  cases ha : m.dma.active with
  | true => exact congrArg Prod.snd (processorCycle_of_active ha cpu)
  | false =>
    rw [congrArg Prod.snd (processorCycle_of_idle ha cpu)]
    exact cpu.tick_snd m

/-- **A cycle of the console is a run of its activities**, whatever the processor makes of them. -/
theorem tick_activities (c : Console σ) : c.tick.2.board = c.board.run c.activities := by
  rw [tick_board, processorCycle_snd]
  rfl

end Console
end Famicom
