/-
# Running until a picture is finished

A console runs for a picture by making cycles until one of them answers that a picture was finished.
Nothing but the beam brings that about, and nothing holds the beam: the processor may be jammed or
kept waiting by a transfer, and the slot may be empty.  A cycle is three dots and a frame has at
most 89342, so **the run is over within 29781 cycles**, which `cyclesPerFrame` allows it
(`Ready.runFrame`).

Between two operations of a console no finished picture is waiting to be taken (`Ready`): the cycle
that finishes it reports it, and takes the report away.  In three dots a picture can be finished
only once.  So **what a console reports is what its picture unit finishes**, one for one
(`Ready.finished`), and pictures run for one after the other are the next ones that are finished,
with none left out and none twice.
-/
import Famicom.Proofs.Console.Operations

namespace Famicom

namespace Ppu

variable {μ : Type} [AddressBus μ]

/-- The beam is in its frame, and no finished picture waits to be taken. -/
structure Clear (s : Ppu × μ) : Prop where
  inFrame : InFrame s
  taken : s.1.frameComplete = false

/-- Without dots no picture is finished. -/
theorem Clear.run {s : Ppu × μ} (h : Clear s) (history : List (Operation μ))
    (hdots : dots history = 0) : Clear (run s history) := by
  refine ⟨h.inFrame.run history, ?_⟩
  induction history generalizing s with
  | nil => exact h.taken
  | cons op history ih =>
    rw [dots, List.countP_cons, Nat.add_eq_zero_iff] at hdots
    have hop : (after s op).1.frameComplete = false := by
      refine (congrArg Screen.complete (after_screen s op)).trans ?_
      cases op with
      | tick => exact absurd hdots.2 Nat.one_ne_zero
      | takeFrameComplete | reset => rfl
      | _ => exact h.taken
    exact ih ⟨h.inFrame.after op, hop⟩ hdots.1

end Ppu

namespace Mainboard

/-- So it is on a mainboard. -/
theorem clear_after {m : Mainboard} (h : Ppu.Clear m.picture) {e : Activity} (he : e ≠ .dot) :
    Ppu.Clear (m.after e).picture := by
  rw [picture_after]
  exact h.run _ ((m.dots_ofActivity e).trans (if_neg he))

end Mainboard

namespace Console

variable {σ : Type}

/-! ## 1. Cycles -/

/-- No finished picture waits to be taken. -/
def Ready (c : Console σ) : Prop := Ppu.Clear c.board.picture

theorem ready_start (listener : σ) : Ready ({ listener } : Console σ) :=
  ⟨Ppu.inFrame_start _, rfl⟩

/-- What happens on the mainboard in a cycle before the console looks. -/
def work (c : Console σ) : List Mainboard.Activity :=
  [.cycle, if c.board.dma.active then .transfer else .access c.cpu.nextCycle, .dot, .dot, .dot]

/-- How many pictures the picture unit finishes in the next cycle. -/
def finished (c : Console σ) : Nat := Ppu.pictures c.board.picture (c.board.ofRun c.activities)

theorem finished_eq (c : Console σ) :
    c.finished = Ppu.pictures c.board.picture (c.board.ofRun c.work) := by
  have hcollect : c.activities = c.work ++ [.collect] := rfl
  have hnone (s : Ppu × VideoMemory) :
      Ppu.pictures s [.takeNmiRequest, .takeFrameComplete] = 0 := by
    simp only [Ppu.pictures, Ppu.total, Ppu.finishes_eq]
    rfl
  rw [finished, hcollect, Mainboard.ofRun_append, Ppu.pictures, Ppu.total_append]
  exact congrArg (_ + ·) (hnone _)

variable [FrameListener σ]

/-- The console answers what it finds when it looks. -/
theorem tick_fst (c : Console σ) : c.tick.1 = (c.board.run c.work).ppu.frameComplete := by
  have hboard : c.tick.1 = Ppu.frameComplete
      (processorCycle c.cpu c.board.beginCycle).2.tickPpu.tickPpu.tickPpu.ppu.takeNmiRequest.2 := by
    cases c
    rfl
  have hreport (p : Ppu) : p.takeNmiRequest.2.frameComplete = p.frameComplete := by
    unfold Ppu.takeNmiRequest
    split <;> rfl
  rw [hboard, hreport, processorCycle_snd]
  rfl

/-- **A cycle reports what the picture unit finishes in it.** -/
theorem Ready.finished {c : Console σ} (h : c.Ready) : c.finished = c.tick.1.toNat := by
  have hreset := c.board.reset_not_mem_ofRun c.work
  have hdots : Ppu.dots (c.board.ofRun c.work) = 3 := by
    rw [Mainboard.dots_ofRun, work]
    cases c.board.dma.active <;> rfl
  have htake : .takeFrameComplete ∉ c.board.ofRun c.work := fun h =>
    absurd ((Mainboard.mem_ofRun h).2 rfl) (by
      unfold work
      cases c.board.dma.active <;> simp)
  have hone := Ppu.pictures_le_one h.inFrame hreset (by omega)
  have hreport : c.tick.1 = (Ppu.run c.board.picture (c.board.ofRun c.work)).1.frameComplete := by
    rw [tick_fst, ← Mainboard.picture_run]
    rfl
  rw [hreport, Ppu.frameComplete_run hreset htake, h.taken, Bool.false_or, finished_eq]
  generalize Ppu.pictures c.board.picture (c.board.ofRun c.work) = n at hone
  interval_cases n <;> rfl

/-- The picture of a cycle is shown to whoever is watching. -/
theorem tick_listener (c : Console σ) :
    c.tick.2.listener =
      if c.tick.1 then FrameListener.hear c.tick.2.board.ppu.frame c.listener else c.listener := by
  cases c
  rfl

theorem Ready.tick {c : Console σ} (h : c.Ready) : c.tick.2.Ready := by
  have hboard : c.tick.2.board = (c.board.run c.work).after .collect := by
    rw [tick_activities]
    exact c.board.run_append c.work [.collect]
  have hframe : Ppu.InFrame (c.board.run c.work).picture := by
    rw [Mainboard.picture_run]
    exact h.inFrame.run _
  have htaken (p : Ppu) : p.takeFrameComplete.2.frameComplete = false := by
    unfold Ppu.takeFrameComplete
    cases hp : p.frameComplete
    · exact hp
    · rfl
  rw [Ready, hboard]
  refine ⟨?_, htaken _⟩
  rw [Mainboard.picture_after]
  exact hframe.run _

/-- **No operation of the console leaves a finished picture waiting.** -/
theorem Ready.operate {c : Console σ} (h : c.Ready) (op : Operation σ) : (c.operate op).Ready :=
  operate_invariant (I := fun m => Ppu.Clear m.picture) (fun _ h => Ready.tick h)
    (fun _ _ he h => Mainboard.clear_after h he)
    (fun cartridge _ => h.run [.elsewhere { slot := some cartridge }, .clearCartridgeState] rfl)
    (fun _ => h.run [.elsewhere {}, .clearCartridgeState] rfl)
    (fun _ => h.run [.reset, .elsewhere c.board.reset.video] rfl) h

theorem ready_operated (listener : σ) (history : List (Operation σ)) :
    (({ listener } : Console σ).operated history).Ready :=
  operated_invariant (I := Ready) (fun _ op _ h => h.operate op) (ready_start listener)

/-! ## 2. Frames -/

theorem dots_activitiesFor (c : Console σ) (n : Nat) :
    Ppu.dots (c.board.ofRun (c.activitiesFor n)) = 3 * n := by
  rw [Mainboard.dots_ofRun]
  induction n with
  | zero => rfl
  | succ n ih =>
    have hcycle : (c.after n).activities.count .dot = 3 := by
      unfold activities
      cases (c.after n).board.dma.active <;> rfl
    rw [activitiesFor_succ, List.count_append, ih, hcycle]
    rfl

/-- The pictures finished in some cycles are those finished in each. -/
theorem pictures_activitiesFor (c : Console σ) (n : Nat) :
    Ppu.pictures c.board.picture (c.board.ofRun (c.activitiesFor n)) =
      ((List.range n).map fun k => (c.after k).finished).sum := by
  induction n with
  | zero => rfl
  | succ n ih =>
    rw [activitiesFor_succ, Mainboard.ofRun_append, Ppu.pictures, Ppu.total_append,
      ← Mainboard.picture_run, ← after_board, List.range_succ, List.map_append, List.sum_append,
      ← ih, List.map_singleton, List.sum_singleton]
    rfl

/-- **In 29781 cycles a picture is finished.** -/
theorem Ready.exists_finished {c : Console σ} (h : c.Ready) :
    ∃ k < 29781, (c.after k).tick.1 = true := by
  have hpos := Ppu.pictures_pos h.inFrame (c.board.reset_not_mem_ofRun (c.activitiesFor 29781))
    (by rw [dots_activitiesFor]; decide)
  rw [pictures_activitiesFor, List.sum_pos_iff_exists_pos_nat] at hpos
  obtain ⟨n, hn, hpos⟩ := hpos
  obtain ⟨k, hk, rfl⟩ := List.mem_map.mp hn
  have hready : (c.after k).Ready := after_invariant (fun _ h => h.tick) h k
  rw [hready.finished, Nat.pos_iff_ne_zero, ne_eq, Bool.toNat_eq_zero, Bool.not_eq_false] at hpos
  exact ⟨k, List.mem_range.mp hk, hpos⟩

/-- Cycles are made until one of them finishes a picture. -/
theorem runFrameWithin_eq {c : Console σ} {n k : Nat} (hk : k < n)
    (hbefore : ∀ j < k, (c.after j).tick.1 = false) (hlast : (c.after k).tick.1 = true) :
    runFrameWithin n c = c.after (k + 1) := by
  induction k generalizing c n with
  | zero =>
    obtain ⟨n, rfl⟩ := Nat.exists_eq_succ_of_ne_zero (by omega : n ≠ 0)
    exact if_pos hlast
  | succ k ih =>
    obtain ⟨n, rfl⟩ := Nat.exists_eq_succ_of_ne_zero (by omega : n ≠ 0)
    have hfirst : ¬c.tick.1 = true := Bool.eq_false_iff.mp (hbefore 0 (Nat.succ_pos k))
    refine (if_neg hfirst).trans ?_
    exact ih (by omega) (fun j hj => hbefore (j + 1) (by omega)) hlast

/-- A number of cycles of which the last finishes a picture and no other does. -/
structure Frame (c : Console σ) (cycles : Nat) : Prop where
  pos : 0 < cycles
  /-- Of all cycles the last alone answers that a picture is finished, -/
  answers : ∀ k < cycles, (c.after k).tick.1 = decide (k + 1 = cycles)
  /-- and in the last alone the picture unit finishes one. -/
  finished : ∀ k < cycles, (c.after k).finished = if k + 1 = cycles then 1 else 0
  /-- The picture that is there in the end is the one that was shown. -/
  shown : (c.after cycles).listener =
    FrameListener.hear (c.after cycles).board.ppu.frame c.listener

theorem listener_after {c : Console σ} {n : Nat} (h : ∀ k < n, (c.after k).tick.1 = false) :
    (c.after n).listener = c.listener := by
  induction n with
  | zero => rfl
  | succ n ih =>
    rw [after_succ, tick_listener, h n (Nat.lt_succ_self n), if_neg Bool.false_ne_true]
    exact ih fun k hk => h k (Nat.lt_succ_of_lt hk)

/-- **Running for a picture makes the cycles up to the next that is finished.** -/
theorem Ready.runFrame {c : Console σ} (h : c.Ready) :
    ∃ cycles ≤ 29781, c.runFrame = c.after cycles ∧ c.Frame cycles := by
  obtain ⟨k, ⟨hk, hlast⟩, hleast⟩ : ∃ k, (k < 29781 ∧ (c.after k).tick.1 = true) ∧
      ∀ j < k, ¬(j < 29781 ∧ (c.after j).tick.1 = true) := by
    have hex := h.exists_finished
    exact ⟨Nat.find hex, Nat.find_spec hex, fun j hj => Nat.find_min hex hj⟩
  have hbefore : ∀ j < k, (c.after j).tick.1 = false := fun j hj =>
    Bool.eq_false_iff.mpr fun hj' => hleast j hj ⟨by omega, hj'⟩
  have hbound : cyclesPerFrame = 29781 := by decide
  have hanswers : ∀ j < k + 1, (c.after j).tick.1 = decide (j + 1 = k + 1) := by
    intro j hj
    obtain rfl | hlt := Nat.eq_or_lt_of_le (Nat.le_of_lt_succ hj)
    · rw [hlast, decide_eq_true rfl]
    · rw [hbefore j hlt, decide_eq_false (by omega)]
  refine ⟨k + 1, hk, runFrameWithin_eq (hbound ▸ hk) hbefore hlast, ?_⟩
  exact {
    pos := Nat.succ_pos k
    answers := hanswers
    finished := fun j hj => by
      have hready : (c.after j).Ready := after_invariant (fun _ h => h.tick) h j
      rw [hready.finished, hanswers j hj]
      by_cases he : j + 1 = k + 1
      · rw [decide_eq_true he, if_pos he]
        rfl
      · rw [decide_eq_false he, if_neg he]
        rfl
    shown := by
      rw [after_succ, tick_listener, hlast, if_pos rfl, listener_after hbefore] }

theorem runFrames_succ (c : Console σ) (n : Nat) :
    runFrames (n + 1) c = (runFrames n c).runFrame := by
  induction n generalizing c with
  | zero => rfl
  | succ n ih => exact ih c.runFrame

theorem Ready.runFrames {c : Console σ} (h : c.Ready) : ∀ n, (Console.runFrames n c).Ready
  | 0 => h
  | n + 1 => by
    rw [runFrames_succ]
    exact (h.runFrames n).operate .runFrame

/-- **Running for a picture ends, and shows the next picture.**  Whatever was done to a console, it
runs for a picture in at most 29781 cycles, and the picture has its 61440 places.  Runs for one
picture after the other divide the cycles among them: each ends with the one cycle of its own that
answers, and in which the picture unit finishes a picture.  So none is left out, and none is shown
twice. -/
theorem runFrames_show_every_picture (listener : σ) (history : List (Operation σ)) :
    let c := ({ listener } : Console σ).operated history
    ∃ ends : Nat → Nat, ends 0 = 0 ∧ ∀ n,
      Console.runFrames n c = c.after (ends n) ∧
      (ends n < ends (n + 1) ∧ ends (n + 1) ≤ ends n + 29781) ∧
      (∀ k, ends n ≤ k → k < ends (n + 1) →
        (c.after k).tick.1 = decide (k + 1 = ends (n + 1)) ∧
          (c.after k).finished = if k + 1 = ends (n + 1) then 1 else 0) ∧
      (Console.runFrames (n + 1) c).board.ppu.frame.toList.length = 61440 ∧
      (Console.runFrames (n + 1) c).listener =
        FrameListener.hear (Console.runFrames (n + 1) c).board.ppu.frame
          (Console.runFrames n c).listener := by
  intro c
  have hready : c.Ready := ready_operated listener history
  choose cycles hbound hrun hframe using fun n => (hready.runFrames n).runFrame
  -- The runs lie one behind the other.
  let ends : Nat → Nat := fun n => ((List.range n).map cycles).sum
  have hsucc (n : Nat) : ends (n + 1) = ends n + cycles n := by
    simp only [ends, List.range_succ, List.map_append, List.sum_append, List.map_singleton,
      List.sum_singleton]
  have hends (n : Nat) : Console.runFrames n c = c.after (ends n) := by
    induction n with
    | zero => rfl
    | succ n ih => rw [runFrames_succ, hrun, ih, after_add, hsucc]
  refine ⟨ends, rfl, fun n => ⟨hends n, ⟨?_, ?_⟩, fun k hlow hhigh => ?_, ?_, ?_⟩⟩
  · have := (hframe n).pos
    have := hsucc n
    omega
  · have := hbound n
    have := hsucc n
    omega
  · obtain ⟨j, rfl⟩ := Nat.exists_eq_add_of_le hlow
    rw [hsucc] at hhigh ⊢
    have hj : j < cycles n := by omega
    have hcycle : (c.after (ends n + j)) = (Console.runFrames n c).after j := by
      rw [hends, after_add]
    have hlast : ends n + j + 1 = ends n + cycles n ↔ j + 1 = cycles n := by omega
    rw [hcycle, (hframe n).answers j hj, (hframe n).finished j hj, decide_eq_decide.mpr hlast]
    exact ⟨rfl, if_congr hlast.symm rfl rfl⟩
  · exact Vector.length_toList
  · rw [runFrames_succ, hrun]
    exact (hframe n).shown

end Console
end Famicom
