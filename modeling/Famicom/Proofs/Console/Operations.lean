/-
# What is done to a console

Someone at a console lets it run, for a cycle, an instruction or a picture; changes cartridges;
presses the reset button and those of the controllers; and with the tools of the bench reaches the
bus, sets the processor, or takes another seat to watch.  A history of a console is a list of these.

However long it runs, it runs by cycles (`stepInstruction_after`, `runFrame_after`), and **a cycle
is to the picture unit a history of its own** (`picture_run`): three dots, before them an access to
its registers or none, and after them the console's look for what it has to report.  So what is
known of the histories of a picture unit is known of one in a console.
-/
import Famicom.Proofs.Ppu.Frames
import Famicom.Proofs.Scanlines.Activities

namespace Famicom

/-! ## 1. The picture unit on its mainboard -/

namespace Mainboard

/-- What the cartridge shows is read without any effect. -/
theorem read_cartridge {a : UInt16} (h : device a = .cartridge) (m : Mainboard) :
    AddressBus.read a m = (readSlot m.video.slot a, m) := by
  change m.read a = _
  rw [read, h]

/-- The picture unit with its memory. -/
def picture (m : Mainboard) : Ppu × VideoMemory := (m.ppu, m.video)

/-- What an access does to the picture unit or its memory.  A write to the cartridge may switch the
banks of patterns. -/
def ofAccess (m : Mainboard) : BusCycle → List (Ppu.Operation VideoMemory)
  | .read a =>
    match device a with
    | .ppu => [.readRegister a]
    | _ => []
  | .write a v =>
    match device a with
    | .ppu => [.writeRegister a v]
    | .cartridge => [.elsewhere { m.video with slot := writeSlot m.video.slot a v }]
    | _ => []

/-- What an activity does to the picture unit or its memory. -/
def ofActivity (m : Mainboard) : Activity → List (Ppu.Operation VideoMemory)
  | .dot => [.tick]
  | .access c => m.ofAccess c
  | .transfer =>
    match m.dma.next with
    | .read a => m.ofAccess (.read a)
    | .write v => [.writeOam v]
    | _ => []
  | .collect => [.takeNmiRequest, .takeFrameComplete]
  | .cycle | .press .. => []

/-- What a run does to the picture unit or its memory. -/
def ofRun (m : Mainboard) : List Activity → List (Ppu.Operation VideoMemory)
  | [] => []
  | e :: es => m.ofActivity e ++ (m.after e).ofRun es

theorem run_append (m : Mainboard) (first second : List Activity) :
    m.run (first ++ second) = (m.run first).run second := List.foldl_append

theorem ofRun_append (m : Mainboard) (first second : List Activity) :
    m.ofRun (first ++ second) = m.ofRun first ++ (m.run first).ofRun second := by
  induction first generalizing m with
  | nil => rfl
  | cons e first ih =>
    rw [List.cons_append, ofRun, ih, ofRun, List.append_assoc]
    rfl

theorem picture_access (m : Mainboard) (c : BusCycle) :
    (c.after m).picture = Ppu.run m.picture (m.ofAccess c) := by
  cases c with
  | read a =>
    change (m.read a).2.picture = _
    cases hd : device a <;> simp only [read, ofAccess, hd] <;> rfl
  | write a v =>
    change (m.write a v).picture = _
    cases m
    cases hd : device a <;> simp only [write, ofAccess, hd] <;> rfl

/-- **An activity is to the picture unit what it does to it.** -/
theorem picture_after (m : Mainboard) (e : Activity) :
    (m.after e).picture = Ppu.run m.picture (m.ofActivity e) := by
  cases e with
  | dot => rw [after_dot_eq]; rfl
  | cycle => rfl
  | access c => exact picture_access m c
  | transfer =>
    change m.stepDma.2.picture = _
    unfold ofActivity
    dsimp only
    cases hn : m.dma.next with
    | idle => simp only [stepDma, hn]; rfl
    | align => rw [stepDma_align hn]; rfl
    | read a => rw [stepDma_read hn]; exact picture_access m (.read a)
    | write v => rw [stepDma_write hn]; rfl
  | collect => rfl
  | press pad buttons =>
    change (m.setButtons pad buttons).picture = _
    unfold setButtons
    split <;> rfl

theorem picture_run (m : Mainboard) (es : List Activity) :
    (m.run es).picture = Ppu.run m.picture (m.ofRun es) := by
  induction es generalizing m with
  | nil => rfl
  | cons e es ih =>
    rw [ofRun, Ppu.run_append, ← picture_after]
    exact ih (m.after e)

/-- No activity resets the picture unit, and only the console takes its reports. -/
theorem mem_ofActivity {m : Mainboard} {e : Activity} {op : Ppu.Operation VideoMemory}
    (h : op ∈ m.ofActivity e) : op ≠ .reset ∧ (op = .takeFrameComplete → e = .collect) := by
  have haccess {c : BusCycle} (h : op ∈ m.ofAccess c) :
      op ≠ .reset ∧ (op = .takeFrameComplete → e = .collect) := by
    cases c with
    | read a => cases hd : device a <;> simp_all [ofAccess]
    | write a v => cases hd : device a <;> simp_all [ofAccess]
  cases e with
  | access c => exact haccess h
  | transfer =>
    unfold ofActivity at h
    dsimp only at h
    split at h
    · exact haccess h
    · simp_all
    · simp_all
  | collect => exact ⟨by rintro rfl; simp [ofActivity] at h, fun _ => rfl⟩
  | _ => simp_all [ofActivity]

theorem mem_ofRun {m : Mainboard} {es : List Activity} {op : Ppu.Operation VideoMemory}
    (h : op ∈ m.ofRun es) : op ≠ .reset ∧ (op = .takeFrameComplete → .collect ∈ es) := by
  induction es generalizing m with
  | nil => exact absurd h List.not_mem_nil
  | cons e es ih =>
    rw [ofRun, List.mem_append] at h
    obtain h | h := h
    · obtain ⟨hreset, htake⟩ := mem_ofActivity h
      exact ⟨hreset, fun he => List.mem_cons.mpr (.inl (htake he).symm)⟩
    · obtain ⟨hreset, htake⟩ := ih h
      exact ⟨hreset, fun he => List.mem_cons_of_mem _ (htake he)⟩

theorem reset_not_mem_ofRun (m : Mainboard) (es : List Activity) : .reset ∉ m.ofRun es :=
  fun h => (mem_ofRun h).1 rfl

/-- Only dots move the picture unit. -/
theorem dots_ofActivity (m : Mainboard) (e : Activity) :
    Ppu.dots (m.ofActivity e) = if e = .dot then 1 else 0 := by
  have haccess (c : BusCycle) : Ppu.dots (m.ofAccess c) = 0 := by
    cases c with
    | read a => cases hd : device a <;> simp only [ofAccess, hd] <;> rfl
    | write a v => cases hd : device a <;> simp only [ofAccess, hd] <;> rfl
  cases e with
  | access c => exact haccess c
  | transfer =>
    unfold ofActivity
    dsimp only
    split
    · exact haccess _
    · rfl
    · rfl
  | _ => rfl

theorem dots_ofRun (m : Mainboard) (es : List Activity) :
    Ppu.dots (m.ofRun es) = es.count .dot := by
  induction es generalizing m with
  | nil => rfl
  | cons e es ih =>
    rw [ofRun, Ppu.dots_append, dots_ofActivity, ih, List.count_cons, Nat.add_comm]
    congr 1
    by_cases he : e = .dot
    · rw [if_pos he, he]
      rfl
    · rw [if_neg he, if_neg (by rw [beq_iff_eq]; exact he)]

end Mainboard

namespace Console

variable {σ : Type}

/-! ## 2. Operations -/

/-- What is done to a console. -/
inductive Operation (σ : Type) where
  | tick
  | stepInstruction
  | runFrame
  | insert (cartridge : Cartridge)
  | eject
  | reset
  | press (pad : Nat) (buttons : UInt8)
  /-- An access that the processor does not make. -/
  | access (cycle : BusCycle)
  /-- The processor is set, and anything may have been done to it. -/
  | processor (cpu : Cpu)
  /-- Someone else is watching. -/
  | watch (listener : σ)

variable [FrameListener σ]

/-- The console after an operation. -/
def operate (c : Console σ) : Operation σ → Console σ
  | .tick => c.tick.2
  | .stepInstruction => c.stepInstruction.2
  | .runFrame => c.runFrame
  | .insert cartridge => (c.insert cartridge).2
  | .eject => c.eject.2
  | .reset => c.reset
  | .press pad buttons => { c with board := c.board.setButtons pad buttons }
  | .access cycle => { c with board := cycle.after c.board }
  | .processor cpu => { c with cpu }
  | .watch listener => { c with listener }

/-- The console after a history. -/
def operated (c : Console σ) (history : List (Operation σ)) : Console σ := history.foldl operate c

/-- What every operation of a history keeps, the history keeps. -/
theorem operated_invariant {I : Console σ → Prop} {history : List (Operation σ)}
    (step : ∀ c, ∀ op ∈ history, I c → I (c.operate op)) {c : Console σ} (h : I c) :
    I (c.operated history) := by
  induction history generalizing c with
  | nil => exact h
  | cons op history ih =>
    exact ih (fun c op' hop => step c op' (List.mem_cons_of_mem _ hop))
      (step c op List.mem_cons_self h)

/-! ## 3. Running is running cycle by cycle -/

theorem after_add (c : Console σ) (n k : Nat) : (c.after n).after k = c.after (n + k) := by
  rw [Nat.add_comm]
  exact (Function.iterate_add_apply _ k n c).symm

theorem settleWithin_after : ∀ (n spent : Nat) (c : Console σ),
    ∃ k, (settleWithin n spent c).2 = c.after k
  | 0, _, _ => ⟨0, rfl⟩
  | n + 1, spent, c => by
    unfold settleWithin
    split
    · exact ⟨0, rfl⟩
    · obtain ⟨k, hk⟩ := settleWithin_after n (spent + 1) c.tick.2
      exact ⟨k + 1, hk⟩

theorem stepInstruction_after (c : Console σ) : ∃ k, c.stepInstruction.2 = c.after k := by
  obtain ⟨k, hk⟩ := settleWithin_after c.tick.2.settlingTime 1 c.tick.2
  exact ⟨k + 1, hk⟩

theorem runFrameWithin_after : ∀ (n : Nat) (c : Console σ),
    ∃ k, runFrameWithin n c = c.after k
  | 0, _ => ⟨0, rfl⟩
  | n + 1, c => by
    unfold runFrameWithin
    dsimp only
    split
    · exact ⟨1, rfl⟩
    · obtain ⟨k, hk⟩ := runFrameWithin_after n c.tick.2
      exact ⟨k + 1, hk⟩

theorem runFrame_after (c : Console σ) : ∃ k, c.runFrame = c.after k :=
  runFrameWithin_after cyclesPerFrame c

/-- What a cycle keeps, every operation that lets the console run keeps. -/
theorem after_invariant {I : Console σ → Prop} (step : ∀ c, I c → I c.tick.2) {c : Console σ}
    (h : I c) : ∀ n, I (c.after n)
  | 0 => h
  | n + 1 => by
    rw [after_succ]
    exact step _ (after_invariant step h n)

/-- **What is kept of the mainboard by cycles, by activities other than dots, and by what cartridges
and the reset button do to it, every operation keeps.** -/
theorem operate_invariant {I : Mainboard → Prop}
    (cycle : ∀ c : Console σ, I c.board → I c.tick.2.board)
    (activity : ∀ m e, e ≠ .dot → I m → I (m.after e)) {c : Console σ} {op : Operation σ}
    (insert : ∀ cartridge, op = .insert cartridge → I (c.board.insert cartridge).2)
    (eject : op = .eject → I c.board.eject.2) (reset : op = .reset → I c.board.reset)
    (h : I c.board) : I (c.operate op).board := by
  have hafter (k : Nat) : I (c.after k).board :=
    after_invariant (I := fun c => I c.board) cycle h k
  -- To find its vector the processor reads twice.
  have hvector (cpu : Cpu) (m : Mainboard) (hm : I m) : I (cpu.reset m).2 :=
    activity _ (.access (.read 0xFFFD)) nofun (activity m (.access (.read 0xFFFC)) nofun hm)
  cases op with
  | tick => exact cycle c h
  | stepInstruction =>
    obtain ⟨k, hk⟩ := c.stepInstruction_after
    change I c.stepInstruction.2.board
    rw [hk]
    exact hafter k
  | runFrame =>
    obtain ⟨k, hk⟩ := c.runFrame_after
    change I c.runFrame.board
    rw [hk]
    exact hafter k
  | insert cartridge => exact hvector c.cpu _ (insert cartridge rfl)
  | eject => exact eject rfl
  | reset => exact hvector c.cpu _ (reset rfl)
  | press pad buttons => exact activity _ (.press pad buttons) nofun h
  | access cycle => exact activity _ (.access cycle) nofun h
  | processor | watch => exact h

/-- What happens on the mainboard in some cycles. -/
def activitiesFor (c : Console σ) (n : Nat) : List Mainboard.Activity :=
  (List.range n).flatMap fun k => (c.after k).activities

theorem activitiesFor_succ (c : Console σ) (n : Nat) :
    c.activitiesFor (n + 1) = c.activitiesFor n ++ (c.after n).activities := by
  simp only [activitiesFor, List.range_succ, List.flatMap_append, List.flatMap_cons,
    List.flatMap_nil, List.append_nil]

theorem after_board (c : Console σ) (n : Nat) :
    (c.after n).board = c.board.run (c.activitiesFor n) := by
  induction n with
  | zero => rfl
  | succ n ih => rw [after_succ, tick_activities, activitiesFor_succ, Mainboard.run_append, ih]

end Console
end Famicom
