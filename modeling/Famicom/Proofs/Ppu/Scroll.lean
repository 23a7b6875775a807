/-
# Setting the scroll

Where a picture begins on the plane is held in four places: the control byte, the position `t`, the
pixel within a tile, and the flag that says which half of a scroll comes next.  Few accesses reach
them: reading the status, and writing the control byte, a half of a scroll or a half of an address.

A program's run is a list of events, dots passing and registers being accessed in between.  **The
scroll after a run is what those accesses make of it** (`scroll_run`), however many dots pass and
whatever other registers are accessed.  So a status read and two halves of a scroll set it, with the
control byte written anywhere among them (`scroll_of_setsScroll`).
-/
import Famicom.Ppu.RegisterAccess
import Famicom.Proofs.Ppu.DotParts

namespace Famicom.Ppu

/-! ## 1. Events -/

/-- What happens to the unit in a run of a program. -/
inductive Event where
  | dot
  | read (address : UInt16)
  | write (address : UInt16) (value : UInt8)
  deriving DecidableEq, Repr

section Bus

variable {μ : Type} [AddressBus μ]

/-- The unit and its memory after an event. -/
def afterEvent (p : Ppu) (mem : μ) : Event → Ppu × μ
  | .dot => p.tick mem
  | .read a => (p.readRegister a mem).2
  | .write a v => p.writeRegister a v mem

/-- The unit and its memory after a run of events. -/
def afterEvents (p : Ppu) (mem : μ) : List Event → Ppu × μ
  | [] => (p, mem)
  | e :: es => afterEvents (p.afterEvent mem e).1 (p.afterEvent mem e).2 es

end Bus

/-! ## 2. The scroll -/

/-- What decides where a picture begins. -/
structure Scroll where
  control : Control
  t : VramAddress
  fineX : Fin 8
  toggle : Bool
  deriving DecidableEq, Repr

/-- What decides where the next picture begins. -/
def scroll (p : Ppu) : Scroll := ⟨p.control, p.t, p.fineX, p.toggle⟩

/-- An access that reaches the scroll. -/
inductive ScrollAccess where
  | status
  | control (value : UInt8)
  | scroll (value : UInt8)
  | address (value : UInt8)
  deriving DecidableEq, Repr

/-- The access to the scroll that an event makes, if it makes one. -/
def Event.scrollAccess? : Event → Option ScrollAccess
  | .dot => none
  | .read a => if a.toNat % 8 = 2 then some .status else none
  | .write a v =>
    match a.toNat % 8 with
    | 0 => some (.control v)
    | 5 => some (.scroll v)
    | 6 => some (.address v)
    | _ => none

/-- The scroll after an access to it. -/
def Scroll.access (s : Scroll) : ScrollAccess → Scroll
  | .status => { s with toggle := false }
  | .control v => { s with control := ⟨v⟩, t := s.t.setNametable v.toNat }
  | .scroll v =>
    if s.toggle then
      { s with t := (s.t.setLine v.toNat).setRow (v.toNat / 8), toggle := false }
    else
      { s with t := s.t.setColumn (v.toNat / 8), fineX := .ofNat 8 v.toNat, toggle := true }
  | .address v =>
    if s.toggle then
      { s with t := .ofRaw (s.t.raw / 256 * 256 + v.toNat), toggle := false }
    else { s with t := .ofRaw (v.toNat % 64 * 256 + s.t.raw % 256), toggle := true }

section Bus

variable {μ : Type} [AddressBus μ]

theorem tick_scroll (p : Ppu) (mem : μ) : (p.tick mem).1.scroll = p.scroll := by
  have h := tick_settings p mem
  have hc := congrArg Settings.control h
  have ht := congrArg Settings.t h
  have hf := congrArg Settings.fineX h
  have hw := congrArg Settings.toggle h
  dsimp only [settings] at hc ht hf hw
  rw [scroll, hc, ht, hf, hw]
  rfl

theorem readData_scroll (p : Ppu) (mem : μ) : (p.readData mem).2.1.scroll = p.scroll := by
  unfold readData
  dsimp only
  split <;> rfl

theorem writeData_scroll (p : Ppu) (v : UInt8) (mem : μ) :
    (p.writeData v mem).1.scroll = p.scroll := by
  unfold writeData
  dsimp only
  split <;> rfl

theorem read_scroll (p : Ppu) (a : UInt16) (mem : μ) :
    (p.readRegister a mem).2.1.scroll =
      if a.toNat % 8 = 2 then p.scroll.access .status else p.scroll := by
  unfold readRegister
  dsimp only
  split
  case h_1 h => rw [if_pos h]; rfl
  case h_2 h => rw [if_neg (by omega)]; rfl
  case h_3 h =>
    rw [if_neg (by omega), ← readData_scroll p mem]
    rfl
  case h_4 h _ _ => rw [if_neg h]

theorem writeScroll_scroll (p : Ppu) (v : UInt8) :
    (p.writeScroll v).scroll = p.scroll.access (.scroll v) := by
  unfold writeScroll
  by_cases h : p.toggle = true
  · rw [if_pos h]
    exact (if_pos h).symm
  · rw [if_neg h]
    exact (if_neg h).symm

theorem writeAddress_scroll (p : Ppu) (v : UInt8) :
    (p.writeAddress v).scroll = p.scroll.access (.address v) := by
  unfold writeAddress
  by_cases h : p.toggle = true
  · rw [if_pos h]
    exact (if_pos h).symm
  · rw [if_neg h]
    exact (if_neg h).symm

theorem write_scroll (p : Ppu) (a : UInt16) (v : UInt8) (mem : μ) :
    (p.writeRegister a v mem).1.scroll =
      match (Event.write a v).scrollAccess? with
      | some x => p.scroll.access x
      | none => p.scroll := by
  have ha : a.toNat % 8 < 8 := Nat.mod_lt _ (by decide)
  unfold writeRegister Event.scrollAccess?
  dsimp only
  generalize a.toNat % 8 = register at ha
  interval_cases register
  · rfl
  · rfl
  · rfl
  · rfl
  · rfl
  · exact writeScroll_scroll { p with ioLatch := v } v
  · exact writeAddress_scroll { p with ioLatch := v } v
  · exact writeData_scroll { p with ioLatch := v } v mem

/-- An event changes the scroll by the access it makes, if it makes one. -/
theorem afterEvent_scroll (p : Ppu) (mem : μ) (e : Event) :
    (p.afterEvent mem e).1.scroll =
      match e.scrollAccess? with
      | some x => p.scroll.access x
      | none => p.scroll := by
  cases e with
  | dot => exact tick_scroll p mem
  | read a =>
    rw [afterEvent, read_scroll, Event.scrollAccess?]
    by_cases h : a.toNat % 8 = 2
    · rw [if_pos h, if_pos h]
    · rw [if_neg h, if_neg h]
  | write a v => exact write_scroll p a v mem

/-- **The scroll after a run** is what the accesses to it make of it, one after the other. -/
theorem scroll_run (es : List Event) (p : Ppu) (mem : μ) :
    (p.afterEvents mem es).1.scroll =
      (es.filterMap Event.scrollAccess?).foldl Scroll.access p.scroll := by
  induction es generalizing p mem with
  | nil => rfl
  | cons e es ih =>
    rw [afterEvents, ih, afterEvent_scroll, List.filterMap_cons]
    cases e.scrollAccess? <;> rfl

end Bus

/-! ## 3. Setting it -/

/-- The accesses that set a scroll: a status read and the two halves, with the control byte written
anywhere among them. -/
def SetsScroll (c sx sy : UInt8) (accesses : List ScrollAccess) : Prop :=
  ∃ before after, before ++ after = [.status, .scroll sx, .scroll sy] ∧
    accesses = before ++ .control c :: after

/-- **What the accesses set**, whatever the scroll was before. -/
theorem scroll_of_setsScroll {c sx sy : UInt8} {accesses : List ScrollAccess}
    (h : SetsScroll c sx sy accesses) (s : Scroll) :
    accesses.foldl Scroll.access s =
      { control := ⟨c⟩
        t :=
          { column := .ofNat 32 (sx.toNat / 8)
            row := .ofNat 32 (sy.toNat / 8)
            right := c.toNat % 2 == 1
            lower := c.toNat / 2 % 2 == 1
            line := .ofNat 8 sy.toNat }
        fineX := .ofNat 8 sx.toNat
        toggle := false } := by
  obtain ⟨before, after, hsplit, rfl⟩ := h
  -- The control byte may come before, between or after the three other accesses.
  rcases before with _ | ⟨x, _ | ⟨y, _ | ⟨z, rest⟩⟩⟩
  · obtain rfl : after = _ := hsplit
    rfl
  · obtain ⟨rfl, rfl⟩ := List.cons.inj hsplit
    rfl
  · obtain ⟨rfl, htail⟩ := List.cons.inj hsplit
    obtain ⟨rfl, rfl⟩ := List.cons.inj htail
    rfl
  · obtain ⟨rfl, htail⟩ := List.cons.inj hsplit
    obtain ⟨rfl, htail'⟩ := List.cons.inj htail
    obtain ⟨rfl, hnil⟩ := List.cons.inj htail'
    obtain ⟨rfl, rfl⟩ := List.append_eq_nil_iff.mp hnil
    rfl

end Famicom.Ppu
