/-
# Memories that answer by the address alone

A cartridge may count the accesses of the picture unit and change what it answers.  Most of what
can be said of a picture needs the opposite: **a read depends on nothing but its address**.
`ReadsAs f mem` says so of a memory of any kind, with `f` the bytes it answers, whatever has been
read before.

The plainest memory of that kind is `f` itself (`Answers`), and nothing is lost by looking at that
one only: the unit works on every memory that reads as `f` exactly as on `f` (`tick_agrees`).  So a
run of dots on any such memory is a function of the unit alone, iterated (`ticks_steady`).
-/
import Famicom.Ppu.Dot
import Mathlib.Logic.Function.Iterate
import Mathlib.Tactic.SplitIfs

namespace Famicom.Ppu

/-! ## 1. Steady memories -/

/-- A memory that is nothing but its answers. -/
structure Answers where
  answer : UInt16 → UInt8

instance : AddressBus Answers where
  read a m := (m.answer a, m)
  write _ _ m := m

section Bus

variable {μ : Type} [AddressBus μ] {f : UInt16 → UInt8} {mem : μ}

/-- The memory after a run of reads. -/
def afterReads (mem : μ) : List UInt16 → μ
  | [] => mem
  | a :: as => afterReads (AddressBus.read a mem).2 as

/-- Whatever has been read before, a read answers by its address alone. -/
def ReadsAs (f : UInt16 → UInt8) (mem : μ) : Prop :=
  ∀ as a, (AddressBus.read a (afterReads mem as)).1 = f a

/-- A read answers by `f`, and the memory left behind is as steady. -/
theorem ReadsAs.read_eq (h : ReadsAs f mem) (a : UInt16) :
    ∃ mem' : μ, AddressBus.read a mem = (f a, mem') ∧ ReadsAs f mem' :=
  ⟨(AddressBus.read a mem).2, Prod.ext (h [] a) rfl, fun as => h (a :: as)⟩

/-- A memory that reading does not change is steady. -/
theorem readsAs_of_read_snd (h : ∀ a, (AddressBus.read a mem).2 = mem) :
    ReadsAs (fun a => (AddressBus.read a mem).1) mem := by
  have hreads : ∀ as, afterReads mem as = mem := by
    intro as
    induction as with
    | nil => rfl
    | cons a as ih => rw [afterReads, h, ih]
  intro as a
  rw [hreads]

/-! ## 2. One dot -/

/-- The same unit came out of both, and what is left of the memory still answers by `f`. -/
def Agrees (f : UInt16 → UInt8) (r : Ppu × μ) (s : Ppu × Answers) : Prop :=
  ∃ p mem, r = (p, mem) ∧ s = (p, ⟨f⟩) ∧ ReadsAs f mem

theorem Agrees.refl (h : ReadsAs f mem) (p : Ppu) : Agrees f (p, mem) (p, ⟨f⟩) :=
  ⟨p, mem, rfl, rfl, h⟩

theorem fetchTile_agrees (h : ReadsAs f mem) (p : Ppu) :
    Agrees f (p.fetchTile mem) (p.fetchTile (⟨f⟩ : Answers)) := by
  obtain ⟨mem', hr, hm⟩ := h.read_eq p.v.tileAddress
  simp only [fetchTile, hr]
  exact .refl hm _

theorem tileDot_agrees (h : ReadsAs f mem) (p : Ppu) :
    Agrees f (p.tileDot mem) (p.tileDot (⟨f⟩ : Answers)) := by
  unfold tileDot
  split
  · exact fetchTile_agrees h _
  · obtain ⟨mem', hr, hm⟩ := h.read_eq p.v.attributeAddress
    simp only [hr]
    exact .refl hm _
  · obtain ⟨mem', hr, hm⟩ :=
      h.read_eq (p.background.patternAddress p.control.backgroundTable p.v.line)
    simp only [hr]
    exact .refl hm _
  · obtain ⟨mem', hr, hm⟩ :=
      h.read_eq (p.background.patternAddress p.control.backgroundTable p.v.line + 8)
    simp only [hr]
    exact .refl hm _
  · exact .refl h _
  · exact .refl h _

theorem positionDot_agrees (h : ReadsAs f mem) (p : Ppu) :
    Agrees f (p.positionDot mem) (p.positionDot (⟨f⟩ : Answers)) := by
  unfold positionDot
  dsimp only
  split_ifs
  · exact .refl h _
  · exact .refl h _
  · exact fetchTile_agrees h p
  · exact .refl h _
  · exact .refl h _

theorem backgroundDot_agrees (h : ReadsAs f mem) (p : Ppu) :
    Agrees f (p.backgroundDot mem) (p.backgroundDot (⟨f⟩ : Answers)) := by
  unfold backgroundDot
  split
  · dsimp only
    obtain ⟨p', mem', hr, hs, hm⟩ := tileDot_agrees h
      (if p.mask.background then { p with background := p.background.shift } else p)
    rw [hr, hs]
    exact positionDot_agrees hm p'
  · exact positionDot_agrees h p

theorem spriteFetchDot_agrees (h : ReadsAs f mem) (p : Ppu) :
    Agrees f (p.spriteFetchDot mem) (p.spriteFetchDot (⟨f⟩ : Answers)) := by
  obtain ⟨m₀, h₀, hm₀⟩ := h.read_eq p.v.tileAddress
  obtain ⟨m₄, h₄, hm₄⟩ := h.read_eq
    (p.sprites.patternAddress p.control p.raster.line (Fin.ofNat 8 ((p.raster.dot - 257) / 8)))
  obtain ⟨m₆, h₆, hm₆⟩ := h.read_eq
    (p.sprites.patternAddress p.control p.raster.line (Fin.ofNat 8 ((p.raster.dot - 257) / 8)) + 8)
  unfold spriteFetchDot
  dsimp only
  split
  · simp only [h₀]
    exact .refl hm₀ _
  · simp only [h₀]
    exact .refl hm₀ _
  · simp only [h₄]
    exact .refl hm₄ _
  · simp only [h₆]
    exact .refl hm₆ _
  · exact .refl h _

theorem spriteDot_agrees (h : ReadsAs f mem) (p : Ppu) :
    Agrees f (p.spriteDot mem) (p.spriteDot (⟨f⟩ : Answers)) := by
  unfold spriteDot
  dsimp only
  split
  · exact .refl h _
  split
  · exact .refl h _
  split
  · exact .refl h _
  split
  · exact .refl h _
  split
  · exact spriteFetchDot_agrees h p
  · exact .refl h _

theorem renderDot_agrees (h : ReadsAs f mem) (p : Ppu) :
    Agrees f (p.renderDot mem) (p.renderDot (⟨f⟩ : Answers)) := by
  obtain ⟨p₁, mem₁, hr₁, hs₁, h₁⟩ := backgroundDot_agrees h p
  obtain ⟨p₂, mem₂, hr₂, hs₂, h₂⟩ := spriteDot_agrees h₁ p₁
  simp only [renderDot, hr₁, hs₁, hr₂, hs₂]
  split
  · exact .refl h₂ _
  · exact .refl h₂ _

/-- **A dot on any steady memory is the dot on its answers.** -/
theorem tick_agrees (h : ReadsAs f mem) (p : Ppu) :
    Agrees f (p.tick mem) (p.tick (⟨f⟩ : Answers)) := by
  obtain ⟨p', mem', hr, hs, h'⟩ := renderDot_agrees h p.clearReports
  unfold tick
  dsimp only
  split
  · rw [hr, hs]
    exact .refl h' _
  · exact .refl h _

/-! ## 3. Runs of dots -/

/-- A number of dots. -/
def ticks : Nat → Ppu → μ → Ppu × μ
  | 0, p, mem => (p, mem)
  | n + 1, p, mem => ticks n (p.tick mem).1 (p.tick mem).2

end Bus

/-- One dot, where the memory answers by `f`. -/
def dot (f : UInt16 → UInt8) (p : Ppu) : Ppu := (p.tick (⟨f⟩ : Answers)).1

/-- **A run of dots on a steady memory** is a function of the unit, iterated; and the memory is as
steady afterwards. -/
theorem ticks_steady {μ : Type} [AddressBus μ] {f : UInt16 → UInt8} :
    ∀ (n : Nat) {mem : μ} (_ : ReadsAs f mem) (p : Ppu),
      (ticks n p mem).1 = (dot f)^[n] p ∧ ReadsAs f (ticks n p mem).2
  | 0, _, h, _ => ⟨rfl, h⟩
  | n + 1, _, h, p => by
    obtain ⟨p', mem', hr, hs, h'⟩ := tick_agrees h p
    have hd : dot f p = p' := by rw [dot, hs]
    rw [ticks, hr, Function.iterate_succ_apply, hd]
    exact ticks_steady n h' p'

end Famicom.Ppu
