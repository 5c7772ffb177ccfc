/-
  Text screens of `w` columns and `h` rows.

  A screen is its cells, row after row under one index, and a cursor. A symbol is printed at
  the cursor, which goes on to the next row at the end of one; from the last row the screen
  scrolls up. What lies past the last cell is blank, so two screens that look alike are equal.

  Every operation keeps the cursor on the screen (`Within`). `Trails` says that a text stands
  right before the cursor, behind what another screen has before its own; rows may have been
  scrolled away above it.

  Generic in the size and the symbols.
-/
import Mathlib.Logic.Function.Basic
import Mathlib.Tactic.Common

namespace Base

universe u

structure TextScreen (α : Type u) where
  cells : Nat → α
  x : Nat
  y : Nat

namespace TextScreen

variable {α : Type u}

section Operations

variable (w h : Nat) (blank : α)

def set (s : TextScreen α) (a : α) : TextScreen α :=
  { s with cells := Function.update s.cells (w * s.y + s.x) a }

def scroll (s : TextScreen α) : TextScreen α :=
  { s with cells := fun i => if i < w * (h - 1) then s.cells (i + w) else blank }

def newline (s : TextScreen α) : TextScreen α :=
  if s.y + 1 < h then { s with x := 0, y := s.y + 1 }
  else { s.scroll w h blank with x := 0 }

def print (s : TextScreen α) (a : α) : TextScreen α :=
  if s.x + 1 < w then { s.set w a with x := s.x + 1 } else (s.set w a).newline w h blank

/-- The cursor one cell back. It stays in the upper left corner. -/
def back (s : TextScreen α) : TextScreen α :=
  if s.x = 0 then
    if s.y = 0 then s else { s with x := w - 1, y := s.y - 1 }
  else { s with x := s.x - 1 }

def backspace (s : TextScreen α) : TextScreen α := (s.back w).set w blank

def clear : TextScreen α := ⟨fun _ => blank, 0, 0⟩

end Operations

/-! ## The cursor -/

variable {w h : Nat} {blank : α} {s : TextScreen α}

structure Within (w h : Nat) (s : TextScreen α) : Prop where
  x : s.x < w
  y : s.y < h

theorem Within.set (hs : Within w h s) (a : α) : Within w h (s.set w a) := ⟨hs.x, hs.y⟩

theorem Within.newline (hs : Within w h s) : Within w h (s.newline w h blank) := by
  have hw : 0 < w := Nat.zero_lt_of_lt hs.x
  unfold TextScreen.newline
  split
  · rename_i hlt
    exact ⟨hw, hlt⟩
  · exact ⟨hw, hs.y⟩

theorem Within.print (hs : Within w h s) (a : α) : Within w h (s.print w h blank a) := by
  unfold TextScreen.print
  split
  · rename_i hlt
    exact ⟨hlt, hs.y⟩
  · exact (hs.set a).newline

theorem Within.back (hs : Within w h s) : Within w h (s.back w) := by
  have hx := hs.x
  have hy := hs.y
  unfold TextScreen.back
  split
  · split
    · exact hs
    · exact ⟨by dsimp only; omega, by dsimp only; omega⟩
  · exact ⟨by dsimp only; omega, hy⟩

theorem Within.backspace (hs : Within w h s) : Within w h (s.backspace w blank) :=
  hs.back.set blank

theorem within_clear (hw : 0 < w) (hh : 0 < h) : Within w h (clear blank) := ⟨hw, hh⟩

/-! ## A text before the cursor -/

/-- The cursor as an index of the cells. -/
def pos (w : Nat) (s : TextScreen α) : Nat := w * s.y + s.x

/-- `s` has been scrolled by `up` rows since it was `base`, and `text` has been added at the
    cursor. -/
structure TrailsBy (w up : Nat) (base : TextScreen α) (text : List α) (s : TextScreen α) : Prop where
  pos : s.pos w + w * up = base.pos w + text.length
  fits : text.length ≤ s.pos w
  before : ∀ i, i + text.length < s.pos w → s.cells i = base.cells (i + w * up)
  text : ∀ j (hj : j < text.length), s.cells (s.pos w - text.length + j) = text[j]

def Trails (w : Nat) (base : TextScreen α) (text : List α) (s : TextScreen α) : Prop :=
  ∃ up, TrailsBy w up base text s

variable {base : TextScreen α} {text : List α} {a : α} {up : Nat}

/-- A symbol stored at the cursor. -/
theorem TrailsBy.set (ht : TrailsBy w up base text s) : ∀ j (hj : j < (text ++ [a]).length),
    (s.set w a).cells (s.pos w - text.length + j) = (text ++ [a])[j] := by
  intro j hj
  have hfits := ht.fits
  have hset : (s.set w a).cells = Function.update s.cells (s.pos w) a := rfl
  rw [List.length_append, List.length_singleton] at hj
  rw [hset]
  rcases Nat.lt_or_eq_of_le (Nat.le_of_lt_succ hj) with hlt | rfl
  · rw [Function.update_of_ne (by omega), ht.text j hlt, List.getElem_append_left hlt]
  · rw [Nat.sub_add_cancel hfits, Function.update_self, List.getElem_concat_length rfl]

theorem TrailsBy.step {s' : TextScreen α} (ht : TrailsBy w up base text s)
    (hcells : s'.cells = (s.set w a).cells) (hpos : s'.pos w = s.pos w + 1) :
    TrailsBy w up base (text ++ [a]) s' := by
  have hlen : (text ++ [a]).length = text.length + 1 := by simp
  have hfits := ht.fits
  have hmoved := ht.pos
  have hcursor : s.pos w = w * s.y + s.x := rfl
  refine ⟨by omega, by omega, fun i hi => ?_, fun j hj => ?_⟩
  · rw [hcells]
    exact (Function.update_of_ne (by omega) _ _).trans (ht.before i (by omega))
  · rw [hcells, ← ht.set j hj]
    exact congrArg (s.set w a).cells (by omega)

theorem TrailsBy.scroll {s' : TextScreen α} (ht : TrailsBy w up base text s)
    (hcells : ∀ i, i < s'.pos w → s'.cells i = (s.set w a).cells (i + w))
    (hpos : s'.pos w + w = s.pos w + 1) (hroom : text.length < s'.pos w) :
    TrailsBy w (up + 1) base (text ++ [a]) s' := by
  have hlen : (text ++ [a]).length = text.length + 1 := by simp
  have hfits := ht.fits
  have hmoved := ht.pos
  have hcursor : s.pos w = w * s.y + s.x := rfl
  have hup : w * (up + 1) = w * up + w := Nat.mul_succ w up
  refine ⟨by omega, by omega, fun i hi => ?_, fun j hj => ?_⟩
  · rw [hcells i (by omega)]
    refine (Function.update_of_ne (by omega) _ _).trans ((ht.before (i + w) (by omega)).trans ?_)
    exact congrArg base.cells (by omega)
  · rw [hcells _ (by omega), ← ht.set j hj]
    exact congrArg (s.set w a).cells (by omega)

/-- A symbol is printed: it joins the text, which must not reach above the last row but one. -/
theorem Trails.print (ht : Trails w base text s) (hs : Within w h s)
    (hroom : text.length < w * (h - 1)) : Trails w base (text ++ [a]) (s.print w h blank a) := by
  obtain ⟨up, ht⟩ := ht
  have hx := hs.x
  have hy := hs.y
  unfold TextScreen.print
  split
  · exact ⟨up, ht.step rfl rfl⟩
  · have hlast : s.x + 1 = w := by omega
    unfold TextScreen.newline
    split
    · refine ⟨up, ht.step rfl ?_⟩
      show w * (s.y + 1) + 0 = w * s.y + s.x + 1
      rw [Nat.mul_succ]
      omega
    · rename_i hbottom
      have hrow : s.y = h - 1 := by
        have hy' : ¬ s.y + 1 < h := hbottom
        omega
      have hpos : ∀ cells : Nat → α, TextScreen.pos w ⟨cells, 0, s.y⟩ = w * (h - 1) := by
        intro cells
        unfold TextScreen.pos
        rw [hrow]
        rfl
      refine ⟨up + 1, ht.scroll (fun i hi => ?_) ?_ ?_⟩
      · exact if_pos (Nat.lt_of_lt_of_eq hi (hpos _))
      · refine (congrArg (· + w) (hpos _)).trans ?_
        unfold TextScreen.pos
        rw [hrow]
        omega
      · exact Nat.lt_of_lt_of_eq hroom (hpos _).symm

/-- A backspace takes the last symbol away. -/
theorem Trails.backspace (ht : Trails w base (text ++ [a]) s) (hs : Within w h s) :
    Trails w base text (s.backspace w blank) := by
  obtain ⟨up, ht⟩ := ht
  have hx := hs.x
  have hlen : (text ++ [a]).length = text.length + 1 := by simp
  have hfits := ht.fits
  have hmoved := ht.pos
  have hpos : (s.backspace w blank).pos w + 1 = s.pos w := by
    unfold TextScreen.backspace TextScreen.set TextScreen.back TextScreen.pos at *
    split_ifs with hx0 hy0
    · rw [hx0, hy0] at hfits
      omega
    · obtain ⟨y, hy⟩ : ∃ y, s.y = y + 1 := ⟨s.y - 1, by omega⟩
      dsimp only
      rw [hy, Nat.mul_succ, Nat.add_sub_cancel]
      omega
    · dsimp only
      omega
  have hcells : ∀ i, i < (s.backspace w blank).pos w → (s.backspace w blank).cells i = s.cells i := by
    intro i hi
    have hback : (s.back w).cells = s.cells := by
      unfold TextScreen.back
      split_ifs <;> rfl
    refine (Function.update_of_ne (Nat.ne_of_lt hi) _ _).trans ?_
    rw [hback]
  refine ⟨up, by omega, by omega, fun i hi => ?_, fun j hj => ?_⟩
  · rw [hcells i (by omega)]
    exact ht.before i (by omega)
  · have hold := ht.text j (by omega)
    rw [List.getElem_append_left hj] at hold
    rw [hcells _ (by omega), ← hold]
    exact congrArg s.cells (by omega)

end TextScreen

end Base
