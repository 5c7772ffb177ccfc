/-
  Filling and copying areas of memory.

  `filled`, `tiled` and `copied` say what an area holds afterwards; a copy reads all of its
  source first.
  A fill or a copy can be done piece by piece: a copy from the front where the destination does
  not lie behind the source in it (`copied_append`), and from the back where it does
  (`copied_prepend`).

  Generic in what a cell holds.
-/
import Mathlib.Logic.Function.Basic
import Mathlib.Tactic.Common

namespace Base.Areas

universe u

variable {β : Type u} {m : Nat → β} {dst src i j size n : Nat} {b : β} {v : Nat → β}

/-- `n` cells from `dst` on hold `b`. -/
def filled (m : Nat → β) (dst n : Nat) (b : β) (a : Nat) : β :=
  if dst ≤ a ∧ a < dst + n then b else m a

/-- From `dst` on, the `size` cells of `v`, `n` times over. -/
def tiled (m : Nat → β) (dst size n : Nat) (v : Nat → β) (a : Nat) : β :=
  if dst ≤ a ∧ a < dst + n * size then v ((a - dst) % size) else m a

/-- `n` cells from `dst` on hold what those from `src` on held. -/
def copied (m : Nat → β) (dst src n : Nat) (a : Nat) : β :=
  if dst ≤ a ∧ a < dst + n then m (src + (a - dst)) else m a

@[simp] theorem filled_zero : filled m dst 0 b = m := by
  funext a
  exact if_neg (by omega)

@[simp] theorem tiled_zero : tiled m dst size 0 v = m := by
  funext a
  exact if_neg (by omega)

@[simp] theorem copied_zero : copied m dst src 0 = m := by
  funext a
  exact if_neg (by omega)

theorem filled_one : filled m dst 1 b = Function.update m dst b := by
  funext a
  by_cases ha : a = dst
  · subst ha
    simp [filled]
  · rw [Function.update_of_ne ha]
    exact if_neg (by omega)

theorem copied_one : copied m dst src 1 = Function.update m dst (m src) := by
  funext a
  by_cases ha : a = dst
  · subst ha
    simp [copied]
  · rw [Function.update_of_ne ha]
    exact if_neg (by omega)

/-- Two fills one behind the other. -/
theorem filled_append :
    filled (filled m dst i b) (dst + i) j b = filled m dst (i + j) b := by
  funext a
  unfold filled
  split_ifs <;> first | rfl | omega

/-- Tiles that are all alike fill the area. -/
theorem tiled_const (h : ∀ j, j < size → v j = b) :
    tiled m dst size n v = filled m dst (n * size) b := by
  funext a
  unfold tiled filled
  split_ifs with ha
  · refine h _ (Nat.mod_lt _ (Nat.pos_of_ne_zero ?_))
    rintro rfl
    omega
  · rfl

/-- One tile, then the others behind it. -/
theorem tiled_succ :
    tiled (tiled m dst size 1 v) (dst + size) size n v = tiled m dst size (n + 1) v := by
  have hn : (n + 1) * size = n * size + size := Nat.succ_mul n size
  funext a
  unfold tiled
  by_cases hfirst : dst ≤ a ∧ a < dst + size
  · rw [if_neg (by omega), if_pos (by omega), if_pos (by omega)]
  · by_cases hrest : dst + size ≤ a ∧ a < dst + size + n * size
    · have hmod : (a - (dst + size)) % size = (a - dst) % size := by
        rw [show a - dst = a - (dst + size) + size by omega, Nat.add_mod_right]
      rw [if_pos hrest, if_pos (by omega), hmod]
    · rw [if_neg hrest, if_neg (by omega), if_neg (by omega)]

/-- The front first: it must not overwrite what is still to be read. -/
theorem copied_append (h : dst ≤ src ∨ src + (i + j) ≤ dst) :
    copied (copied m dst src i) (dst + i) (src + i) j = copied m dst src (i + j) := by
  funext a
  unfold copied
  by_cases hfront : dst ≤ a ∧ a < dst + i
  · rw [if_neg (by omega), if_pos hfront, if_pos (by omega)]
  · by_cases hback : dst + i ≤ a ∧ a < dst + i + j
    · have hsrc : src + i + (a - (dst + i)) = src + (a - dst) := by omega
      rw [if_pos hback, hsrc, if_neg (by omega), if_pos (by omega)]
    · rw [if_neg hback, if_neg hfront, if_neg (by omega)]

/-- The back first. -/
theorem copied_prepend (h : src ≤ dst) :
    copied (copied m (dst + i) (src + i) j) dst src i = copied m dst src (i + j) := by
  funext a
  unfold copied
  by_cases hfront : dst ≤ a ∧ a < dst + i
  · rw [if_pos hfront, if_neg (by omega), if_pos (by omega)]
  · by_cases hback : dst + i ≤ a ∧ a < dst + i + j
    · have hsrc : src + i + (a - (dst + i)) = src + (a - dst) := by omega
      rw [if_neg hfront, if_pos hback, if_pos (by omega), hsrc]
    · rw [if_neg hfront, if_neg hback, if_neg (by omega)]

end Base.Areas
