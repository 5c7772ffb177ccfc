/-
  Reversing a stretch of cells in place.

  Two indices walk from the ends to the middle and exchange what they meet. `Reversed` is the
  result, as a relation between the cells before and after; with the ends exchanged first, a
  reversal of what lies between them is one of the whole stretch (`Reversed.wrap`).
-/
import Mathlib.Logic.Function.Basic

namespace Base.Reversal

universe u

variable {α : Type u} {s s' : Nat → α} {b n i j k : Nat}

/-- Cells `i` and `j` exchanged. -/
def swap (s : Nat → α) (i j : Nat) : Nat → α :=
  Function.update (Function.update s j (s i)) i (s j)

@[simp] theorem swap_left (s : Nat → α) (i j : Nat) : swap s i j i = s j :=
  Function.update_self ..

theorem swap_right (h : j ≠ i) : swap s i j j = s i := by
  simp [swap, Function.update_of_ne h]

theorem swap_of_ne (hi : k ≠ i) (hj : k ≠ j) : swap s i j k = s k := by
  simp [swap, Function.update_of_ne hi, Function.update_of_ne hj]

/-- `s'` is `s` with the `n` cells from `b` on in reverse order. -/
structure Reversed (s s' : Nat → α) (b n : Nat) : Prop where
  inside : ∀ k, k < n → s' (b + k) = s (b + (n - 1 - k))
  outside : ∀ k, k < b ∨ b + n ≤ k → s' k = s k

/-- There is nothing to do for one cell or none. -/
theorem Reversed.short (s : Nat → α) (b : Nat) (h : n ≤ 1) : Reversed s s b n := by
  refine ⟨fun k hk => ?_, fun _ _ => rfl⟩
  have hk0 : n - 1 - k = k := by omega
  rw [hk0]

theorem Reversed.wrap (h : Reversed (swap s b (b + n + 1)) s' (b + 1) n) :
    Reversed s s' b (n + 2) := by
  constructor
  · intro k hk
    by_cases h0 : k = 0
    · subst h0
      rw [h.outside (b + 0) (by omega)]
      exact swap_left s b (b + n + 1)
    by_cases hlast : k = n + 1
    · subst hlast
      have hend : n + 2 - 1 - (n + 1) = 0 := by omega
      rw [h.outside (b + (n + 1)) (by omega), hend]
      exact swap_right (by omega)
    · have hin := h.inside (k - 1) (by omega)
      have hl : b + 1 + (k - 1) = b + k := by omega
      have hr : b + 1 + (n - 1 - (k - 1)) = b + (n + 2 - 1 - k) := by omega
      rw [hl, hr] at hin
      rw [hin, swap_of_ne (by omega) (by omega)]
  · intro k hk
    rw [h.outside k (by omega), swap_of_ne (by omega) (by omega)]

end Base.Reversal
