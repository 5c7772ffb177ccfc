/-
  A file scattered over fixed-size blocks, and the byte loop that copies it.

  `elem bs block k` is the flat view: entry `k` of the file is entry `k % bs` of
  block `k / bs`. A copy loop carries a cursor `(blk, off)` instead of `k`; the cursor
  stays on the flat position by `pos_next_off` and `pos_next_block`. `Copied` is the usual
  invariant of such a loop: the first `n` cells of the destination hold the source, the rest
  is untouched.

  Generic in the block size and in the contents.
-/
import Mathlib.Logic.Function.Basic

namespace Base.BlockFile

universe u

variable {β : Type u}

/-- Entry `k` of a file whose block `i` is `block i`. -/
def elem (bs : Nat) (block : Nat → Nat → β) (k : Nat) : β :=
  block (k / bs) (k % bs)

/-- The flat position of the cursor `(blk, off)`. -/
def pos (bs blk off : Nat) : Nat := blk * bs + off

theorem pos_div (bs blk off : Nat) (h : off < bs) : pos bs blk off / bs = blk := by
  unfold pos
  rw [Nat.add_comm, Nat.add_mul_div_right _ _ (by omega), Nat.div_eq_of_lt h, Nat.zero_add]

theorem pos_mod (bs blk off : Nat) (h : off < bs) : pos bs blk off % bs = off := by
  unfold pos
  rw [Nat.add_comm, Nat.add_mul_mod_self_right, Nat.mod_eq_of_lt h]

/-- A cursor inside its block reads the entry of the file at its flat position. -/
theorem elem_pos (bs : Nat) (block : Nat → Nat → β) (blk off : Nat) (h : off < bs) :
    elem bs block (pos bs blk off) = block blk off := by
  unfold elem
  rw [pos_div bs blk off h, pos_mod bs blk off h]

theorem pos_self (bs k : Nat) : pos bs (k / bs) (k % bs) = k := by
  unfold pos
  rw [Nat.mul_comm]
  exact Nat.div_add_mod k bs

/-- Stepping past the last entry of a block is the first entry of the next one. -/
theorem pos_next_block (bs blk off : Nat) (h : off + 1 = bs) :
    pos bs (blk + 1) 0 = pos bs blk off + 1 := by
  unfold pos
  rw [Nat.succ_mul]
  omega

theorem pos_next_off (bs blk off : Nat) : pos bs blk (off + 1) = pos bs blk off + 1 := rfl

/-- The first `n` cells of `buf` hold `src off, src (off + 1), …`; the others are those
    of `buf₀`. -/
structure Copied (buf₀ : Nat → β) (src : Nat → β) (off n : Nat) (buf : Nat → β) : Prop where
  filled : ∀ k, k < n → buf k = src (off + k)
  frame : ∀ k, n ≤ k → buf k = buf₀ k

theorem Copied.zero (buf₀ src : Nat → β) (off : Nat) : Copied buf₀ src off 0 buf₀ :=
  ⟨fun _ h => absurd h (Nat.not_lt_zero _), fun _ _ => rfl⟩

/-- Storing the next entry extends the copied prefix by one. -/
theorem Copied.store {buf₀ src buf : Nat → β} {off n : Nat} (h : Copied buf₀ src off n buf) :
    Copied buf₀ src off (n + 1) (Function.update buf n (src (off + n))) := by
  constructor
  · intro k hk
    by_cases he : k = n
    · subst he
      rw [Function.update_self]
    · rw [Function.update_of_ne he]
      exact h.filled k (by omega)
  · intro k hk
    rw [Function.update_of_ne (by omega)]
    exact h.frame k (by omega)

end Base.BlockFile
