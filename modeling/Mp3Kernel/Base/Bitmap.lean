/-
  Allocation bitmaps in a machine word, slot 0 in the most significant bit.

  `slot w i` is the mask of slot `i`. Setting and clearing a mask takes and frees exactly
  that slot (`taken_or_slot`, `taken_andNot_slot`), and testing it says whether the slot is
  taken (`slot_and_eq_zero`).

  Generic in the width of the word.
-/
import Mathlib.Tactic.Common

namespace Base.Bitmap

variable {w : Nat}

/-- The mask of slot `i`. -/
def slot (w i : Nat) : BitVec w := BitVec.twoPow w (w - 1) >>> i

def Taken (m : BitVec w) (i : Nat) : Prop := m.getMsbD i = true

theorem Taken.lt {m : BitVec w} {i : Nat} (h : Taken m i) : i < w := by
  unfold Taken at h
  by_contra hge
  rw [BitVec.getMsbD_of_ge _ _ (by omega)] at h
  cases h

theorem not_taken_zero (i : Nat) : ¬ Taken (0 : BitVec w) i := by
  unfold Taken
  simp

theorem slot_getMsbD {i : Nat} (hi : i < w) (j : Nat) : (slot w i).getMsbD j = decide (j = i) := by
  unfold slot
  rw [BitVec.getMsbD_ushiftRight, BitVec.getMsbD_twoPow, Bool.eq_iff_iff]
  simp only [Bool.and_eq_true, Bool.not_eq_true', decide_eq_true_eq, decide_eq_false_iff_not]
  omega

theorem slot_and_eq_zero {i : Nat} (hi : i < w) (m : BitVec w) :
    slot w i &&& m = 0 ↔ ¬ Taken m i := by
  unfold Taken
  constructor
  · intro h ht
    have hbit := congrArg (fun n => BitVec.getMsbD n i) h
    simp [slot_getMsbD hi, ht] at hbit
  · intro h
    apply BitVec.eq_of_getMsbD_eq
    intro j hj
    by_cases hji : j = i
    · subst hji
      simp [h]
    · simp [slot_getMsbD hi, hji]

theorem taken_or_slot {i : Nat} (hi : i < w) (m : BitVec w) (j : Nat) :
    Taken (m ||| slot w i) j ↔ Taken m j ∨ j = i := by
  unfold Taken
  rw [BitVec.getMsbD_or, slot_getMsbD hi]
  simp

theorem taken_andNot_slot {i : Nat} (hi : i < w) (m : BitVec w) (j : Nat) :
    Taken (m &&& ~~~(slot w i)) j ↔ Taken m j ∧ j ≠ i := by
  constructor
  · intro h
    have hj := h.lt
    unfold Taken at h ⊢
    rw [BitVec.getMsbD_and, BitVec.getMsbD_not, slot_getMsbD hi] at h
    simpa [hj] using h
  · intro h
    have hj := h.1.lt
    unfold Taken at h ⊢
    rw [BitVec.getMsbD_and, BitVec.getMsbD_not, slot_getMsbD hi]
    simpa [hj] using h

end Base.Bitmap
