/-
  Stores into a mapped area: where `base` goes to `pa`, the store routines are functions on
  physical memory.
-/
import Mp3Kernel.Model.Screen
import Mathlib.Tactic.Common

namespace Mp3Kernel

/-- The `len` bytes from `base` on lie at `pa`. -/
def Area (p : Paging) (base pa len : Nat) : Prop :=
  ∀ j, j < len → p.phys (base + j) = some (pa + j)

theorem Area.mono {p : Paging} {base pa len len' : Nat} (h : Area p base pa len)
    (hle : len' ≤ len) : Area p base pa len' := fun j hj => h j (by omega)

/-- Memory after `putCell`. -/
def cellMem (mem : Nat → UInt8) (pa i : Nat) (c : UInt8) : Nat → UInt8 :=
  Function.update (Function.update mem (pa + 2 * i) c) (pa + 2 * i + 1) attrib

/-- Memory after `fillCells`. -/
def fillMem (mem : Nat → UInt8) (pa i n a : Nat) : UInt8 :=
  if pa + 2 * i ≤ a ∧ a < pa + 2 * (i + n) then
    if (a - pa) % 2 = 0 then space else attrib
  else mem a

variable {k : Kernel} {base pa len : Nat}

theorem store_eq {va : Nat} (b : UInt8) (h : k.paging.phys va = some pa) :
    store k va b = some (k.setMem (Function.update k.mem pa b)) := by
  unfold store
  rw [h, Option.map_some]

theorem putCell_eq (harea : Area k.paging base pa len) {i : Nat} (hi : 2 * i + 1 < len)
    (c : UInt8) : putCell k base i c = some (k.setMem (cellMem k.mem pa i c)) := by
  unfold putCell
  rw [store_eq c (harea (2 * i) (by omega)), Option.bind_eq_bind, Option.bind_some]
  exact store_eq attrib (harea (2 * i + 1) (by omega))

theorem fillMem_zero (mem : Nat → UInt8) (pa i : Nat) : fillMem mem pa i 0 = mem := by
  funext a
  unfold fillMem
  rw [if_neg (by omega)]

/-- Filling from `i` on is filling cell `i`, then the rest. -/
theorem fillMem_succ (mem : Nat → UInt8) (pa i n : Nat) :
    fillMem (cellMem mem pa i space) pa (i + 1) n = fillMem mem pa i (n + 1) := by
  funext a
  unfold fillMem cellMem
  by_cases hrest : pa + 2 * (i + 1) ≤ a ∧ a < pa + 2 * (i + 1 + n)
  · have hall : pa + 2 * i ≤ a ∧ a < pa + 2 * (i + (n + 1)) := by omega
    rw [if_pos hrest, if_pos hall]
  rw [if_neg hrest]
  by_cases h1 : a = pa + 2 * i + 1
  · subst h1
    rw [Function.update_self, if_pos (by omega), if_neg (by omega)]
  rw [Function.update_of_ne h1]
  by_cases h0 : a = pa + 2 * i
  · subst h0
    rw [Function.update_self, if_pos (by omega), if_pos (by omega)]
  · rw [Function.update_of_ne h0, if_neg (by omega)]

theorem fillCells_eq (harea : Area k.paging base pa len) {i n : Nat} (hi : 2 * (i + n) ≤ len) :
    fillCells k base i n = some (k.setMem (fillMem k.mem pa i n)) := by
  induction n generalizing k i with
  | zero =>
    rw [fillMem_zero]
    rfl
  | succ n ih =>
    unfold fillCells
    rw [putCell_eq harea (by omega) space, Option.bind_eq_bind, Option.bind_some]
    have hrest := ih (k := k.setMem (cellMem k.mem pa i space)) (i := i + 1) harea (by omega)
    rw [hrest, setMem_mem, fillMem_succ]
    rfl

theorem memcpy_eq {dest src d s : Nat} (n : Nat) (hd : k.paging.phys dest = some d)
    (hs : k.paging.phys src = some s) :
    memcpy k dest src n = some (k.setMem (copyBytes k.mem d s n)) := by
  unfold memcpy
  rw [hd, hs]
  rfl

end Mp3Kernel
