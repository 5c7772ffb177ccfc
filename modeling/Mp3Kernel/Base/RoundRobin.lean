/-
  Round-robin choice among `n` places in a circle.

  `ahead c t` is how far `t` lies after `c`: 1 for the place next to it and `n` for `c` itself.
  A turn goes to the first ready place after the one that had the last turn (`Next`), and a
  place once ready stays ready (`Turns`). Each turn of another place brings the turn nearer
  (`ahead_lt`), so `n` turns reach every ready place (`Turns.reaches`), and until then no place
  has two of them (`Turns.nodup`).

  Generic in the number of places and in what makes a place ready.
-/
import Mathlib.Data.List.Nodup
import Mathlib.Tactic.Common

namespace Base.RoundRobin

variable {n : Nat}

def ahead (c t : Fin n) : Nat := (t.val + n - c.val - 1) % n + 1

theorem ahead_le (c t : Fin n) : ahead c t ≤ n := by
  have hpos : 0 < n := Nat.lt_of_le_of_lt (Nat.zero_le _) c.isLt
  exact Nat.mod_lt _ hpos

theorem ahead_pos (c t : Fin n) : 0 < ahead c t := Nat.succ_pos _

/-- Without the modulus. -/
theorem ahead_eq (c t : Fin n) :
    ahead c t = if c < t then t.val - c.val else t.val + n - c.val := by
  have hc := c.isLt
  have ht := t.isLt
  unfold ahead
  split_ifs with h
  · have hlt : c.val < t.val := h
    rw [show t.val + n - c.val - 1 = t.val - c.val - 1 + n by omega, Nat.add_mod_right,
      Nat.mod_eq_of_lt (by omega)]
    omega
  · have hge : t.val ≤ c.val := Nat.le_of_not_lt h
    rw [Nat.mod_eq_of_lt (by omega)]
    omega

/-- A place passed on the way is nearer to what lies beyond it. -/
theorem ahead_lt {c d t : Fin n} (hle : ahead c d ≤ ahead c t) (hne : t ≠ d) :
    ahead d t < ahead c t := by
  have hne' : t.val ≠ d.val := fun h => hne (Fin.ext h)
  have hc := c.isLt
  have hd := d.isLt
  have ht := t.isLt
  rw [ahead_eq, ahead_eq] at *
  simp only [Fin.lt_def] at *
  split_ifs at * <;> omega

/-- `d` is the first ready place after `c`. -/
def Next (ready : Fin n → Prop) (c d : Fin n) : Prop :=
  ready d ∧ ∀ t, ready t → ahead c d ≤ ahead c t

/-- The turns that follow one of `c`; more may be ready at each of them. -/
def Turns : (Fin n → Prop) → Fin n → List (Fin n) → Prop
  | _, _, [] => True
  | ready, c, d :: rest =>
    ∃ ready', (∀ t, ready t → ready' t) ∧ Next ready' c d ∧ Turns ready' d rest

variable {ready : Fin n → Prop} {c t : Fin n} {turns : List (Fin n)}

theorem Turns.weaken {ready' : Fin n → Prop} (hmono : ∀ t, ready t → ready' t)
    (h : Turns ready' c turns) : Turns ready c turns := by
  cases turns with
  | nil => trivial
  | cons d rest =>
    obtain ⟨ready'', hmono', hnext, hrest⟩ := h
    exact ⟨ready'', fun t ht => hmono' t (hmono t ht), hnext, hrest⟩

theorem Turns.reaches (h : Turns ready c turns) (ht : ready t)
    (hlen : ahead c t ≤ turns.length) : t ∈ turns := by
  induction turns generalizing ready c with
  | nil => exact absurd hlen (Nat.not_le_of_gt (ahead_pos c t))
  | cons d rest ih =>
    obtain ⟨ready', hmono, hnext, hrest⟩ := h
    rw [List.mem_cons]
    by_cases hd : t = d
    · exact Or.inl hd
    · have hlt := ahead_lt (hnext.2 t (hmono t ht)) hd
      rw [List.length_cons] at hlen
      exact Or.inr (ih hrest (hmono t ht) (by omega))

/-- What still waits for its turn is nearer to every place that has had one. -/
theorem Turns.nearer (h : Turns ready c turns) (ht : ready t) (hnot : t ∉ turns) :
    ∀ d ∈ turns, ahead d t < ahead c t := by
  induction turns generalizing ready c with
  | nil => simp
  | cons d rest ih =>
    obtain ⟨ready', hmono, hnext, hrest⟩ := h
    rw [List.mem_cons, not_or] at hnot
    have hlt := ahead_lt (hnext.2 t (hmono t ht)) hnot.1
    intro e he
    rcases List.mem_cons.mp he with rfl | he
    · exact hlt
    · exact Nat.lt_trans (ih hrest (hmono t ht) hnot.2 e he) hlt

theorem Turns.nodup (h : Turns ready c turns) (ht : ready t) (hnot : t ∉ turns) :
    turns.Nodup := by
  induction turns generalizing ready c with
  | nil => exact List.nodup_nil
  | cons d rest ih =>
    obtain ⟨ready', hmono, -, hrest⟩ := h
    rw [List.mem_cons, not_or] at hnot
    rw [List.nodup_cons]
    refine ⟨fun hd => ?_, ih hrest (hmono t ht) hnot.2⟩
    exact Nat.lt_irrefl _ (hrest.nearer (hmono t ht) hnot.2 d hd)

end Base.RoundRobin
