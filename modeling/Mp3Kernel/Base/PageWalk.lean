/-
  The two-level address translation of 32-bit x86 with 4MB pages enabled.

  A directory entry with bit 7 set maps 4MB by itself; otherwise it points at a table of
  1024 entries of 4KB each. Bit 0 is the present bit, bit 2 the user bit; a page is
  user-accessible when every entry on its path is. `table` says which table lies at a
  physical address.

  Entries are `Nat`. The entries a kernel writes are a page address with flag bits or-ed
  in, so `lor_flags` turns them into sums, on which the accessors are arithmetic.
-/

namespace Base.PageWalk

def present (e : Nat) : Prop := e % 2 = 1
def user (e : Nat) : Prop := e / 4 % 2 = 1
def large (e : Nat) : Prop := e / 128 % 2 = 1

instance : DecidablePred present := fun _ => inferInstanceAs (Decidable (_ = _))
instance : DecidablePred user := fun _ => inferInstanceAs (Decidable (_ = _))
instance : DecidablePred large := fun _ => inferInstanceAs (Decidable (_ = _))

/-- The 4KB frame an entry points at. -/
def frame (e : Nat) : Nat := e / 4096 * 4096

/-- The 4MB frame of a large entry. -/
def largeFrame (e : Nat) : Nat := e / 4194304 * 4194304

def dirIndex (va : Nat) : Nat := va / 4194304
def tableIndex (va : Nat) : Nat := va / 4096 % 1024

structure Translation where
  phys : Nat
  isUser : Bool
  deriving DecidableEq

def walk (dir : Nat → Nat) (table : Nat → Option (Nat → Nat)) (va : Nat) :
    Option Translation :=
  let pde := dir (dirIndex va)
  if present pde then
    if large pde then some ⟨largeFrame pde + va % 4194304, decide (user pde)⟩
    else
      (table (frame pde)).bind fun pt =>
        let pte := pt (tableIndex va)
        if present pte then some ⟨frame pte + va % 4096, decide (user pde) && decide (user pte)⟩
        else none
  else none

/-- Or-ing flags below 4096 into a page address adds them. -/
theorem lor_flags (a f : Nat) (ha : a % 4096 = 0) (hf : f < 4096) : a ||| f = a + f := by
  have h := Nat.two_pow_add_eq_or_of_lt (i := 12) hf (a / 4096)
  have ha' : 2 ^ 12 * (a / 4096) = a := by omega
  rw [ha'] at h
  exact h.symm

section Accessors

variable {a f : Nat}

theorem present_add (ha : a % 4096 = 0) : present (a + f) ↔ f % 2 = 1 := by
  unfold present
  omega

theorem user_add (ha : a % 4096 = 0) : user (a + f) ↔ f / 4 % 2 = 1 := by
  unfold user
  omega

theorem large_add (ha : a % 4096 = 0) : large (a + f) ↔ f / 128 % 2 = 1 := by
  unfold large
  omega

theorem frame_add (ha : a % 4096 = 0) (hf : f < 4096) : frame (a + f) = a := by
  unfold frame
  omega

theorem largeFrame_add (ha : a % 4194304 = 0) (hf : f < 4096) : largeFrame (a + f) = a := by
  unfold largeFrame
  omega

end Accessors

/-- Clearing bit 0 of a 32-bit entry leaves it not present. -/
theorem not_present_and (e : Nat) : ¬ present (e &&& 4294967294) := by
  unfold present
  rw [Nat.and_mod_two_eq_one]
  rintro ⟨-, h⟩
  omega

section Walk

variable {dir : Nat → Nat} {table : Nat → Option (Nat → Nat)} {va : Nat}

theorem walk_of_not_present (h : ¬ present (dir (dirIndex va))) : walk dir table va = none := by
  simp only [walk, if_neg h]

/-- What a translation that exists went through. -/
theorem walk_eq_some {t : Translation} (h : walk dir table va = some t) :
    present (dir (dirIndex va)) ∧
      ((large (dir (dirIndex va)) ∧
          t.phys = largeFrame (dir (dirIndex va)) + va % 4194304 ∧
          (t.isUser = true ↔ user (dir (dirIndex va)))) ∨
        (¬ large (dir (dirIndex va)) ∧ ∃ pt, table (frame (dir (dirIndex va))) = some pt ∧
          present (pt (tableIndex va)) ∧ t.phys = frame (pt (tableIndex va)) + va % 4096 ∧
          (t.isUser = true ↔ user (dir (dirIndex va)) ∧ user (pt (tableIndex va))))) := by
  simp only [walk] at h
  by_cases hp : present (dir (dirIndex va))
  · rw [if_pos hp] at h
    by_cases hl : large (dir (dirIndex va))
    · rw [if_pos hl, Option.some.injEq] at h
      subst h
      exact ⟨hp, Or.inl ⟨hl, rfl, by simp⟩⟩
    · rw [if_neg hl] at h
      obtain ⟨pt, hpt, h⟩ := Option.bind_eq_some_iff.mp h
      by_cases hpp : present (pt (tableIndex va))
      · rw [if_pos hpp, Option.some.injEq] at h
        subst h
        exact ⟨hp, Or.inr ⟨hl, pt, hpt, hpp, rfl, by simp⟩⟩
      · rw [if_neg hpp] at h
        cases h
  · rw [if_neg hp] at h
    cases h

/-- Through a table the translation is that of the table's entry. -/
theorem walk_table {pt : Nat → Nat} (hp : present (dir (dirIndex va)))
    (hl : ¬ large (dir (dirIndex va))) (hpt : table (frame (dir (dirIndex va))) = some pt) :
    walk dir table va = if present (pt (tableIndex va)) then
      some ⟨frame (pt (tableIndex va)) + va % 4096,
        decide (user (dir (dirIndex va))) && decide (user (pt (tableIndex va)))⟩ else none := by
  simp only [walk, if_pos hp, if_neg hl, hpt, Option.bind_some]

/-- The walk through a small page. -/
theorem walk_small {pt : Nat → Nat} (hp : present (dir (dirIndex va)))
    (hl : ¬ large (dir (dirIndex va))) (hpt : table (frame (dir (dirIndex va))) = some pt)
    (hpp : present (pt (tableIndex va))) :
    walk dir table va = some ⟨frame (pt (tableIndex va)) + va % 4096,
      decide (user (dir (dirIndex va))) && decide (user (pt (tableIndex va)))⟩ := by
  rw [walk_table hp hl hpt, if_pos hpp]

/-- An absent or large entry translates without the tables. -/
theorem walk_congr {dir' : Nat → Nat} {table' : Nat → Option (Nat → Nat)}
    (hdir : dir' (dirIndex va) = dir (dirIndex va))
    (h : ¬ present (dir (dirIndex va)) ∨ large (dir (dirIndex va))) :
    walk dir' table' va = walk dir table va := by
  simp only [walk, hdir]
  rcases h with hp | hl
  · rw [if_neg hp, if_neg hp]
  · rw [if_pos hl, if_pos hl]

end Walk

end Base.PageWalk
