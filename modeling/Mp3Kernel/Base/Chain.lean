/-
  Walks along a pointer chain.

  `next a` is the node `a` points at. `last` follows the chain to its end, `search` returns
  the first answer a test gives on the way; both run out of fuel on a cyclic chain. On a
  chain whose nodes lie in a finite set and decrease along some strict order, `search` takes
  no more steps than the set has elements (`search_of_decreasing`).

  Generic in the nodes and the answers.
-/
import Mathlib.Data.Finset.Card

namespace Base.Chain

universe u v

variable {α : Type u} {β : Type v}

/-- The node at the end of the chain from `a`. -/
def last (next : α → Option α) : Nat → α → Option α
  | 0, _ => none
  | n + 1, a =>
    match next a with
    | none => some a
    | some b => last next n b

/-- The first answer of `test` along the chain from `a`. The test is only made on a node that
    has a successor; a chain that ends without an answer gives `none`. -/
def search (next : α → Option α) (test : α → Option β) : Nat → α → Option β
  | 0, _ => none
  | n + 1, a =>
    match next a with
    | none => none
    | some b =>
      match test a with
      | some r => some r
      | none => search next test n b

variable {next next' : α → Option α} {test test' : α → Option β}

theorem last_of_none {n : Nat} {a : α} (h : next a = none) : last next (n + 1) a = some a := by
  simp only [last, h]

theorem last_of_some {n : Nat} {a b : α} (h : next a = some b) :
    last next (n + 1) a = last next n b := by
  simp only [last, h]

theorem search_of_none {n : Nat} {a : α} (h : next a = none) :
    search next test (n + 1) a = none := by
  simp only [search, h]

theorem search_of_hit {n : Nat} {a b : α} {r : β} (h : next a = some b)
    (ht : test a = some r) : search next test (n + 1) a = some r := by
  simp only [search, h, ht]

theorem search_of_miss {n : Nat} {a b : α} (h : next a = some b) (ht : test a = none) :
    search next test (n + 1) a = search next test n b := by
  simp only [search, h, ht]

/-- The end of a chain has no successor, and is a node of every set closed under `next`. -/
theorem last_spec {S : α → Prop} (hclosed : ∀ a b, S a → next a = some b → S b) {n : Nat}
    {a e : α} (ha : S a) (h : last next n a = some e) : S e ∧ next e = none := by
  induction n generalizing a with
  | zero => cases h
  | succ n ih =>
    cases hn : next a with
    | none =>
      rw [last_of_none hn, Option.some.injEq] at h
      subst h
      exact ⟨ha, hn⟩
    | some b =>
      rw [last_of_some hn] at h
      exact ih (hclosed a b ha hn) h

/-- The answer a search returns is that of some node. -/
theorem search_found {n : Nat} {a : α} {r : β} (h : search next test n a = some r) :
    ∃ b, test b = some r := by
  induction n generalizing a with
  | zero => cases h
  | succ n ih =>
    cases hn : next a with
    | none =>
      rw [search_of_none hn] at h
      cases h
    | some b =>
      cases ht : test a with
      | some r' =>
        rw [search_of_hit hn ht] at h
        exact ⟨a, ht.trans h⟩
      | none =>
        rw [search_of_miss hn ht] at h
        exact ih h

section Decreasing

variable {R : α → α → Prop} [DecidableRel R]

/-- The nodes of `S` below `a`: the rest of the chain lies there, and `a` does not. -/
theorem card_below_lt (hirr : ∀ a, ¬ R a a) {S : Finset α} {a : α} (ha : a ∈ S) :
    (S.filter fun x => R x a).card < S.card := by
  refine Finset.card_lt_card ⟨Finset.filter_subset _ _, fun h => ?_⟩
  exact hirr a (Finset.mem_filter.mp (h ha)).2

/-- On a chain that decreases in a finite set, as many steps as the set has nodes are enough:
    when every chain in the set meets an answer before it ends and the answers agree along a
    step, that is what `search` returns. -/
theorem search_of_decreasing (hirr : ∀ a, ¬ R a a)
    (htrans : ∀ a b c, R a b → R b c → R a c) (answer : α → β) (S : Finset α)
    (hdec : ∀ a ∈ S, ∃ b, next a = some b ∧ (test a = some (answer a) ∨
      (test a = none ∧ b ∈ S ∧ R b a ∧ answer b = answer a))) {n : Nat}
    (hn : S.card ≤ n) {a : α} (ha : a ∈ S) : search next test n a = some (answer a) := by
  induction n generalizing S a with
  | zero =>
    have : 0 < S.card := Finset.card_pos.mpr ⟨a, ha⟩
    omega
  | succ n ih =>
    obtain ⟨b, hb, hhit | ⟨hmiss, hbS, hba, hans⟩⟩ := hdec a ha
    · exact search_of_hit hb hhit
    · rw [search_of_miss hb hmiss, ← hans]
      have hlt := card_below_lt hirr ha
      refine ih (S.filter fun x => R x a) (fun c hc => ?_) (by omega)
        (Finset.mem_filter.mpr ⟨hbS, hba⟩)
      obtain ⟨hcS, hca⟩ := Finset.mem_filter.mp hc
      obtain ⟨d, hd, hhit | ⟨hmiss', hdS, hdc, hans'⟩⟩ := hdec c hcS
      · exact ⟨d, hd, Or.inl hhit⟩
      · exact ⟨d, hd, Or.inr ⟨hmiss', Finset.mem_filter.mpr ⟨hdS, htrans _ _ _ hdc hca⟩, hdc,
          hans'⟩⟩

end Decreasing

end Base.Chain
