/-
  Forests of linked nodes, one line of descent for each root.

  A node has at most one child and an owner, and each owner has at most one root: what an
  owner has is a stack of nodes, doubly linked. `Wf` says that the links agree. Three
  operations build and take down such stacks, and keep `Wf`: `addRoot`, `addChild` below a
  leaf, `remove` of a leaf. A walk down from an owner's root ends at a leaf of that owner
  (`Wf.last_root`), a walk up from any node at the root of its owner (`Wf.search_root`).

  Generic in the nodes and the owners.
-/
import Mp3Kernel.Base.Chain
import Mathlib.Logic.Function.Basic
import Mathlib.Tactic.Common

namespace Base

universe u v

variable {α : Type u} {β : Type v}

structure Forest (α : Type u) (β : Type v) where
  live : α → Prop
  parent : α → Option α
  child : α → Option α
  owner : α → β
  root : β → Option α

namespace Forest

structure Wf (f : Forest α β) : Prop where
  rooted : ∀ b a, f.root b = some a → f.live a ∧ f.parent a = none ∧ f.owner a = b
  top : ∀ a, f.live a → f.parent a = none → f.root (f.owner a) = some a
  up : ∀ a q, f.live a → f.parent a = some q →
    f.live q ∧ f.child q = some a ∧ f.owner q = f.owner a
  down : ∀ a c, f.live a → f.child a = some c → f.live c ∧ f.parent c = some a
  ranked : ∃ rank : α → Nat, ∀ a q, f.live a → f.parent a = some q → rank q < rank a

section Operations

variable [DecidableEq α]

/-- A new node, the root of `b`. -/
def addRoot [DecidableEq β] (f : Forest α β) (b : β) (a : α) : Forest α β where
  live x := f.live x ∨ x = a
  parent := Function.update f.parent a none
  child := Function.update f.child a none
  owner := Function.update f.owner a b
  root := Function.update f.root b (some a)

/-- A new node, the child of `q`. -/
def addChild (f : Forest α β) (q a : α) : Forest α β where
  live x := f.live x ∨ x = a
  parent := Function.update f.parent a (some q)
  child := Function.update (Function.update f.child a none) q (some a)
  owner := Function.update f.owner a (f.owner q)
  root := f.root

theorem addChild_parent_self (f : Forest α β) (q a : α) : (f.addChild q a).parent a = some q :=
  Function.update_self _ _ _

theorem addChild_child_self (f : Forest α β) (q a : α) : (f.addChild q a).child q = some a :=
  Function.update_self _ _ _

/-- A leaf is taken off, from below its parent or from its owner. -/
def remove [DecidableEq β] (f : Forest α β) (a : α) : Forest α β where
  live x := f.live x ∧ x ≠ a
  parent := f.parent
  child := match f.parent a with
    | some q => Function.update f.child q none
    | none => f.child
  owner := f.owner
  root := match f.parent a with
    | some _ => f.root
    | none => Function.update f.root (f.owner a) none

variable {f : Forest α β} {a q : α} {b : β}

theorem Wf.addRoot [DecidableEq β] (h : f.Wf) (ha : ¬ f.live a) (hb : f.root b = none) : (f.addRoot b a).Wf := by
  have hne : ∀ x, f.live x → x ≠ a := fun x hx he => ha (he ▸ hx)
  obtain ⟨rank, hrank⟩ := h.ranked
  refine ⟨fun c x hx => ?_, fun x hx hp => ?_, fun x q hx hp => ?_, fun x c hx hc => ?_,
    rank, fun x q hx hp => ?_⟩
  · by_cases hcb : c = b
    · subst hcb
      obtain rfl : a = x := Option.some.inj ((Function.update_self c _ _).symm.trans hx)
      exact ⟨Or.inr rfl, Function.update_self _ _ _, Function.update_self _ _ _⟩
    · obtain ⟨h1, h2, h3⟩ := h.rooted c x ((Function.update_of_ne hcb _ _).symm.trans hx)
      exact ⟨Or.inl h1, (Function.update_of_ne (hne x h1) _ _).trans h2,
        (Function.update_of_ne (hne x h1) _ _).trans h3⟩
  · show Function.update f.root b (some a) (Function.update f.owner a b x) = some x
    by_cases hxa : x = a
    · subst hxa
      rw [Function.update_self, Function.update_self]
    · have hxl := hx.resolve_right hxa
      have hroot := h.top x hxl ((Function.update_of_ne hxa _ _).symm.trans hp)
      have hob : f.owner x ≠ b := by
        intro he
        rw [he, hb] at hroot
        cases hroot
      rw [Function.update_of_ne hxa, Function.update_of_ne hob, hroot]
  · have hxa : x ≠ a := by
      rintro rfl
      exact nomatch (Function.update_self _ _ _).symm.trans hp
    obtain ⟨h1, h2, h3⟩ := h.up x q (hx.resolve_right hxa)
      ((Function.update_of_ne hxa _ _).symm.trans hp)
    refine ⟨Or.inl h1, (Function.update_of_ne (hne q h1) _ _).trans h2, ?_⟩
    show Function.update f.owner a b q = Function.update f.owner a b x
    rw [Function.update_of_ne (hne q h1), Function.update_of_ne hxa, h3]
  · have hxa : x ≠ a := by
      rintro rfl
      exact nomatch (Function.update_self _ _ _).symm.trans hc
    obtain ⟨h1, h2⟩ := h.down x c (hx.resolve_right hxa)
      ((Function.update_of_ne hxa _ _).symm.trans hc)
    exact ⟨Or.inl h1, (Function.update_of_ne (hne c h1) _ _).trans h2⟩
  · have hxa : x ≠ a := by
      rintro rfl
      exact nomatch (Function.update_self _ _ _).symm.trans hp
    exact hrank x q (hx.resolve_right hxa) ((Function.update_of_ne hxa _ _).symm.trans hp)

theorem Wf.addChild (h : f.Wf) (ha : ¬ f.live a) (hq : f.live q) (hleaf : f.child q = none) :
    (f.addChild q a).Wf := by
  have hne : ∀ x, f.live x → x ≠ a := fun x hx he => ha (he ▸ hx)
  obtain ⟨rank, hrank⟩ := h.ranked
  refine ⟨fun c x hx => ?_, fun x hx hp => ?_, fun x r hx hp => ?_, fun x c hx hc => ?_,
    Function.update rank a (rank q + 1), fun x r hx hp => ?_⟩
  · obtain ⟨h1, h2, h3⟩ := h.rooted c x hx
    exact ⟨Or.inl h1, (Function.update_of_ne (hne x h1) _ _).trans h2,
      (Function.update_of_ne (hne x h1) _ _).trans h3⟩
  · have hxa : x ≠ a := by
      rintro rfl
      exact nomatch (Function.update_self _ _ _).symm.trans hp
    show f.root (Function.update f.owner a _ x) = some x
    rw [Function.update_of_ne hxa]
    exact h.top x (hx.resolve_right hxa) ((Function.update_of_ne hxa _ _).symm.trans hp)
  · show _ ∧ _ ∧ Function.update f.owner a _ r = Function.update f.owner a _ x
    by_cases hxa : x = a
    · subst hxa
      obtain rfl : q = r := Option.some.inj ((addChild_parent_self f q x).symm.trans hp)
      refine ⟨Or.inl hq, Function.update_self _ _ _, ?_⟩
      rw [Function.update_self, Function.update_of_ne (hne q hq)]
    · have hxl := hx.resolve_right hxa
      obtain ⟨h1, h2, h3⟩ := h.up x r hxl ((Function.update_of_ne hxa _ _).symm.trans hp)
      have hrq : r ≠ q := by
        rintro rfl
        exact nomatch hleaf.symm.trans h2
      refine ⟨Or.inl h1, ?_, ?_⟩
      · show Function.update (Function.update f.child a none) q (some a) r = some x
        rw [Function.update_of_ne hrq, Function.update_of_ne (hne r h1), h2]
      · rw [Function.update_of_ne (hne r h1), Function.update_of_ne hxa, h3]
  · by_cases hxq : x = q
    · subst hxq
      obtain rfl : a = c := Option.some.inj ((addChild_child_self f x a).symm.trans hc)
      exact ⟨Or.inr rfl, Function.update_self _ _ _⟩
    · have hc' := (Function.update_of_ne hxq _ _).symm.trans hc
      have hxa : x ≠ a := by
        rintro rfl
        exact nomatch (Function.update_self _ _ _).symm.trans hc'
      obtain ⟨h1, h2⟩ := h.down x c (hx.resolve_right hxa)
        ((Function.update_of_ne hxa _ _).symm.trans hc')
      exact ⟨Or.inl h1, (Function.update_of_ne (hne c h1) _ _).trans h2⟩
  · by_cases hxa : x = a
    · subst hxa
      obtain rfl : q = r := Option.some.inj ((addChild_parent_self f q x).symm.trans hp)
      rw [Function.update_self, Function.update_of_ne (hne q hq)]
      exact Nat.lt_succ_self _
    · have hxl := hx.resolve_right hxa
      have hp' := (Function.update_of_ne hxa _ _).symm.trans hp
      rw [Function.update_of_ne hxa, Function.update_of_ne (hne r (h.up x r hxl hp').1)]
      exact hrank x r hxl hp'

theorem Wf.remove [DecidableEq β] (h : f.Wf) (ha : f.live a) (hleaf : f.child a = none) : (f.remove a).Wf := by
  obtain ⟨rank, hrank⟩ := h.ranked
  -- nothing links to the leaf but its parent
  have hnoparent : ∀ x, f.live x → f.parent x ≠ some a := fun x hx hp =>
    nomatch hleaf.symm.trans (h.up x a hx hp).2.1
  have hnochild : ∀ x, f.live x → x ≠ a → (f.remove a).child x = f.child x ∨
      (f.parent a = some x ∧ (f.remove a).child x = none) := by
    intro x _ _
    unfold Forest.remove
    cases hp : f.parent a with
    | none => exact Or.inl rfl
    | some q =>
      by_cases hxq : x = q
      · subst hxq
        exact Or.inr ⟨rfl, Function.update_self _ _ _⟩
      · exact Or.inl (Function.update_of_ne hxq _ _)
  have hroots : ∀ c x, x ≠ a → (f.root c = some x ↔ (f.remove a).root c = some x) := by
    intro c x hxa
    unfold Forest.remove
    cases hp : f.parent a with
    | some q => exact Iff.rfl
    | none =>
      by_cases hc : c = f.owner a
      · subst hc
        rw [h.top a ha hp]
        dsimp only
        rw [Function.update_self]
        exact ⟨fun he => absurd (Option.some.inj he).symm hxa, fun he => nomatch he⟩
      · dsimp only
        rw [Function.update_of_ne hc]
  refine ⟨fun c x hx => ?_, fun x hx hp => ?_, fun x q hx hp => ?_, fun x c hx hc => ?_,
    rank, fun x q hx hp => hrank x q hx.1 hp⟩
  · have hxa : x ≠ a := by
      rintro rfl
      unfold Forest.remove at hx
      cases hp : f.parent x with
      | some q =>
        rw [hp] at hx
        exact nomatch hp.symm.trans (h.rooted c x hx).2.1
      | none =>
        rw [hp] at hx
        dsimp only at hx
        by_cases hc : c = f.owner x
        · rw [hc, Function.update_self] at hx
          cases hx
        · rw [Function.update_of_ne hc] at hx
          exact hc (h.rooted c x hx).2.2.symm
    obtain ⟨h1, h2, h3⟩ := h.rooted c x ((hroots c x hxa).mpr hx)
    exact ⟨⟨h1, hxa⟩, h2, h3⟩
  · exact (hroots _ x hx.2).mp (h.top x hx.1 hp)
  · obtain ⟨h1, h2, h3⟩ := h.up x q hx.1 hp
    have hqa : q ≠ a := by
      rintro rfl
      exact hnoparent x hx.1 hp
    refine ⟨⟨h1, hqa⟩, ?_, h3⟩
    rcases hnochild q h1 hqa with he | ⟨hpa, -⟩
    · rw [he, h2]
    · rw [(h.up a q ha hpa).2.1, Option.some.injEq] at h2
      exact absurd h2.symm hx.2
  · rcases hnochild x hx.1 hx.2 with he | ⟨-, he⟩
    · rw [he] at hc
      obtain ⟨h1, h2⟩ := h.down x c hx.1 hc
      refine ⟨⟨h1, ?_⟩, h2⟩
      rintro rfl
      have hpc : (f.remove c).child x = none := by
        unfold Forest.remove
        rw [h2]
        exact Function.update_self _ _ _
      exact nomatch hpc.symm.trans (he.trans hc)
    · exact nomatch he.symm.trans hc

end Operations

/-! ## Walks -/

variable {f : Forest α β}

/-- The owner of a node has a root: go up. -/
theorem Wf.root_some (h : f.Wf) {a : α} (ha : f.live a) : ∃ r, f.root (f.owner a) = some r := by
  obtain ⟨rank, hrank⟩ := h.ranked
  induction hn : rank a using Nat.strong_induction_on generalizing a with
  | _ n ih =>
    cases hp : f.parent a with
    | none => exact ⟨a, h.top a ha hp⟩
    | some q =>
      obtain ⟨hq, -, ho⟩ := h.up a q ha hp
      have hlt := hrank a q ha hp
      rw [← ho]
      exact ih (rank q) (hn ▸ hlt) hq rfl

/-- A walk down from a root. -/
theorem Wf.last_root (h : f.Wf) {b : β} {a e : α} {n : Nat} (ha : f.root b = some a)
    (he : Chain.last f.child n a = some e) : f.live e ∧ f.owner e = b ∧ f.child e = none := by
  obtain ⟨hlive, -, hown⟩ := h.rooted b a ha
  have hclosed : ∀ x c, (f.live x ∧ f.owner x = b) → f.child x = some c →
      (f.live c ∧ f.owner c = b) := by
    intro x c hx hc
    obtain ⟨h1, h2⟩ := h.down x c hx.1 hc
    exact ⟨h1, (h.up c x h1 h2).2.2 ▸ hx.2⟩
  obtain ⟨h1, h2⟩ := Chain.last_spec hclosed ⟨hlive, hown⟩ he
  exact ⟨h1.1, h1.2, h2⟩

/-- A walk up from a node that is no root, where the test at a node answers exactly if its
    parent is a root, with the owner. -/
theorem Wf.search_root (h : f.Wf) (S : Finset α) (hS : ∀ a, f.live a → a ∈ S)
    {test : α → Option β} (htest : ∀ a q, f.live a → f.parent a = some q →
      test a = if f.parent q = none then some (f.owner a) else none)
    {n : Nat} (hn : S.card ≤ n) {a : α} (ha : f.live a) (hp : f.parent a ≠ none) :
    Chain.search f.parent test n a = some (f.owner a) := by
  classical
  obtain ⟨rank, hrank⟩ := h.ranked
  refine Chain.search_of_decreasing (R := fun x y => rank x < rank y)
    (fun x => Nat.lt_irrefl _) (fun x y z => Nat.lt_trans) f.owner
    (S.filter fun x => f.live x ∧ f.parent x ≠ none) (fun x hx => ?_)
    ((Finset.card_filter_le _ _).trans hn) (Finset.mem_filter.mpr ⟨hS a ha, ha, hp⟩)
  obtain ⟨-, hlive, hpx⟩ := Finset.mem_filter.mp hx
  obtain ⟨q, hq⟩ := Option.ne_none_iff_exists'.mp hpx
  obtain ⟨hql, -, hqo⟩ := h.up x q hlive hq
  refine ⟨q, hq, ?_⟩
  rw [htest x q hlive hq]
  by_cases hroot : f.parent q = none
  · exact Or.inl (if_pos hroot)
  · exact Or.inr ⟨if_neg hroot, Finset.mem_filter.mpr ⟨hS q hql, hql, hroot⟩,
      hrank x q hlive hq, hqo⟩

end Forest

end Base
