/-
  Singly linked lists in memory.

  `next a` is the node behind `a`, `none` is the null pointer. `Linked next p as` says that the
  list from `p` has the nodes `as`, in this order, and ends; `next` alone decides which these
  are, so no node is in it twice. Nodes are put in front, and taken out by way of the pointer
  that leads to them: the head (`none`) or the one in a node.

  `find` and `walk` follow the links and run out of fuel on a list with a cycle.

  Generic in the nodes, and in what is done at each of them.
-/
import Mathlib.Logic.Function.Basic
import Mathlib.Data.List.Basic
import Mathlib.Tactic.Common

namespace Base.LinkedList

universe u v

variable {α : Type u} {σ : Type v} {next next' : α → Option α}

/-- The list that starts at a pointer has these nodes. -/
def Linked (next : α → Option α) : Option α → List α → Prop
  | p, [] => p = none
  | p, a :: as => p = some a ∧ Linked next (next a) as

@[simp] theorem linked_nil {p : Option α} : Linked next p [] ↔ p = none := Iff.rfl

@[simp] theorem linked_cons {p : Option α} {a : α} {as : List α} :
    Linked next p (a :: as) ↔ p = some a ∧ Linked next (next a) as := Iff.rfl

theorem Linked.unique {p : Option α} {as bs : List α} (ha : Linked next p as)
    (hb : Linked next p bs) : as = bs := by
  induction as generalizing p bs with
  | nil =>
    cases bs with
    | nil => rfl
    | cons b bs => exact nomatch ha.symm.trans hb.1
  | cons a as ih =>
    cases bs with
    | nil => exact nomatch hb.symm.trans ha.1
    | cons b bs =>
      obtain rfl := Option.some.inj (ha.1.symm.trans hb.1)
      rw [ih ha.2 hb.2]

/-- From a node of the list on it is a list. -/
theorem Linked.after {p : Option α} {as bs : List α} {a : α}
    (h : Linked next p (as ++ a :: bs)) : Linked next (some a) (a :: bs) := by
  induction as generalizing p with
  | nil => exact ⟨rfl, h.2⟩
  | cons b as ih => exact ih h.2

/-- A node that came again would go on in the same way for ever. -/
theorem Linked.nodup {p : Option α} {as : List α} (h : Linked next p as) : as.Nodup := by
  induction as generalizing p with
  | nil => exact List.nodup_nil
  | cons a as ih =>
    refine List.nodup_cons.mpr ⟨fun ha => ?_, ih h.2⟩
    obtain ⟨s, t, rfl⟩ := List.append_of_mem ha
    have hagain : Linked next (some a) (a :: (s ++ a :: t)) := ⟨rfl, h.2⟩
    have hlen := congrArg List.length (h.2.after.unique hagain)
    simp only [List.length_cons, List.length_append] at hlen
    omega

theorem Linked.congr {p : Option α} {as : List α} (h : Linked next p as)
    (hnext : ∀ a ∈ as, next' a = next a) : Linked next' p as := by
  induction as generalizing p with
  | nil => exact h
  | cons a as ih =>
    refine ⟨h.1, ?_⟩
    rw [hnext a List.mem_cons_self]
    exact ih h.2 fun b hb => hnext b (List.mem_cons_of_mem a hb)

section Update

variable [DecidableEq α]

/-- A node in front. -/
theorem Linked.push {p : Option α} {as : List α} {a : α} (h : Linked next p as) (ha : a ∉ as) :
    Linked (Function.update next a p) (some a) (a :: as) := by
  refine ⟨rfl, ?_⟩
  rw [Function.update_self]
  refine h.congr fun b hb => Function.update_of_ne ?_ ..
  rintro rfl
  exact ha hb

/-! ## Taking a node out -/

/-- What the pointer holds that is the head, or in a node. -/
def target (next : α → Option α) (head : Option α) (cell : Option α) : Option α :=
  cell.elim head next

/-- The links with that pointer set to `q`. -/
def setLink (next : α → Option α) (cell q : Option α) : α → Option α :=
  cell.elim next fun b => Function.update next b q

/-- The head with that pointer set to `q`. -/
def setHead (head cell q : Option α) : Option α := cell.elim q fun _ => head

@[simp] theorem setLink_none (q : Option α) : setLink next none q = next := rfl
@[simp] theorem setLink_some (b : α) (q : Option α) :
    setLink next (some b) q = Function.update next b q := rfl
omit [DecidableEq α] in
@[simp] theorem setHead_none (head q : Option α) : setHead head none q = q := rfl
omit [DecidableEq α] in
@[simp] theorem setHead_some (head : Option α) (b : α) (q : Option α) :
    setHead head (some b) q = head := rfl

/-- The pointer that leads to `a`, from `cell` on. `none`: there is none, or no end. -/
def findCell (next : α → Option α) (head : Option α) (a : α) :
    Nat → Option α → Option (Option α)
  | 0, _ => none
  | n + 1, cell =>
    match target next head cell with
    | none => none
    | some b => if b = a then some cell else findCell next head a n (some b)

theorem findCell_from {head cell : Option α} {as bs : List α} {a : α} {n : Nat}
    (h : Linked next (target next head cell) (as ++ a :: bs)) (ha : a ∉ as)
    (hn : as.length < n) :
    findCell next head a n cell = some (as.getLast?.or cell) := by
  induction as generalizing cell n with
  | nil =>
    cases n with
    | zero => exact absurd hn (Nat.not_lt_zero _)
    | succ n => simp [findCell, h.1]
  | cons b as ih =>
    cases n with
    | zero => exact absurd hn (Nat.not_lt_zero _)
    | succ n =>
      obtain ⟨hb, h⟩ := h
      have hba : b ≠ a := fun he => ha (he ▸ List.mem_cons_self)
      have hrest : findCell next head a n (some b) = some (as.getLast?.or (some b)) :=
        ih h (fun hc => ha (List.mem_cons_of_mem b hc)) (Nat.lt_of_succ_lt_succ hn)
      simp only [findCell, hb, if_neg hba]
      rw [hrest, List.getLast?_cons]
      cases as.getLast? <;> rfl

theorem findCell_linked {head : Option α} {as bs : List α} {a : α} {n : Nat}
    (h : Linked next head (as ++ a :: bs)) (hn : as.length < n) :
    findCell next head a n none = some as.getLast? := by
  have hapart := (List.nodup_append.mp h.nodup).2.2
  have ha : a ∉ as := fun hc => hapart a hc a List.mem_cons_self rfl
  have hfrom : findCell next head a n none = some (as.getLast?.or none) := findCell_from h ha hn
  rw [hfrom, Option.or_none]

/-- With the pointer that leads to `a` set to what is behind `a`, `a` is out of the list. -/
theorem Linked.unlink {head : Option α} {as bs : List α} {a : α}
    (h : Linked next head (as ++ a :: bs)) :
    Linked (setLink next as.getLast? (next a)) (setHead head as.getLast? (next a))
      (as ++ bs) := by
  induction as generalizing head with
  | nil => exact h.2
  | cons c as ih =>
    have hc : c ∉ as ++ a :: bs := (List.nodup_cons.mp h.nodup).1
    have hrest := ih h.2
    rw [List.getLast?_cons]
    cases hlast : as.getLast? with
    | none =>
      obtain rfl := List.getLast?_eq_none_iff.mp hlast
      refine ⟨h.1, ?_⟩
      simp only [Option.getD_none, setLink_some, Function.update_self]
      refine h.2.2.congr fun b hb => Function.update_of_ne ?_ ..
      rintro rfl
      exact hc (List.mem_cons_of_mem a hb)
    | some b =>
      have hb : b ∈ as := List.mem_of_getLast? hlast
      have hcb : c ≠ b := fun he => hc (he ▸ List.mem_append_left _ hb)
      rw [hlast] at hrest
      refine ⟨h.1, ?_⟩
      simp only [Option.getD_some, setLink_some, setHead_some] at hrest ⊢
      rwa [Function.update_of_ne hcb]

end Update

/-! ## Walks -/

/-- The first node from a pointer on that meets the test. `none`: there is no end. -/
def find (next : α → Option α) (test : α → Bool) : Nat → Option α → Option (Option α)
  | 0, _ => none
  | _ + 1, none => some none
  | n + 1, some a => if test a then some (some a) else find next test n (next a)

theorem find_linked {p : Option α} {as : List α} (test : α → Bool) {n : Nat}
    (h : Linked next p as) (hn : as.length < n) :
    find next test n p = some (as.find? test) := by
  induction as generalizing p n with
  | nil =>
    cases n with
    | zero => exact absurd hn (Nat.not_lt_zero _)
    | succ n => rw [linked_nil.mp h, find, List.find?_nil]
  | cons a as ih =>
    cases n with
    | zero => exact absurd hn (Nat.not_lt_zero _)
    | succ n =>
      obtain ⟨rfl, h⟩ := h
      rw [find, List.find?_cons, ih h (Nat.lt_of_succ_lt_succ hn)]
      cases test a <;> rfl

/-- `f` at every node from a pointer on. `none`: there is no end. -/
def walk (next : σ → α → Option α) (f : σ → α → σ) : Nat → σ → Option α → Option σ
  | 0, _, _ => none
  | _ + 1, s, none => some s
  | n + 1, s, some a => walk next f n (f s a) (next (f s a) a)

variable {link : σ → α → Option α} {f : σ → α → σ}

theorem walk_linked (hf : ∀ s a, link (f s a) = link s) {s : σ} {p : Option α} {as : List α}
    {n : Nat} (h : Linked (link s) p as) (hn : as.length < n) :
    walk link f n s p = some (as.foldl f s) := by
  induction as generalizing s p n with
  | nil =>
    cases n with
    | zero => exact absurd hn (Nat.not_lt_zero _)
    | succ n => rw [linked_nil.mp h, walk, List.foldl_nil]
  | cons a as ih =>
    cases n with
    | zero => exact absurd hn (Nat.not_lt_zero _)
    | succ n =>
      obtain ⟨rfl, h⟩ := h
      rw [walk, List.foldl_cons, hf s a]
      exact ih ((hf s a).symm ▸ h) (Nat.lt_of_succ_lt_succ hn)

/-- A node that is behind itself. -/
theorem walk_loop (hf : ∀ s a, link (f s a) = link s) {s : σ} {a : α}
    (h : link s a = some a) (n : Nat) : walk link f n s (some a) = none := by
  induction n generalizing s with
  | zero => rfl
  | succ n ih =>
    rw [walk, hf s a, h]
    exact ih ((congrFun (hf s a) a).trans h)

end Base.LinkedList
