/-
  Programs that make calls, and a calculus of their runs.

  A `Program` is over, or makes a call and goes on with the answer. Who answers is an
  environment: a relation between the state before the call, the call, its answer and the state
  after it. It may leave an answer open, give one of several, and let anything else happen
  before it answers.

  `wp` is what has to hold before a program for every run of it to end in a given condition; the
  condition also speaks about runs that are not over. `wp_iff` connects it with the runs.
  Programs that follow each other, single calls and loops have a rule each.

  Generic in the calls, the answers, the results and the states.
-/
import Mathlib.Data.Sum.Basic

namespace Base.Programs

universe u v

/-- `stop`: the turns a loop was given are used up. -/
inductive Program (Q R α : Type u) where
  | done (a : α)
  | stop
  | call (q : Q) (cont : R → Program Q R α)

variable {Q R α β τ : Type u} {σ : Type v}

def Program.bind : Program Q R α → (α → Program Q R β) → Program Q R β
  | .done a, f => f a
  | .stop, _ => .stop
  | .call q cont, f => .call q fun r => (cont r).bind f

instance : Monad (Program Q R) where
  pure := .done
  bind := .bind

def ask (q : Q) : Program Q R R := .call q .done

/-- A pure computation that may not come back. -/
def Program.ofOption : Option α → Program Q R α
  | some a => .done a
  | none => .stop

/-- A loop of at most `n` turns. A turn goes on, or leaves with a result. -/
def loop (body : τ → Program Q R (τ ⊕ β)) : Nat → τ → Program Q R β
  | 0, _ => .stop
  | n + 1, x => body x >>= fun
    | .inl y => loop body n y
    | .inr b => .done b

/-! ## Runs -/

/-- How far a run has come. -/
inductive Progress (α : Type u) where
  /-- It waits for an answer. -/
  | waiting
  /-- It has come to the end of a loop's turns. -/
  | stopped
  | ended (a : α)

/-- `env s q r s'`: in state `s`, the call `q` can be answered by `r` in state `s'`. -/
inductive RunsTo (env : σ → Q → R → σ → Prop) : Program Q R α → σ → Progress α → σ → Prop where
  | waiting {q : Q} {cont : R → Program Q R α} {s : σ} : RunsTo env (.call q cont) s .waiting s
  | stopped {s : σ} : RunsTo env .stop s .stopped s
  | ended {a : α} {s : σ} : RunsTo env (.done a) s (.ended a) s
  | answered {q : Q} {cont : R → Program Q R α} {s s' s'' : σ} {r : R} {o : Progress α}
    (h : env s q r s') (hrun : RunsTo env (cont r) s' o s'') : RunsTo env (.call q cont) s o s''

/-- Before the program: every run of it ends in `post`. -/
def wp (env : σ → Q → R → σ → Prop) : Program Q R α → (Progress α → σ → Prop) → σ → Prop
  | .done a, post, s => post (.ended a) s
  | .stop, post, s => post .stopped s
  | .call q cont, post, s => post .waiting s ∧ ∀ r s', env s q r s' → wp env (cont r) post s'

variable {env : σ → Q → R → σ → Prop} {s : σ}

theorem wp_iff (p : Program Q R α) (post : Progress α → σ → Prop) (s : σ) :
    wp env p post s ↔ ∀ o s', RunsTo env p s o s' → post o s' := by
  constructor
  · intro h o s' hrun
    induction hrun with
    | waiting => exact h.1
    | stopped => exact h
    | ended => exact h
    | answered henv _ ih => exact ih (h.2 _ _ henv)
  · intro h
    induction p generalizing s with
    | done a => exact h _ _ .ended
    | stop => exact h _ _ .stopped
    | call q cont ih =>
      exact ⟨h _ _ .waiting, fun r s' henv => ih r s' fun o s'' hrun => h o s'' (.answered henv hrun)⟩

/-! ## Rules -/

theorem wp_mono {p : Program Q R α} {post post' : Progress α → σ → Prop} (h : wp env p post s)
    (himp : ∀ o s', post o s' → post' o s') : wp env p post' s :=
  (wp_iff p post' s).mpr fun o s' hrun => himp o s' ((wp_iff p post s).mp h o s' hrun)

/-- What has to hold after a program that `f` follows. -/
def andThen (env : σ → Q → R → σ → Prop) (f : α → Program Q R β) (post : Progress β → σ → Prop) :
    Progress α → σ → Prop
  | .waiting => post .waiting
  | .stopped => post .stopped
  | .ended a => wp env (f a) post

theorem wp_bind {p : Program Q R α} {f : α → Program Q R β} {post : Progress β → σ → Prop} :
    wp env (p >>= f) post s ↔ wp env p (andThen env f post) s := by
  induction p generalizing s with
  | done a => exact Iff.rfl
  | stop => exact Iff.rfl
  | call q cont ih =>
    exact and_congr Iff.rfl (forall_congr' fun r => forall_congr' fun s' =>
      imp_congr Iff.rfl (ih r))

theorem wp_bind_pure {p : Program Q R α} {post : Progress α → σ → Prop} :
    wp env (p >>= pure) post s ↔ wp env p post s := by
  rw [wp_bind]
  constructor <;> intro h <;> refine wp_mono h fun o s' ho => ?_ <;> cases o <;> exact ho

/-- A call, and what follows it. -/
theorem wp_ask_bind {q : Q} {f : R → Program Q R β} {post : Progress β → σ → Prop} :
    wp env (ask q >>= f) post s ↔
      post .waiting s ∧ ∀ r s', env s q r s' → wp env (f r) post s' := Iff.rfl

/-- One turn of a loop: it goes on with what satisfies `next`, or leaves with `post`. -/
def turn (next : τ → σ → Prop) (post : Progress β → σ → Prop) : Progress (τ ⊕ β) → σ → Prop
  | .waiting => post .waiting
  | .stopped => post .stopped
  | .ended (.inl y) => next y
  | .ended (.inr b) => post (.ended b)

/-- `I n` is kept for the `n` turns that are left. -/
theorem wp_loop {body : τ → Program Q R (τ ⊕ β)} {post : Progress β → σ → Prop}
    {I : Nat → τ → σ → Prop} (hstop : ∀ x s, I 0 x s → post .stopped s)
    (hbody : ∀ n x s, I (n + 1) x s → wp env (body x) (turn (I n) post) s) {n : Nat} {x : τ}
    (h : I n x s) : wp env (loop body n x) post s := by
  induction n generalizing x s with
  | zero => exact hstop x s h
  | succ n ih =>
    rw [loop, wp_bind]
    refine wp_mono (hbody n x s h) fun o s' ho => ?_
    cases o with
    | waiting => exact ho
    | stopped => exact ho
    | ended c =>
      cases c with
      | inl y => exact ih ho
      | inr b => exact ho

/-- A loop each of whose turns makes a measure smaller does not come to the end of its turns. -/
theorem wp_loop_measure {body : τ → Program Q R (τ ⊕ β)} {post : Progress β → σ → Prop}
    {I : τ → σ → Prop} (measure : τ → σ → Nat)
    (hbody : ∀ x s, I x s →
      wp env (body x) (turn (fun y s' => I y s' ∧ measure y s' < measure x s) post) s)
    {n : Nat} {x : τ} (h : I x s) (hn : measure x s < n) : wp env (loop body n x) post s := by
  refine wp_loop (I := fun n x s => I x s ∧ measure x s < n)
    (fun x s h => absurd h.2 (Nat.not_lt_zero _)) (fun n x s h => ?_) ⟨h, hn⟩
  refine wp_mono (hbody x s h.1) fun o s' ho => ?_
  cases o with
  | waiting => exact ho
  | stopped => exact ho
  | ended c =>
    cases c with
    | inl y => exact ⟨ho.1, Nat.lt_of_lt_of_le ho.2 (Nat.le_of_lt_succ h.2)⟩
    | inr b => exact ho

end Base.Programs
