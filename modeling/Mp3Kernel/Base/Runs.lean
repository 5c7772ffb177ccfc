/-
  Runs of a partial labelled step function.

  `step s a = none` ends the run: the operation faults or never returns. A run is a list
  of labels from a start state; `AllStates P` says that `P` holds in every state the run
  reaches, `AllSteps G` that every step that completes meets the condition `G` in the
  state before it.

  * `allStates_of_allSteps`: an invariant kept by the steps that meet `G` holds along
    every run whose steps all meet `G`.
  * `allStates_iff_allSteps`: where the invariant also makes `G` exact for one step, the
    runs on which `P` holds throughout are exactly the runs whose steps all meet `G`;
    `allStates_iff_allSteps_of` is this for the runs that keep to a further condition.

  Generic in the states, the labels and the step function.
-/

namespace Base.Runs

universe u v

variable {σ : Type u} {α : Type v}

/-- The state after a list of labels, if every step completes. -/
def run (step : σ → α → Option σ) : σ → List α → Option σ
  | s, [] => some s
  | s, a :: as => (step s a).bind fun t => run step t as

/-- `P` in every state the run reaches, the start included. -/
def AllStates (step : σ → α → Option σ) (P : σ → Prop) : σ → List α → Prop
  | s, [] => P s
  | s, a :: as => P s ∧ ∀ t, step s a = some t → AllStates step P t as

/-- Every step of the run that completes meets `G`. -/
def AllSteps (step : σ → α → Option σ) (G : σ → α → Prop) : σ → List α → Prop
  | _, [] => True
  | s, a :: as => ∀ t, step s a = some t → G s a ∧ AllSteps step G t as

/-- Every step of the run meets `G`, also one that does not complete. -/
def AllMeet (step : σ → α → Option σ) (G : σ → α → Prop) : σ → List α → Prop
  | _, [] => True
  | s, a :: as => G s a ∧ ∀ t, step s a = some t → AllMeet step G t as

variable {step : σ → α → Option σ} {P I : σ → Prop} {G H : σ → α → Prop}

instance AllMeet.decidable [∀ s a, Decidable (G s a)] : (s : σ) → (as : List α) →
    Decidable (AllMeet step G s as)
  | _, [] => isTrue trivial
  | s, a :: as =>
    match h : step s a with
    | none => decidable_of_iff (G s a) (by simp [AllMeet, h])
    | some t =>
      have := AllMeet.decidable t as
      decidable_of_iff (G s a ∧ AllMeet step G t as) (by simp [AllMeet, h])

@[simp] theorem run_nil (s : σ) : run step s [] = some s := rfl

theorem run_cons (s : σ) (a : α) (as : List α) :
    run step s (a :: as) = (step s a).bind fun t => run step t as := rfl

theorem run_cons_of_some {s t : σ} {a : α} (h : step s a = some t) (as : List α) :
    run step s (a :: as) = run step t as := by
  rw [run_cons, h, Option.bind_some]

theorem run_append (s : σ) (as bs : List α) :
    run step s (as ++ bs) = (run step s as).bind fun t => run step t bs := by
  induction as generalizing s with
  | nil => rfl
  | cons a as ih =>
    rw [List.cons_append, run_cons, run_cons]
    cases step s a with
    | none => rfl
    | some t => exact ih t

theorem run_append_of_some {s t u : σ} {as bs : List α} (h1 : run step s as = some t)
    (h2 : run step t bs = some u) : run step s (as ++ bs) = some u := by
  rw [run_append, h1, Option.bind_some, h2]

theorem AllStates.start {s : σ} {as : List α} (h : AllStates step P s as) : P s := by
  cases as with
  | nil => exact h
  | cons a as => exact h.1

/-- `P` along a run is `P` after every prefix of it that completes. -/
theorem allStates_iff_reached (s : σ) (as : List α) :
    AllStates step P s as ↔ ∀ bs t, bs <+: as → run step s bs = some t → P t := by
  induction as generalizing s with
  | nil =>
    constructor
    · intro h bs t hbs ht
      rw [List.prefix_nil.mp hbs, run_nil, Option.some.injEq] at ht
      exact ht ▸ h
    · intro h
      exact h [] s (List.prefix_refl _) rfl
  | cons a as ih =>
    constructor
    · rintro ⟨h0, h1⟩ bs t hbs ht
      cases bs with
      | nil =>
        rw [run_nil, Option.some.injEq] at ht
        exact ht ▸ h0
      | cons b bs =>
        obtain ⟨rfl, hbs'⟩ := List.cons_prefix_cons.mp hbs
        rw [run_cons] at ht
        obtain ⟨u, hu, ht'⟩ := Option.bind_eq_some_iff.mp ht
        exact (ih u).mp (h1 u hu) bs t hbs' ht'
    · intro h
      refine ⟨h [] s List.nil_prefix rfl, fun u hu => (ih u).mpr fun bs t hbs ht => ?_⟩
      refine h (a :: bs) t (List.cons_prefix_cons.mpr ⟨rfl, hbs⟩) ?_
      rw [run_cons, hu]
      exact ht

/-- The rest of a run keeps to the condition too. -/
theorem AllSteps.after {s t : σ} {as bs : List α} (h : AllSteps step G s (as ++ bs))
    (hrun : run step s as = some t) : AllSteps step G t bs := by
  induction as generalizing s with
  | nil => exact Option.some.inj hrun ▸ h
  | cons a as ih =>
    obtain ⟨u, hu, hrun'⟩ := Option.bind_eq_some_iff.mp hrun
    exact ih (h u hu).2 hrun'

theorem allSteps_cons_of_some {s t : σ} {a : α} {as : List α} (h : step s a = some t)
    (ha : G s a) (has : AllSteps step G t as) : AllSteps step G s (a :: as) := by
  intro t' ht'
  obtain rfl := Option.some.inj (h.symm.trans ht')
  exact ⟨ha, has⟩

theorem AllSteps.and {s : σ} {as : List α} (hG : AllSteps step G s as)
    (hH : AllSteps step H s as) : AllSteps step (fun t a => G t a ∧ H t a) s as := by
  induction as generalizing s with
  | nil => trivial
  | cons a as ih =>
    exact fun t ht => ⟨⟨(hG t ht).1, (hH t ht).1⟩, ih (hG t ht).2 (hH t ht).2⟩

/-- A condition on the labels alone, where every step completes. -/
theorem allSteps_iff_forall_label {G : α → Prop} (htotal : ∀ s a, ∃ t, step s a = some t)
    (s : σ) (as : List α) : AllSteps step (fun _ a => G a) s as ↔ ∀ a ∈ as, G a := by
  induction as generalizing s with
  | nil => simp [AllSteps]
  | cons a as ih =>
    obtain ⟨t, ht⟩ := htotal s a
    simp only [AllSteps, List.mem_cons, forall_eq_or_imp, ht, Option.some.injEq, forall_eq', ih]

/-- An invariant of the steps that meet `G` holds along the runs that keep to `G`. -/
theorem allStates_of_allSteps
    (hstep : ∀ s a t, I s → G s a → step s a = some t → I t)
    {s : σ} {as : List α} (hs : I s) (h : AllSteps step G s as) : AllStates step I s as := by
  induction as generalizing s with
  | nil => exact hs
  | cons a as ih =>
    exact ⟨hs, fun t ht => ih (hstep s a t hs (h t ht).1 ht) (h t ht).2⟩

/-- What the steps that meet `G` do from such a state, they do all along these runs. -/
theorem allSteps_of_allSteps
    (hstep : ∀ s a t, I s → G s a → step s a = some t → I t)
    (hGH : ∀ s a, I s → G s a → H s a)
    {s : σ} {as : List α} (hs : I s) (h : AllSteps step G s as) : AllSteps step H s as := by
  induction as generalizing s with
  | nil => trivial
  | cons a as ih =>
    intro t ht
    have hG := (h t ht).1
    exact ⟨hGH s a hs hG, ih (hstep s a t hs hG ht) (h t ht).2⟩

/-- Conditions that agree on the steps that complete, under an invariant of all steps. -/
theorem allSteps_congr (hstep : ∀ s a t, I s → step s a = some t → I t)
    (hGH : ∀ s a t, I s → step s a = some t → (G s a ↔ H s a))
    {s : σ} {as : List α} (hs : I s) : AllSteps step G s as ↔ AllSteps step H s as := by
  induction as generalizing s with
  | nil => exact Iff.rfl
  | cons a as ih =>
    exact forall_congr' fun t => forall_congr' fun ht =>
      and_congr (hGH s a t hs ht) (ih (hstep s a t hs ht))

theorem AllMeet.allSteps {s : σ} {as : List α} (h : AllMeet step G s as) :
    AllSteps step G s as := by
  induction as generalizing s with
  | nil => trivial
  | cons a as ih => exact fun t ht => ⟨h.1, ih (h.2 t ht)⟩

theorem allMeet_of_forall {G : α → Prop} {as : List α} (h : ∀ a ∈ as, G a) (s : σ) :
    AllMeet step (fun _ a => G a) s as := by
  induction as generalizing s with
  | nil => trivial
  | cons a as ih =>
    exact ⟨h a List.mem_cons_self, fun t _ => ih (fun b hb => h b (List.mem_cons_of_mem a hb)) t⟩

theorem allMeet_of_allMeet
    (hstep : ∀ s a t, I s → G s a → step s a = some t → I t)
    (hGH : ∀ s a, I s → G s a → H s a)
    {s : σ} {as : List α} (hs : I s) (h : AllMeet step G s as) : AllMeet step H s as := by
  induction as generalizing s with
  | nil => trivial
  | cons a as ih => exact ⟨hGH s a hs h.1, fun t ht => ih (hstep s a t hs h.1 ht) (h.2 t ht)⟩

theorem AllStates.imp {s : σ} {as : List α} {Q : σ → Prop} (hPQ : ∀ t, P t → Q t)
    (h : AllStates step P s as) : AllStates step Q s as := by
  induction as generalizing s with
  | nil => exact hPQ s h
  | cons a as ih => exact ⟨hPQ s h.1, fun t ht => ih (h.2 t ht)⟩

/-- Where the steps that meet `G` complete, so do the runs. -/
theorem run_of_allMeet (hstep : ∀ s a, I s → G s a → ∃ t, step s a = some t ∧ I t)
    {s : σ} {as : List α} (hs : I s) (h : AllMeet step G s as) :
    ∃ t, run step s as = some t ∧ I t := by
  induction as generalizing s with
  | nil => exact ⟨s, rfl, hs⟩
  | cons a as ih =>
    obtain ⟨t, ht, hI⟩ := hstep s a hs h.1
    rw [run_cons, ht]
    exact ih hI (h.2 t ht)

/-- The unconditional case: an invariant of every step holds along every run. -/
theorem allStates_of_invariant (hstep : ∀ s a t, I s → step s a = some t → I t)
    {s : σ} (hs : I s) (as : List α) : AllStates step I s as := by
  induction as generalizing s with
  | nil => exact hs
  | cons a as ih => exact ⟨hs, fun t ht => ih (hstep s a t hs ht)⟩

/-- Where, under the invariant and on the steps that meet `H`, `G` is exactly the condition for
    one step to reach `P`, it is exactly the condition for the runs that keep to `H`. -/
theorem allStates_iff_allSteps_of (hIP : ∀ s, I s → P s)
    (hstep : ∀ s a t, I s → H s a → G s a → step s a = some t → I t)
    (hexact : ∀ s a t, I s → H s a → step s a = some t → P t → G s a)
    {s : σ} {as : List α} (hs : I s) (hH : AllSteps step H s as) :
    AllStates step P s as ↔ AllSteps step G s as := by
  constructor
  · intro h
    induction as generalizing s with
    | nil => trivial
    | cons a as ih =>
      intro t ht
      obtain ⟨hHs, hHt⟩ := hH t ht
      have hG := hexact s a t hs hHs ht (h.2 t ht).start
      exact ⟨hG, ih (hstep s a t hs hHs hG ht) hHt (h.2 t ht)⟩
  · intro h
    refine (allStates_of_allSteps (fun s a t hI hHG ht => ?_) hs (hH.and h)).imp hIP
    exact hstep s a t hI hHG.1 hHG.2 ht

/-- The same for all runs. -/
theorem allStates_iff_allSteps (hIP : ∀ s, I s → P s)
    (hstep : ∀ s a t, I s → G s a → step s a = some t → I t)
    (hexact : ∀ s a t, I s → step s a = some t → P t → G s a)
    {s : σ} {as : List α} (hs : I s) : AllStates step P s as ↔ AllSteps step G s as :=
  allStates_iff_allSteps_of hIP (fun s a t hI _ => hstep s a t hI)
    (fun s a t hI _ => hexact s a t hI) hs
    (allMeet_of_forall (G := fun _ => True) (fun _ _ => trivial) s).allSteps

end Base.Runs
