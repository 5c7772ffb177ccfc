/-
  Kernel memory protection: which user-accessible translations reach the kernel's 4MB to
  8MB frame.

  `init_paging` maps that frame supervisor-only. `make_task_pgdir` maps it through `PG_4M`,
  which has the user bit in it, so every directory it builds exposes the kernel image, the
  PCBs and the kernel stacks. Nothing else does: `Sealed` says that every other
  user-accessible translation stays out of the frame, and every operation keeps it.
  `protected_iff_no_task`: the frame is protected throughout a run exactly when the run
  builds no task directory.
-/
import Mp3Kernel.Base.Runs
import Mp3Kernel.Model.Paging
import Mathlib.Tactic.Common

namespace Mp3Kernel

open Base.PageWalk Base.Runs

/-! ## The entries the operations write -/

theorem tableEntry_eq (a : Nat) (ha : a % 4096 = 0) :
    a ||| pgUspace ||| pgRw ||| pgPresent = a + 7 := by
  rw [Nat.or_assoc, Nat.or_assoc]
  exact lor_flags a 7 ha (by decide)

theorem bootTableEntry_eq (a : Nat) (ha : a % 4096 = 0) : a ||| pgRw ||| pgPresent = a + 3 := by
  rw [Nat.or_assoc]
  exact lor_flags a 3 ha (by decide)

theorem programEntry_eq (proc : Nat) :
    (proc + 2) * mb4 ||| pgSize ||| pgUspace ||| pgRw ||| pgPresent = (proc + 2) * mb4 + 135 := by
  rw [Nat.or_assoc, Nat.or_assoc, Nat.or_assoc]
  exact lor_flags _ 135 (by unfold mb4; omega) (by decide)

theorem bootLargeEntry_eq (i : Nat) :
    i * pg4mStart ||| pgRw ||| pgUspace ||| pgSize = i * pg4mStart + 134 := by
  rw [Nat.or_assoc, Nat.or_assoc]
  exact lor_flags _ 134 (by unfold pg4mStart; omega) (by decide)

theorem Layout.pgtblProcAddr_mod (l : Layout) (proc : Nat) :
    l.pgtblProcAddr proc % 4096 = 0 := by
  have := l.aligned
  unfold Layout.pgtblProcAddr
  omega

theorem Layout.pgtblAddr_mod (l : Layout) : l.pgtblAddr % 4096 = 0 := by
  have := l.aligned
  unfold Layout.pgtblAddr
  omega

/-- The table at a process table's address is that process's table. -/
theorem Paging.tableAt_pgtblProc (p : Paging) (proc : Nat) (h : proc < 8) :
    p.tableAt (p.layout.pgtblProcAddr proc) = some (p.pgtblProc proc) := by
  have hmod := p.layout.pgtblProcAddr_mod proc
  unfold Layout.pgtblProcAddr at hmod
  unfold Paging.tableAt Layout.pgtblAddr Layout.pgtblProcAddr numProc
  rw [if_neg (by omega), if_pos (by omega)]
  congr 2
  omega

theorem VidAddr.dirIndex_ne_one (va : VidAddr) : va.addr / mb4 ≠ 1 := by
  cases va <;> decide

theorem VidFrame.addr_mod (pa : VidFrame) : pa.addr % 4096 = 0 := by
  cases pa with
  | video => decide
  | buf t => revert t; decide

theorem VidFrame.addr_low (pa : VidFrame) : pa.addr + 4096 ≤ mb4 := by
  cases pa with
  | video => decide
  | buf t => revert t; decide

/-! ## Sealed directories -/

/-- A directory entry that gives user code nothing in the kernel's frame: it is absent, or
    supervisor-only, or maps a 4MB frame from 8MB on, or points at a process table. -/
def EntrySealed (l : Layout) (e : Nat) : Prop :=
  ¬ present e ∨ ¬ user e ∨ (large e ∧ mb8 ≤ largeFrame e) ∨
    (¬ large e ∧ ∃ q, q < 8 ∧ frame e = l.pgtblProcAddr q)

/-- Every entry but the kernel's own (index 1) is sealed, and the process tables map only
    frames below 4MB. -/
structure Sealed (p : Paging) : Prop where
  dir : ∀ proc, proc < 8 → ∀ i, i < 1024 → i ≠ 1 → EntrySealed p.layout (p.pgdir proc i)
  tbl : ∀ proc, proc < 8 → ∀ i, i < 1024 → present (p.pgtblProc proc i) →
    frame (p.pgtblProc proc i) + 4096 ≤ mb4

/-- The kernel's entry gives user code nothing. -/
def KernelEntryShut (p : Paging) : Prop :=
  ∀ proc, proc < 8 → ¬ (present (p.pgdir proc 1) ∧ user (p.pgdir proc 1))

theorem entrySealed_table (l : Layout) (proc : Nat) (h : proc < 8) :
    EntrySealed l (l.pgtblProcAddr proc ||| pgUspace ||| pgRw ||| pgPresent) := by
  have hmod := l.pgtblProcAddr_mod proc
  rw [tableEntry_eq _ hmod]
  exact Or.inr (Or.inr (Or.inr ⟨fun hl => absurd ((large_add hmod).mp hl) (by decide), proc, h,
    frame_add hmod (by decide)⟩))

theorem entrySealed_program (l : Layout) (proc : Nat) :
    EntrySealed l ((proc + 2) * mb4 ||| pgSize ||| pgUspace ||| pgRw ||| pgPresent) := by
  have hbig : (proc + 2) * mb4 % 4194304 = 0 := Nat.mul_mod_left _ _
  have hmod : (proc + 2) * mb4 % 4096 = 0 := by omega
  rw [programEntry_eq]
  refine Or.inr (Or.inr (Or.inl ⟨(large_add hmod).mpr (by decide), ?_⟩))
  rw [largeFrame_add hbig (by decide)]
  unfold mb4 mb8
  omega

theorem not_present_zero : ¬ present 0 := by decide

theorem entrySealed_zero (l : Layout) : EntrySealed l 0 := Or.inl not_present_zero

theorem Sealed.setPde {p : Paging} (h : Sealed p) (proc i e : Nat)
    (he : i = 1 ∨ EntrySealed p.layout e) : Sealed (p.setPde proc i e) := by
  refine ⟨fun proc' hp i' hi hne => ?_, h.tbl⟩
  rw [Paging.setPde_layout]
  by_cases hproc : proc' = proc
  · subst hproc
    rw [Paging.setPde_pgdir_self]
    by_cases hidx : i' = i
    · subst hidx
      rw [Function.update_self]
      exact he.resolve_left hne
    · rw [Function.update_of_ne hidx]
      exact h.dir proc' hp i' hi hne
  · rw [Paging.setPde_pgdir_of_ne _ _ _ _ hproc]
    exact h.dir proc' hp i' hi hne

/-- Replacing one process's table keeps the seal when the new table maps below 4MB. -/
theorem Sealed.setPgtbl {p : Paging} (h : Sealed p) (proc : Nat) (pt : Nat → Nat)
    (hpt : ∀ i, i < 1024 → present (pt i) → frame (pt i) + 4096 ≤ mb4) :
    Sealed (p.setPgtbl proc pt) := by
  refine ⟨h.dir, fun proc' hp i hi => ?_⟩
  by_cases hproc : proc' = proc
  · subst hproc
    rw [Paging.setPgtbl_pgtblProc_self]
    exact hpt i hi
  · rw [Paging.setPgtbl_pgtblProc_of_ne _ _ _ hproc]
    exact h.tbl proc' hp i hi

theorem Sealed.loadCr3 {p : Paging} (h : Sealed p) (proc : Nat) : Sealed (p.loadCr3 proc) :=
  ⟨h.dir, h.tbl⟩

theorem taskPgtbl_low (old : Nat → Nat) (i : Nat) (hi : i < 1024)
    (hp : present (taskPgtbl old i)) : frame (taskPgtbl old i) + 4096 ≤ mb4 := by
  unfold taskPgtbl at hp ⊢
  by_cases h0 : i = 0
  · rw [if_pos h0] at hp
    exact absurd hp (by decide)
  · have hmod : i * pteSize % 4096 = 0 := by unfold pteSize; omega
    rw [if_neg h0, if_pos (by unfold pgtblLen; exact hi), tableEntry_eq _ hmod,
      frame_add hmod (by decide)]
    unfold pteSize mb4
    omega

/-- The directory `init_paging` builds is sealed: below 4MB it is supervisor-only, above
    8MB not present. -/
theorem sealed_initPaging {p : Paging} (h : Sealed p) : Sealed (initPaging p) := by
  refine ⟨fun proc hp i hi hne => ?_, h.tbl⟩
  show EntrySealed p.layout (Function.update p.pgdir 0 _ proc i)
  by_cases hproc : proc = 0
  · subst hproc
    simp only [Function.update_self]
    by_cases h0 : i = 0
    · have hmod := p.layout.pgtblAddr_mod
      rw [if_pos h0, bootTableEntry_eq _ hmod]
      exact Or.inr (Or.inl fun hu => absurd ((user_add hmod).mp hu) (by decide))
    · have hmod : i * pg4mStart % 4096 = 0 := by unfold pg4mStart; omega
      rw [if_neg h0, if_neg hne, if_pos (by unfold pgdirLen; exact hi), bootLargeEntry_eq]
      exact Or.inl fun hp => absurd ((present_add hmod).mp hp) (by decide)
  · simp only [Function.update_of_ne hproc]
    exact h.dir proc hp i hi hne

/-- Every paging operation keeps the seal. -/
theorem sealed_apply {p : Paging} (h : Sealed p) (op : PagingOp) : Sealed (p.apply op) := by
  cases op with
  | initPaging => exact sealed_initPaging h
  | makeTaskPgdir proc =>
    by_cases hproc : numProc ≤ proc
    · simpa only [Paging.apply, makeTaskPgdir, if_pos hproc, Option.getD_none] using h
    · have hlt : proc < 8 := Nat.lt_of_not_le hproc
      simp only [Paging.apply, makeTaskPgdir, if_neg hproc, Option.getD_some]
      have h0 := h.setPgtbl proc _ (taskPgtbl_low (p.pgtblProc proc))
      have h1 := h0.setPde proc 0 _ (Or.inr (entrySealed_table p.layout proc hlt))
      have h2 := h1.setPde proc 1 (pg4m ||| pgRw ||| pgSize ||| pgPresent) (Or.inl rfl)
      exact (h2.setPde proc elfLoadPg _ (Or.inr (entrySealed_program p.layout proc))).loadCr3 proc
  | removeTaskPgdir proc =>
    exact (h.setPde proc elfLoadPg _ (Or.inr (Or.inl (not_present_and _)))).loadCr3 proc
  | mapVidMem proc va pa =>
    by_cases hproc : numProc ≤ proc
    · simpa only [Paging.apply, mapVidMem, if_pos hproc, Option.getD_none] using h
    · have hlt : proc < 8 := Nat.lt_of_not_le hproc
      simp only [Paging.apply, mapVidMem, if_neg hproc, Option.getD_some]
      have h0 := h.setPde proc (va.addr / mb4) _ (Or.inr (entrySealed_table p.layout proc hlt))
      refine (h0.setPgtbl proc _ fun i hi => ?_).loadCr3 proc
      by_cases hidx : i = va.addr % mb4 / kb4
      · subst hidx
        rw [Function.update_self, tableEntry_eq _ pa.addr_mod, frame_add pa.addr_mod (by decide)]
        exact fun _ => pa.addr_low
      · rw [Function.update_of_ne hidx]
        exact h.tbl proc hlt i hi

theorem sealed_reset (l : Layout) : Sealed (Paging.reset l) :=
  ⟨fun _ _ _ _ _ => entrySealed_zero l, fun _ _ _ _ h => absurd h not_present_zero⟩

/-! ## The kernel's own entry -/

/-- The call builds a process's page directory. -/
def PagingOp.BuildsTask : PagingOp → Prop
  | .makeTaskPgdir proc => proc < 8
  | _ => False

/-- No operation but a successful `make_task_pgdir` opens the kernel's entry. -/
theorem kernelEntryShut_apply {p : Paging} (h : KernelEntryShut p) (op : PagingOp)
    (hop : ¬ op.BuildsTask) : KernelEntryShut (p.apply op) := by
  intro proc hp
  cases op with
  | initPaging =>
    show ¬ (present (Function.update p.pgdir 0 _ proc 1) ∧
      user (Function.update p.pgdir 0 _ proc 1))
    by_cases hproc : proc = 0
    · subst hproc
      rw [Function.update_self, if_neg (by decide), if_pos rfl]
      decide
    · rw [Function.update_of_ne hproc]
      exact h proc hp
  | makeTaskPgdir q =>
    have hq : numProc ≤ q := Nat.le_of_not_lt hop
    simpa only [Paging.apply, makeTaskPgdir, if_pos hq, Option.getD_none] using h proc hp
  | removeTaskPgdir q =>
    have hframe : (p.apply (.removeTaskPgdir q)).pgdir proc 1 = p.pgdir proc 1 := by
      simp only [Paging.apply, removeTaskPgdir, Paging.loadCr3_pgdir]
      by_cases hproc : proc = q
      · subst hproc
        rw [Paging.setPde_pgdir_self, Function.update_of_ne (by decide)]
      · rw [Paging.setPde_pgdir_of_ne _ _ _ _ hproc]
    rw [hframe]
    exact h proc hp
  | mapVidMem q va pa =>
    by_cases hq : numProc ≤ q
    · simpa only [Paging.apply, mapVidMem, if_pos hq, Option.getD_none] using h proc hp
    have hframe : (p.apply (.mapVidMem q va pa)).pgdir proc 1 = p.pgdir proc 1 := by
      simp only [Paging.apply, mapVidMem, if_neg hq, Option.getD_some, Paging.loadCr3_pgdir,
        Paging.setPte, Paging.setPgtbl_pgdir]
      by_cases hproc : proc = q
      · subst hproc
        rw [Paging.setPde_pgdir_self, Function.update_of_ne va.dirIndex_ne_one.symm]
      · rw [Paging.setPde_pgdir_of_ne _ _ _ _ hproc]
    rw [hframe]
    exact h proc hp

/-! ## Protection -/

/-- No present, user-accessible translation of any process's directory reaches the kernel's
    frame. -/
def Protected (p : Paging) : Prop :=
  ∀ proc, proc < 8 → ∀ va, va < 4294967296 → ∀ t, p.translate proc va = some t →
    t.isUser = true → ¬ (mb4 ≤ t.phys ∧ t.phys < mb8)

theorem protected_of_sealed {p : Paging} (h : Sealed p) (hk : KernelEntryShut p) :
    Protected p := by
  intro proc hp va hva t ht huser
  have hidx : dirIndex va < 1024 := by unfold dirIndex; omega
  obtain ⟨hpres, hcases⟩ := walk_eq_some ht
  -- the entry is user-accessible on both paths, so it is not the kernel's own
  have huserE : user (p.pgdir proc (dirIndex va)) := by
    rcases hcases with ⟨-, -, hu⟩ | ⟨-, pt, -, -, -, hu⟩
    · exact hu.mp huser
    · exact (hu.mp huser).1
  have hne : dirIndex va ≠ 1 := by
    intro h1
    rw [h1] at hpres huserE
    exact hk proc hp ⟨hpres, huserE⟩
  rcases h.dir proc hp _ hidx hne with hs | hs | ⟨hl, hfr⟩ | ⟨hnl, q, hq, hfr⟩
  · exact absurd hpres hs
  · exact absurd huserE hs
  · rcases hcases with ⟨-, hphys, -⟩ | ⟨hnl, -⟩
    · omega
    · exact absurd hl hnl
  · rcases hcases with ⟨hl, -⟩ | ⟨-, pt, hpt, hpp, hphys, -⟩
    · exact absurd hl hnl
    · rw [hfr, p.tableAt_pgtblProc q hq, Option.some.injEq] at hpt
      subst hpt
      have hi : tableIndex va < 1024 := Nat.mod_lt _ (by decide)
      have hlow := h.tbl q hq _ hi hpp
      have hoff : va % 4096 < 4096 := Nat.mod_lt _ (by decide)
      omega

/-- A directory `make_task_pgdir` has just built translates 4MB to itself for user code. -/
theorem translate_makeTaskPgdir_kernel (p : Paging) (proc : Nat) (hp : proc < 8) :
    (p.apply (.makeTaskPgdir proc)).translate proc mb4 = some ⟨mb4, true⟩ := by
  have hn : ¬ numProc ≤ proc := Nat.not_le_of_lt hp
  have hentry : (p.apply (.makeTaskPgdir proc)).pgdir proc 1 =
      pg4m ||| pgRw ||| pgSize ||| pgPresent := by
    simp only [Paging.apply, makeTaskPgdir, if_neg hn, Option.getD_some, Paging.loadCr3_pgdir,
      Paging.setPde_pgdir_self]
    rw [Function.update_of_ne (by decide), Function.update_self]
  have hidx : dirIndex mb4 = 1 := by decide
  have hpres : present (pg4m ||| pgRw ||| pgSize ||| pgPresent) := by decide
  have hlarge : large (pg4m ||| pgRw ||| pgSize ||| pgPresent) := by decide
  simp only [Paging.translate, walk, hidx, hentry, if_pos hpres, if_pos hlarge]
  decide

theorem not_protected_of_buildsTask (p : Paging) (op : PagingOp) (hop : op.BuildsTask) :
    ¬ Protected (p.apply op) := by
  cases op with
  | makeTaskPgdir proc =>
    intro h
    exact h proc hop mb4 (by decide) _ (translate_makeTaskPgdir_kernel p proc hop) rfl
      ⟨Nat.le_refl _, by decide⟩
  | initPaging => exact hop.elim
  | removeTaskPgdir q => exact hop.elim
  | mapVidMem q va pa => exact hop.elim

/-- The kernel's frame is protected in every state of a run exactly when no call of the run
    builds a task directory. -/
theorem protected_iff_no_task (l : Layout) (ops : List PagingOp) :
    AllStates Paging.step Protected (Paging.reset l) ops ↔ ∀ op ∈ ops, ¬ op.BuildsTask := by
  rw [← allSteps_iff_forall_label (fun p op => ⟨p.apply op, rfl⟩) (Paging.reset l) ops]
  refine allStates_iff_allSteps (I := fun p => Sealed p ∧ KernelEntryShut p)
    (fun p h => protected_of_sealed h.1 h.2) ?_ ?_
    ⟨sealed_reset l, fun _ _ h => absurd h.1 not_present_zero⟩
  · rintro p op q ⟨hs, hk⟩ hop hq
    obtain rfl := Option.some.inj hq
    exact ⟨sealed_apply hs op, kernelEntryShut_apply hk op hop⟩
  · rintro p op q - hq hprot hop
    obtain rfl := Option.some.inj hq
    exact not_protected_of_buildsTask p op hop hprot

/-- A layout with the tables at 4.25MB. -/
def layoutAt : Layout := ⟨0x440000, by decide, by decide, by decide⟩

/-- Booting and starting the first process exposes the first byte of the kernel image. -/
theorem first_process_reads_kernel :
    ∃ p, run Paging.step (Paging.reset layoutAt) [.initPaging, .makeTaskPgdir 0] = some p ∧
      p.translate 0 0x400000 = some ⟨0x400000, true⟩ ∧ ¬ Protected p :=
  ⟨_, rfl, by decide, not_protected_of_buildsTask _ _ (show 0 < 8 by decide)⟩

end Mp3Kernel
