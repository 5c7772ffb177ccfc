/-
  Processes do not reach each other's program memory.

  A present 4MB entry of a directory lies in the kernel's first 8MB or is the process's own
  frame; a page table maps nothing from 4MB on. `Confined` says so of every directory, also of
  what `init_paging` fills in for PID 0 and `open_fs` makes present, and every operation keeps
  it. `processes_isolated`: so no directory translates anything into another process's frame.

  `tables_known`: once `init_paging` has run, every table a present entry points at is one of
  the kernel's, so no translation goes through memory the model knows nothing of.
-/
import Mp3Kernel.Proofs.Protection

namespace Mp3Kernel

open Base.PageWalk Base.Runs

/-! ## Confined directories -/

/-- What is put at index `i` of the directory of `proc`: below index 2 something about the
    first 8MB, above it at most the 4MB page of the process itself. -/
def EntryConfined (proc i e : Nat) : Prop :=
  if i < 2 then e < mb8 else present e → large e → largeFrame e = (proc + 2) * mb4

structure Confined (p : Paging) : Prop where
  dir : ∀ proc, proc < 8 → ∀ i, i < 1024 → EntryConfined proc i (p.pgdir proc i)
  boot : ∀ i, i < 1024 → present (p.pgtbl i) → frame (p.pgtbl i) + 4096 ≤ mb4
  tbl : ∀ proc, proc < 8 → ∀ i, i < 1024 → present (p.pgtblProc proc i) →
    frame (p.pgtblProc proc i) + 4096 ≤ mb4

theorem Confined.setPde {p : Paging} (h : Confined p) (proc i e : Nat)
    (he : proc < 8 → EntryConfined proc i e) : Confined (p.setPde proc i e) := by
  refine ⟨fun proc' hp i' hi => ?_, h.boot, h.tbl⟩
  by_cases hproc : proc' = proc
  · subst hproc
    rw [Paging.setPde_pgdir_self]
    by_cases hidx : i' = i
    · subst hidx
      rw [Function.update_self]
      exact he hp
    · rw [Function.update_of_ne hidx]
      exact h.dir proc' hp i' hi
  · rw [Paging.setPde_pgdir_of_ne _ _ _ _ hproc]
    exact h.dir proc' hp i' hi

theorem Confined.setPgtbl {p : Paging} (h : Confined p) (proc : Nat) (pt : Nat → Nat)
    (hpt : ∀ i, i < 1024 → present (pt i) → frame (pt i) + 4096 ≤ mb4) :
    Confined (p.setPgtbl proc pt) := by
  refine ⟨h.dir, h.boot, fun proc' hp i hi => ?_⟩
  by_cases hproc : proc' = proc
  · subst hproc
    rw [Paging.setPgtbl_pgtblProc_self]
    exact hpt i hi
  · rw [Paging.setPgtbl_pgtblProc_of_ne _ _ _ hproc]
    exact h.tbl proc' hp i hi

theorem Confined.loadCr3 {p : Paging} (h : Confined p) (proc : Nat) : Confined (p.loadCr3 proc) :=
  ⟨h.dir, h.boot, h.tbl⟩

/-! ## The entries the operations write -/

/-- A process's table, at any index. -/
theorem entryConfined_table (l : Layout) {q : Nat} (hq : q < 8) (proc i : Nat) :
    EntryConfined proc i (l.pgtblProcAddr q ||| pgUspace ||| pgRw ||| pgPresent) := by
  have hmod := l.pgtblProcAddr_mod q
  have hhigh := l.high
  rw [tableEntry_eq _ hmod]
  unfold EntryConfined
  split
  · unfold Layout.pgtblProcAddr
    omega
  · intro _ hl
    exact absurd ((large_add hmod).mp hl) (by decide)

theorem entryConfined_kernel (proc : Nat) :
    EntryConfined proc 1 (pg4m ||| pgRw ||| pgSize ||| pgPresent) := by
  unfold EntryConfined
  rw [if_pos (by decide)]
  decide

theorem entryConfined_program (proc : Nat) : EntryConfined proc elfLoadPg
    ((proc + 2) * mb4 ||| pgSize ||| pgUspace ||| pgRw ||| pgPresent) := by
  have hbig : (proc + 2) * mb4 % 4194304 = 0 := Nat.mul_mod_left _ _
  unfold EntryConfined
  rw [if_neg (by decide), programEntry_eq]
  exact fun _ _ => largeFrame_add hbig (by decide)

/-- An entry with its present bit cleared. -/
theorem EntryConfined.clear {proc i e : Nat} (h : EntryConfined proc i e) :
    EntryConfined proc i (e &&& 0xFFFFFFFE) := by
  unfold EntryConfined at h ⊢
  split
  · rename_i hi
    rw [if_pos hi] at h
    exact Nat.lt_of_le_of_lt Nat.and_le_left h
  · exact fun hp => absurd hp (not_present_and e)

/-- An entry about the first 8MB with its present bit set. -/
theorem EntryConfined.set {proc i e : Nat} (h : EntryConfined proc i e) (hi : i < 2) :
    EntryConfined proc i (e ||| pgPresent) := by
  unfold EntryConfined at h ⊢
  rw [if_pos hi] at h ⊢
  exact Nat.or_lt_two_pow (n := 23) h (by decide)

theorem confined_initPaging {p : Paging} (h : Confined p) : Confined (initPaging p) := by
  refine ⟨fun proc hp i hi => ?_, fun i hi => ?_, h.tbl⟩
  · show EntryConfined proc i (Function.update p.pgdir 0 _ proc i)
    by_cases hproc : proc = 0
    · subst hproc
      simp only [Function.update_self]
      unfold EntryConfined
      by_cases h0 : i = 0
      · have hhigh := p.layout.high
        rw [if_pos (by omega), if_pos h0, bootTableEntry_eq _ p.layout.pgtblAddr_mod]
        unfold Layout.pgtblAddr
        omega
      rw [if_neg h0]
      by_cases h1 : i = 1
      · rw [if_pos (by omega), if_pos h1]
        decide
      · have hmod : i * pg4mStart % 4096 = 0 := by unfold pg4mStart; omega
        rw [if_neg (by omega), if_neg h1, if_pos (by unfold pgdirLen; exact hi), bootLargeEntry_eq]
        exact fun hp => absurd ((present_add hmod).mp hp) (by decide)
    · simp only [Function.update_of_ne hproc]
      exact h.dir proc hp i hi
  · show present (if i = 0 then pgRw else _) → frame (if i = 0 then pgRw else _) + 4096 ≤ mb4
    by_cases h0 : i = 0
    · rw [if_pos h0]
      decide
    · have hmod : i * pteSize % 4096 = 0 := by unfold pteSize; omega
      rw [if_neg h0, if_pos (by unfold pgtblLen; exact hi), bootTableEntry_eq _ hmod,
        frame_add hmod (by decide)]
      intro _
      unfold pteSize mb4
      omega

theorem confined_apply {p : Paging} (h : Confined p) (op : PagingOp) : Confined (p.apply op) := by
  cases op with
  | initPaging => exact confined_initPaging h
  | makeTaskPgdir proc =>
    by_cases hproc : numProc ≤ proc
    · simpa only [Paging.apply, makeTaskPgdir, if_pos hproc, Option.getD_none] using h
    · have hlt : proc < 8 := Nat.lt_of_not_le hproc
      simp only [Paging.apply, makeTaskPgdir, if_neg hproc, Option.getD_some]
      have h0 := h.setPgtbl proc _ (taskPgtbl_low (p.pgtblProc proc))
      have h1 := h0.setPde proc 0 _ fun _ => entryConfined_table p.layout hlt proc 0
      have h2 := h1.setPde proc 1 _ fun _ => entryConfined_kernel proc
      exact (h2.setPde proc elfLoadPg _ fun _ => entryConfined_program proc).loadCr3 proc
  | removeTaskPgdir proc =>
    exact (h.setPde proc elfLoadPg _ fun hp => (h.dir proc hp elfLoadPg (by decide)).clear).loadCr3
      proc
  | mapVidMem proc va pa =>
    by_cases hproc : numProc ≤ proc
    · simpa only [Paging.apply, mapVidMem, if_pos hproc, Option.getD_none] using h
    · have hlt : proc < 8 := Nat.lt_of_not_le hproc
      simp only [Paging.apply, mapVidMem, if_neg hproc, Option.getD_some]
      have h0 := h.setPde proc (va.addr / mb4) _ fun _ => entryConfined_table p.layout hlt proc _
      refine (h0.setPgtbl proc _ fun i hi => ?_).loadCr3 proc
      by_cases hidx : i = va.addr % mb4 / kb4
      · subst hidx
        rw [Function.update_self, tableEntry_eq _ pa.addr_mod, frame_add pa.addr_mod (by decide)]
        exact fun _ => pa.addr_low
      · rw [Function.update_of_ne hidx]
        exact h.tbl proc hlt i hi

/-- The module lies below 8MB, so the entry made present is one of the first two. -/
theorem confined_openFs {p : Paging} (h : Confined p) {start : Nat} (hstart : start < mb8)
    (direntryCnt : Nat) : Confined (openFs p start direntryCnt).2 := by
  have hi : start / pg4mStart < 2 := by
    unfold mb8 at hstart
    unfold pg4mStart
    omega
  have hset : Confined (setPresent p (start / pg4mStart)) :=
    h.setPde 0 _ _ fun hp => (h.dir 0 hp _ (by omega)).set hi
  unfold openFs
  dsimp only
  split
  · exact hset.setPde 0 _ _ fun hp => (hset.dir 0 hp _ (by omega)).clear
  · exact hset

/-! ## Isolation -/

/-- The program memory of a process. -/
def InProgram (proc a : Nat) : Prop := mb8 + mb4 * proc ≤ a ∧ a < 3 * mb4 + mb4 * proc

def Isolated (p : Paging) : Prop :=
  ∀ proc other, proc < 8 → other < 8 → proc ≠ other → ∀ va, va < u32 → ∀ t,
    p.translate proc va = some t → ¬ InProgram other t.phys

theorem Confined.isolated {p : Paging} (h : Confined p) : Isolated p := by
  intro proc other hproc hother hne va hva t ht hin
  have hidx : dirIndex va < 1024 := by
    unfold u32 at hva
    unfold dirIndex
    omega
  have hoff : va % 4096 < 4096 := Nat.mod_lt _ (by decide)
  unfold InProgram at hin
  unfold mb8 mb4 at hin
  obtain ⟨hpres, hcases⟩ := walk_eq_some ht
  have hentry := h.dir proc hproc _ hidx
  unfold EntryConfined at hentry
  rcases hcases with ⟨hl, hphys, -⟩ | ⟨-, pt, hpt, hpp, hphys, -⟩
  · split at hentry
    · -- the first 8MB
      unfold largeFrame at hphys
      unfold mb8 at hentry
      omega
    · -- its own frame
      have hframe := hentry hpres hl
      unfold mb4 at hframe
      omega
  · -- no table maps anything from 4MB on
    have hlow : frame (pt (tableIndex va)) + 4096 ≤ mb4 := by
      have hi : tableIndex va < 1024 := Nat.mod_lt _ (by decide)
      unfold Paging.tableAt at hpt
      split at hpt
      · obtain rfl := Option.some.inj hpt
        exact h.boot _ hi hpp
      split at hpt
      · rename_i haddr
        obtain rfl := Option.some.inj hpt
        refine h.tbl _ ?_ _ hi hpp
        unfold Layout.pgtblProcAddr numProc at haddr
        unfold Layout.pgtblProcAddr
        omega
      · cases hpt
    unfold mb4 at hlow
    omega

theorem confined_reset (l : Layout) : Confined (Paging.reset l) := by
  refine ⟨fun proc _ i _ => ?_, fun _ _ h => absurd h not_present_zero,
    fun _ _ _ _ h => absurd h not_present_zero⟩
  show EntryConfined proc i 0
  unfold EntryConfined
  split
  · decide
  · exact fun h => absurd h not_present_zero

/-- The module of an `open_fs` lies below 8MB. -/
def MappingOp.FsBelow : MappingOp → Prop
  | .paging _ => True
  | .openFs start _ => start < mb8

theorem Confined.step {p q : Paging} (h : Confined p) {op : MappingOp} (hop : op.FsBelow)
    (hstep : mappingStep p op = some q) : Confined q := by
  cases op with
  | paging op =>
    obtain rfl := Option.some.inj hstep
    exact confined_apply h op
  | openFs start cnt =>
    obtain rfl := Option.some.inj hstep
    exact confined_openFs h hop cnt

/-- In every state of a run whose modules lie below 8MB, no directory translates an address
    into another process's program memory. -/
theorem processes_isolated (l : Layout) (ops : List MappingOp) (hfs : ∀ op ∈ ops, op.FsBelow) :
    AllStates mappingStep Isolated (Paging.reset l) ops := by
  have hsteps : AllSteps mappingStep (fun _ op => op.FsBelow) (Paging.reset l) ops :=
    (allSteps_iff_forall_label (fun p op => by cases op <;> exact ⟨_, rfl⟩) _ _).mpr hfs
  exact (allStates_of_allSteps (fun _ _ _ h hop hstep => h.step hop hstep) (confined_reset l)
    hsteps).imp fun _ h => h.isolated

theorem processes_isolated_twoTasks : AllStates mappingStep Isolated (Paging.reset layoutAt)
    [.paging .initPaging, .openFs 0x500000 17, .paging (.makeTaskPgdir 0),
      .paging (.makeTaskPgdir 1), .paging (.mapVidMem 1 .vidmap .video)] :=
  processes_isolated layoutAt _ (by
    intro op hop
    simp only [List.mem_cons, List.not_mem_nil, or_false] at hop
    rcases hop with rfl | rfl | rfl | rfl | rfl
    · trivial
    · show 0x500000 < mb8
      decide
    · trivial
    · trivial
    · trivial)

/-! ## Tables -/

/-- A large entry, or one that points at a table of the kernel. -/
def Known (l : Layout) (e : Nat) : Prop :=
  large e ∨ frame e = l.pgtblAddr ∨ ∃ q, q < 8 ∧ frame e = l.pgtblProcAddr q

/-- Every present entry is one of these, and so are the two that `open_fs` can make present. -/
def TablesKnown (p : Paging) : Prop :=
  ∀ proc, proc < 8 → ∀ i, i < 1024 → (proc = 0 ∧ i < 2) ∨ present (p.pgdir proc i) →
    Known p.layout (p.pgdir proc i)

theorem Known.table {p : Paging} {e : Nat} (h : Known p.layout e) (hl : ¬ large e) :
    ∃ pt, p.tableAt (frame e) = some pt := by
  rcases h with h | h | ⟨q, hq, h⟩
  · exact absurd h hl
  · refine ⟨p.pgtbl, ?_⟩
    unfold Paging.tableAt
    rw [if_pos h]
  · rw [h]
    exact ⟨_, p.tableAt_pgtblProc q hq⟩

theorem or_one (e : Nat) : e ||| 1 = e / 2 * 2 + 1 := by
  have hdiv : (e ||| 1) / 2 = e / 2 := by
    rw [Nat.or_div_two]
    exact Nat.or_zero _
  have hmod : (e ||| 1) % 2 = 1 := Nat.or_mod_two_eq_one.mpr (Or.inr rfl)
  omega

theorem and_clear {e : Nat} (he : e < mb8) : e &&& 0xFFFFFFFE = e / 2 * 2 := by
  have hdiv : (e &&& 0xFFFFFFFE) / 2 = e / 2 := by
    rw [Nat.and_div_two]
    exact Nat.and_two_pow_sub_one_of_lt_two_pow (n := 31) (by unfold mb8 at he; omega)
  have hmod : (e &&& 0xFFFFFFFE) % 2 = 0 := by
    have h := not_present_and e
    unfold present at h
    omega
  omega

/-- The present bit makes no difference. -/
theorem Known.congr {l : Layout} {e e' : Nat} (h : Known l e) (he : e' / 2 = e / 2) :
    Known l e' := by
  have hl : large e' ↔ large e := by
    unfold large
    omega
  have hf : frame e' = frame e := by
    unfold frame
    omega
  unfold Known
  rw [hl, hf]
  exact h

theorem TablesKnown.setPde {p : Paging} (h : TablesKnown p) (proc i e : Nat)
    (he : (proc = 0 ∧ i < 2) ∨ present e → Known p.layout e) : TablesKnown (p.setPde proc i e) := by
  intro proc' hp i' hi
  rw [Paging.setPde_layout]
  by_cases hproc : proc' = proc
  · subst hproc
    rw [Paging.setPde_pgdir_self]
    by_cases hidx : i' = i
    · subst hidx
      rw [Function.update_self]
      exact he
    · rw [Function.update_of_ne hidx]
      exact h proc' hp i' hi
  · rw [Paging.setPde_pgdir_of_ne _ _ _ _ hproc]
    exact h proc' hp i' hi

theorem TablesKnown.setPgtbl {p : Paging} (h : TablesKnown p) (proc : Nat) (pt : Nat → Nat) :
    TablesKnown (p.setPgtbl proc pt) := h

theorem TablesKnown.loadCr3 {p : Paging} (h : TablesKnown p) (proc : Nat) :
    TablesKnown (p.loadCr3 proc) := h

theorem known_table (l : Layout) {q : Nat} (hq : q < 8) :
    Known l (l.pgtblProcAddr q ||| pgUspace ||| pgRw ||| pgPresent) := by
  have hmod := l.pgtblProcAddr_mod q
  rw [tableEntry_eq _ hmod]
  exact Or.inr (Or.inr ⟨q, hq, frame_add hmod (by decide)⟩)

/-- `init_paging` fills in the directory of PID 0, whatever it held. -/
theorem tablesKnown_initPaging {p : Paging} (h : ∀ proc, proc < 8 → proc ≠ 0 → ∀ i, i < 1024 →
    present (p.pgdir proc i) → Known p.layout (p.pgdir proc i)) : TablesKnown (initPaging p) := by
  intro proc hp i hi
  show (proc = 0 ∧ i < 2) ∨ present (Function.update p.pgdir 0 _ proc i) →
    Known p.layout (Function.update p.pgdir 0 _ proc i)
  by_cases hproc : proc = 0
  · subst hproc
    simp only [Function.update_self]
    by_cases h0 : i = 0
    · have hmod := p.layout.pgtblAddr_mod
      rw [if_pos h0, bootTableEntry_eq _ hmod]
      exact fun _ => Or.inr (Or.inl (frame_add hmod (by decide)))
    rw [if_neg h0]
    by_cases h1 : i = 1
    · rw [if_pos h1]
      exact fun _ => Or.inl (by decide)
    · have hmod : i * pg4mStart % 4096 = 0 := by unfold pg4mStart; omega
      rw [if_neg h1, if_pos (by unfold pgdirLen; exact hi), bootLargeEntry_eq]
      exact fun _ => Or.inl ((large_add hmod).mpr (by decide))
  · simp only [Function.update_of_ne hproc]
    exact fun hor => h proc hp hproc i hi (hor.resolve_left fun hlow => hproc hlow.1)

theorem known_program (l : Layout) (proc : Nat) :
    Known l ((proc + 2) * mb4 ||| pgSize ||| pgUspace ||| pgRw ||| pgPresent) := by
  have hbig : (proc + 2) * mb4 % 4096 = 0 := by
    unfold mb4
    omega
  rw [programEntry_eq]
  exact Or.inl ((large_add hbig).mpr (by decide))

theorem tablesKnown_apply {p : Paging} (h : TablesKnown p) (op : PagingOp) :
    TablesKnown (p.apply op) := by
  cases op with
  | initPaging => exact tablesKnown_initPaging fun proc hp _ i hi hpres => h proc hp i hi (Or.inr hpres)
  | makeTaskPgdir proc =>
    by_cases hproc : numProc ≤ proc
    · simpa only [Paging.apply, makeTaskPgdir, if_pos hproc, Option.getD_none] using h
    · have hlt : proc < 8 := Nat.lt_of_not_le hproc
      simp only [Paging.apply, makeTaskPgdir, if_neg hproc, Option.getD_some]
      have h0 := h.setPgtbl proc (taskPgtbl (p.pgtblProc proc))
      have h1 := h0.setPde proc 0 _ fun _ => known_table p.layout hlt
      have h2 := h1.setPde proc 1 (pg4m ||| pgRw ||| pgSize ||| pgPresent) fun _ =>
        Or.inl (by decide)
      exact (h2.setPde proc elfLoadPg _ fun _ => known_program p.layout proc).loadCr3 proc
  | removeTaskPgdir proc =>
    refine (h.setPde proc elfLoadPg _ fun hor => ?_).loadCr3 proc
    rcases hor with hlow | hp
    · exact absurd hlow.2 (by decide)
    · exact absurd hp (not_present_and _)
  | mapVidMem proc va pa =>
    by_cases hproc : numProc ≤ proc
    · simpa only [Paging.apply, mapVidMem, if_pos hproc, Option.getD_none] using h
    · have hlt : proc < 8 := Nat.lt_of_not_le hproc
      simp only [Paging.apply, mapVidMem, if_neg hproc, Option.getD_some]
      have h0 := h.setPde proc (va.addr / mb4) _ fun _ => known_table p.layout hlt
      exact (h0.setPgtbl proc _).loadCr3 proc

theorem tablesKnown_openFs {p : Paging} (h : TablesKnown p) (hc : Confined p) {start : Nat}
    (hstart : start < mb8) (direntryCnt : Nat) : TablesKnown (openFs p start direntryCnt).2 := by
  have hi : start / pg4mStart < 2 := by
    unfold mb8 at hstart
    unfold pg4mStart
    omega
  have hold := h 0 (by decide) (start / pg4mStart) (by omega) (Or.inl ⟨rfl, hi⟩)
  have hset : TablesKnown (setPresent p (start / pg4mStart)) := by
    refine h.setPde 0 _ _ fun _ => hold.congr ?_
    have hor := or_one (p.pgdir 0 (start / pg4mStart))
    unfold pgPresent
    omega
  have hconf : Confined (setPresent p (start / pg4mStart)) :=
    hc.setPde 0 _ _ fun hp => (hc.dir 0 hp _ (by omega)).set hi
  unfold openFs
  dsimp only
  split
  · refine hset.setPde 0 _ _ fun _ => (hset 0 (by decide) _ (by omega) (Or.inl ⟨rfl, hi⟩)).congr ?_
    have hlow := hconf.dir 0 (by decide) (start / pg4mStart) (by omega)
    unfold EntryConfined at hlow
    rw [if_pos hi] at hlow
    have hand := and_clear hlow
    omega
  · exact hset

/-- Once `init_paging` has run, every present entry that is not large points at a table of the
    kernel. -/
theorem tables_known (l : Layout) (ops : List MappingOp) (hfs : ∀ op ∈ ops, op.FsBelow) :
    AllStates mappingStep TablesKnown (initPaging (Paging.reset l)) ops := by
  have hsteps : AllSteps mappingStep (fun _ op => op.FsBelow) (initPaging (Paging.reset l)) ops :=
    (allSteps_iff_forall_label (fun p op => by cases op <;> exact ⟨_, rfl⟩) _ _).mpr hfs
  have hstart : TablesKnown (initPaging (Paging.reset l)) :=
    tablesKnown_initPaging fun _ _ _ _ _ h => absurd h not_present_zero
  refine (allStates_of_allSteps (I := fun p => Confined p ∧ TablesKnown p) (fun p op q h hop hstep =>
    ⟨h.1.step hop hstep, ?_⟩) ⟨confined_initPaging (confined_reset l), hstart⟩ hsteps).imp
      fun _ h => h.2
  cases op with
  | paging op =>
    obtain rfl := Option.some.inj hstep
    exact tablesKnown_apply h.2 op
  | openFs start cnt =>
    obtain rfl := Option.some.inj hstep
    exact tablesKnown_openFs h.2 h.1 hop cnt

end Mp3Kernel
