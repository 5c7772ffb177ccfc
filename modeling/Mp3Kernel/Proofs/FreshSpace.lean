/-
  The address space of a new process, and what an earlier one with its PID leaves in it.

  `make_task_pgdir` writes the whole table of the process and three entries of its directory.
  The other entries stay as they are, and `remove_task_pgdir` clears none of them: an entry is
  what `map_vid_mem` has made of it at any time since `init_paging` (`MappedUnder`). Such an
  entry shows the new process's table a second time.

  * `fresh_space_iff`: two histories give a new process the same address space exactly if they
    have mapped under the same entries.
-/
import Mp3Kernel.Proofs.OnePage

namespace Mp3Kernel

open Base.PageWalk

/-- One of the calls maps an address under directory entry `i` of `proc`. -/
def MappedUnder (ops : List TableOp) (proc i : Nat) : Prop := ∃ op ∈ ops, op.MapsUnder proc i

theorem mappedUnder_concat (ops : List TableOp) (op : TableOp) (proc i : Nat) :
    MappedUnder (ops ++ [op]) proc i ↔ MappedUnder ops proc i ∨ op.MapsUnder proc i := by
  simp [MappedUnder, or_and_right, exists_or]

/-- The run: an entry that is none of the three of `make_task_pgdir` points to the process's
    table from the first mapping under it on, and is absent before. -/
theorem entry_of_history (l : Layout) (ops : List TableOp) {proc i : Nat} (hproc : proc < 8)
    (h0 : i ≠ 0) (h1 : i ≠ 1) (h32 : i ≠ elfLoadPg) (hi : i < 1024) :
    (MappedUnder ops proc i → OwnEntry (tablesAfter l ops) proc i) ∧
      (¬ MappedUnder ops proc i → ¬ present ((tablesAfter l ops).pgdir proc i)) := by
  induction ops using List.reverseRecOn with
  | nil => exact ⟨fun h => by simp [MappedUnder] at h, fun _ => initPaging_entry l proc h0 h1 hi⟩
  | append_singleton ops op ih =>
    rw [mappedUnder_concat, tablesAfter_concat]
    by_cases hop : op.MapsUnder proc i
    · exact ⟨fun _ => hop.ownEntry hproc, fun h => absurd (Or.inr hop) h⟩
    · have hs := tableStep_applyTable (tablesAfter l ops) op
      have hkept := hs.pgdir hop h0 h1 h32
      simp only [hop, or_false]
      refine ⟨fun h => (ih.1 h).of_pgdir hs.layout hkept, fun h => ?_⟩
      rw [hkept]
      exact ih.2 h

/-! ## The new directory -/

/-- Every entry of the table is written. -/
theorem taskPgtbl_congr (old old' : Nat → Nat) {n : Nat} (hn : n < 1024) :
    taskPgtbl old n = taskPgtbl old' n := by
  unfold taskPgtbl
  rw [if_pos (show n < pgtblLen from hn), if_pos (show n < pgtblLen from hn)]

theorem tableIndex_lt (va : Nat) : tableIndex va < 1024 := Nat.mod_lt _ (by decide)

section Built

variable {p q p' q' : Paging} {proc va : Nat}

/-- Through the table two new directories translate alike. -/
theorem TaskBuilt.translate_own (hb : TaskBuilt p q proc) (hb' : TaskBuilt p' q' proc)
    (hproc : proc < 8) (h : OwnEntry q proc (dirIndex va)) (h' : OwnEntry q' proc (dirIndex va)) :
    q.translate proc va = q'.translate proc va := by
  rw [translate_ownEntry hproc h, translate_ownEntry hproc h', hb.tbl, hb'.tbl,
    taskPgtbl_congr _ _ (tableIndex_lt va)]

/-- The second page under an entry that points to the table is present. -/
theorem TaskBuilt.translate_shown (hb : TaskBuilt p q proc) (hproc : proc < 8) {i : Nat}
    (h : OwnEntry q proc i) : q.translate proc (i * mb4 + kb4) ≠ none := by
  have hdir : dirIndex (i * mb4 + kb4) = i := by
    unfold dirIndex mb4 kb4
    omega
  have hidx : tableIndex (i * mb4 + kb4) = 1 := by
    unfold tableIndex mb4 kb4
    omega
  have hpte : present (q.pgtblProc proc 1) := by
    rw [hb.tbl]
    show present (1 * pteSize ||| pgUspace ||| pgRw ||| pgPresent)
    decide
  rw [translate_ownEntry hproc (hdir.symm ▸ h), hidx, if_pos hpte]
  exact nofun

end Built

theorem translate_absent {p : Paging} {proc va : Nat}
    (h : ¬ present (p.pgdir proc (dirIndex va))) : p.translate proc va = none :=
  walk_of_not_present h

/-! ## Two histories -/

section TwoHistories

variable {ops ops' : List TableOp} {proc i : Nat}

/-- The tables right after a new directory. -/
theorem taskBuilt_tablesAfter (l : Layout) (ops : List TableOp) (hproc : proc < 8) :
    TaskBuilt (tablesAfter l ops) (tablesAfter l (ops ++ [.makeTaskPgdir proc])) proc := by
  obtain ⟨q, hq⟩ := makeTaskPgdir_some (p := tablesAfter l ops) hproc
  rw [tablesAfter_concat]
  simp only [Paging.applyTable, hq, Option.getD_some]
  exact taskBuilt_of_makeTaskPgdir hq

theorem kernelEntry_tablesAfter (l : Layout) (ops : List TableOp) (hproc : proc < 8) :
    (tablesAfter l (ops ++ [.makeTaskPgdir proc])).pgdir proc 1 =
      pg4m ||| pgRw ||| pgSize ||| pgPresent := by
  obtain ⟨q, hq⟩ := makeTaskPgdir_some (p := tablesAfter l ops) hproc
  rw [tablesAfter_concat]
  simp only [Paging.applyTable, hq, Option.getD_some]
  exact makeTaskPgdir_kernelEntry hq

/-- A new directory has an old mapping's entry. -/
theorem ownEntry_of_mappedUnder (l : Layout) (hproc : proc < 8) (h0 : i ≠ 0) (h1 : i ≠ 1)
    (h32 : i ≠ elfLoadPg) (hi : i < 1024) (h : MappedUnder ops proc i) :
    OwnEntry (tablesAfter l (ops ++ [.makeTaskPgdir proc])) proc i := by
  have hb := taskBuilt_tablesAfter l ops hproc
  exact ((entry_of_history l ops hproc h0 h1 h32 hi).1 h).of_pgdir hb.layout
    (hb.rest i h0 h1 h32)

theorem absent_of_not_mappedUnder (l : Layout) (hproc : proc < 8) (h0 : i ≠ 0) (h1 : i ≠ 1)
    (h32 : i ≠ elfLoadPg) (hi : i < 1024) (h : ¬ MappedUnder ops proc i) :
    ¬ present ((tablesAfter l (ops ++ [.makeTaskPgdir proc])).pgdir proc i) := by
  rw [(taskBuilt_tablesAfter l ops hproc).rest i h0 h1 h32]
  exact (entry_of_history l ops hproc h0 h1 h32 hi).2 h

/-- An entry that one history has mapped under and the other has not tells them apart. -/
theorem translate_ne_of_mappedUnder (l : Layout) (hproc : proc < 8) (h0 : i ≠ 0) (h1 : i ≠ 1)
    (h32 : i ≠ elfLoadPg) (hi : i < 1024) (h : MappedUnder ops proc i)
    (h' : ¬ MappedUnder ops' proc i) :
    (tablesAfter l (ops ++ [.makeTaskPgdir proc])).translate proc (i * mb4 + kb4) ≠
      (tablesAfter l (ops' ++ [.makeTaskPgdir proc])).translate proc (i * mb4 + kb4) := by
  have hdir : dirIndex (i * mb4 + kb4) = i := by
    unfold dirIndex mb4 kb4
    omega
  have hshown := (taskBuilt_tablesAfter l ops hproc).translate_shown hproc
    (ownEntry_of_mappedUnder l hproc h0 h1 h32 hi h)
  have habsent := absent_of_not_mappedUnder l hproc h0 h1 h32 hi h'
  have hnone : (tablesAfter l (ops' ++ [.makeTaskPgdir proc])).translate proc (i * mb4 + kb4) =
      none := translate_absent (hdir.symm ▸ habsent)
  rw [hnone]
  exact hshown

end TwoHistories

/-- The address space of a process right after `make_task_pgdir` is the same after two
    histories exactly if, for each entry of its directory that `make_task_pgdir` does not
    write, both have mapped an address under it for that PID or neither has. -/
theorem fresh_space_iff (l : Layout) (ops ops' : List TableOp) (proc : Nat) (hproc : proc < 8) :
    (∀ va, va < u32 → (tablesAfter l (ops ++ [.makeTaskPgdir proc])).translate proc va =
      (tablesAfter l (ops' ++ [.makeTaskPgdir proc])).translate proc va) ↔
    ∀ i, i < 1024 → i ≠ 0 → i ≠ 1 → i ≠ elfLoadPg →
      (MappedUnder ops proc i ↔ MappedUnder ops' proc i) := by
  have hb := taskBuilt_tablesAfter l ops hproc
  have hb' := taskBuilt_tablesAfter l ops' hproc
  constructor
  · intro hsame i hi h0 h1 h32
    have hva : i * mb4 + kb4 < u32 := by
      unfold mb4 kb4 u32
      omega
    constructor
    · intro h
      by_contra h'
      exact translate_ne_of_mappedUnder l hproc h0 h1 h32 hi h h' (hsame _ hva)
    · intro h
      by_contra h'
      exact translate_ne_of_mappedUnder l hproc h0 h1 h32 hi h h' (hsame _ hva).symm
  · intro hiff va hva
    have hi : dirIndex va < 1024 := by
      unfold u32 at hva
      unfold dirIndex
      omega
    by_cases h0 : dirIndex va = 0
    · exact hb.translate_own hb' hproc (h0.symm ▸ hb.own) (h0.symm ▸ hb'.own)
    by_cases h1 : dirIndex va = 1
    · have he := kernelEntry_tablesAfter l ops hproc
      have he' := kernelEntry_tablesAfter l ops' hproc
      refine walk_congr (by rw [h1, he, he']) (Or.inr ?_)
      rw [h1, he']
      decide
    by_cases h32 : dirIndex va = elfLoadPg
    · have hmod : (proc + 2) * mb4 % 4096 = 0 := by
        unfold mb4
        omega
      refine walk_congr (by rw [h32, hb.program, hb'.program]) (Or.inr ?_)
      rw [h32, hb'.program, programEntry_eq, large_add hmod]
    by_cases hm : MappedUnder ops proc (dirIndex va)
    · exact hb.translate_own hb' hproc (ownEntry_of_mappedUnder l hproc h0 h1 h32 hi hm)
        (ownEntry_of_mappedUnder l hproc h0 h1 h32 hi ((hiff _ hi h0 h1 h32).mp hm))
    · have hm' := mt (hiff _ hi h0 h1 h32).mpr hm
      rw [translate_absent (absent_of_not_mappedUnder l hproc h0 h1 h32 hi hm),
        translate_absent (absent_of_not_mappedUnder l hproc h0 h1 h32 hi hm')]

/-- A process that called `vidmap` and has ended. -/
def vidmapProcess : List TableOp :=
  [.makeTaskPgdir 1, .mapVidMem 1 vidmapStart video, .removeTaskPgdir 1]

theorem mappedUnder_vidmapProcess : MappedUnder vidmapProcess 1 (vidmapStart / mb4) :=
  ⟨_, List.mem_cons_of_mem _ (List.mem_cons_self ..), _, _, rfl, rfl⟩

/-- The next process with its PID has its 4MB from 160MB on; the first one of all has not. -/
theorem mapping_inherited : ¬ ∀ va, va < u32 →
    (tablesAfter layoutAt (vidmapProcess ++ [.makeTaskPgdir 1])).translate 1 va =
      (tablesAfter layoutAt ([] ++ [.makeTaskPgdir 1])).translate 1 va := by
  intro hsame
  refine translate_ne_of_mappedUnder (i := vidmapStart / mb4) layoutAt (by decide) (by decide)
    (by decide) (by decide) (by decide) mappedUnder_vidmapProcess ?_ (hsame _ (by decide))
  simp [MappedUnder]

/-- After a process that has not mapped anything the address space is as after none. -/
theorem fresh_space_unmapped : 1 < numProc ∧ ∀ va, va < u32 →
    (tablesAfter layoutAt ([.makeTaskPgdir 1, .removeTaskPgdir 1] ++
      [.makeTaskPgdir 1])).translate 1 va =
      (tablesAfter layoutAt ([] ++ [.makeTaskPgdir 1])).translate 1 va :=
  ⟨by decide, (fresh_space_iff layoutAt _ _ 1 (by decide)).mpr fun i _ _ _ _ => by
    simp [MappedUnder, TableOp.MapsUnder]⟩

end Mp3Kernel
