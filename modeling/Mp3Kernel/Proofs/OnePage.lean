/-
  `map_vid_mem` and the rest of the address space.

  A directory entry that points to the process's own table (`OwnEntry`) shows its 1024 pages.
  `make_task_pgdir` writes one such entry, for the first 4MB. `map_vid_mem` writes the entry of
  the address it maps, so with an address from 4MB on the same pages show a second time there,
  and a page that is mapped through one entry shows through the other.

  `EntryKnown` is the invariant of the directory entries from 4MB on: they point to the
  process's table or translate without it.

  * `maps_one_page_iff`: the exact states in which a call changes one page only. VIDEO can be
    remapped by itself while no second entry shows it; the vidmap page never can, as it is
    page 0 of the table and so of the address space.
-/
import Mp3Kernel.Proofs.Mapping

namespace Mp3Kernel

open Base.PageWalk

/-! ## Histories -/

/-- A call of one of the operations on the tables of a process. -/
inductive TableOp where
  | makeTaskPgdir (proc : Nat)
  | removeTaskPgdir (proc : Fin 8)
  | mapVidMem (proc va pa : Nat)

def Paging.applyTable (p : Paging) : TableOp → Paging
  | .makeTaskPgdir proc => (Mp3Kernel.makeTaskPgdir p proc).getD p
  | .removeTaskPgdir proc => Mp3Kernel.removeTaskPgdir p proc
  | .mapVidMem proc va pa => (Mp3Kernel.mapVidMem p proc va pa).getD p

/-- The tables after `init_paging` and the calls `ops`. -/
def tablesAfter (l : Layout) (ops : List TableOp) : Paging :=
  ops.foldl Paging.applyTable (initPaging (Paging.reset l))

theorem tablesAfter_concat (l : Layout) (ops : List TableOp) (op : TableOp) :
    tablesAfter l (ops ++ [op]) = (tablesAfter l ops).applyTable op := by
  simp [tablesAfter]

/-- The physical address of `va` in the directory of `proc`, if its page is present. -/
def Paging.physIn (p : Paging) (proc va : Nat) : Option Nat :=
  (p.translate proc va).map (·.phys)

/-! ## What one call writes -/

section Call

variable {p q : Paging} {proc va pa : Nat}

/-- An entry other than the one of the mapped address. -/
theorem OwnEntry.mapVidMem {i : Nat} (hown : OwnEntry p proc i)
    (h : mapVidMem p proc va pa = some q) : OwnEntry q proc i := by
  by_cases hi : i = va / mb4
  · rw [hi]
    exact (tablePage_mapVidMem_self h).1
  · unfold OwnEntry
    rw [pgdir_mapVidMem h fun hc => hi hc.2, (mapVidMem_pgdir h).1]
    exact hown

theorem makeTaskPgdir_kernelEntry (h : makeTaskPgdir p proc = some q) :
    q.pgdir proc 1 = pg4m ||| pgRw ||| pgSize ||| pgPresent := by
  have hlt := makeTaskPgdir_lt h
  unfold makeTaskPgdir at h
  rw [if_neg (show ¬ numProc ≤ proc from Nat.not_le_of_lt hlt), Option.some.injEq] at h
  subst h
  show (Paging.setPde _ proc _ _).pgdir proc 1 = _
  rw [Paging.setPde_pgdir_self, Function.update_of_ne (by decide), Paging.setPde_pgdir_self,
    Function.update_self]

end Call

/-- The call maps an address under directory entry `i` of `proc`. -/
def TableOp.MapsUnder (op : TableOp) (proc i : Nat) : Prop :=
  ∃ va pa, op = .mapVidMem proc va pa ∧ va / mb4 = i

/-- What a call can do. The `removeTaskPgdir` of the source has no way to refuse. -/
inductive TableStep (p : Paging) : TableOp → Paging → Prop
  | refused (op : TableOp) : TableStep p op p
  | made {n : Nat} {q : Paging} (h : makeTaskPgdir p n = some q) :
      TableStep p (.makeTaskPgdir n) q
  | removed (n : Fin 8) : TableStep p (.removeTaskPgdir n) (removeTaskPgdir p n)
  | mapped {n va pa : Nat} {q : Paging} (h : mapVidMem p n va pa = some q) :
      TableStep p (.mapVidMem n va pa) q

theorem tableStep_applyTable (p : Paging) (op : TableOp) : TableStep p op (p.applyTable op) := by
  cases op with
  | makeTaskPgdir n =>
    cases h : makeTaskPgdir p n with
    | none =>
      simp only [Paging.applyTable, h, Option.getD_none]
      exact .refused _
    | some q =>
      simp only [Paging.applyTable, h, Option.getD_some]
      exact .made h
  | removeTaskPgdir n => exact .removed n
  | mapVidMem n va pa =>
    cases h : mapVidMem p n va pa with
    | none =>
      simp only [Paging.applyTable, h, Option.getD_none]
      exact .refused _
    | some q =>
      simp only [Paging.applyTable, h, Option.getD_some]
      exact .mapped h

section Entries

variable {p q : Paging} {op : TableOp} {proc i : Nat}

theorem TableStep.layout (hs : TableStep p op q) : q.layout = p.layout := by
  cases hs with
  | refused => rfl
  | made h => exact (taskBuilt_of_makeTaskPgdir h).layout
  | removed => rfl
  | mapped h => exact (mapVidMem_pgdir h).1

/-- A mapped address has its entry point to the process's table. -/
theorem TableOp.MapsUnder.ownEntry (h : op.MapsUnder proc i) (hproc : proc < 8) :
    OwnEntry (p.applyTable op) proc i := by
  obtain ⟨va, pa, rfl, rfl⟩ := h
  obtain ⟨q, hq⟩ := mapVidMem_some p hproc va pa
  simp only [Paging.applyTable, hq, Option.getD_some]
  exact (tablePage_mapVidMem_self hq).1

/-- Only `map_vid_mem` writes an entry that is none of the three of `make_task_pgdir`. -/
theorem TableStep.pgdir (hs : TableStep p op q) (h : ¬ op.MapsUnder proc i) (h0 : i ≠ 0)
    (h1 : i ≠ 1) (h32 : i ≠ elfLoadPg) : q.pgdir proc i = p.pgdir proc i := by
  cases hs with
  | refused => rfl
  | @made n q hm =>
    by_cases hn : proc = n
    · subst hn
      exact (taskBuilt_of_makeTaskPgdir hm).rest i h0 h1 h32
    · rw [(taskBuilt_of_makeTaskPgdir hm).dirOther proc hn]
  | removed n => exact removeTaskPgdir_pgdir p n proc h32
  | @mapped n va pa q hm =>
    exact pgdir_mapVidMem hm fun hc => h ⟨va, pa, by rw [hc.1], hc.2.symm⟩

/-- `make_task_pgdir` has the first 4MB go through the process's table. -/
theorem ownEntry_made (p : Paging) (hproc : proc < 8) :
    OwnEntry (p.applyTable (.makeTaskPgdir proc)) proc 0 := by
  obtain ⟨q, hq⟩ := makeTaskPgdir_some (p := p) hproc
  simp only [Paging.applyTable, hq, Option.getD_some]
  exact (taskBuilt_of_makeTaskPgdir hq).own

theorem OwnEntry.of_pgdir (h : OwnEntry p proc i) (hl : q.layout = p.layout)
    (he : q.pgdir proc i = p.pgdir proc i) : OwnEntry q proc i := by
  unfold OwnEntry
  rw [he, hl]
  exact h

/-- No call takes that back. -/
theorem OwnEntry.step (h : OwnEntry p proc 0) (hs : TableStep p op q) : OwnEntry q proc 0 := by
  cases hs with
  | refused => exact h
  | @made n q hm =>
    have hb := taskBuilt_of_makeTaskPgdir hm
    by_cases hn : proc = n
    · subst hn
      exact hb.own
    · exact h.of_pgdir hb.layout (by rw [hb.dirOther proc hn])
  | removed n => exact h.of_pgdir rfl (removeTaskPgdir_pgdir p n proc (by decide))
  | @mapped n va pa q hm =>
    by_cases hn : proc = n
    · subst hn
      exact h.mapVidMem hm
    · exact h.of_pgdir (mapVidMem_pgdir hm).1 (pgdir_mapVidMem hm fun hc => hn hc.1)

theorem ownEntry_zero (l : Layout) {ops : List TableOp} (hproc : proc < 8)
    (hmade : TableOp.makeTaskPgdir proc ∈ ops) : OwnEntry (tablesAfter l ops) proc 0 := by
  induction ops using List.reverseRecOn with
  | nil => cases hmade
  | append_singleton ops op ih =>
    rw [tablesAfter_concat]
    rcases List.mem_append.mp hmade with h | h
    · exact (ih h).step (tableStep_applyTable _ op)
    · obtain rfl := List.mem_singleton.mp h
      exact ownEntry_made _ hproc

/-- The entry points to the process's table, or it translates without a table. -/
def EntryKnown (p : Paging) (proc i : Nat) : Prop :=
  OwnEntry p proc i ∨ ¬ present (p.pgdir proc i) ∨ large (p.pgdir proc i)

theorem EntryKnown.of_pgdir (h : EntryKnown p proc i) (hl : q.layout = p.layout)
    (he : q.pgdir proc i = p.pgdir proc i) : EntryKnown q proc i := by
  unfold EntryKnown OwnEntry
  rw [he, hl]
  exact h

/-- The entries of a new directory. -/
theorem EntryKnown.made {n : Nat} (h : EntryKnown p proc i)
    (hm : makeTaskPgdir p n = some q) : EntryKnown q proc i := by
  have hb := taskBuilt_of_makeTaskPgdir hm
  by_cases hn : proc = n
  · subst hn
    by_cases h0 : i = 0
    · subst h0
      exact Or.inl hb.own
    by_cases h1 : i = 1
    · subst h1
      refine Or.inr (Or.inr ?_)
      rw [makeTaskPgdir_kernelEntry hm]
      decide
    by_cases h32 : i = elfLoadPg
    · subst h32
      have hmod : (proc + 2) * mb4 % 4096 = 0 := by
        unfold mb4
        omega
      refine Or.inr (Or.inr ?_)
      rw [hb.program, programEntry_eq, large_add hmod]
    · exact h.of_pgdir hb.layout (hb.rest i h0 h1 h32)
  · exact h.of_pgdir hb.layout (by rw [hb.dirOther proc hn])

/-- `remove_task_pgdir` leaves the program entry absent. -/
theorem EntryKnown.removed (h : EntryKnown p proc i) (n : Nat) :
    EntryKnown (removeTaskPgdir p n) proc i := by
  by_cases hi : proc = n ∧ i = elfLoadPg
  · obtain ⟨rfl, rfl⟩ := hi
    refine Or.inr (Or.inl ?_)
    show ¬ present ((p.setPde proc _ _).pgdir proc elfLoadPg)
    rw [Paging.setPde_pgdir_self, Function.update_self]
    exact not_present_and _
  · refine h.of_pgdir rfl ?_
    show (p.setPde n _ _).pgdir proc i = _
    by_cases hn : proc = n
    · subst hn
      rw [Paging.setPde_pgdir_self, Function.update_of_ne fun he => hi ⟨rfl, he⟩]
    · rw [Paging.setPde_pgdir_of_ne _ _ _ _ hn]

/-- The step: every call keeps the entries known. -/
theorem EntryKnown.step (h : EntryKnown p proc i) (hs : TableStep p op q) :
    EntryKnown q proc i := by
  cases hs with
  | refused => exact h
  | made hm => exact h.made hm
  | removed n => exact h.removed n
  | @mapped n va pa q hm =>
    by_cases hi : proc = n ∧ i = va / mb4
    · obtain ⟨rfl, rfl⟩ := hi
      exact Or.inl (tablePage_mapVidMem_self hm).1
    · exact h.of_pgdir (mapVidMem_pgdir hm).1 (pgdir_mapVidMem hm hi)

/-- As booted, no entry from 8MB on is present. -/
theorem initPaging_entry (l : Layout) (proc : Nat) (h0 : i ≠ 0) (h1 : i ≠ 1) (hi : i < 1024) :
    ¬ present ((initPaging (Paging.reset l)).pgdir proc i) := by
  show ¬ present (Function.update (fun _ _ => 0) 0 _ proc i)
  by_cases hp : proc = 0
  · subst hp
    have hmod : i * pg4mStart % 4096 = 0 := by
      unfold pg4mStart
      omega
    rw [Function.update_self, if_neg h0, if_neg h1,
      if_pos (show i < pgdirLen from hi), bootLargeEntry_eq, present_add hmod]
    decide
  · rw [Function.update_of_ne hp]
    exact not_present_zero

/-- The kernel's entry is large in the directory that is loaded and absent in the others. -/
theorem initPaging_kernelEntry (l : Layout) (proc : Nat) :
    EntryKnown (initPaging (Paging.reset l)) proc 1 := by
  by_cases hp : proc = 0
  · subst hp
    refine Or.inr (Or.inr ?_)
    show large (pg4mStart ||| pgRw ||| pgSize ||| pgPresent)
    decide
  · refine Or.inr (Or.inl ?_)
    show ¬ present (Function.update (fun _ _ => 0) 0 _ proc 1)
    rw [Function.update_of_ne hp]
    exact not_present_zero

/-- The run: after every history the entries from 4MB on are known. -/
theorem entryKnown_tablesAfter (l : Layout) (ops : List TableOp) (proc : Nat) (h0 : i ≠ 0)
    (hi : i < 1024) : EntryKnown (tablesAfter l ops) proc i := by
  induction ops using List.reverseRecOn with
  | nil =>
    by_cases h1 : i = 1
    · rw [h1]
      exact initPaging_kernelEntry l proc
    · exact Or.inr (Or.inl (initPaging_entry l proc h0 h1 hi))
  | append_singleton ops op ih =>
    rw [tablesAfter_concat]
    exact ih.step (tableStep_applyTable _ op)

end Entries

/-! ## What shows where -/

section Pages

variable {p q : Paging} {proc va pa a b : Nat}

/-- Two entries that point to the process's table show the same pages. -/
theorem translate_alias (hproc : proc < 8) (ha : OwnEntry p proc (dirIndex a))
    (hb : OwnEntry p proc (dirIndex b)) (hidx : tableIndex a = tableIndex b)
    (hoff : a % 4096 = b % 4096) : p.translate proc a = p.translate proc b := by
  rw [translate_ownEntry hproc ha, translate_ownEntry hproc hb, hidx, hoff]

/-- The pages of the table other than the mapped one stay, wherever they show. -/
theorem translate_kept (hproc : proc < 8) (hown : OwnEntry p proc (dirIndex a))
    (hidx : tableIndex a ≠ va % mb4 / kb4) (h : mapVidMem p proc va pa = some q) :
    q.translate proc a = p.translate proc a := by
  rw [translate_ownEntry hproc hown, translate_ownEntry hproc (hown.mapVidMem h),
    pgtblProc_mapVidMem h fun hc => hidx hc.2]

/-- An entry that does not point to the table is not affected by what the table holds. -/
theorem translate_known (hknown : ¬ present (p.pgdir proc (dirIndex a)) ∨
      large (p.pgdir proc (dirIndex a)))
    (hidx : dirIndex a ≠ va / mb4) (h : mapVidMem p proc va pa = some q) :
    q.translate proc a = p.translate proc a :=
  walk_congr (pgdir_mapVidMem h fun hc => hidx hc.2) hknown

/-- The mapped page shows at every address that leads to it. -/
theorem physIn_mapped (hproc : proc < 8) (hpa : pa % 4096 = 0)
    (hown : OwnEntry q proc (dirIndex a)) (hidx : tableIndex a = va % mb4 / kb4)
    (h : mapVidMem p proc va pa = some q) : q.physIn proc a = some (pa + a % 4096) := by
  have hmap : MapsTo q proc (tableIndex a) pa := by
    rw [hidx]
    exact (tablePage_mapVidMem_self h).2
  unfold Paging.physIn
  rw [translate_ownTable hproc hpa hown hmap]
  rfl

/-- The bytes of a page follow its first one. -/
theorem physIn_offset (hproc : proc < 8) (hown : OwnEntry p proc (dirIndex a))
    (hpage : a % 4096 = 0) (h : p.physIn proc a = some pa) (hb : OwnEntry p proc (dirIndex b))
    (hidx : tableIndex b = tableIndex a) : p.physIn proc b = some (pa + b % 4096) := by
  unfold Paging.physIn at h ⊢
  rw [translate_ownEntry hproc hown, hpage] at h
  rw [translate_ownEntry hproc hb, hidx]
  by_cases hp : present (p.pgtblProc proc (tableIndex a))
  · rw [if_pos hp] at h ⊢
    simp only [Option.map_some, Option.some.injEq, Nat.add_zero] at h ⊢
    rw [h]
  · rw [if_neg hp] at h
    cases h

end Pages

/-! ## One page -/

/-- From `p` to `q` the page at `va` has gone to the frame at `pa`, every other address
    translates as before, and page 0 is not present. -/
structure MapsOnePage (p q : Paging) (proc va pa : Nat) : Prop where
  mapped : ∀ j, j < kb4 → q.physIn proc (va + j) = some (pa + j)
  others : ∀ a, a < u32 → a / kb4 ≠ va / kb4 → q.physIn proc a = p.physIn proc a
  nullPage : ∀ a, a < kb4 → q.physIn proc a = none

/-- Page 0 is not present. -/
def NullPage (p : Paging) (proc : Nat) : Prop := ∀ a, a < kb4 → p.physIn proc a = none

/-- VIDEO is mapped through entry 0: what that changes, given what the other entries show. -/
theorem mapsOnePage_video_iff {p q : Paging} {proc pa : Nat} (hproc : proc < 8)
    (hpa : pa % 4096 = 0) (hown : OwnEntry p proc 0)
    (hknown : ∀ i, i ≠ 0 → i < 1024 → EntryKnown p proc i)
    (h : mapVidMem p proc video pa = some q) :
    MapsOnePage p q proc video pa ↔ NullPage p proc ∧
      ((∀ i, 0 < i → i < 1024 → ¬ OwnEntry p proc i) ∨ p.physIn proc video = some pa) := by
  have hv : video = 753664 := rfl
  have hkb : kb4 = 4096 := rfl
  have hdir : ∀ a, a < mb4 → OwnEntry p proc (dirIndex a) := by
    intro a ha
    have h0 : dirIndex a = 0 := by
      unfold mb4 at ha
      unfold dirIndex
      omega
    rw [h0]
    exact hown
  have hkept : ∀ a, OwnEntry p proc (dirIndex a) → tableIndex a ≠ tableIndex video →
      q.physIn proc a = p.physIn proc a := by
    intro a ha hidx
    unfold Paging.physIn
    rw [translate_kept hproc ha hidx h]
  have hnull : NullPage q proc ↔ NullPage p proc := by
    refine forall_congr' fun a => forall_congr' fun ha => ?_
    have hidx : tableIndex a ≠ tableIndex video := by
      unfold tableIndex
      omega
    rw [hkept a (hdir a (by unfold mb4; omega)) hidx]
  constructor
  · intro hm
    refine ⟨hnull.mp hm.nullPage, ?_⟩
    by_contra hnot
    rw [not_or] at hnot
    obtain ⟨hnone, hgoes⟩ := hnot
    refine hnone fun i hpos hi howni => hgoes ?_
    -- the page of VIDEO as entry `i` shows it
    have hdira : dirIndex (i * mb4 + video) = i := by
      unfold dirIndex mb4
      omega
    have hidxa : tableIndex (i * mb4 + video) = tableIndex video := by
      unfold tableIndex mb4
      omega
    have hmoda : (i * mb4 + video) % 4096 = 0 := by
      unfold mb4
      omega
    have howna : OwnEntry p proc (dirIndex (i * mb4 + video)) := hdira.symm ▸ howni
    have hsame : q.physIn proc (i * mb4 + video) = p.physIn proc (i * mb4 + video) :=
      hm.others _ (by unfold mb4 u32; omega) (by unfold kb4 mb4; omega)
    have hnew : q.physIn proc (i * mb4 + video) = some (pa + (i * mb4 + video) % 4096) :=
      physIn_mapped hproc hpa (howna.mapVidMem h) hidxa h
    have halias : p.physIn proc (i * mb4 + video) = p.physIn proc video := by
      unfold Paging.physIn
      rw [translate_alias hproc howna (hdir video (by decide)) hidxa (by rw [hmoda]; rfl)]
    rw [← halias, ← hsame, hnew, hmoda, Nat.add_zero]
  · rintro ⟨hnull0, hcond⟩
    refine ⟨fun j hj => ?_, fun a ha hne => ?_, hnull.mpr hnull0⟩
    · have hmod : (video + j) % 4096 = j := by omega
      have hidx : tableIndex (video + j) = tableIndex video := by
        unfold tableIndex
        omega
      rw [physIn_mapped hproc hpa ((hdir _ (by unfold mb4; omega)).mapVidMem h) hidx h, hmod]
    · by_cases h0 : dirIndex a = 0
      · refine hkept a (h0.symm ▸ hown) ?_
        unfold kb4 at hne
        unfold dirIndex at h0
        unfold tableIndex
        omega
      have hi : dirIndex a < 1024 := by
        unfold u32 at ha
        unfold dirIndex
        omega
      rcases hknown _ h0 hi with howna | hplain
      · by_cases hidx : tableIndex a = tableIndex video
        · rcases hcond with hnone | hgoes
          · exact absurd howna (hnone _ (Nat.pos_of_ne_zero h0) hi)
          · rw [physIn_mapped hproc hpa (howna.mapVidMem h) hidx h,
              physIn_offset hproc (hdir video (by decide)) (by decide) hgoes howna hidx]
        · exact hkept a howna hidx
      · unfold Paging.physIn
        rw [translate_known hplain h0 h]

/-- Page 0 is absent if entry 0 of the table is. -/
theorem nullPage_of_entry {p : Paging} {proc : Nat} (hproc : proc < 8) (hown : OwnEntry p proc 0)
    (h : ¬ present (p.pgtblProc proc 0)) : NullPage p proc := by
  intro a ha
  unfold kb4 at ha
  have hdir : dirIndex a = 0 := by
    unfold dirIndex
    omega
  have hidx : tableIndex a = 0 := by
    unfold tableIndex
    omega
  unfold Paging.physIn
  rw [translate_ownEntry hproc (hdir.symm ▸ hown), hidx, if_neg h]
  rfl

/-- Page 0 of the table is page 0 of the address space. -/
theorem physIn_nullPage {p q : Paging} {proc pa : Nat} (hproc : proc < 8)
    (hpa : pa % 4096 = 0) (hown : OwnEntry p proc 0)
    (h : mapVidMem p proc vidmapStart pa = some q) : q.physIn proc 0 = some pa :=
  physIn_mapped (a := 0) hproc hpa (hown.mapVidMem h) rfl h

/-- After every history in which the directory of `proc` has been made: a call of
    `map_vid_mem` with an address the kernel uses changes one page only exactly if that is
    VIDEO, page 0 is not present, and no directory entry from 4MB on points to the table of the
    process, unless VIDEO goes to `pa` already. -/
theorem maps_one_page_iff (l : Layout) (ops : List TableOp) (proc : Nat) (hproc : proc < 8)
    (hmade : .makeTaskPgdir proc ∈ ops) (va : VidAddr) (pa : Nat) (hpa : pa % 4096 = 0) :
    ∃ q, mapVidMem (tablesAfter l ops) proc va.addr pa = some q ∧
      (MapsOnePage (tablesAfter l ops) q proc va.addr pa ↔
        va = .video ∧ NullPage (tablesAfter l ops) proc ∧
          ((∀ i, 0 < i → i < 1024 → ¬ OwnEntry (tablesAfter l ops) proc i) ∨
            (tablesAfter l ops).physIn proc video = some pa)) := by
  have hown := ownEntry_zero l hproc hmade
  obtain ⟨q, hq⟩ := mapVidMem_some (tablesAfter l ops) hproc va.addr pa
  refine ⟨q, hq, ?_⟩
  cases va with
  | video =>
    have hiff := mapsOnePage_video_iff hproc hpa hown
      (fun i h0 hi => entryKnown_tablesAfter l ops proc h0 hi) hq
    exact ⟨fun h => ⟨rfl, hiff.mp h⟩, fun h => hiff.mpr h.2⟩
  | vidmap =>
    refine iff_of_false (fun hm => ?_) fun h => nomatch h.1
    have hnone := hm.nullPage 0 (by decide)
    rw [physIn_nullPage hproc hpa hown hq] at hnone
    cases hnone

/-- A new process maps the vidmap page to video memory, as `vidmap` does: page 0 is there. -/
theorem null_page_mapped : ∃ q,
    mapVidMem (tablesAfter layoutAt [.makeTaskPgdir 1]) 1 vidmapStart video = some q ∧
      ¬ MapsOnePage (tablesAfter layoutAt [.makeTaskPgdir 1]) q 1 vidmapStart video := by
  obtain ⟨q, hq⟩ := mapVidMem_some (tablesAfter layoutAt [.makeTaskPgdir 1])
    (show 1 < 8 by decide) vidmapStart video
  refine ⟨q, hq, fun hm => ?_⟩
  have hnone := hm.nullPage 0 (by decide)
  rw [physIn_nullPage (by decide) (by decide)
    (ownEntry_zero layoutAt (by decide) (List.mem_singleton.mpr rfl)) hq] at hnone
  cases hnone

/-- In the directory of a first process page 0 is absent and no entry but the first shows its
    table. -/
theorem firstTask_entries : NullPage (tablesAfter layoutAt [.makeTaskPgdir 1]) 1 ∧
    ∀ i, 0 < i → i < 1024 → ¬ OwnEntry (tablesAfter layoutAt [.makeTaskPgdir 1]) 1 i := by
  obtain ⟨q, hq⟩ := makeTaskPgdir_some (p := initPaging (Paging.reset layoutAt))
    (show 1 < 8 by decide)
  have hb := taskBuilt_of_makeTaskPgdir hq
  have htables : tablesAfter layoutAt [.makeTaskPgdir 1] = q := by
    simp [tablesAfter, Paging.applyTable, hq]
  rw [htables]
  refine ⟨nullPage_of_entry (by decide) hb.own ?_, fun i hpos hi => ?_⟩
  · rw [hb.tbl]
    decide
  · have hl : q.layout = layoutAt := hb.layout
    unfold OwnEntry
    rw [hl]
    by_cases h1 : i = 1
    · rw [h1, makeTaskPgdir_kernelEntry hq]
      decide
    by_cases h32 : i = elfLoadPg
    · rw [h32, hb.program]
      decide
    · rw [hb.rest i (Nat.ne_of_gt hpos) h1 h32]
      show ¬ 0 = _
      decide

/-- The first remap of VIDEO to a terminal's buffer. -/
theorem maps_one_page_first : ∃ q,
    mapVidMem (tablesAfter layoutAt [.makeTaskPgdir 1]) 1 video (vidMemBufAddr 1) = some q ∧
      MapsOnePage (tablesAfter layoutAt [.makeTaskPgdir 1]) q 1 video (vidMemBufAddr 1) := by
  obtain ⟨q, hq, hiff⟩ := maps_one_page_iff layoutAt [.makeTaskPgdir 1] 1 (by decide)
    (List.mem_singleton.mpr rfl) .video (vidMemBufAddr 1) (by decide)
  exact ⟨q, hq, hiff.mpr ⟨rfl, firstTask_entries.1, Or.inl firstTask_entries.2⟩⟩

end Mp3Kernel
