/-
  Where the paging operations make addresses go.

  Below 4MB an address goes through the process's own page table (`OwnTable`), one entry per
  page (`MapsTo`). The program page is one large entry, and the entry after it is never
  present, so a store past the end of the page faults. `initPaging_phys` is the identity the
  kernel boots with.
-/
import Mp3Kernel.Proofs.Protection
import Mp3Kernel.Proofs.Frame

namespace Mp3Kernel

open Base.PageWalk

/-! ## The loaded directory -/

theorem phys_of_cr3 {p : Paging} {proc : Nat} (h : p.cr3 = p.layout.pgdirAddr proc) (va : Nat) :
    p.phys va = (p.translate proc va).map (·.phys) := by
  unfold Paging.phys
  rw [h]
  unfold Layout.pgdirAddr
  congr 2
  omega

/-! ## Addresses below 4MB -/

/-- Addresses below 4MB go through the process's own table. -/
def OwnTable (p : Paging) (proc : Nat) : Prop :=
  p.pgdir proc 0 = p.layout.pgtblProcAddr proc ||| pgUspace ||| pgRw ||| pgPresent

/-- Page `i` is mapped to the frame at `pa`. -/
def MapsTo (p : Paging) (proc i pa : Nat) : Prop :=
  p.pgtblProc proc i = pa ||| pgUspace ||| pgRw ||| pgPresent

/-- Directory entry `i` points to the process's own table. -/
def OwnEntry (p : Paging) (proc i : Nat) : Prop :=
  p.pgdir proc i = p.layout.pgtblProcAddr proc ||| pgUspace ||| pgRw ||| pgPresent

/-- Through such an entry the translation is that of the table's entry. -/
theorem translate_ownEntry {p : Paging} {proc va : Nat} (hproc : proc < 8)
    (hown : OwnEntry p proc (dirIndex va)) :
    p.translate proc va = if present (p.pgtblProc proc (tableIndex va)) then
      some ⟨frame (p.pgtblProc proc (tableIndex va)) + va % 4096,
        decide (user (p.pgtblProc proc (tableIndex va)))⟩ else none := by
  have hmod := p.layout.pgtblProcAddr_mod proc
  have hdir : p.pgdir proc (dirIndex va) = p.layout.pgtblProcAddr proc + 7 := by
    rw [← tableEntry_eq _ hmod]
    exact hown
  have hframe : frame (p.pgdir proc (dirIndex va)) = p.layout.pgtblProcAddr proc := by
    rw [hdir]
    exact frame_add hmod (by decide)
  have hnl : ¬ large (p.pgdir proc (dirIndex va)) := by
    rw [hdir, large_add hmod]
    decide
  have hpres : present (p.pgdir proc (dirIndex va)) := by
    rw [hdir, present_add hmod]
  have htab : p.tableAt (frame (p.pgdir proc (dirIndex va))) = some (p.pgtblProc proc) := by
    rw [hframe]
    exact p.tableAt_pgtblProc proc hproc
  have huser : user (p.pgdir proc (dirIndex va)) := by
    rw [hdir, user_add hmod]
  unfold Paging.translate
  rw [walk_table hpres hnl htab, decide_eq_true huser, Bool.true_and]

/-- Through an entry of the directory that points to the process's own table. -/
theorem translate_ownTable {p : Paging} {proc va pa : Nat} (hproc : proc < 8)
    (hpa : pa % 4096 = 0) (hown : OwnEntry p proc (dirIndex va))
    (hmap : MapsTo p proc (tableIndex va) pa) :
    p.translate proc va = some ⟨pa + va % 4096, true⟩ := by
  have hpte : p.pgtblProc proc (tableIndex va) = pa + 7 := by
    rw [← tableEntry_eq _ hpa]
    exact hmap
  have hppres : present (p.pgtblProc proc (tableIndex va)) := by
    rw [hpte, present_add hpa]
  have hpuser : user (p.pgtblProc proc (tableIndex va)) := by
    rw [hpte, user_add hpa]
  rw [translate_ownEntry hproc hown, if_pos hppres, decide_eq_true hpuser, hpte,
    frame_add hpa (by decide)]

theorem translate_of_mapsTo {p : Paging} {proc va pa : Nat} (hproc : proc < 8)
    (hown : OwnTable p proc) (hva : va < mb4) (hpa : pa % 4096 = 0)
    (hmap : MapsTo p proc (va / 4096) pa) :
    p.translate proc va = some ⟨pa + va % 4096, true⟩ := by
  unfold mb4 at hva
  have hidx : dirIndex va = 0 := by
    unfold dirIndex
    omega
  have htbl : tableIndex va = va / 4096 := by
    unfold tableIndex
    omega
  refine translate_ownTable hproc hpa ?_ ?_
  · rw [hidx]
    exact hown
  · rw [htbl]
    exact hmap

/-! ## Single pages of a process's table -/

/-- Directory entry `i` points to the process's own table, and page `n` of the table goes to
    the frame at `pa`. -/
def TablePage (p : Paging) (proc i n pa : Nat) : Prop :=
  p.pgdir proc i = p.layout.pgtblProcAddr proc ||| pgUspace ||| pgRw ||| pgPresent ∧
    MapsTo p proc n pa

/-- VIDEO goes to the frame at `pa`. -/
def VideoAt (p : Paging) (proc pa : Nat) : Prop :=
  OwnTable p proc ∧ MapsTo p proc (video / 4096) pa

/-- The vidmap page, page 0 of the process's table, goes to the frame at `pa`. -/
def VidmapAt (p : Paging) (proc pa : Nat) : Prop := TablePage p proc (vidmapStart / mb4) 0 pa

theorem VideoAt.tablePage {p : Paging} {proc pa : Nat} (h : VideoAt p proc pa) :
    TablePage p proc 0 (video / 4096) pa := h

theorem VideoAt.translate {p : Paging} {proc pa : Nat} (h : VideoAt p proc pa) (hproc : proc < 8)
    (hpa : pa % 4096 = 0) : p.translate proc video = some ⟨pa, true⟩ :=
  translate_of_mapsTo hproc h.1 (by decide) hpa h.2

theorem VidmapAt.translate {p : Paging} {proc pa j : Nat} (h : VidmapAt p proc pa)
    (hproc : proc < 8) (hpa : pa % 4096 = 0) (hj : j < 4096) :
    p.translate proc (vidmapStart + j) = some ⟨pa + j, true⟩ := by
  have hv : vidmapStart = 167772160 := rfl
  have hidx : dirIndex (vidmapStart + j) = vidmapStart / mb4 := by
    unfold dirIndex mb4
    omega
  have htbl : tableIndex (vidmapStart + j) = 0 := by
    unfold tableIndex
    omega
  have hmod : (vidmapStart + j) % 4096 = j := by omega
  have ht : p.translate proc (vidmapStart + j) = some ⟨pa + (vidmapStart + j) % 4096, true⟩ := by
    refine translate_ownTable hproc hpa ?_ ?_
    · rw [hidx]
      exact h.1
    · rw [htbl]
      exact h.2
  rwa [hmod] at ht

section Operations

variable {p q : Paging} {proc proc' pa a i n : Nat}

theorem mapVidMem_eq (hproc : proc < 8) (va : Nat) : mapVidMem p proc va pa =
    some (((p.setPde proc (va / mb4)
      (p.layout.pgtblProcAddr proc ||| pgUspace ||| pgRw ||| pgPresent)).setPte proc
        (va % mb4 / kb4) (pa ||| pgUspace ||| pgRw ||| pgPresent)).loadCr3 proc) := by
  unfold mapVidMem
  rw [if_neg (show ¬ numProc ≤ proc from Nat.not_le_of_lt hproc)]

theorem mapVidMem_lt {va : Nat} (h : mapVidMem p proc va pa = some q) : proc < 8 := by
  unfold mapVidMem at h
  split at h
  · cases h
  · rename_i hlt
    exact Nat.lt_of_not_le hlt

theorem mapVidMem_some (p : Paging) (hproc : proc < 8) (va pa : Nat) :
    ∃ q, mapVidMem p proc va pa = some q :=
  ⟨_, mapVidMem_eq hproc va⟩

/-- One entry of one directory is written. -/
theorem pgdir_mapVidMem {va : Nat} (h : mapVidMem p proc va pa = some q)
    (hne : ¬ (proc' = proc ∧ i = va / mb4)) : q.pgdir proc' i = p.pgdir proc' i := by
  rw [mapVidMem_eq (mapVidMem_lt h), Option.some.injEq] at h
  subst h
  show (p.setPde proc _ _).pgdir proc' i = _
  by_cases hp : proc' = proc
  · subst hp
    rw [Paging.setPde_pgdir_self, Function.update_of_ne fun hi => hne ⟨rfl, hi⟩]
  · rw [Paging.setPde_pgdir_of_ne _ _ _ _ hp]

/-- One page of one table is written. -/
theorem pgtblProc_mapVidMem {va : Nat} (h : mapVidMem p proc va pa = some q)
    (hne : ¬ (proc' = proc ∧ n = va % mb4 / kb4)) :
    q.pgtblProc proc' n = p.pgtblProc proc' n := by
  rw [mapVidMem_eq (mapVidMem_lt h), Option.some.injEq] at h
  subst h
  show (Paging.setPgtbl _ proc _).pgtblProc proc' n = _
  by_cases hp : proc' = proc
  · subst hp
    rw [Paging.setPgtbl_pgtblProc_self, Function.update_of_ne fun hn => hne ⟨rfl, hn⟩]
    rfl
  · rw [Paging.setPgtbl_pgtblProc_of_ne _ _ _ hp]
    rfl

theorem tablePage_mapVidMem_self {va : Nat} (h : mapVidMem p proc va pa = some q) :
    TablePage q proc (va / mb4) (va % mb4 / kb4) pa := by
  rw [mapVidMem_eq (mapVidMem_lt h), Option.some.injEq] at h
  subst h
  constructor
  · show (p.setPde proc _ _).pgdir proc (va / mb4) = _
    rw [Paging.setPde_pgdir_self, Function.update_self]
    rfl
  · show (Paging.setPgtbl _ proc _).pgtblProc proc (va % mb4 / kb4) = _
    rw [Paging.setPgtbl_pgtblProc_self, Function.update_self]

/-- The other pages stay, also below the same directory entry. -/
theorem tablePage_mapVidMem {va : Nat} (hn : proc' = proc → n ≠ va % mb4 / kb4)
    (ht : TablePage p proc' i n a) (h : mapVidMem p proc va pa = some q) :
    TablePage q proc' i n a := by
  obtain ⟨hentry, hpage⟩ := ht
  constructor
  · by_cases hi : proc' = proc ∧ i = va / mb4
    · obtain ⟨rfl, rfl⟩ := hi
      exact (tablePage_mapVidMem_self h).1
    · rw [pgdir_mapVidMem h hi, (mapVidMem_pgdir h).1]
      exact hentry
  · unfold MapsTo
    rw [pgtblProc_mapVidMem h fun hc => hn hc.1 hc.2]
    exact hpage

theorem removeTaskPgdir_pgdir (p : Paging) (m proc : Nat) (hi : i ≠ elfLoadPg) :
    (removeTaskPgdir p m).pgdir proc i = p.pgdir proc i := by
  show (p.setPde m _ _).pgdir proc i = _
  by_cases hm : proc = m
  · subst hm
    rw [Paging.setPde_pgdir_self, Function.update_of_ne hi]
  · rw [Paging.setPde_pgdir_of_ne _ _ _ _ hm]

theorem tablePage_removeTaskPgdir (m : Nat) (hi : i ≠ elfLoadPg) (h : TablePage p proc i n a) :
    TablePage (removeTaskPgdir p m) proc i n a :=
  ⟨(removeTaskPgdir_pgdir p m proc hi).trans h.1, h.2⟩

theorem videoAt_loadCr3 (n : Nat) (h : VideoAt p proc a) : VideoAt (p.loadCr3 n) proc a := h

theorem videoAt_removeTaskPgdir (n : Nat) (h : VideoAt p proc a) :
    VideoAt (removeTaskPgdir p n) proc a :=
  tablePage_removeTaskPgdir n (by decide) h.tablePage

/-! ## The directory of a new process -/

theorem makeTaskPgdir_lt (h : makeTaskPgdir p proc = some q) : proc < 8 := by
  unfold makeTaskPgdir at h
  split at h
  · cases h
  · rename_i hlt
    exact Nat.lt_of_not_le hlt

/-- What `make_task_pgdir` writes: one table, three entries of one directory, and CR3. -/
structure TaskBuilt (p q : Paging) (proc : Nat) : Prop where
  layout : q.layout = p.layout
  pgtbl : q.pgtbl = p.pgtbl
  cr3 : q.cr3 = p.layout.pgdirAddr proc
  dirOther : ∀ proc', proc' ≠ proc → q.pgdir proc' = p.pgdir proc'
  tblOther : ∀ proc', proc' ≠ proc → q.pgtblProc proc' = p.pgtblProc proc'
  tbl : q.pgtblProc proc = taskPgtbl (p.pgtblProc proc)
  own : OwnTable q proc
  program : q.pgdir proc elfLoadPg =
    (proc + 2) * mb4 ||| pgSize ||| pgUspace ||| pgRw ||| pgPresent
  rest : ∀ i, i ≠ 0 → i ≠ 1 → i ≠ elfLoadPg → q.pgdir proc i = p.pgdir proc i

theorem taskBuilt_of_makeTaskPgdir (h : makeTaskPgdir p proc = some q) : TaskBuilt p q proc := by
  have hlt := makeTaskPgdir_lt h
  unfold makeTaskPgdir at h
  rw [if_neg (show ¬ numProc ≤ proc from Nat.not_le_of_lt hlt), Option.some.injEq] at h
  subst h
  refine ⟨rfl, rfl, rfl, fun proc' hne => ?_, fun proc' hne => ?_, ?_, ?_, ?_, fun i h0 h1 h32 => ?_⟩
  · show (Paging.setPde _ proc _ _).pgdir proc' = _
    rw [Paging.setPde_pgdir_of_ne _ _ _ _ hne, Paging.setPde_pgdir_of_ne _ _ _ _ hne,
      Paging.setPde_pgdir_of_ne _ _ _ _ hne, Paging.setPgtbl_pgdir]
  · exact Paging.setPgtbl_pgtblProc_of_ne _ _ _ hne
  · exact Paging.setPgtbl_pgtblProc_self _ _ _
  · show (Paging.setPde _ proc _ _).pgdir proc 0 = _
    rw [Paging.setPde_pgdir_self, Function.update_of_ne (by decide), Paging.setPde_pgdir_self,
      Function.update_of_ne (by decide), Paging.setPde_pgdir_self, Function.update_self]
    rfl
  · show (Paging.setPde _ proc _ _).pgdir proc elfLoadPg = _
    rw [Paging.setPde_pgdir_self, Function.update_self]
  · show (Paging.setPde _ proc _ _).pgdir proc i = _
    rw [Paging.setPde_pgdir_self, Function.update_of_ne h32, Paging.setPde_pgdir_self,
      Function.update_of_ne h1, Paging.setPde_pgdir_self, Function.update_of_ne h0,
      Paging.setPgtbl_pgdir]

theorem makeTaskPgdir_some (hproc : proc < 8) : ∃ q, makeTaskPgdir p proc = some q := by
  unfold makeTaskPgdir
  rw [if_neg (show ¬ numProc ≤ proc from Nat.not_le_of_lt hproc)]
  exact ⟨_, rfl⟩

theorem TaskBuilt.videoAt (h : TaskBuilt p q proc) : VideoAt q proc video := by
  refine ⟨h.own, ?_⟩
  unfold MapsTo
  rw [h.tbl]
  rfl

theorem TaskBuilt.tablePage_ne (h : TaskBuilt p q proc) (hne : proc' ≠ proc)
    (ht : TablePage p proc' i n a) : TablePage q proc' i n a := by
  unfold TablePage MapsTo
  rw [h.dirOther proc' hne, h.tblOther proc' hne, h.layout]
  exact ht

theorem TaskBuilt.videoAt_ne (h : TaskBuilt p q proc) (hne : proc' ≠ proc)
    (hv : VideoAt p proc' a) : VideoAt q proc' a :=
  h.tablePage_ne hne hv.tablePage

/-! ## The program page -/

/-- The directory entry after the program page. -/
def afterProgram : Nat := elfLoadPg + 1

theorem not_videoDirEntry_afterProgram : ¬ VideoDirEntry afterProgram := by
  unfold VideoDirEntry
  decide

/-- No directory maps the 4MB after the program page. -/
def ProgramPageLast (p : Paging) : Prop :=
  ∀ proc, proc < 8 → ¬ present (p.pgdir proc afterProgram)

theorem TaskBuilt.afterProgram (h : TaskBuilt p q proc) (proc' : Nat) :
    q.pgdir proc' afterProgram = p.pgdir proc' afterProgram := by
  by_cases hne : proc' = proc
  · subst hne
    exact h.rest _ (by decide) (by decide) (by decide)
  · rw [h.dirOther proc' hne]

theorem removeTaskPgdir_afterProgram (p : Paging) (n proc : Nat) :
    (removeTaskPgdir p n).pgdir proc afterProgram = p.pgdir proc afterProgram :=
  removeTaskPgdir_pgdir p n proc (by decide)

/-- The frame of the program of `proc`. -/
def programFrame (proc : Nat) : Nat := (proc + 2) * mb4

theorem TaskBuilt.phys_program (h : TaskBuilt p q proc) {va : Nat}
    (hva : dirIndex va = elfLoadPg) : q.phys va = some (programFrame proc + va % mb4) := by
  have hbig : (proc + 2) * mb4 % 4194304 = 0 := Nat.mul_mod_left _ _
  have hmod : (proc + 2) * mb4 % 4096 = 0 := by omega
  have he : q.pgdir proc (dirIndex va) = (proc + 2) * mb4 + 135 := by
    rw [hva, h.program, programEntry_eq]
  have hp : present (q.pgdir proc (dirIndex va)) := by
    rw [he, present_add hmod]
  have hl : large (q.pgdir proc (dirIndex va)) := by
    rw [he, large_add hmod]
  rw [phys_of_cr3 (h.cr3.trans (by rw [h.layout])) va]
  unfold Paging.translate walk
  simp only [if_pos hp, if_pos hl, Option.map_some]
  rw [he, largeFrame_add hbig (by decide)]
  rfl

/-- The first address past the program page faults. -/
theorem TaskBuilt.phys_afterProgram (h : TaskBuilt p q proc) (hproc : proc < 8)
    (hlast : ProgramPageLast p) {va : Nat} (hva : dirIndex va = Mp3Kernel.afterProgram) :
    q.phys va = none := by
  have hn : ¬ present (q.pgdir proc (dirIndex va)) := by
    rw [hva, h.afterProgram]
    exact hlast proc hproc
  rw [phys_of_cr3 (h.cr3.trans (by rw [h.layout])) va]
  unfold Paging.translate
  rw [walk_of_not_present hn]
  rfl

end Operations

/-! ## The directory the kernel boots with -/

theorem initPaging_pgdir_zero (p : Paging) :
    (initPaging p).pgdir 0 0 = p.layout.pgtblAddr ||| pgRw ||| pgPresent := by
  unfold initPaging
  simp only [Paging.loadCr3_pgdir, Function.update_self, if_true]

theorem initPaging_phys (l : Layout) {va : Nat} (hlo : 4096 ≤ va) (hhi : va < mb4) :
    (initPaging (Paging.reset l)).phys va = some va := by
  have hmod := l.pgtblAddr_mod
  have hidx : dirIndex va = 0 := by
    unfold mb4 at hhi
    unfold dirIndex
    omega
  have htbl : tableIndex va = va / 4096 := by
    unfold mb4 at hhi
    unfold tableIndex
    omega
  have hdir : (initPaging (Paging.reset l)).pgdir 0 (dirIndex va) = l.pgtblAddr + 3 := by
    rw [hidx, ← bootTableEntry_eq _ hmod]
    exact initPaging_pgdir_zero (Paging.reset l)
  have hframe : frame ((initPaging (Paging.reset l)).pgdir 0 (dirIndex va)) = l.pgtblAddr := by
    rw [hdir]
    exact frame_add hmod (by decide)
  have hnl : ¬ large ((initPaging (Paging.reset l)).pgdir 0 (dirIndex va)) := by
    rw [hdir, large_add hmod]
    decide
  have hpres : present ((initPaging (Paging.reset l)).pgdir 0 (dirIndex va)) := by
    rw [hdir, present_add hmod]
  have htab : (initPaging (Paging.reset l)).tableAt
      (frame ((initPaging (Paging.reset l)).pgdir 0 (dirIndex va))) =
        some (initPaging (Paging.reset l)).pgtbl := by
    rw [hframe]
    exact if_pos rfl
  have hpage : va / 4096 * pteSize % 4096 = 0 := by unfold pteSize; omega
  have hpte : (initPaging (Paging.reset l)).pgtbl (tableIndex va) = va / 4096 * 4096 + 3 := by
    rw [htbl]
    show (if va / 4096 = 0 then _ else if va / 4096 < pgtblLen then _ else _) = _
    rw [if_neg (by omega), if_pos (by unfold mb4 at hhi; unfold pgtblLen; omega),
      bootTableEntry_eq _ hpage]
    rfl
  have hppres : present ((initPaging (Paging.reset l)).pgtbl (tableIndex va)) := by
    rw [hpte]
    unfold present
    omega
  have hpframe : frame ((initPaging (Paging.reset l)).pgtbl (tableIndex va)) =
      va / 4096 * 4096 := by
    rw [hpte]
    exact frame_add (by omega) (by decide)
  have hcr3 : (initPaging (Paging.reset l)).cr3 =
    (initPaging (Paging.reset l)).layout.pgdirAddr 0 := rfl
  rw [phys_of_cr3 hcr3]
  unfold Paging.translate
  rw [walk_small hpres hnl htab hppres, hpframe, Option.map_some]
  exact congrArg some (Nat.div_add_mod' va 4096)

theorem programPageLast_initPaging (l : Layout) :
    ProgramPageLast (initPaging (Paging.reset l)) := by
  intro proc _
  by_cases h0 : proc = 0
  · subst h0
    show ¬ present (afterProgram * pg4mStart ||| pgRw ||| pgUspace ||| pgSize)
    decide
  · have he : (initPaging (Paging.reset l)).pgdir proc afterProgram = 0 := by
      show Function.update (fun _ _ => 0) 0 _ proc afterProgram = 0
      rw [Function.update_of_ne h0]
    rw [he]
    exact not_present_zero

end Mp3Kernel
