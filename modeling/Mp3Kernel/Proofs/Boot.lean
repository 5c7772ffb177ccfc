/-
  The state in which the first shell has just started.

  `Booted.spec` lists it: PID 0 is the root process of terminal 0, which is the displayed
  one, and nothing else runs. Booting gets there exactly when the image holds a shell that
  can be launched (`Booted.launchable`, `booted_of_launchable`).
-/
import Mp3Kernel.Proofs.Launch
import Mp3Kernel.Proofs.Window

namespace Mp3Kernel

open Base.PageWalk Base.Bitmap

/-! ## The terminals -/

structure FreshTerminals (terms : Fin 3 → Terminal) : Prop where
  id : ∀ t, (terms t).id = t
  pid : ∀ t, (terms t).pid = 0
  vidMemBuf : ∀ t, (terms t).vidMemBuf = vidMemBufAddr t
  running : ∀ t, (terms t).running = decide (t = 0)
  started : ∀ t, (terms t).status = .running ↔ t = 0
  cursor : ∀ t, (terms t).screenX < numCols ∧ (terms t).screenY < numRows
  corner : ∀ t, t ≠ 0 → (terms t).screenX = 0 ∧ (terms t).screenY = 0
  line : ∀ t, (terms t).lineBufIndex = 0 ∧ (terms t).readFlag = false ∧
    ∀ j, j < 128 → (terms t).lineBuf j = 0
  rtc : ∀ t, (terms t).rtc = ⟨2, 1024, 0, false⟩

theorem vidMemBufAddr_bounds (t : Fin 3) :
    4096 ≤ vidMemBufAddr t ∧ vidMemBufAddr t + 4096 ≤ mb4 := by
  revert t
  decide

theorem area_initPaging (l : Layout) (t : Fin 3) :
    Area (initPaging (Paging.reset l)) (vidMemBufAddr t) (vidMemBufAddr t) 4000 := by
  intro j hj
  obtain ⟨h1, h2⟩ := vidMemBufAddr_bounds t
  exact initPaging_phys l (by omega) (by omega)

theorem initTerminal_eq {l : Layout} {k : Kernel} (hp : k.paging = initPaging (Paging.reset l))
    (hx : k.screenX < numCols) (hy : k.screenY < numRows) (i : Fin 3) :
    ∃ k', initTerminal k i = some k' ∧ ∃ x y mem, x < numCols ∧ y < numRows ∧
      (i ≠ 0 → x = 0 ∧ y = 0) ∧
      k' = (k.setTerminal i (resetTerminal (k.terminals i) i x y)).setMem mem := by
  by_cases hi : i = 0
  · subst hi
    exact ⟨_, rfl, k.screenX, k.screenY, k.mem, hx, hy, fun h => absurd rfl h, rfl⟩
  · have harea : Area k.paging (vidMemBufAddr i) (vidMemBufAddr i) 4000 := by
      rw [hp]
      exact area_initPaging l i
    refine ⟨_, ?_, 0, 0, fillMem k.mem (vidMemBufAddr i) 0 (numRows * numCols), by decide,
      by decide, fun _ => ⟨rfl, rfl⟩, rfl⟩
    unfold initTerminal
    simp only [if_neg hi, setTerminal_terminals, Function.update_self]
    exact fillCells_eq (k := k.setTerminal i _) harea (by decide)

/-- `init_terminals` up to the shell sets up the terminals and blanks two buffers. -/
theorem initTerminalData_spec {l : Layout} {k : Kernel} (hb : BootState l k) :
    ∃ k', initTerminalData k = some k' ∧ FreshTerminals k'.terminals ∧ k'.currentTerminal = 0 ∧
      k'.paging = k.paging ∧ k'.procs = k.procs ∧ k'.runningPid = k.runningPid ∧
      k'.programExceptionOccured = k.programExceptionOccured ∧
      k'.currentSchedule = k.currentSchedule ∧ k'.scheduleCounter = k.scheduleCounter ∧
      k'.screenX = k.screenX ∧ k'.screenY = k.screenY := by
  obtain ⟨k0, h0, x0, y0, m0, hx0, hy0, -, rfl⟩ := initTerminal_eq hb.paging hb.screenX hb.screenY 0
  obtain ⟨k1, h1, x1, y1, m1, hx1, hy1, hc1, e1⟩ := initTerminal_eq
    (k := (k.setTerminal 0 (resetTerminal (k.terminals 0) 0 x0 y0)).setMem m0) hb.paging
    hb.screenX hb.screenY 1
  have hp1 : k1.paging = initPaging (Paging.reset l) := by
    rw [e1]
    exact hb.paging
  obtain ⟨k2, h2, x2, y2, m2, hx2, hy2, hc2, e2⟩ := initTerminal_eq hp1
    (by rw [e1]; exact hb.screenX) (by rw [e1]; exact hb.screenY) 2
  unfold initTerminalData
  rw [h0, Option.bind_eq_bind, Option.bind_some, h1, Option.bind_some, h2, Option.bind_some, e2, e1]
  refine ⟨_, rfl, ⟨fun t => ?_, fun t => ?_, fun t => ?_, fun t => ?_, fun t => ?_, fun t => ?_,
    fun t ht => ?_, fun t => ?_, fun t => ?_⟩, rfl, rfl, rfl, rfl, rfl, rfl, rfl, rfl, rfl⟩
  · match t with
    | 0 => rfl
    | 1 => rfl
    | 2 => rfl
  · match t with
    | 0 => exact hb.pid 0
    | 1 => exact hb.pid 1
    | 2 => exact hb.pid 2
  · match t with
    | 0 => rfl
    | 1 => rfl
    | 2 => rfl
  · match t with
    | 0 => rfl
    | 1 => rfl
    | 2 => rfl
  · match t with
    | 0 => exact ⟨fun _ => rfl, fun _ => rfl⟩
    | 1 => exact ⟨fun h => (nomatch h), fun h => (nomatch h)⟩
    | 2 => exact ⟨fun h => (nomatch h), fun h => (nomatch h)⟩
  · match t with
    | 0 => exact ⟨hx0, hy0⟩
    | 1 => exact ⟨hx1, hy1⟩
    | 2 => exact ⟨hx2, hy2⟩
  · match t with
    | 0 => exact absurd rfl ht
    | 1 => exact hc1 (by decide)
    | 2 => exact hc2 (by decide)
  · match t with
    | 0 => exact ⟨rfl, rfl, fun _ hj => if_pos hj⟩
    | 1 => exact ⟨rfl, rfl, fun _ hj => if_pos hj⟩
    | 2 => exact ⟨rfl, rfl, fun _ hj => if_pos hj⟩
  · match t with
    | 0 => rfl
    | 1 => rfl
    | 2 => rfl

/-! ## The first shell -/

structure BootedSpec (k : Kernel) : Prop where
  terminals : FreshTerminals k.terminals
  currentTerminal : k.currentTerminal = 0
  procs : ∀ p, Taken k.procs p ↔ p = 0
  runningPid : k.runningPid = 0
  esp0 : k.esp0 = kernelStackTop 0
  cr3 : k.paging.cr3 = k.paging.layout.pgdirAddr 0
  window : Window k.paging 0 video
  program : ∀ va, dirIndex va = elfLoadPg → k.paging.phys va = some (programFrame 0 + va % mb4)
  last : ProgramPageLast k.paging
  pid : (k.pcbs 0).pid = 0
  parentPid : (k.pcbs 0).parentPid = -1
  parentPcb : (k.pcbs 0).parentPcb = none
  childPcb : (k.pcbs 0).childPcb = none
  table : FreshTable (k.pcbs 0).fds
  exception : k.programExceptionOccured = false
  currentSchedule : k.currentSchedule = 0
  scheduleCounter : k.scheduleCounter = 0
  screenX : k.screenX < numCols
  screenY : k.screenY < numRows

theorem allocPid_zero : allocPid 0 = some 0 := by decide

theorem TaskBuilt.programPageLast {p q : Paging} {proc : Nat} (h : TaskBuilt p q proc)
    (hlast : ProgramPageLast p) : ProgramPageLast q := by
  intro proc' hlt
  rw [h.afterProgram]
  exact hlast proc' hlt

variable {fs : Image} {k : Kernel}

theorem Booted.spec (h : Booted fs k) : BootedSpec k := by
  obtain ⟨l, k0, esp, ebp, hb, hinit⟩ := h
  obtain ⟨k1, hk1, hterms, hcur, hpaging, hprocs, hrun, hexc, hsched, hcount, hx, hy⟩ :=
    initTerminalData_spec hb
  unfold initTerminals at hinit
  rw [hk1, Option.bind_eq_bind, Option.bind_some] at hinit
  cases hexec : execute fs k1 (some shellCmd) esp ebp with
  | failed k2 => rw [hexec] at hinit; cases hinit
  | fault => rw [hexec] at hinit; cases hinit
  | launched k2 entry =>
    rw [hexec] at hinit
    obtain rfl := Option.some.inj hinit
    obtain ⟨pid, t, hl⟩ := (launched_of_execute hexec).1
    have hrun0 : (k1.terminals k1.currentTerminal).running = true := by
      rw [hcur, hterms.running]
      rfl
    have hpid : pid = 0 := by
      have hfree := hl.free
      rw [hprocs, hb.procs, allocPid_zero, Option.some.injEq] at hfree
      exact hfree.symm
    obtain ⟨ht, hterminals⟩ := hl.displayed hrun0
    rw [hcur] at ht
    subst hpid ht
    obtain ⟨pcb, hpcbs, h1, h2, h3, h4⟩ := hl.root (by rw [hterminals, hterms.pid])
    have hpcb : k2.pcbs 0 = pcb := by rw [hpcbs, Function.update_self]
    have hlast : ProgramPageLast k1.paging := by
      rw [hpaging, hb.paging]
      exact programPageLast_initPaging l
    refine ⟨hterminals ▸ hterms, hl.currentTerminal.trans hcur, fun p => ?_, hl.runningPid, hl.esp0,
      ?_, hl.paging.window (by decide), fun va hva => hl.paging.phys_program hva,
      hl.paging.programPageLast hlast, ?_, ?_, ?_, ?_, hl.table, ?_, ?_, ?_, ?_, ?_⟩
    · rw [hl.procs, hprocs, hb.procs, pidBit_eq_slot, taken_or_slot (by decide)]
      exact ⟨fun hp => hp.resolve_left (not_taken_zero p), Or.inr⟩
    · rw [hl.paging.cr3, hl.paging.layout]
    · rw [hpcb, h1]
    · rw [hpcb, h2]
    · rw [hpcb, h3]
    · rw [hpcb, h4]
    · rw [hl.exception, hexc, hb.noException]
    · rw [hl.currentSchedule, hsched, hb.currentSchedule]
    · rw [hl.scheduleCounter, hcount, hb.scheduleCounter]
    · rw [hl.screenX, hx]
      exact hb.screenX
    · rw [hl.screenY, hy]
      exact hb.screenY

/-- A kernel that has booted has a shell to launch. -/
theorem Booted.launchable (h : Booted fs k) : Launchable fs shellCmd := by
  obtain ⟨l, k0, esp, ebp, hb, hinit⟩ := h
  obtain ⟨k1, hk1, -, -, hpaging, -⟩ := initTerminalData_spec hb
  unfold initTerminals at hinit
  rw [hk1, Option.bind_eq_bind, Option.bind_some] at hinit
  cases hexec : execute fs k1 (some shellCmd) esp ebp with
  | failed k2 => rw [hexec] at hinit; cases hinit
  | fault => rw [hexec] at hinit; cases hinit
  | launched k2 entry =>
    have hlast : ProgramPageLast k1.paging := by
      rw [hpaging, hb.paging]
      exact programPageLast_initPaging l
    obtain ⟨cmd, hcmd, hl⟩ := (launched_of_execute hexec).2 hlast
    rw [Option.some.inj hcmd]
    exact hl

theorem booted_of_launchable {l : Layout} {k0 : Kernel} (hl : Launchable fs shellCmd)
    (hb : BootState l k0) : ∃ k, Booted fs k := by
  obtain ⟨k1, hk1, -, -, hpaging, hprocs, -⟩ := initTerminalData_spec hb
  have hlast : ProgramPageLast k1.paging := by
    rw [hpaging, hb.paging]
    exact programPageLast_initPaging l
  have hpid : allocPid k1.procs = some 0 := by
    rw [hprocs, hb.procs, allocPid_zero]
  obtain ⟨k, entry, hexec⟩ := execute_of_launchable hl hlast hpid 0 0
  refine ⟨k, l, k0, 0, 0, hb, ?_⟩
  unfold initTerminals
  rw [hk1, Option.bind_eq_bind, Option.bind_some, hexec]

/-! ## A kernel to boot -/

def emptyTerminal : Terminal :=
  ⟨fun _ => 0, 0, 0, 0, 0, 0, false, 0, false, .notRunning, false, ⟨0, 0, 0, false⟩⟩

def emptyPcb : Pcb := ⟨fun _ => closedFd, fun _ => 0, 0, 0, 0, 0, 0, 0, 0, 0, none, none, 0⟩

/-- Everything that is arbitrary before `init_terminals` is zero. -/
def resetKernel : Kernel where
  paging := initPaging (Paging.reset layoutAt)
  mem := fun _ => 0
  screenX := 0
  screenY := 0
  terminals := fun _ => emptyTerminal
  currentTerminal := 0
  terminalToSwitchTo := none
  pcbs := fun _ => emptyPcb
  procs := 0
  runningPid := 0
  programExceptionOccured := false
  esp0 := 0
  currentSchedule := 0
  scheduleCounter := 0

theorem bootState_resetKernel : BootState layoutAt resetKernel :=
  ⟨rfl, by decide, by decide, fun _ => rfl, rfl, rfl, rfl, rfl, rfl⟩

/-- An image of two files that share one data block: "shell", 28 bytes, and "a", 4 bytes. -/
def smallImage : Image where
  fsStats := ⟨2, 2, 1⟩
  direntries := fun i =>
    if i = 0 then ⟨fun j => shellCmd.get j, 2, 0⟩
    else if i = 1 then ⟨fun j => if j = 0 then 0x61 else 0, 2, 1⟩
    else ⟨fun _ => 0, 0, 0⟩
  inodes := fun i => ⟨if i = 0 then 28 else 4, fun _ => 0⟩
  datablks := fun _ j => elfHeader.getD j 0

theorem launchable_smallImage : Launchable smallImage shellCmd :=
  ⟨by decide, by decide, by decide, by decide, by decide⟩

theorem booted_smallImage : ∃ k, Booted smallImage k :=
  booted_of_launchable launchable_smallImage bootState_resetKernel

end Mp3Kernel
