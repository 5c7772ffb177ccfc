/-
  A user program that has just been started, beside other processes.

  `proc_of_execute`: when a shell's `execute` enters a program, the program is a `Proc` among all
  the processes that live then, with no open files and the arguments of its command. The others
  are what `KernelAnswers` lets make calls in the meantime.

  `Booted.startsProgram` is a run from boot to there: Alt+F2, the tick that starts a shell on terminal
  1, and a command of that shell, while the shell of terminal 0 goes on. Images of small files
  (`Image.ofFiles`) are there to run programs on.
-/
import Mp3Kernel.Proofs.Command
import Mp3Kernel.Proofs.Shells
import Mp3Kernel.Proofs.Userland

namespace Mp3Kernel

open Base.Runs Base.Bitmap User

variable {img : Image} {k k' k1 : Kernel} {owner : Nat → Fin 3} {ucmd : CString} {pid : Nat}
  {t : Fin 3}

/-! ## The processes that live -/

/-- Each has the descriptors that `execute` sets up. -/
def FreshTables (k : Kernel) : Prop := ∀ p, Taken k.procs p → FreshTable (k.pcbs p).fds

theorem FreshTables.of_fds (h : FreshTables k) (hprocs : k'.procs = k.procs)
    (hfds : ∀ p, (k'.pcbs p).fds = (k.pcbs p).fds) : FreshTables k' := by
  intro p hp
  rw [hfds]
  exact h p (hprocs ▸ hp)

theorem Booted.freshTables (hk : Booted img k) : FreshTables k := by
  intro p hp
  rw [(hk.spec.procs p).mp hp]
  exact hk.spec.table

theorem FreshTables.launched (h : FreshTables k) (hset : Settled owner k)
    (hl : Launched k k' pid t) : FreshTables k' := by
  intro p hp
  by_cases hpid : p = pid
  · rw [hpid]
    exact hl.table
  have hlive : Taken k.procs p := by
    rw [hl.procs, pidBit_eq_slot, taken_or_slot hl.pid_lt] at hp
    exact hp.resolve_right hpid
  have hrun : k.runningPid ≠ pid := (hl.taken hset.live).2
  have hfds : (k'.pcbs p).fds = (k.pcbs p).fds := by
    by_cases hroot : pid = (k'.terminals t).pid
    · obtain ⟨pcb, hpcbs, -⟩ := hl.root hroot
      rw [hpcbs, Function.update_of_ne hpid]
    · obtain ⟨pcb, hpcbs, -⟩ :=
        hl.child hroot (Taken.lt hset.live) (hset.consistent.pid _ hset.live)
      rw [hpcbs]
      by_cases hp : p = k.runningPid
      · rw [hp, Function.update_self, Function.update_of_ne hrun]
      · rw [Function.update_of_ne hp, Function.update_of_ne hpid]
  rw [hfds]
  exact h p hlive

/-- A tick saves the stack position only. -/
theorem scheduledState_fds (k : Kernel) (next : Fin 3) (esp ebp p : Nat) :
    ((scheduledState k next esp ebp).pcbs p).fds = (k.pcbs p).fds := by
  show (Function.update k.pcbs k.runningPid _ p).fds = _
  by_cases hp : p = k.runningPid
  · rw [hp, Function.update_self]
    rfl
  · rw [Function.update_of_ne hp]

/-- The running one of them, before its first call. -/
theorem Settled.proc (hset : Settled owner k) (h : FreshTables k) :
    Proc img (Taken k.procs) k.runningPid (fun _ => none) (argString (getCurrentPcb k)) []
      k.session where
  tabled := .start rfl (fun p hp => ⟨h p hp, _, hset.terminalOf hp⟩) hset.live
  proc := hset.live
  files := rfl
  args := rfl
  output := rfl
  terminal := ⟨_, hset.terminalOf hset.live⟩

/-- A program that a shell of the displayed terminal has started. -/
theorem proc_of_execute (hset : Settled owner k) (h : FreshTables k)
    (hcur : (k.terminals k.currentTerminal).running = true) {esp ebp entry : Nat}
    (hexec : execute img k (some ucmd) esp ebp = .launched k' entry) :
    Proc img (Taken k'.procs) k'.runningPid (fun _ => none) ucmd.args [] k'.session := by
  obtain ⟨⟨pid, t, hl⟩, -⟩ := launched_of_execute hexec
  obtain ⟨cmd, _, _, _, hcmd, hx⟩ := execution_of_execute hexec
  obtain rfl := Option.some.inj hcmd
  have hproc : Proc img (Taken k'.procs) k'.runningPid (fun _ => none) _ [] k'.session :=
    (hset.launchedChild hl hcur).1.proc (h.launched hset hl)
  rwa [hx.hasCommand.argString hx.short] at hproc

/-! ## A run from boot -/

/-- Alt+F2, the tick that starts the shell of terminal 1, and a command there. -/
def startOps (ucmd : CString) : List Op := [.request 1, .tick 0 0, .execute (some ucmd) 0 0]

/-- Started as process 2; 0 and 1 are the shells. -/
structure ProgramStarted (img : Image) (k : Kernel) (ucmd : CString) (k' : Kernel) : Prop where
  booted : Booted img k
  run : run (step img) k (startOps ucmd) = some k'
  procs : ∀ p, Taken k'.procs p ↔ p ≤ 2
  proc : Proc img (Taken k'.procs) 2 (fun _ => none) ucmd.args [] k'.session

theorem Booted.startsProgram (hk : Booted img k) (hcmd : Launchable img ucmd) :
    ∃ k', ProgramStarted img k ucmd k' := by
  obtain ⟨k1, k2, pid, u, htick, hswitch, hl, hon, -⟩ :=
    hk.shellsOn.start hk.launchable (t := 1) rfl 0 0
  have hsw := switched_of_pendingSwitch hswitch
  have hset1 : Settled (fun _ => 0) (scheduledState k1 1 0 0) :=
    ((hk.settled.requested 1).switched hswitch).scheduled 1 0 0
  have hfresh1 : FreshTables (scheduledState k1 1 0 0) :=
    hk.freshTables.of_fds hsw.procs fun p =>
      (scheduledState_fds k1 1 0 0 p).trans (by rw [hsw.pcbs]; rfl)
  have hcur : (k2.terminals k2.currentTerminal).running = true := by
    rw [hon.displayed, hon.running]
    rfl
  have hfree : allocPid k2.procs = some 2 :=
    allocPid_eq (by decide) (fun h => absurd ((hon.procs 2).mp h) (by decide)) fun q hq =>
      (hon.procs q).mpr (Nat.le_of_lt_succ hq)
  obtain ⟨k', entry, hexec⟩ := execute_of_launchable hcmd hon.settled.last hfree 0 0
  obtain ⟨⟨pid', t, hl'⟩, -⟩ := launched_of_execute hexec
  obtain rfl : pid' = 2 := Option.some.inj (hl'.free.symm.trans hfree)
  refine ⟨k', hk, ?_, fun p => ?_, ?_⟩
  · refine (run_cons_of_some (t := requested k 1) rfl _).trans ?_
    refine (run_cons_of_some htick _).trans (run_cons_of_some ?_ _)
    show (execute img k2 (some ucmd) 0 0).state = _
    rw [hexec]
    rfl
  · rw [hl'.procs, pidBit_eq_slot, taken_or_slot (by decide), hon.procs]
    show p ≤ 1 ∨ p = 2 ↔ p ≤ 2
    omega
  · have hproc : Proc img (Taken k'.procs) k'.runningPid (fun _ => none) ucmd.args [] k'.session :=
      proc_of_execute hon.settled (hfresh1.launched hset1 hl) hcur hexec
    rwa [hl'.runningPid] at hproc

/-! ## Images of small files -/

/-- Files that fit a block each: every file has the inode and the data block of its number. -/
def Image.ofFiles (files : List (CString × List UInt8)) : Image where
  fsStats := ⟨files.length, files.length, files.length⟩
  direntries := fun i => files[i]?.elim ⟨fun _ => 0, 0, 0⟩ fun f => ⟨f.1.get, ftReg, i⟩
  inodes := fun i => ⟨files[i]?.elim 0 fun f => f.2.length, fun _ => i⟩
  datablks := fun i j => files[i]?.elim 0 fun f => f.2.getD j 0

variable {files : List (CString × List UInt8)} {f : CString × List UInt8} {i : Nat}

theorem size_ofFiles (h : files[i]? = some f) :
    ((Image.ofFiles files).inodes i).size = f.2.length := by
  show files[i]?.elim 0 _ = _
  rw [h]
  rfl

theorem sizesFit_ofFiles (hsmall : ∀ f ∈ files, f.2.length < fsBlkSize) :
    (Image.ofFiles files).SizesFit := by
  intro i hi
  have hi : i < files.length := hi
  rw [size_ofFiles (List.getElem?_eq_getElem hi)]
  exact (Nat.le_of_lt (hsmall _ (List.getElem_mem hi))).trans (by decide)

theorem fileByte_ofFiles (h : files[i]? = some f) {j : Nat} (hj : j < fsBlkSize) :
    (Image.ofFiles files).fileByte i j = f.2.getD j 0 := by
  show files[i]?.elim 0 (fun f => f.2.getD (j % fsBlkSize) 0) = _
  rw [h, Nat.mod_eq_of_lt hj]
  rfl

/-- Up to its end a file can be read. -/
theorem readData_ofFiles (h : files[i]? = some f) (hsmall : f.2.length < fsBlkSize)
    (hcount : files.length ≤ fsMaxDirEntries) {pos : Nat} (hpos : pos ≤ f.2.length)
    (buf : Nat → UInt8) : (readData (Image.ofFiles files) i pos (some buf) 1).ret ≠ -1 := by
  have hi : i < files.length := (List.getElem?_eq_some_iff.mp h).1
  have hsize := size_ofFiles h
  unfold fsBlkSize at hsmall
  unfold fsMaxDirEntries at hcount
  rcases readData_cases (Image.ofFiles files) i pos 1 buf (by decide) with
    ⟨hg, heq⟩ | ⟨-, -, heq⟩ | ⟨hg, hoff, -, -⟩
  · rw [heq, Ne, readLoop_fails_iff (by rw [hsize]; unfold u32; omega) 1 _ (readInv_start buf hg)]
    rintro ⟨k, -, -, hk, hlast, -⟩
    unfold fsBlkSize at hlast
    omega
  · rw [heq]
    exact fun he => nomatch he
  · have hlt : pos < f.2.length := by
      by_contra hend
      exact hoff ⟨hi, by omega⟩
    refine absurd ⟨hi, by rw [hsize]; exact hlt, ?_, ?_⟩ hg
    · show (pos + 1) % u32 < (files.length * fsBlkSize) % u32
      unfold fsBlkSize u32
      omega
    · show i < files.length
      exact hi

/-! ## An image to run programs on -/

def cstring (s : String) : CString := CString.ofBytes (lit s)

def lines (ls : List String) : List UInt8 := ls.flatMap fun l => lit l ++ [nl]

def frame0 : List UInt8 := lines ["/\\/\\/\\/\\/\\/\\/\\/\\/\\/\\/\\/\\", "         o",
  "           o    o", "       o", "             o", "        o     O", "    _    \\",
  " |\\/.\\   | \\/  /  /", " |=  _>   \\|   \\ /", " |/\\_/    |/   |/",
  "----------M----M--------"]

def frame1 : List UInt8 := lines ["\\/\\/\\/\\/\\/\\/\\/\\/\\/\\/\\/\\/", "           o    o", "       o",
  "             o", "        o     o", "", "    _   /", " |\\/.\\  \\ \\/  \\  /",
  " |=  _>  \\ \\   \\|", " |/\\_>    |/   |/", "----------M----M--------"]

def fishLine : List UInt8 := lit "here a fish swims in the water\n"

def waterLine : List UInt8 := lit "here is nothing but the water\n"

/-- 40 lines, every eighth of them with a fish. -/
def water : List UInt8 :=
  (List.range 40).flatMap fun i => if i % 8 = 5 then fishLine else waterLine

/-- A program that is no more than a header. -/
def program : List UInt8 := elfHeader ++ List.replicate 24 0

def fsdir : List (CString × List UInt8) :=
  [(shellCmd, program), (cstring "cat", program), (cstring "grep", program),
    (cstring "fish", program), (cstring "frame0.txt", frame0), (cstring "frame1.txt", frame1),
    (cstring "water.txt", water)]

def fsdirImage : Image := .ofFiles fsdir

theorem fsdir_small : ∀ f ∈ fsdir, f.2.length < fsBlkSize := by decide +kernel

theorem fsdirImage_sizesFit : fsdirImage.SizesFit := sizesFit_ofFiles fsdir_small

theorem booted_fsdirImage : ∃ k, Booted fsdirImage k :=
  booted_of_launchable ⟨by decide +kernel, by decide +kernel, by decide +kernel, by decide +kernel,
    by decide +kernel⟩ bootState_resetKernel

/-- The descriptor that the first file is opened as. -/
theorem lowestFree_start : LowestFree (fun _ => none) 2 :=
  ⟨by decide, by decide, rfl, fun j hj hlt => absurd hlt (Nat.not_lt_of_le hj)⟩

end Mp3Kernel
