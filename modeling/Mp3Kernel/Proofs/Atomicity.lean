/-
  Is a failing `execute` atomic?

  Its first five exits come before anything is written. From the label `cont` on a PID is
  taken and running, and two exits return -1 without giving it back: the entry point cannot
  be read, or the program cannot be loaded. `FailsWithPid` says in terms of the image when
  one of those is taken: the file passes the ELF check but is shorter than 28 bytes, or
  reading the whole of it fails. `execute_atomic_iff`: a failing call leaves the processes as
  they were exactly when `FailsWithPid` does not hold.
-/
import Mp3Kernel.Proofs.Boot
import Mp3Kernel.Proofs.ReadData
import Mp3Kernel.Proofs.Steps

namespace Mp3Kernel

open Base.PageWalk Base.Bitmap Base.Runs

/-! ## Short reads -/

section Read

variable {img : Image} {inode offset : Nat} {st : ReadState}

/-- A turn that stays inside its block. -/
theorem readStep_inBlk (hblk : st.datablkOffset + 1 < fsBlkSize) :
    readStep img inode offset st =
      if (img.inodes inode).size ≤ (st.reads + offset) % u32 then
        .error (st.look.finish st.reads)
      else .ok ((st.look.store img ((img.inodes inode).data st.datablkIdx)).nextOffset) := by
  have hnot : ¬ fsBlkSize ≤ st.datablkOffset + 1 := Nat.not_le_of_lt hblk
  unfold readStep
  dsimp only [ReadState.look, ReadState.store]
  rw [if_neg hnot]

/-- Turns that stay inside one block stop at the end of the request or of the file. -/
theorem readLoop_inBlk {n : Nat} (hblk : st.datablkOffset + n < fsBlkSize)
    (hwrap : offset + st.reads + n < u32) (hin : offset + st.reads ≤ (img.inodes inode).size) :
    (readLoop img inode offset n st).ret =
      ((min (st.reads + n) ((img.inodes inode).size - offset) : Nat) : Int) := by
  induction n generalizing st with
  | zero =>
    simp only [readLoop, ReadState.finish]
    rw [Nat.min_eq_left (by omega), Nat.add_zero]
  | succ n ih =>
    have hmod : (st.reads + offset) % u32 = st.reads + offset := Nat.mod_eq_of_lt (by omega)
    unfold readLoop
    rw [readStep_inBlk (by omega), hmod]
    by_cases heof : (img.inodes inode).size ≤ st.reads + offset
    · rw [if_pos heof, Nat.min_eq_right (by omega)]
      show ((st.reads : Nat) : Int) = _
      congr 1
      omega
    · rw [if_neg heof]
      have hnext := @ih (st.look.store img
        ((img.inodes inode).data st.datablkIdx)).nextOffset
        (by show st.datablkOffset + 1 + n < _; omega)
        (by show offset + (st.reads + 1) + n < _; omega)
        (by show offset + (st.reads + 1) ≤ _; omega)
      refine hnext.trans ?_
      show ((min (st.reads + 1 + n) _ : Nat) : Int) = _
      congr 2
      omega

/-- A read that stays inside the first block, past its guards. -/
theorem readData_inBlk {length : Nat} {buf : Nat → UInt8}
    (hg : ReadGuards img inode offset length) (hblk : offset + length < fsBlkSize) :
    (readData img inode offset (some buf) length).ret =
      ((min length ((img.inodes inode).size - offset) : Nat) : Int) := by
  have hblk' : offset + length < 4096 := hblk
  have hu : u32 = 4294967296 := rfl
  rcases readData_cases img inode offset length buf (by omega) with
    ⟨-, heq⟩ | ⟨-, hoff, -⟩ | ⟨hng, -⟩
  · have hoff : offset % fsBlkSize = offset := Nat.mod_eq_of_lt (by omega)
    rw [heq, readLoop_inBlk]
    · show ((min (0 + length) _ : Nat) : Int) = _
      rw [Nat.zero_add]
    · show offset % fsBlkSize + length < fsBlkSize
      omega
    · show offset + 0 + length < u32
      omega
    · exact Nat.le_of_lt hg.inFile
  · have := hg.inFile
    omega
  · exact absurd hg hng

end Read

variable {fs : Image}

/-- An executable's first block can be read. -/
theorem guards_of_isExecutable {fname : CString} (h : isExecutable fs fname = true) :
    ∃ dentry, readDentryByName fs fname = some dentry ∧
      ReadGuards fs dentry.inodeIdx 0 4 := by
  unfold isExecutable at h
  cases hd : readDentryByName fs fname with
  | none => rw [hd] at h; cases h
  | some dentry =>
    rw [hd] at h
    simp only [Bool.and_eq_true, beq_iff_eq] at h
    refine ⟨dentry, rfl, ?_⟩
    rcases readData_cases fs dentry.inodeIdx 0 4 (fun _ => 0) (by decide) with
      ⟨hg, -⟩ | ⟨-, -, heq⟩ | ⟨-, -, hret, -⟩
    · exact hg
    · rw [heq] at h
      exact absurd h.1 (by decide)
    · rw [hret] at h
      exact absurd h.1 (by decide)

/-- The entry point of an executable can be read exactly when its file has 28 bytes. -/
theorem readEntry_iff {fname : CString} {dentry : DirEntry} (h : isExecutable fs fname = true)
    (hd : readDentryByName fs fname = some dentry) :
    (readEntry fs fname).ret = 4 ↔ 28 ≤ (fs.inodes dentry.inodeIdx).size := by
  obtain ⟨d, hd', hg⟩ := guards_of_isExecutable h
  obtain rfl := Option.some.inj (hd.symm.trans hd')
  have heq : (readEntry fs fname).ret =
      (readData fs dentry.inodeIdx 24 (some fun _ => 0) 4).ret := by
    unfold readEntry fileReadName
    rw [hd]
    rfl
  rw [heq]
  by_cases hsize : (fs.inodes dentry.inodeIdx).size ≤ 24
  · have hzero : (readData fs dentry.inodeIdx 24 (some fun _ => 0) 4).ret = 0 := by
      rcases readData_cases fs dentry.inodeIdx 24 4 (fun _ => 0) (by decide) with
        ⟨hg', -⟩ | ⟨-, -, heq⟩ | ⟨-, hn, -⟩
      · have := hg'.inFile
        omega
      · rw [heq]
      · exact absurd ⟨hg.inodeOk, hsize⟩ hn
    rw [hzero]
    exact ⟨fun h => by omega, fun h => by omega⟩
  · have hspan := hg.spanOk
    have hg24 : ReadGuards fs dentry.inodeIdx 24 4 := by
      refine ⟨hg.inodeOk, by omega, ?_, hg.blkOk⟩
      unfold u32 fsBlkSize at *
      omega
    rw [readData_inBlk hg24 (by decide)]
    omega

/-! ## The program page stays the last one -/

/-- No operation maps the 4MB after the program page. -/
def KeepsLast (k k' : Kernel) : Prop :=
  ∀ proc, k'.paging.pgdir proc afterProgram = k.paging.pgdir proc afterProgram

theorem KeepsLast.refl (k : Kernel) : KeepsLast k k := fun _ => rfl

theorem KeepsLast.trans {k k' k'' : Kernel} (h : KeepsLast k k') (h' : KeepsLast k' k'') :
    KeepsLast k k'' := fun proc => (h' proc).trans (h proc)

theorem Frame.keepsLast {k k' : Kernel} (h : Frame k k') : KeepsLast k k' :=
  fun proc => h.pgdir proc _ not_videoDirEntry_afterProgram

theorem KeepsLast.programPageLast {k k' : Kernel} (h : KeepsLast k k')
    (hlast : ProgramPageLast k.paging) : ProgramPageLast k'.paging := by
  intro proc hlt
  rw [h proc]
  exact hlast proc hlt

theorem keepsLast_of_paging {k k' : Kernel} (h : k'.paging = k.paging) : KeepsLast k k' := by
  intro proc
  rw [h]

/-- A failing `execute` has changed nothing, or has taken a PID and perhaps built its
    directory and loaded part of the program. -/
theorem execute_failed {k k' : Kernel} {ucmd : Option CString} {esp ebp : Nat}
    (h : execute fs k ucmd esp ebp = .failed k') :
    k' = k ∨ ∃ cmd pid, ucmd = some cmd ∧ (parseCmd cmd).overrun = false ∧
      isExecutable fs (parseCmd cmd).name = true ∧ allocPid k.procs = some pid ∧
      ((k' = takePid k pid ∧ (readEntry fs (parseCmd cmd).name).ret ≠ 4) ∨
        ∃ p mem, TaskBuilt k.paging p pid ∧ k' = ((takePid k pid).setPaging p).setMem mem ∧
          loadProgram fs ((takePid k pid).setPaging p) (parseCmd cmd).name = some (-1, k')) := by
  rcases execute_cases fs k ucmd esp ebp with h' | h' | ⟨cmd, pid, rfl, hc, ⟨hentry, h'⟩ |
    ⟨p, loaded, hl, ⟨hret, h'⟩ | ⟨_, _, h', -⟩⟩⟩
  · obtain rfl := ExecResult.failed.inj (h'.symm.trans h)
    exact Or.inl rfl
  · cases h'.symm.trans h
  · obtain rfl := ExecResult.failed.inj (h'.symm.trans h)
    exact Or.inr ⟨cmd, pid, rfl, hc.short, hc.executable, hc.free, Or.inl ⟨rfl, hentry⟩⟩
  · obtain rfl := ExecResult.failed.inj (h'.symm.trans h)
    obtain ⟨mem, hmem⟩ := storeBytes_mem hl.load
    refine Or.inr ⟨cmd, pid, rfl, hc.short, hc.executable, hc.free, Or.inr ⟨p, mem,
      taskBuilt_of_makeTaskPgdir hl.pgdir, hmem, ?_⟩⟩
    unfold loadProgram
    dsimp only
    rw [hl.load, hret, Option.map_some]
  · cases h'.symm.trans h

theorem keepsLast_execute {k k' : Kernel} {ucmd : Option CString} {esp ebp : Nat}
    (h : (execute fs k ucmd esp ebp).state = some k') : KeepsLast k k' := by
  cases hexec : execute fs k ucmd esp ebp with
  | fault => rw [hexec] at h; cases h
  | launched k1 entry =>
    rw [hexec] at h
    obtain rfl := Option.some.inj h
    obtain ⟨pid, t, hl⟩ := (launched_of_execute hexec).1
    exact fun proc => hl.paging.afterProgram proc
  | failed k1 =>
    rw [hexec] at h
    obtain rfl := Option.some.inj h
    rcases execute_failed hexec with rfl | ⟨cmd, pid, -, -, -, -, ⟨rfl, -⟩ | ⟨p, mem, hp, rfl, -⟩⟩
    · exact KeepsLast.refl _
    · exact KeepsLast.refl _
    · exact fun proc => hp.afterProgram proc

theorem keepsLast_halt {k k' : Kernel} {status : UInt8} {esp ebp : Nat}
    (h : halt fs k status esp ebp = some k') : KeepsLast k k' := by
  obtain ⟨pcbs, t, -, -, ⟨-, entry, hexec⟩ | ⟨-, rfl⟩⟩ := halt_cases h
  · have hk := keepsLast_execute (congrArg ExecResult.state hexec)
    exact hk
  · intro proc
    rw [(resumeParent_spec _ _ _ _).paging]
    exact removeTaskPgdir_afterProgram _ _ proc

theorem keepsLast_remap (k : Kernel) (proc pa : Nat) {va : Nat}
    (hva : VideoDirEntry (va / mb4)) : KeepsLast k (remap k proc va pa) := by
  unfold remap
  cases hm : mapVidMem k.paging (proc % 256) va pa with
  | none => exact KeepsLast.refl _
  | some q =>
    intro proc'
    exact (mapVidMem_pgdir hm).2.2 proc' _
      (fun h => not_videoDirEntry_afterProgram (h ▸ hva))

theorem keepsLast_pendingSwitch {k k' : Kernel} (h : pendingSwitch k = some k') :
    KeepsLast k k' := by
  rcases pendingSwitch_cases h with ⟨rfl, -⟩ | ⟨t, k1, -, -, h1, rfl⟩
  · exact keepsLast_of_paging rfl
  · exact (frame_restoreTerminal h1).keepsLast.trans (keepsLast_of_paging rfl)

theorem keepsLast_irqhPit {k k' : Kernel} {esp ebp : Nat} (h : irqhPit fs k esp ebp = some k') :
    KeepsLast k k' := by
  obtain ⟨k1, next, h1, -, hcase⟩ := irqhPit_cases h
  refine (keepsLast_pendingSwitch h1).trans ?_
  rcases hcase with ⟨-, rfl⟩ | ⟨-, -, e, -, rfl⟩ | ⟨-, -, hexec⟩
  · exact keepsLast_of_paging rfl
  · intro proc
    exact (resumeProcess_spec _ e).pgdir proc _ not_videoDirEntry_afterProgram
  · have hk := keepsLast_execute hexec
    exact hk

theorem keepsLast_step {k k' : Kernel} {op : Op} (h : step fs k op = some k') :
    KeepsLast k k' := by
  cases op with
  | execute ucmd esp ebp => exact keepsLast_execute h
  | halt status esp ebp => exact keepsLast_halt h
  | exception esp ebp =>
    have hk := keepsLast_halt h
    exact hk
  | tick esp ebp => exact keepsLast_irqhPit h
  | request t =>
    obtain rfl := Option.some.inj h
    exact keepsLast_of_paging rfl
  | vidmap screenStart =>
    obtain ⟨⟨ret, k1⟩, h1, rfl⟩ := Option.map_eq_some_iff.mp h
    unfold vidmap at h1
    split at h1
    · obtain ⟨-, rfl⟩ := Prod.mk.inj (Option.some.inj h1)
      exact KeepsLast.refl _
    · obtain ⟨k2, h2, h1⟩ := Option.bind_eq_some_iff.mp h1
      obtain ⟨term, -, h1⟩ := Option.bind_eq_some_iff.mp h1
      refine (frame_storeBytes h2).keepsLast.trans ?_
      split at h1
      · obtain ⟨-, rfl⟩ := Prod.mk.inj (Option.some.inj h1)
        exact KeepsLast.refl _
      · obtain ⟨-, rfl⟩ := Prod.mk.inj (Option.some.inj h1)
        exact KeepsLast.trans (keepsLast_of_paging rfl) (keepsLast_remap _ _ _ (Or.inr rfl))
  | putc c => exact (frame_putc h).keepsLast
  | clear => exact (frame_clear h).keepsLast

theorem Reachable.programPageLast {k : Kernel} (h : Reachable fs k) :
    ProgramPageLast k.paging := by
  obtain ⟨k0, ops, hk0, hrun⟩ := h
  have hall := @allStates_of_invariant Kernel Op (step fs) (fun k => ProgramPageLast k.paging)
    (fun s a t hs hstep => (keepsLast_step hstep).programPageLast hs) k0 hk0.spec.last ops
  exact (allStates_iff_reached k0 ops).mp hall ops k (List.prefix_refl _) hrun

/-! ## Atomicity -/

/-- The PID bitmap, the running process, CR3, the kernel stack, the terminals and the PCBs
    are the same. -/
structure SameProcesses (k k' : Kernel) : Prop where
  procs : k'.procs = k.procs
  runningPid : k'.runningPid = k.runningPid
  cr3 : k'.paging.cr3 = k.paging.cr3
  esp0 : k'.esp0 = k.esp0
  terminals : k'.terminals = k.terminals
  pcbs : k'.pcbs = k.pcbs

/-- The command passes the checks, a PID is free to be taken for it, and then its file turns
    out to be shorter than 28 bytes or cannot be read as a whole. (A file that is read as far
    as the end of the program page faults instead of failing.) -/
def FailsWithPid (fs : Image) (procs : BitVec 8) (ucmd : Option CString) : Prop :=
  ∃ cmd dentry, ucmd = some cmd ∧ (parseCmd cmd).overrun = false ∧
    isExecutable fs (parseCmd cmd).name = true ∧
    readDentryByName fs (parseCmd cmd).name = some dentry ∧
    (∃ pid, pid < 8 ∧ ¬ Taken procs pid) ∧
    ((fs.inodes dentry.inodeIdx).size < 28 ∨
      ((readProgram fs (parseCmd cmd).name).ret = -1 ∧
        loadAddr % mb4 + (readProgram fs (parseCmd cmd).name).reads ≤ mb4))

theorem allocPid_isSome {procs : BitVec 8} (h : ∃ pid, pid < 8 ∧ ¬ Taken procs pid) :
    ∃ pid, allocPid procs = some pid := by
  cases hpid : allocPid procs with
  | some pid => exact ⟨pid, rfl⟩
  | none =>
    obtain ⟨pid, hlt, hfree⟩ := h
    exact absurd (allocPid_none hpid pid hlt) hfree

theorem procs_takePid_ne {k : Kernel} {pid : Nat} (h : allocPid k.procs = some pid) :
    (takePid k pid).procs ≠ k.procs := by
  obtain ⟨hlt, hfree, -⟩ := allocPid_some h
  intro heq
  have htaken : Taken (takePid k pid).procs pid := by
    show Taken (k.procs ||| pidBit pid) pid
    rw [pidBit_eq_slot, taken_or_slot hlt]
    exact Or.inr rfl
  rw [heq] at htaken
  exact hfree htaken

/-- On such a command `execute` returns -1 with the PID taken. -/
theorem execute_leaks {k : Kernel} {ucmd : Option CString} (hlast : ProgramPageLast k.paging)
    (h : FailsWithPid fs k.procs ucmd) (esp ebp : Nat) :
    ∃ k', execute fs k ucmd esp ebp = .failed k' ∧ k'.procs ≠ k.procs := by
  obtain ⟨cmd, dentry, rfl, hshort, hexec, hd, hfree, hcase⟩ := h
  obtain ⟨pid, hpid⟩ := allocPid_isSome hfree
  have hlt : pid < 8 := (allocPid_some hpid).1
  rw [(Checked.mk hshort hexec hpid).execute]
  by_cases hentry : (readEntry fs (parseCmd cmd).name).ret = 4
  · have hsize := (readEntry_iff hexec hd).mp hentry
    obtain ⟨hret, hpage⟩ := hcase.resolve_left (by omega)
    obtain ⟨p, hp⟩ := makeTaskPgdir_some (p := k.paging) hlt
    obtain ⟨k1, hstores⟩ := (storeBytes_program ((takePid k pid).setPaging p)
      ((readProgram fs (parseCmd cmd).name).buf.getD fun _ => 0)
      (taskBuilt_of_makeTaskPgdir hp) hlt hlast _).mpr hpage
    rw [(Loaded.mk hentry hp hstores).launch, if_pos hret]
    refine ⟨k1, rfl, ?_⟩
    obtain ⟨mem, rfl⟩ := storeBytes_mem hstores
    exact procs_takePid_ne hpid
  · exact ⟨_, if_pos hentry, procs_takePid_ne hpid⟩

/-- On any other command a failing `execute` changes nothing. -/
theorem execute_failed_eq {k k' : Kernel} {ucmd : Option CString} {esp ebp : Nat}
    (hlast : ProgramPageLast k.paging) (h : ¬ FailsWithPid fs k.procs ucmd)
    (hexec : execute fs k ucmd esp ebp = .failed k') : k' = k := by
  rcases execute_failed hexec with hsame | ⟨cmd, pid, rfl, hshort, hex, hpid, hcase⟩
  · exact hsame
  · refine absurd ?_ h
    obtain ⟨dentry, hd, -⟩ := guards_of_isExecutable hex
    refine ⟨cmd, dentry, rfl, hshort, hex, hd,
      ⟨pid, (allocPid_some hpid).1, (allocPid_some hpid).2.1⟩, ?_⟩
    rcases hcase with ⟨-, hentry⟩ | ⟨p, mem, hp, -, hload⟩
    · rw [ne_eq, readEntry_iff hex hd] at hentry
      exact Or.inl (Nat.lt_of_not_le hentry)
    · obtain ⟨k2, hstores, hk2⟩ := Option.map_eq_some_iff.mp hload
      obtain ⟨hret, -⟩ := Prod.mk.inj hk2
      exact Or.inr ⟨hret, (storeBytes_program ((takePid k pid).setPaging p) _ hp
        (allocPid_some hpid).1 hlast _).mp ⟨k2, hstores⟩⟩

/-- A program that can be launched never fails that way. -/
theorem Launchable.not_failsWithPid {cmd : CString} (h : Launchable fs cmd) (procs : BitVec 8) :
    ¬ FailsWithPid fs procs (some cmd) := by
  rintro ⟨cmd', dentry, hcmd, -, hex, hd, -, hcase⟩
  obtain rfl := Option.some.inj hcmd
  rcases hcase with hsize | ⟨hret, -⟩
  · have := (readEntry_iff hex hd).mp h.entry
    omega
  · exact h.program hret

/-- In every reachable state, for every image and command: a call that returns -1 leaves the
    processes as they were exactly when the command does not fail with a PID taken. -/
theorem execute_atomic_iff (fs : Image) (k : Kernel) (hk : Reachable fs k)
    (ucmd : Option CString) (esp ebp : Nat) :
    (∀ k', execute fs k ucmd esp ebp = .failed k' → SameProcesses k k') ↔
      ¬ FailsWithPid fs k.procs ucmd := by
  constructor
  · intro h hfail
    obtain ⟨k', hexec, hprocs⟩ := execute_leaks hk.programPageLast hfail esp ebp
    exact hprocs (h k' hexec).procs
  · intro h k' hexec
    rw [execute_failed_eq hk.programPageLast h hexec]
    exact ⟨rfl, rfl, rfl, rfl, rfl, rfl⟩

theorem Booted.reachable {k : Kernel} (h : Booted fs k) : Reachable fs k := ⟨k, [], h, rfl⟩

def singleLetter (b : UInt8) (h : b ≠ 0) : CString := ⟨[b], by simpa using h⟩

/-- "b" names no file: the failing call changes nothing. -/
theorem execute_atomic_unknownName : ∃ k, Reachable smallImage k ∧
    ∀ k', execute smallImage k (some (singleLetter 0x62 (by decide))) 0 0 = .failed k' →
      SameProcesses k k' := by
  obtain ⟨k, hk⟩ := booted_smallImage
  refine ⟨k, hk.reachable, (execute_atomic_iff smallImage k hk.reachable _ 0 0).mpr ?_⟩
  rintro ⟨cmd, dentry, hcmd, -, hexec, -⟩
  obtain rfl := Option.some.inj hcmd
  exact absurd hexec (by decide)

/-- "a" has 4 bytes, the ELF magic: right after booting, the failing call takes PID 1. -/
theorem execute_not_atomic : ∃ k k', Reachable smallImage k ∧
    execute smallImage k (some (singleLetter 0x61 (by decide))) 0 0 = .failed k' ∧
      ¬ SameProcesses k k' := by
  obtain ⟨k, hk⟩ := booted_smallImage
  have hfree : ∃ pid, pid < 8 ∧ ¬ Taken k.procs pid :=
    ⟨1, by decide, fun h => absurd ((hk.spec.procs 1).mp h) (by decide)⟩
  have hfail : FailsWithPid smallImage k.procs (some (singleLetter 0x61 (by decide))) :=
    ⟨_, smallImage.direntries 1, rfl, by decide, by decide, rfl, hfree, Or.inl (by decide)⟩
  obtain ⟨k', hexec, hprocs⟩ := execute_leaks hk.reachable.programPageLast hfail 0 0
  exact ⟨k, k', hk.reachable, hexec, fun h => hprocs h.procs⟩

end Mp3Kernel
