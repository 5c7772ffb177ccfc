/-
  What a launched process runs.

  `execute` looks the first word of the command up and reads the file of the inode it finds
  three times: the magic bytes, the entry point and the whole file. `launch_sound_iff`: what it
  enters is a program of the directory, loaded as a whole and entered where its header says,
  exactly if the name found belongs to a regular file among the entries and the file fits into
  the program page. The type of the entry, its place in the directory and the empty name are
  not checked.
-/
import Mp3Kernel.Proofs.Command
import Mp3Kernel.Proofs.Directory
import Mp3Kernel.Proofs.ReadData

namespace Mp3Kernel

open Base.PageWalk

variable {fs : Image} {k k' loaded : Kernel} {p : Paging} {ucmd : CString}
  {esp ebp pid entry : Nat}

/-! ## The property -/

/-- The process that runs in `k'` was entered at `entry`, in the file of directory slot `i`. -/
structure SoundLaunch (fs : Image) (ucmd : CString) (k' : Kernel) (entry i : Nat) : Prop where
  named : FirstNamed fs ucmd.word i
  nonempty : ucmd.word.bytes ≠ []
  inDirectory : i < fs.fsStats.direntryCnt
  regular : (fs.direntries i).filetype = ftReg
  long : entryPointOffset + 4 ≤ (fs.inodes (fs.direntries i).inodeIdx).size
  magic : (List.range 4).map (fs.fileByte (fs.direntries i).inodeIdx) = elfHeader
  entryPoint : entry = le32 fun j => fs.fileByte (fs.direntries i).inodeIdx (entryPointOffset + j)
  fits : loadAddr % mb4 + (fs.inodes (fs.direntries i).inodeIdx).size ≤ mb4
  loaded : ∀ j, j < (fs.inodes (fs.direntries i).inodeIdx).size →
    k'.paging.phys (loadAddr + j) = some (programFrame k'.runningPid + loadAddr % mb4 + j) ∧
      k'.mem (programFrame k'.runningPid + loadAddr % mb4 + j) =
        fs.fileByte (fs.direntries i).inodeIdx j

/-! ## The name -/

/-- The word of a command that passes the checks names an entry. -/
theorem word_of_isExecutable {fs : Image} (hshort : (parseCmd ucmd).overrun = false)
    (hexec : isExecutable fs (parseCmd ucmd).name = true) :
    ∃ j, j < fsMaxDirEntries ∧ FirstNamed fs ucmd.word j ∧
      readDentryByName fs ucmd.word = some (fs.direntries j) := by
  rw [parseCmd_name hshort] at hexec
  rcases readDentryByName_cases fs ucmd.word with ⟨hnone, -⟩ | hfound
  · unfold isExecutable at hexec
    rw [hnone] at hexec
    cases hexec
  · exact hfound

/-! ## The reads -/

theorem le32_congr {a b : Nat → UInt8} (h : ∀ j, j < 4 → a j = b j) : le32 a = le32 b := by
  unfold le32
  rw [h 0 (by decide), h 1 (by decide), h 2 (by decide), h 3 (by decide)]

/-- A read of four bytes that returns 4. -/
theorem readData_four {inode offset : Nat} (hsize : (fs.inodes inode).size < u32)
    (hret : (readData fs inode offset (some fun _ => 0) 4).ret = 4) :
    offset + 4 ≤ (fs.inodes inode).size ∧
      ∃ buf, (readData fs inode offset (some fun _ => 0) 4).buf = some buf ∧
        ∀ j, j < 4 → buf j = fs.fileByte inode (offset + j) := by
  rcases readData_served fs inode offset 4 (fun _ => hsize) (by decide) (fun _ => 0) with
    hfail | ⟨-, r, buf, hr, hbuf, hmin, hbytes, -⟩
  · rw [hret] at hfail
    cases hfail
  · have hfour : r = 4 := by omega
    subst hfour
    exact ⟨by omega, buf, hbuf, hbytes⟩

variable {i : Nat}

/-- The file an executable name stands for starts with the magic bytes. -/
theorem magic_of_isExecutable {fname : CString}
    (hd : readDentryByName fs fname = some (fs.direntries i))
    (hsize : (fs.inodes (fs.direntries i).inodeIdx).size < u32)
    (h : isExecutable fs fname = true) :
    (List.range 4).map (fs.fileByte (fs.direntries i).inodeIdx) = elfHeader := by
  unfold isExecutable at h
  rw [hd] at h
  simp only [Bool.and_eq_true, beq_iff_eq] at h
  obtain ⟨hret, hheader⟩ := h
  obtain ⟨-, buf, hbuf, hbytes⟩ := readData_four hsize hret
  rw [hbuf] at hheader
  have hmap : (List.range 4).map buf = elfHeader := by simpa using hheader
  rw [← hmap]
  refine List.map_congr_left fun j hj => ?_
  rw [hbytes j (List.mem_range.mp hj), Nat.zero_add]

/-- The entry point is the word at its offset. -/
theorem entry_of_readEntry {fname : CString}
    (hd : readDentryByName fs fname = some (fs.direntries i))
    (hsize : (fs.inodes (fs.direntries i).inodeIdx).size < u32)
    (hret : (readEntry fs fname).ret = 4) :
    entryPointOffset + 4 ≤ (fs.inodes (fs.direntries i).inodeIdx).size ∧
      le32 ((readEntry fs fname).buf.getD fun _ => 0) =
        le32 fun j => fs.fileByte (fs.direntries i).inodeIdx (entryPointOffset + j) := by
  have heq : readEntry fs fname =
      readData fs (fs.direntries i).inodeIdx entryPointOffset (some fun _ => 0) 4 := by
    unfold readEntry fileReadName
    rw [hd]
    rfl
  rw [heq] at hret ⊢
  obtain ⟨hlong, buf, hbuf, hbytes⟩ := readData_four hsize hret
  rw [hbuf, Option.getD_some]
  exact ⟨hlong, le32_congr hbytes⟩

/-- A program that is read without failing is read whole. -/
theorem readProgram_whole {fname : CString}
    (hd : readDentryByName fs fname = some (fs.direntries i))
    (hsize : (fs.inodes (fs.direntries i).inodeIdx).size < 2147483648)
    (hret : (readProgram fs fname).ret ≠ -1) :
    (readProgram fs fname).reads = (fs.inodes (fs.direntries i).inodeIdx).size ∧
      ∀ j, j < (fs.inodes (fs.direntries i).inodeIdx).size →
        ((readProgram fs fname).buf.getD fun _ => 0) j =
          fs.fileByte (fs.direntries i).inodeIdx j := by
  have heq : readProgram fs fname = readData fs (fs.direntries i).inodeIdx 0 (some fun _ => 0)
      (fs.inodes (fs.direntries i).inodeIdx).size := by
    unfold readProgram fileReadName
    rw [hd]
    rfl
  rw [heq] at hret ⊢
  have hreads := (readData_reads fs (fs.direntries i).inodeIdx 0
    (fs.inodes (fs.direntries i).inodeIdx).size fun _ => 0).resolve_left hret
  obtain ⟨-, r, buf, hr, hbuf, hmin, hbytes, -⟩ := (readData_served fs
    (fs.direntries i).inodeIdx 0 (fs.inodes (fs.direntries i).inodeIdx).size
    (fun _ => by unfold u32; omega) hsize fun _ => 0).resolve_left hret
  have hwhole : r = (fs.inodes (fs.direntries i).inodeIdx).size := by omega
  rw [hr] at hreads
  refine ⟨(Int.ofNat.inj hreads).symm.trans hwhole, fun j hj => ?_⟩
  rw [hbuf, Option.getD_some, hbytes j (by omega), Nat.zero_add]

/-! ## Memory -/

/-- Bytes stored into a mapped area are there. -/
theorem storeBytes_area {va pa n : Nat} {buf : Nat → UInt8} (harea : Area k.paging va pa n)
    (h : storeBytes k va buf n = some k') : ∀ j, j < n → k'.mem (pa + j) = buf j := by
  induction n generalizing k' with
  | zero => exact fun j hj => absurd hj (Nat.not_lt_zero j)
  | succ n ih =>
    obtain ⟨k1, h1, h2⟩ := Option.bind_eq_some_iff.mp h
    have hbefore := ih (harea.mono (Nat.le_succ n)) h1
    obtain ⟨mem, rfl⟩ := storeBytes_mem h1
    have hlast : (k.setMem mem).paging.phys (va + n) = some (pa + n) := harea n (Nat.lt_succ_self n)
    rw [store_eq _ hlast] at h2
    obtain rfl := Option.some.inj h2
    intro j hj
    show Function.update mem (pa + n) (buf n) (pa + j) = buf j
    rcases Nat.lt_or_eq_of_le (Nat.le_of_lt_succ hj) with hlt | rfl
    · rw [Function.update_of_ne (by omega)]
      exact hbefore j hlt
    · rw [Function.update_self]

/-- The program page of a process from `LOAD_ADDR` on. -/
theorem TaskBuilt.area_program {q : Paging} {proc n : Nat} (h : TaskBuilt q p proc)
    (hn : loadAddr % mb4 + n ≤ mb4) :
    Area p loadAddr (programFrame proc + loadAddr % mb4) n := by
  intro j hj
  unfold loadAddr mb4 at hn
  have hidx : dirIndex (loadAddr + j) = elfLoadPg := by
    unfold dirIndex loadAddr elfLoadPg
    omega
  have hmod : (loadAddr + j) % mb4 = loadAddr % mb4 + j := by
    unfold loadAddr mb4
    omega
  rw [h.phys_program hidx, hmod, Nat.add_assoc]

/-- The process started runs with the directory and the memory it was loaded into. -/
theorem Execution.state (h : Execution fs k ucmd esp ebp pid p loaded k' entry) :
    k'.runningPid = pid ∧ k'.paging = p ∧ k'.mem = loaded.mem := by
  obtain ⟨mem, hmem⟩ := storeBytes_mem h.load
  obtain ⟨t, pcbs, -, -, hk'⟩ := startProcess_some h.start
  subst hmem
  subst hk'
  exact ⟨rfl, rfl, rfl⟩

/-! ## Launching -/

/-- A process that is entered is a program of the directory exactly if the first slot its name
    finds is one of the entries, that of a regular file, and the file fits into its page. -/
theorem launch_sound_iff (h : execute fs k (some ucmd) esp ebp = .launched k' entry) :
    (∃ i, SoundLaunch fs ucmd k' entry i) ↔
      ∃ i, FirstNamed fs ucmd.word i ∧ ucmd.word.bytes ≠ [] ∧
        i < fs.fsStats.direntryCnt ∧ (fs.direntries i).filetype = ftReg ∧
        loadAddr % mb4 + (fs.inodes (fs.direntries i).inodeIdx).size ≤ mb4 := by
  obtain ⟨cmd, pid, p, loaded, hcmd, hx⟩ := execution_of_execute h
  obtain rfl := Option.some.inj hcmd
  constructor
  · rintro ⟨i, hs⟩
    exact ⟨i, hs.named, hs.nonempty, hs.inDirectory, hs.regular, hs.fits⟩
  · rintro ⟨i, hfirst, hne, hdir, hreg, hfits⟩
    obtain ⟨j, -, hfirst', hd⟩ := word_of_isExecutable hx.short hx.executable
    obtain rfl := hfirst'.unique hfirst
    rw [← parseCmd_name hx.short] at hd
    have hsize : (fs.inodes (fs.direntries j).inodeIdx).size < 2147483648 := by
      unfold mb4 at hfits
      omega
    have hsize' : (fs.inodes (fs.direntries j).inodeIdx).size < u32 := by
      unfold u32
      omega
    obtain ⟨hlong, hentry⟩ := entry_of_readEntry hd hsize' hx.header
    obtain ⟨hreads, hbytes⟩ := readProgram_whole hd hsize hx.program
    obtain ⟨hpid, hpaging, hmem⟩ := hx.state
    have harea := (taskBuilt_of_makeTaskPgdir hx.pgdir).area_program hfits
    have hload := hx.load
    rw [hreads] at hload
    have hstored := storeBytes_area (k := (takePid k pid).setPaging p) harea hload
    refine ⟨j, hfirst, hne, hdir, hreg, hlong, magic_of_isExecutable hd hsize' hx.executable,
      hx.entry.trans hentry, hfits, fun b hb => ?_⟩
    rw [hpid, hpaging, hmem]
    exact ⟨harea b hb, (hstored b hb).trans (hbytes b hb)⟩

theorem launch_sound_shell : ∃ k k' entry, Booted smallImage k ∧
    execute smallImage k (some shellCmd) 0 0 = .launched k' entry ∧
    ∃ i, SoundLaunch smallImage shellCmd k' entry i := by
  obtain ⟨k, hk⟩ := booted_smallImage
  obtain ⟨k', entry, hexec⟩ := execute_of_launchable launchable_smallImage hk.spec.last hk.nextPid 0 0
  refine ⟨k, k', entry, hk, hexec, (launch_sound_iff hexec).mpr ⟨0, ⟨by decide, ?_⟩, by decide,
    by decide, rfl, by decide⟩⟩
  exact fun i hi => absurd hi (Nat.not_lt_zero i)

/-- The command "." runs the file whose inode the directory entry has. -/
theorem directory_launched : ∃ k k' entry, Booted dirImage k ∧
    execute dirImage k (some dot) 0 0 = .launched k' entry ∧
    ¬ ∃ i, SoundLaunch dirImage dot k' entry i := by
  obtain ⟨k, hk⟩ := booted_dirImage
  have hl : Launchable dirImage dot := ⟨by decide, by decide, by decide, by decide, by decide⟩
  obtain ⟨k', entry, hexec⟩ := execute_of_launchable hl hk.spec.last hk.nextPid 0 0
  refine ⟨k, k', entry, hk, hexec, fun ⟨i, hs⟩ => ?_⟩
  have hone : FirstNamed dirImage dot.word 1 := ⟨by decide, by decide⟩
  obtain rfl := hs.named.unique hone
  exact absurd hs.regular (by decide)

end Mp3Kernel
