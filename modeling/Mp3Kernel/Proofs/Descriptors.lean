/-
  The descriptor table of a process is a partial map from 2..7 to open files.

  `OpenFiles` is that map; `openFiles` reads it off the record of the calls a process has made.
  `descriptor_tables_refine`: in a run of `open`, `close`, `read` and `write` calls of any
  processes, from the tables `execute` builds, each table is the image of its map, and every
  call does on the table what it does on the map, and nothing else.

  `Called` says what a call leaves behind: the table of the caller, and no change to anything
  the search for a terminal reads.
-/
import Mp3Kernel.Model.Files
import Mp3Kernel.Proofs.Cursor

namespace Mp3Kernel

open Base.Runs

variable {img : Image} {s s' : Files}

/-! ## The abstract table -/

structure OpenFile where
  ops : FileOps
  inode : Nat
  position : Nat

/-- A partial map from descriptors to open files. -/
abbrev OpenFiles := Nat → Option OpenFile

def OpenFile.desc (f : OpenFile) : FileDesc := ⟨some f.ops, f.inode, f.position, true⟩

/-- The file `open` makes of a directory entry. -/
def openedFile (dentry : DirEntry) (ops : FileOps) : OpenFile :=
  ⟨ops, if dentry.filetype = ftReg then dentry.inodeIdx else 0, 0⟩

/-- What a call that has returned `ret` has made of the map. -/
def OpenFiles.after (img : Image) (files : OpenFiles) (ret : Int) : FileCall → OpenFiles
  | .openFile filename =>
    match filename.bind (readDentryByName img) with
    | none => files
    | some dentry =>
      if ret = -1 then files
      else Function.update files ret.toNat ((fileOps dentry.filetype).map (openedFile dentry))
  | .close fd => if ret = 0 then Function.update files fd.toNat none else files
  | .read fd _ _ _ =>
    if ret < 0 then files
    else Function.update files fd.toNat ((files fd.toNat).map fun f =>
      if f.ops = .fs then { f with position := (f.position + ret.toNat) % u32 } else f)
  | .write _ _ _ => files

/-- The map of process `pid`, from the calls it has made. -/
def openFiles (img : Image) (record : List Returned) (pid : Nat) : OpenFiles :=
  record.foldr (fun r files => if r.pid = pid then files.after img r.ret r.call else files)
    fun _ => none

/-- The table is the image of the map. -/
structure Refines (files : OpenFiles) (fds : Nat → FileDesc) : Prop where
  stdin : fds 0 = stdinFd
  stdout : fds 1 = stdoutFd
  opened : ∀ fd, fdStart ≤ fd → fd < fdCnt → fds fd = (files fd).elim closedFd OpenFile.desc
  domain : ∀ fd, (files fd).isSome = true → fdStart ≤ fd ∧ fd < fdCnt

/-- The reasons for which `open` fails. -/
inductive Refused (img : Image) (files : OpenFiles) : Option CString → Prop where
  | null : Refused img files none
  | empty {name : CString} (h : strlen name = 0) : Refused img files (some name)
  | unknownName {name : CString} (h : readDentryByName img name = none) :
    Refused img files (some name)
  | unknownType {name : CString} {dentry : DirEntry}
    (hfound : readDentryByName img name = some dentry) (h : fileOps dentry.filetype = none) :
    Refused img files (some name)
  | full {name : CString} (h : ∀ fd, fdStart ≤ fd → fd < fdCnt → (files fd).isSome = true) :
    Refused img files (some name)

/-- The lowest descriptor that is not in use. -/
structure LowestFree (files : OpenFiles) (fd : Nat) : Prop where
  start : fdStart ≤ fd
  lt : fd < fdCnt
  free : files fd = none
  lowest : ∀ j, fdStart ≤ j → j < fd → (files j).isSome = true

/-! ## What a call leaves behind -/

/-- After the call the caller's table is `fds`; the links between processes are as before, and
    so are the other processes and the terminals' PIDs. -/
structure Called (s s' : Files) (fds : Nat → FileDesc) : Prop where
  pcbs : s'.kernel.pcbs = Function.update s.kernel.pcbs s.kernel.runningPid
    { getCurrentPcb s.kernel with fds := fds }
  runningPid : s'.kernel.runningPid = s.kernel.runningPid
  pid : ∀ t, (s'.kernel.terminals t).pid = (s.kernel.terminals t).pid

theorem called_refl (s : Files) : Called s s (getCurrentPcb s.kernel).fds :=
  ⟨(Function.update_eq_self _ _).symm, rfl, fun _ => rfl⟩

theorem Called.fds {fds : Nat → FileDesc} (h : Called s s' fds) :
    (getCurrentPcb s'.kernel).fds = fds := by
  unfold getCurrentPcb
  rw [h.runningPid, h.pcbs, Function.update_self]

theorem Called.other {fds : Nat → FileDesc} (h : Called s s' fds) {pid : Nat}
    (hp : pid ≠ s.kernel.runningPid) : s'.kernel.pcbs pid = s.kernel.pcbs pid := by
  rw [h.pcbs, Function.update_of_ne hp]

theorem Called.setFd {fds : Nat → FileDesc} (h : Called s s' fds) (fd : Nat) (desc : FileDesc) :
    Called s (s'.setFd fd desc) (Function.update fds fd desc) := by
  refine ⟨?_, h.runningPid, h.pid⟩
  show Function.update s'.kernel.pcbs s'.kernel.runningPid
    { getCurrentPcb s'.kernel with fds := Function.update (getCurrentPcb s'.kernel).fds fd desc } = _
  rw [h.fds, h.runningPid, h.pcbs, Function.update_idem]
  congr 1
  unfold getCurrentPcb
  rw [h.runningPid, h.pcbs, Function.update_self]
  rfl

/-- A step that only changes what no call of a table reads. -/
theorem Called.setKernel {fds : Nat → FileDesc} {k : Kernel} (h : Called s s' fds)
    (hpcbs : k.pcbs = s'.kernel.pcbs) (hrun : k.runningPid = s'.kernel.runningPid)
    (hpid : ∀ t, (k.terminals t).pid = (s'.kernel.terminals t).pid) :
    Called s (s'.setKernel k) fds :=
  ⟨hpcbs.trans h.pcbs, hrun.trans h.runningPid, fun t => (hpid t).trans (h.pid t)⟩

theorem Called.setTerminal {fds : Nat → FileDesc} {t : Fin 3} {term : Terminal}
    (h : Called s s' fds) (hpid : term.pid = (s'.kernel.terminals t).pid) :
    Called s (s'.setKernel (s'.kernel.setTerminal t term)) fds := by
  refine h.setKernel rfl rfl fun u => ?_
  rw [setTerminal_terminals]
  by_cases hu : u = t
  · rw [hu, Function.update_self, hpid]
  · rw [Function.update_of_ne hu]

theorem Called.search {fds : Nat → FileDesc} (h : Called s s' fds) (pid : Nat) :
    getRunningTerminal { s'.kernel with runningPid := pid } =
      getRunningTerminal { s.kernel with runningPid := pid } := by
  have hsame : ∀ q, (s'.kernel.pcbs q).pid = (s.kernel.pcbs q).pid ∧
      (s'.kernel.pcbs q).parentPid = (s.kernel.pcbs q).parentPid ∧
      (s'.kernel.pcbs q).parentPcb = (s.kernel.pcbs q).parentPcb := by
    intro q
    by_cases hq : q = s.kernel.runningPid
    · rw [h.pcbs, hq, Function.update_self]
      exact ⟨rfl, rfl, rfl⟩
    · rw [h.other hq]
      exact ⟨rfl, rfl, rfl⟩
  exact getRunningTerminal_congr rfl h.pid (fun q => (hsame q).1) (fun q => (hsame q).2.1)
    fun q => (hsame q).2.2

theorem Called.searchEnds {fds : Nat → FileDesc} (h : Called s s' fds)
    (hterm : ∃ term, getRunningTerminal s.kernel = some term) :
    ∃ term, getRunningTerminal s'.kernel = some term := by
  obtain ⟨term, hterm⟩ := hterm
  refine ⟨term, ?_⟩
  have hsearch := h.search s'.kernel.runningPid
  rw [h.runningPid] at hsearch
  rw [← hterm]
  calc getRunningTerminal s'.kernel
      = getRunningTerminal { s'.kernel with runningPid := s.kernel.runningPid } := by
        rw [← h.runningPid]
    _ = getRunningTerminal s.kernel := hsearch

/-! ## open -/

theorem setVirtualFreqRtc_called {fds : Nat → FileDesc} (h : Called s s' fds) {freq : Nat}
    {ret : Int} {k : Kernel} (hset : setVirtualFreqRtc s'.kernel freq = some (ret, k)) :
    Called s (s'.setKernel k) fds := by
  obtain ⟨term, -, hset⟩ := Option.bind_eq_some_iff.mp hset
  cases term with
  | none =>
    obtain ⟨-, rfl⟩ := Prod.mk.inj (Option.some.inj hset)
    exact h
  | some t =>
    dsimp only at hset
    split at hset
    · obtain ⟨-, rfl⟩ := Prod.mk.inj (Option.some.inj hset)
      exact h
    · obtain ⟨-, rfl⟩ := Prod.mk.inj (Option.some.inj hset)
      exact h.setTerminal rfl

/-- No driver refuses to be opened. -/
theorem openDriver_called {fds : Nat → FileDesc} (h : Called s s' fds) {ops : FileOps}
    {ret : Int} {s'' : Files} (hopen : openDriver s' ops = some (ret, s'')) :
    ret = 0 ∧ Called s s'' fds := by
  cases ops with
  | rtc =>
    obtain ⟨⟨r, k⟩, hrtc, he⟩ := Option.map_eq_some_iff.mp hopen
    obtain ⟨⟨r', k'⟩, hset, he'⟩ := Option.map_eq_some_iff.mp hrtc
    obtain ⟨rfl, rfl⟩ := Prod.mk.inj he
    obtain ⟨rfl, rfl⟩ := Prod.mk.inj he'
    exact ⟨rfl, setVirtualFreqRtc_called h hset⟩
  | dir =>
    obtain ⟨rfl, rfl⟩ := Prod.mk.inj (Option.some.inj hopen)
    exact ⟨rfl, h.pcbs, h.runningPid, h.pid⟩
  | fs =>
    obtain ⟨rfl, rfl⟩ := Prod.mk.inj (Option.some.inj hopen)
    exact ⟨rfl, h⟩
  | stdIn =>
    obtain ⟨rfl, rfl⟩ := Prod.mk.inj (Option.some.inj hopen)
    exact ⟨rfl, h⟩
  | stdOut =>
    obtain ⟨rfl, rfl⟩ := Prod.mk.inj (Option.some.inj hopen)
    exact ⟨rfl, h⟩

/-- The loop fails without a change, or it fills in the first descriptor not in use. -/
theorem openFrom_spec {dentry : DirEntry} {fd n : Nat} {ret : Int}
    (h : openFrom s dentry fd n = some (ret, s')) :
    (ret = -1 ∧ s' = s ∧ (fileOps dentry.filetype = none ∨
      ∀ j, fd ≤ j → j < fd + n → (s.fd j).inUse = true)) ∨
    ∃ (j : Nat) (ops : FileOps), fileOps dentry.filetype = some ops ∧ ret = j ∧ fd ≤ j ∧
      j < fd + n ∧ (s.fd j).inUse = false ∧ (∀ i, fd ≤ i → i < j → (s.fd i).inUse = true) ∧
      Called s s' (Function.update (getCurrentPcb s.kernel).fds j
        (openedFile dentry ops).desc) := by
  induction n generalizing fd with
  | zero =>
    obtain ⟨rfl, rfl⟩ := Prod.mk.inj (Option.some.inj h)
    exact Or.inl ⟨rfl, rfl, Or.inr fun j hj hlt => by omega⟩
  | succ n ih =>
    unfold openFrom at h
    split at h
    · rename_i huse
      rcases ih h with ⟨rfl, rfl, hall⟩ | ⟨j, ops, hops, hret, hle, hlt, hfree, hlow, hcalled⟩
      · refine Or.inl ⟨rfl, rfl, hall.imp id fun hall j hj hlt => ?_⟩
        rcases Nat.eq_or_lt_of_le hj with rfl | hgt
        · exact huse
        · exact hall j hgt (by omega)
      · refine Or.inr ⟨j, ops, hops, hret, by omega, by omega, hfree, fun i hi hij => ?_, hcalled⟩
        rcases Nat.eq_or_lt_of_le hi with rfl | hgt
        · exact huse
        · exact hlow i hgt hij
    · rename_i huse
      cases hops : fileOps dentry.filetype with
      | none =>
        rw [hops] at h
        obtain ⟨rfl, rfl⟩ := Prod.mk.inj (Option.some.inj h)
        exact Or.inl ⟨rfl, rfl, Or.inl rfl⟩
      | some ops =>
        rw [hops] at h
        obtain ⟨⟨r, s2⟩, hopen, h⟩ := Option.bind_eq_some_iff.mp h
        have hstart : Called s _ _ :=
          (called_refl s).setFd fd { s.fd fd with jumptable := some ops }
        obtain ⟨rfl, hcalled⟩ := openDriver_called hstart hopen
        dsimp only at h
        rw [if_neg (by decide)] at h
        obtain ⟨rfl, rfl⟩ := Prod.mk.inj (Option.some.inj h)
        refine Or.inr ⟨fd, ops, rfl, rfl, Nat.le_refl _, by omega, by simpa using huse,
          fun i hi hlt => by omega, ?_⟩
        have hfinal := hcalled.setFd fd ⟨(s2.fd fd).jumptable,
          if dentry.filetype = ftReg then dentry.inodeIdx else 0, 0, true⟩
        rw [Function.update_idem] at hfinal
        have hdesc : (⟨(s2.fd fd).jumptable, if dentry.filetype = ftReg then dentry.inodeIdx else 0,
            0, true⟩ : FileDesc) = (openedFile dentry ops).desc := by
          unfold Files.fd
          rw [hcalled.fds, Function.update_self]
          rfl
        rw [← hdesc]
        exact hfinal

theorem openDriver_some (hterm : ∃ term, getRunningTerminal s.kernel = some term)
    (ops : FileOps) : ∃ r, openDriver s ops = some r := by
  obtain ⟨term, hterm⟩ := hterm
  cases ops with
  | rtc =>
    unfold openDriver rtcOpen setVirtualFreqRtc
    rw [hterm, Option.bind_eq_bind, Option.bind_some]
    cases term with
    | none => exact ⟨_, rfl⟩
    | some t =>
      dsimp only
      split <;> exact ⟨_, rfl⟩
  | dir => exact ⟨_, rfl⟩
  | fs => exact ⟨_, rfl⟩
  | stdIn => exact ⟨_, rfl⟩
  | stdOut => exact ⟨_, rfl⟩

/-- The loop comes to its end if the search for the caller's terminal does. -/
theorem openFrom_some (hterm : ∃ term, getRunningTerminal s.kernel = some term)
    (dentry : DirEntry) (fd n : Nat) : ∃ r, openFrom s dentry fd n = some r := by
  induction n generalizing fd with
  | zero => exact ⟨_, rfl⟩
  | succ n ih =>
    unfold openFrom
    split
    · exact ih (fd + 1)
    cases fileOps dentry.filetype with
    | none => exact ⟨_, rfl⟩
    | some ops =>
      have hcalled := (called_refl s).setFd fd { s.fd fd with jumptable := some ops }
      obtain ⟨r, hr⟩ := openDriver_some (hcalled.searchEnds hterm) ops
      by_cases hret : r.1 = -1
      · exact ⟨_, Option.bind_eq_some_iff.mpr ⟨r, hr, if_pos hret⟩⟩
      · exact ⟨_, Option.bind_eq_some_iff.mpr ⟨r, hr, if_neg hret⟩⟩

/-! ## The table and the map -/

variable {files : OpenFiles} {fds : Nat → FileDesc}

theorem Refines.inUse (h : Refines files fds) {fd : Nat} (hge : fdStart ≤ fd) (hlt : fd < fdCnt) :
    (fds fd).inUse = (files fd).isSome := by
  rw [h.opened fd hge hlt]
  cases files fd <;> rfl

/-- The flag and the table of operations of an entry go together. -/
theorem Refines.jumptable (h : Refines files fds) {fd : Nat} (hge : fdStart ≤ fd)
    (hlt : fd < fdCnt) : (fds fd).jumptable = (files fd).map OpenFile.ops := by
  rw [h.opened fd hge hlt]
  cases files fd <;> rfl

/-- One entry changes, in the table as in the map. -/
theorem Refines.update (h : Refines files fds) {fd : Nat} (hge : fdStart ≤ fd) (hlt : fd < fdCnt)
    (f : Option OpenFile) :
    Refines (Function.update files fd f)
      (Function.update fds fd (f.elim closedFd OpenFile.desc)) := by
  have h0 : 0 ≠ fd := by unfold fdStart at hge; omega
  have h1 : 1 ≠ fd := by unfold fdStart at hge; omega
  refine ⟨?_, ?_, fun j hj hjlt => ?_, fun j hj => ?_⟩
  · rw [Function.update_of_ne h0]
    exact h.stdin
  · rw [Function.update_of_ne h1]
    exact h.stdout
  · by_cases he : j = fd
    · rw [he, Function.update_self, Function.update_self]
    · rw [Function.update_of_ne he, Function.update_of_ne he]
      exact h.opened j hj hjlt
  · by_cases he : j = fd
    · rw [he]
      exact ⟨hge, hlt⟩
    · rw [Function.update_of_ne he] at hj
      exact h.domain j hj

/-! ## One call at a time -/

/-- Where `open` fails nothing changes; else it fills in the lowest free descriptor. -/
theorem openCall_spec (h : Refines files (getCurrentPcb s.kernel).fds) {name : Option CString}
    {ret : Int} (hopen : openCall img s name = some (ret, s')) :
    (ret = -1 ∧ s' = s ∧ Refused img files name) ∨
    ∃ (fd : Nat) (cname : CString) (dentry : DirEntry) (ops : FileOps),
      ret = fd ∧ LowestFree files fd ∧ ¬ Refused img files name ∧ name = some cname ∧
      readDentryByName img cname = some dentry ∧ fileOps dentry.filetype = some ops ∧
      Called s s' (Function.update (getCurrentPcb s.kernel).fds fd
        (openedFile dentry ops).desc) := by
  unfold openCall at hopen
  cases name with
  | none =>
    obtain ⟨rfl, rfl⟩ := Prod.mk.inj (Option.some.inj hopen)
    exact Or.inl ⟨rfl, rfl, .null⟩
  | some cname =>
    dsimp only at hopen
    split at hopen
    · rename_i hempty
      obtain ⟨rfl, rfl⟩ := Prod.mk.inj (Option.some.inj hopen)
      exact Or.inl ⟨rfl, rfl, .empty hempty⟩
    rename_i hne
    cases hfound : readDentryByName img cname with
    | none =>
      rw [hfound] at hopen
      obtain ⟨rfl, rfl⟩ := Prod.mk.inj (Option.some.inj hopen)
      exact Or.inl ⟨rfl, rfl, .unknownName hfound⟩
    | some dentry =>
      rw [hfound] at hopen
      have huse : ∀ j, fdStart ≤ j → j < fdStart + (fdCnt - fdStart) →
          (s.fd j).inUse = (files j).isSome := fun j hj hlt => h.inUse hj hlt
      rcases openFrom_spec hopen with
        ⟨rfl, rfl, htype | hall⟩ | ⟨j, ops, hops, hret, hle, hlt, hfree, hlow, hcalled⟩
      · exact Or.inl ⟨rfl, rfl, .unknownType hfound htype⟩
      · exact Or.inl ⟨rfl, rfl, .full fun fd hge hlt => (huse fd hge hlt).symm.trans (hall fd hge hlt)⟩
      · have hnone : files j = none := by
          rw [huse j hle hlt] at hfree
          exact Option.not_isSome_iff_eq_none.mp (by simp [hfree])
        refine Or.inr ⟨j, cname, dentry, ops, hret, ⟨hle, hlt, hnone, fun i hi hij => ?_⟩, ?_, rfl,
          hfound, hops, hcalled⟩
        · rw [← huse i hi (by omega)]
          exact hlow i hi hij
        · intro hrefused
          cases hrefused with
          | empty hempty => exact hne hempty
          | unknownName hno => exact nomatch hno.symm.trans hfound
          | unknownType hfound' htype =>
            obtain rfl := Option.some.inj (hfound'.symm.trans hfound)
            exact nomatch htype.symm.trans hops
          | full hfull =>
            have hsome := hfull j hle hlt
            rw [hnone] at hsome
            cases hsome

theorem closeCall_spec (h : Refines files (getCurrentPcb s.kernel).fds) (fd : Int) :
    (((closeCall s fd).1 = 0 ∧ (files fd.toNat).isSome = true ∧
        Called s (closeCall s fd).2
          (Function.update (getCurrentPcb s.kernel).fds fd.toNat closedFd)) ∨
      (closeCall s fd).1 = -1 ∧ files fd.toNat = none ∧ (closeCall s fd).2 = s) := by
  unfold closeCall close
  dsimp only
  split
  · rename_i hrange
    refine Or.inr ⟨rfl, ?_, rfl⟩
    rw [← Option.not_isSome_iff_eq_none]
    intro hsome
    have := h.domain _ hsome
    omega
  rename_i hrange
  have hge : fdStart ≤ fd.toNat := by omega
  have hlt : fd.toNat < fdCnt := by omega
  rw [h.inUse hge hlt, h.jumptable hge hlt]
  cases hf : files fd.toNat with
  | none => exact Or.inr ⟨rfl, rfl, rfl⟩
  | some f => exact Or.inl ⟨rfl, rfl, rfl, rfl, fun _ => rfl⟩

theorem checkFd_some {fd nbytes : Int} {ops : FileOps} (h : checkFd s fd nbytes = some ops) :
    0 ≤ fd ∧ fd < fdCnt ∧ 0 ≤ nbytes ∧ (s.fd fd.toNat).inUse = true ∧
      (s.fd fd.toNat).jumptable = some ops := by
  unfold checkFd at h
  split at h
  · cases h
  · rename_i hchecks
    simp only [not_or, Int.not_lt, Int.not_le, Bool.not_eq_true, Bool.not_eq_false'] at hchecks
    exact ⟨hchecks.1, hchecks.2.1, hchecks.2.2.1, hchecks.2.2.2, h⟩

/-- The operations of a descriptor in use, by the map. -/
theorem Refines.ops (h : Refines files fds) {fd : Nat} (hlt : fd < fdCnt) {f : OpenFile}
    (hf : files fd = some f) : (fds fd).jumptable = some f.ops := by
  rw [h.jumptable (h.domain fd (by rw [hf]; rfl)).1 hlt, hf]
  rfl

/-- A driver other than `file_read` leaves the table alone. -/
theorem readDriver_called {ops : FileOps} (hne : ops ≠ .fs) {fd : Nat} {stale buf : Nat → UInt8}
    {nbytes : Int} {o : Outcome} (h : readDriver img s ops fd stale buf nbytes = some o) :
    Called s o.files (getCurrentPcb s.kernel).fds := by
  cases ops with
  | stdIn =>
    unfold readDriver terminalRead at h
    dsimp only at h
    split at h
    · obtain rfl := Option.some.inj h
      exact called_refl s
    obtain ⟨term, -, h⟩ := Option.bind_eq_some_iff.mp h
    cases term with
    | none =>
      obtain rfl := Option.some.inj h
      exact called_refl s
    | some t =>
      obtain rfl := Option.some.inj h
      exact (called_refl s).setTerminal rfl
  | stdOut =>
    obtain rfl := Option.some.inj h
    exact called_refl s
  | rtc =>
    obtain ⟨term, -, h⟩ := Option.bind_eq_some_iff.mp h
    cases term with
    | none =>
      obtain rfl := Option.some.inj h
      exact called_refl s
    | some t =>
      obtain rfl := Option.some.inj h
      exact (called_refl s).setTerminal rfl
  | fs => exact absurd rfl hne
  | dir =>
    obtain rfl := Option.some.inj h
    unfold dirRead
    dsimp only
    split <;> exact ⟨(called_refl s).pcbs, rfl, fun _ => rfl⟩

/-- The request `file_read` makes of `read_data`. -/
def fileRequest (img : Image) (desc : FileDesc) (buf : Nat → UInt8) (nbytes : Int) : ReadResult :=
  readData img desc.inode desc.filePosition (some buf)
    (if nbytes = 0 then (img.inodes desc.inode).size else (nbytes % u32).toNat)

theorem fileRead_eq {fd : Nat} (huse : (s.fd fd).inUse = true) (buf : Nat → UInt8) (nbytes : Int) :
    fileRead img s fd buf nbytes = ⟨some (fileRequest img (s.fd fd) buf nbytes).ret,
      (fileRequest img (s.fd fd) buf nbytes).buf,
      if 0 ≤ (fileRequest img (s.fd fd) buf nbytes).ret then
        s.setFd fd { s.fd fd with
          filePosition := ((s.fd fd).filePosition +
            (fileRequest img (s.fd fd) buf nbytes).ret.toNat) % u32 }
      else s⟩ := by
  unfold fileRead
  dsimp only
  rw [huse]
  rfl

/-- `file_read` moves the position of its descriptor by what it returns. -/
theorem fileRead_called (img : Image) {fd : Nat} (huse : (s.fd fd).inUse = true)
    (buf : Nat → UInt8) (nbytes : Int) :
    ∃ ret, (fileRead img s fd buf nbytes).ret = some ret ∧
      Called s (fileRead img s fd buf nbytes).files
        (if 0 ≤ ret then Function.update (getCurrentPcb s.kernel).fds fd
          { s.fd fd with filePosition := ((s.fd fd).filePosition + ret.toNat) % u32 }
        else (getCurrentPcb s.kernel).fds) := by
  rw [fileRead_eq huse]
  refine ⟨_, rfl, ?_⟩
  by_cases hret : 0 ≤ (fileRequest img (s.fd fd) buf nbytes).ret
  · rw [if_pos hret, if_pos hret]
    exact (called_refl s).setFd fd _
  · rw [if_neg hret, if_neg hret]
    exact called_refl s

theorem OpenFiles.after_read_same {fd : Int} (h : ∀ f, files fd.toNat = some f → f.ops ≠ .fs)
    (ret : Int) (stale : Nat → UInt8) (buf : Option (Nat → UInt8)) (nbytes : Int) :
    files.after img ret (.read fd stale buf nbytes) = files := by
  unfold OpenFiles.after
  dsimp only
  split
  · rfl
  · refine Function.update_eq_self_iff.mpr ?_
    cases hf : files fd.toNat with
    | none => rfl
    | some f => rw [Option.map_some, if_neg (h f hf)]

/-! ## What any call does -/

/-- The call is one about descriptor `j`. -/
def FileCall.Concerns (ret : Option Int) (j : Nat) : FileCall → Prop
  | .openFile _ => ret = some (j : Int)
  | .close fd => fd = j
  | .read fd _ _ _ => fd = j
  | .write _ _ _ => False

/-- After a call the caller's table is the image of the map the call leads to, and differs from
    the table before in the descriptor of the call at most. -/
def CallRefines (img : Image) (s : Files) (files : OpenFiles) (c : FileCall) (o : Outcome) : Prop :=
  ∃ fds, Called s o.files fds ∧ Refines (o.ret.elim files fun ret => files.after img ret c) fds ∧
    ∀ j, ¬ c.Concerns o.ret j → fds j = (getCurrentPcb s.kernel).fds j

theorem OpenFiles.after_read_fs {fd : Int} {f : OpenFile} (hf : files fd.toNat = some f)
    (hops : f.ops = .fs) {ret : Int} (hret : 0 ≤ ret) (stale : Nat → UInt8)
    (buf : Option (Nat → UInt8)) (nbytes : Int) :
    files.after img ret (.read fd stale buf nbytes) = Function.update files fd.toNat
      (some { f with position := (f.position + ret.toNat) % u32 }) := by
  unfold OpenFiles.after
  dsimp only
  rw [if_neg (by omega), hf, Option.map_some, if_pos hops]

/-- A call after which the table and the map are as they were. -/
theorem callRefines_same (h : Refines files (getCurrentPcb s.kernel).fds) {c : FileCall}
    {o : Outcome} (hcalled : Called s o.files (getCurrentPcb s.kernel).fds)
    (hafter : ∀ ret, o.ret = some ret → files.after img ret c = files) :
    CallRefines img s files c o := by
  refine ⟨_, hcalled, ?_, fun _ _ => rfl⟩
  cases hret : o.ret with
  | none => exact h
  | some ret =>
    rw [Option.elim_some, hafter ret hret]
    exact h

/-- `file_read` on a descriptor of the table. -/
theorem fileRead_refines (h : Refines files (getCurrentPcb s.kernel).fds) {fd : Int} {f : OpenFile}
    (hf : files fd.toNat = some f) (hops : f.ops = .fs) (hge : 0 ≤ fd) (stale b : Nat → UInt8)
    (nbytes : Int) :
    CallRefines img s files (.read fd stale (some b) nbytes)
      (fileRead img s fd.toNat b nbytes) := by
  obtain ⟨hdom, hlt⟩ := h.domain fd.toNat (by rw [hf]; rfl)
  have hdesc : s.fd fd.toNat = f.desc := by
    unfold Files.fd
    rw [h.opened _ hdom hlt, hf]
    rfl
  have huse : (s.fd fd.toNat).inUse = true := by rw [hdesc]; rfl
  obtain ⟨ret, hret, hcalled⟩ := fileRead_called img huse b nbytes
  by_cases hpos : 0 ≤ ret
  · rw [if_pos hpos] at hcalled
    refine ⟨_, hcalled, ?_, fun j hj => ?_⟩
    · rw [hret, Option.elim_some, OpenFiles.after_read_fs hf hops hpos, hdesc]
      exact h.update hdom hlt (some { f with position := (f.position + ret.toNat) % u32 })
    · exact Function.update_of_ne (fun he => hj (by show fd = _; omega)) _ _
  · rw [if_neg hpos] at hcalled
    refine callRefines_same h hcalled fun r hr => ?_
    obtain rfl := Option.some.inj (hret.symm.trans hr)
    exact if_pos (by omega)

theorem readCall_refines (h : Refines files (getCurrentPcb s.kernel).fds) {fd : Int}
    {stale : Nat → UInt8} {buf : Option (Nat → UInt8)} {nbytes : Int} {o : Outcome}
    (hread : readCall img s fd stale buf nbytes = some o) :
    CallRefines img s files (.read fd stale buf nbytes) o := by
  unfold readCall at hread
  split at hread
  · rename_i b ops hcheck
    obtain ⟨hge, hlt, -, huse, hops⟩ := checkFd_some hcheck
    have hltn : fd.toNat < fdCnt := by omega
    by_cases hfs : ops = .fs
    · subst hfs
      obtain rfl := Option.some.inj hread
      cases hf : files fd.toNat with
      | some f =>
        exact fileRead_refines h hf (Option.some.inj ((h.ops hltn hf).symm.trans hops)) hge _ _ _
      | none =>
        -- the standard descriptors are no files, the others are in use only if they are open
        exfalso
        by_cases hdom : fdStart ≤ fd.toNat
        · have hin := h.inUse hdom hltn
          rw [hf, show ((getCurrentPcb s.kernel).fds fd.toNat).inUse = true from huse] at hin
          cases hin
        · have hstd : fd.toNat = 0 ∨ fd.toNat = 1 := by unfold fdStart at hdom; omega
          unfold Files.fd at hops
          rcases hstd with he | he
          · rw [he, h.stdin] at hops
            cases hops
          · rw [he, h.stdout] at hops
            cases hops
    · refine callRefines_same h (readDriver_called hfs hread) fun ret _ => ?_
      refine OpenFiles.after_read_same (fun f hf hfops => hfs ?_) ret stale (some b) nbytes
      exact Option.some.inj (hops.symm.trans ((h.ops hltn hf).trans (congrArg some hfops)))
  · obtain rfl := Option.some.inj hread
    refine callRefines_same h (called_refl s) fun ret hret => ?_
    obtain rfl := Option.some.inj hret
    rfl

theorem writeCall_called {fd : Int} {buf : Option (Nat → UInt8)} {nbytes ret : Int}
    (h : writeCall s fd buf nbytes = some (ret, s')) :
    Called s s' (getCurrentPcb s.kernel).fds := by
  unfold writeCall at h
  split at h
  · rename_i b ops hcheck
    obtain ⟨⟨r, k⟩, hw, he⟩ := Option.map_eq_some_iff.mp h
    obtain ⟨-, rfl⟩ := Prod.mk.inj he
    cases ops with
    | stdOut =>
      have hf := frame_terminalWrite hw
      exact (called_refl s).setKernel hf.pcbs hf.runningPid fun t => (hf.terminals t).pid
    | rtc =>
      unfold writeDriver rtcWrite at hw
      dsimp only at hw
      split at hw
      · obtain ⟨-, rfl⟩ := Prod.mk.inj (Option.some.inj hw)
        exact called_refl s
      · obtain ⟨⟨r', k'⟩, hset, he'⟩ := Option.map_eq_some_iff.mp hw
        obtain ⟨-, rfl⟩ := Prod.mk.inj he'
        exact setVirtualFreqRtc_called (called_refl s) hset
    | stdIn =>
      obtain ⟨-, rfl⟩ := Prod.mk.inj (Option.some.inj hw)
      exact called_refl s
    | fs =>
      obtain ⟨-, rfl⟩ := Prod.mk.inj (Option.some.inj hw)
      exact called_refl s
    | dir =>
      obtain ⟨-, rfl⟩ := Prod.mk.inj (Option.some.inj hw)
      exact called_refl s
  · obtain ⟨-, rfl⟩ := Prod.mk.inj (Option.some.inj h)
    exact called_refl s

theorem OpenFiles.after_open_fails (name : Option CString) :
    files.after img (-1) (.openFile name) = files := by
  unfold OpenFiles.after
  cases hfound : name.bind (readDentryByName img) <;> simp [hfound]

theorem OpenFiles.after_opened {cname : CString} {dentry : DirEntry} {ops : FileOps}
    (hfound : readDentryByName img cname = some dentry)
    (hops : fileOps dentry.filetype = some ops) (fd : Nat) :
    files.after img fd (.openFile (some cname)) =
      Function.update files fd (some (openedFile dentry ops)) := by
  have hfd : ¬ (fd : Int) = -1 := by omega
  unfold OpenFiles.after
  simp [hfound, hops, hfd]

theorem openCall_refines (h : Refines files (getCurrentPcb s.kernel).fds) {name : Option CString}
    {ret : Int} (hopen : openCall img s name = some (ret, s')) :
    CallRefines img s files (.openFile name) ⟨some ret, none, s'⟩ := by
  rcases openCall_spec h hopen with
    ⟨rfl, rfl, -⟩ | ⟨fd, cname, dentry, ops, rfl, hlow, -, rfl, hfound, hops, hcalled⟩
  · refine callRefines_same h (called_refl _) fun r hr => ?_
    obtain rfl := Option.some.inj hr
    exact OpenFiles.after_open_fails name
  · refine ⟨_, hcalled, ?_, fun j hj => ?_⟩
    · rw [Option.elim_some, OpenFiles.after_opened hfound hops]
      exact h.update hlow.start hlow.lt (some (openedFile dentry ops))
    · exact Function.update_of_ne (fun he => hj (by rw [he]; rfl)) _ _

theorem closeCall_refines (h : Refines files (getCurrentPcb s.kernel).fds) (fd : Int) :
    CallRefines img s files (.close fd) ⟨some (closeCall s fd).1, none, (closeCall s fd).2⟩ := by
  rcases closeCall_spec h fd with ⟨hret, hsome, hcalled⟩ | ⟨hret, -, hsame⟩
  · obtain ⟨hge, hlt⟩ := h.domain _ hsome
    refine ⟨_, hcalled, ?_, fun j hj => ?_⟩
    · rw [Option.elim_some, hret]
      exact h.update hge hlt none
    · refine Function.update_of_ne (fun he => hj ?_) _ _
      show fd = _
      unfold fdStart at hge
      omega
  · rw [hsame, hret]
    exact callRefines_same h (called_refl _) fun r hr => by obtain rfl := Option.some.inj hr; rfl

theorem fileCall_refines (h : Refines files (getCurrentPcb s.kernel).fds) {c : FileCall}
    {o : Outcome} (hcall : fileCall img s c = some o) : CallRefines img s files c o := by
  cases c with
  | openFile name =>
    obtain ⟨⟨ret, s'⟩, hopen, rfl⟩ := Option.map_eq_some_iff.mp hcall
    exact openCall_refines h hopen
  | close fd =>
    obtain rfl := Option.some.inj hcall
    exact closeCall_refines h fd
  | read fd stale buf nbytes => exact readCall_refines h hcall
  | write fd buf nbytes =>
    obtain ⟨⟨ret, s'⟩, hwrite, rfl⟩ := Option.map_eq_some_iff.mp hcall
    exact callRefines_same h (writeCall_called hwrite) fun _ _ => rfl

/-! ## Runs -/

/-- A process as `execute` starts it. -/
structure NewProcess (k : Kernel) (pid : Nat) : Prop where
  table : FreshTable (k.pcbs pid).fds
  search : ∃ term, getRunningTerminal { k with runningPid := pid } = some term

/-- Only processes of `procs` run. -/
def FileOp.Of (procs : Nat → Prop) : FileOp → Prop
  | .run _ pid => procs (pid % 256)
  | _ => True

/-- The flag and the table of operations of a descriptor say that it is open, and 0 and 1 are
    the standard ones. -/
structure TableOk (files : OpenFiles) (fds : Nat → FileDesc) : Prop where
  refines : Refines files fds
  inUse : ∀ fd, fdStart ≤ fd → fd < fdCnt → ((fds fd).inUse = true ↔ (files fd).isSome = true)
  jumptable : ∀ fd, fdStart ≤ fd → fd < fdCnt →
    ((fds fd).jumptable.isSome = true ↔ (files fd).isSome = true)

/-- `open` returns, with -1 exactly for the reasons it has, or with the lowest descriptor. -/
structure OpenSpec (img : Image) (s : Files) (files : OpenFiles) (name : Option CString)
    (ret : Int) (s' : Files) : Prop where
  returns : openCall img s name = some (ret, s')
  fails : ret = -1 ↔ Refused img files name
  unchanged : ret = -1 → s' = s
  lowest : ret ≠ -1 → ∃ fd : Nat, ret = fd ∧ LowestFree files fd ∧
    (s'.fd fd).inUse = true ∧ (s'.fd fd).filePosition = 0

/-- `close` succeeds exactly on a descriptor above the standard ones that is open. -/
structure CloseSpec (s : Files) (files : OpenFiles) (fd : Int) : Prop where
  succeeds : (closeCall s fd).1 = 0 ↔
    (fdStart : Int) ≤ fd ∧ fd < fdCnt ∧ (files fd.toNat).isSome = true
  fails : (closeCall s fd).1 ≠ 0 → (closeCall s fd).1 = -1 ∧ (closeCall s fd).2 = s

/-- The calls of the running process do on its table what they do on its map, and nothing
    else. -/
def CallsAsMap (img : Image) (s : Session) : FileOp → Prop
  | .call c =>
    let pid := s.files.kernel.runningPid
    (match c with
      | .openFile name => ∃ ret s', OpenSpec img s.files (openFiles img s.record pid) name ret s'
      | .close fd => CloseSpec s.files (openFiles img s.record pid) fd
      | _ => True) ∧
    ∀ o, fileCall img s.files c = some o →
      (∀ p, p ≠ pid → o.files.kernel.pcbs p = s.files.kernel.pcbs p) ∧
      ∀ j, ¬ c.Concerns o.ret j →
        (o.files.kernel.pcbs pid).fds j = (s.files.kernel.pcbs pid).fds j
  | _ => True

/-- What the run keeps. -/
structure Tabled (img : Image) (procs : Nat → Prop) (s : Session) : Prop where
  running : procs s.files.kernel.runningPid
  table : ∀ p, procs p → Refines (openFiles img s.record p) (s.files.kernel.pcbs p).fds
  search : ∀ p, procs p → ∃ term, getRunningTerminal { s.files.kernel with runningPid := p } = some term

theorem Refines.ok (h : Refines files fds) : TableOk files fds := by
  refine ⟨h, fun fd hge hlt => by rw [h.inUse hge hlt], fun fd hge hlt => ?_⟩
  rw [h.jumptable hge hlt, Option.isSome_map]

theorem Refines.start (h : FreshTable fds) : Refines (fun _ => none) fds :=
  ⟨h.stdin, h.stdout, h.closed, fun _ hf => nomatch hf⟩

variable {procs : Nat → Prop} {t t' : Session}

theorem openCall_some (hterm : ∃ term, getRunningTerminal s.kernel = some term)
    (name : Option CString) : ∃ r, openCall img s name = some r := by
  unfold openCall
  cases name with
  | none => exact ⟨_, rfl⟩
  | some cname =>
    dsimp only
    split
    · exact ⟨_, rfl⟩
    cases readDentryByName img cname with
    | none => exact ⟨_, rfl⟩
    | some dentry => exact openFrom_some hterm dentry _ _

theorem Tabled.open_spec (h : Tabled img procs t) (name : Option CString) :
    ∃ ret s', OpenSpec img t.files
      (openFiles img t.record t.files.kernel.runningPid) name ret s' := by
  obtain ⟨⟨ret, s'⟩, hopen⟩ := openCall_some (h.search _ h.running) name
  refine ⟨ret, s', ?_⟩
  rcases openCall_spec (h.table _ h.running) hopen with
    ⟨rfl, rfl, hrefused⟩ | ⟨fd, cname, dentry, ops, rfl, hlow, hnot, -, -, -, hcalled⟩
  · exact ⟨hopen, ⟨fun _ => hrefused, fun _ => rfl⟩, fun _ => rfl, fun hne => absurd rfl hne⟩
  · refine ⟨hopen, ⟨fun he => by omega, fun hr => absurd hr hnot⟩, fun he => by omega,
      fun _ => ⟨fd, rfl, hlow, ?_⟩⟩
    unfold Files.fd
    rw [hcalled.fds, Function.update_self]
    exact ⟨rfl, rfl⟩

theorem Tabled.close_spec (h : Tabled img procs t) (fd : Int) :
    CloseSpec t.files (openFiles img t.record t.files.kernel.runningPid) fd := by
  have htable := h.table _ h.running
  rcases closeCall_spec htable fd with ⟨hret, hsome, -⟩ | ⟨hret, hnone, hsame⟩
  · obtain ⟨hge, hlt⟩ := htable.domain _ hsome
    unfold fdStart at hge
    refine ⟨⟨fun _ => ⟨?_, by omega, hsome⟩, fun _ => hret⟩, fun hne => absurd hret hne⟩
    unfold fdStart
    omega
  · refine ⟨⟨fun he => ?_, fun hopen => ?_⟩, fun _ => ⟨hret, hsame⟩⟩
    · rw [hret] at he
      cases he
    · rw [hnone] at hopen
      exact nomatch hopen.2.2

theorem Session.returned_eq (t : Session) (c : FileCall) (o : Outcome) (p : Nat) :
    openFiles img (t.returned c o).record p = if t.files.kernel.runningPid = p then
      o.ret.elim (openFiles img t.record p) fun ret => (openFiles img t.record p).after img ret c
      else openFiles img t.record p := by
  unfold Session.returned
  dsimp only
  cases o.ret with
  | none => rw [Option.elim_none, ite_self]
  | some ret => rfl

theorem Tabled.call (h : Tabled img procs t) {c : FileCall} {o : Outcome}
    (hcall : fileCall img t.files c = some o) : Tabled img procs (t.returned c o) := by
  obtain ⟨fds, hcalled, hrefines, -⟩ := fileCall_refines (h.table _ h.running) hcall
  refine ⟨?_, fun p hp => ?_, fun p hp => ?_⟩
  · show procs o.files.kernel.runningPid
    rw [hcalled.runningPid]
    exact h.running
  · rw [Session.returned_eq]
    show Refines _ (o.files.kernel.pcbs p).fds
    split
    · rename_i hrun
      subst hrun
      rw [hcalled.pcbs, Function.update_self]
      exact hrefines
    · rename_i hrun
      rw [hcalled.other (Ne.symm hrun)]
      exact h.table p hp
  · obtain ⟨term, hterm⟩ := h.search p hp
    exact ⟨term, (hcalled.search p).trans hterm⟩

theorem Tabled.step (h : Tabled img procs t) {op : FileOp} (hop : op.Of procs)
    (hstep : sessionStep img t op = some t') : Tabled img procs t' := by
  cases op with
  | call c =>
    obtain ⟨o, hcall, rfl⟩ := Option.map_eq_some_iff.mp hstep
    exact h.call hcall
  | run paging pid =>
    obtain rfl := Option.some.inj hstep
    exact ⟨hop, h.table, fun p hp => h.search p hp⟩
  | interrupt mem terminals =>
    obtain rfl := Option.some.inj hstep
    refine ⟨h.running, h.table, fun p hp => ?_⟩
    obtain ⟨term, hterm⟩ := h.search p hp
    exact ⟨term, hterm⟩

theorem Tabled.callsAsMap (h : Tabled img procs t) (op : FileOp) : CallsAsMap img t op := by
  cases op with
  | call c =>
    refine ⟨?_, fun o hcall => ?_⟩
    · cases c with
      | openFile name => exact h.open_spec name
      | close fd => exact h.close_spec fd
      | read fd stale buf nbytes => trivial
      | write fd buf nbytes => trivial
    · obtain ⟨fds, hcalled, -, hsame⟩ := fileCall_refines (h.table _ h.running) hcall
      refine ⟨fun p hp => hcalled.other hp, fun j hj => ?_⟩
      rw [hcalled.pcbs, Function.update_self]
      exact hsame j hj
  | run paging pid => trivial
  | interrupt mem terminals => trivial

theorem Tabled.start (hrecord : t.record = [])
    (hstart : ∀ p, procs p → NewProcess t.files.kernel p)
    (hrun : procs t.files.kernel.runningPid) : Tabled img procs t := by
  refine ⟨hrun, fun p hp => ?_, fun p hp => (hstart p hp).search⟩
  rw [hrecord]
  exact Refines.start (hstart p hp).table

/-- From the tables `execute` builds, through any run of calls of any processes: every table is
    the image of the map its process's calls lead to, and every call is one on the map. -/
theorem descriptor_tables_refine (hrecord : t.record = [])
    (hstart : ∀ p, procs p → NewProcess t.files.kernel p) (hrun : procs t.files.kernel.runningPid)
    {ops : List FileOp} (hops : ∀ op ∈ ops, op.Of procs) :
    AllStates (sessionStep img) (fun t' => ∀ p, procs p →
        TableOk (openFiles img t'.record p) (t'.files.kernel.pcbs p).fds) t ops ∧
      AllMeet (sessionStep img) (CallsAsMap img) t ops := by
  have hkept : Tabled img procs t := .start hrecord hstart hrun
  have hstep : ∀ t op t', Tabled img procs t → op.Of procs → sessionStep img t op = some t' →
      Tabled img procs t' := fun _ _ _ h hop hstep => h.step hop hstep
  have hmeet : AllMeet (sessionStep img) (fun _ op => op.Of procs) t ops :=
    allMeet_of_forall hops t
  exact ⟨(allStates_of_allSteps hstep hkept hmeet.allSteps).imp fun _ h p hp => (h.table p hp).ok,
    allMeet_of_allMeet hstep (fun _ op h _ => h.callsAsMap op) hkept hmeet⟩

theorem Booted.newProcess {fs : Image} {k : Kernel} (h : Booted fs k) : NewProcess k 0 := by
  refine ⟨h.spec.table, some 0, ?_⟩
  rw [← h.spec.runningPid]
  exact h.runningTerminal

theorem Booted.newProcesses {fs : Image} {k : Kernel} (h : Booted fs k) :
    ∀ p, p = 0 → NewProcess k p := by
  rintro p rfl
  exact h.newProcess

def Kernel.session (k : Kernel) : Session := ⟨⟨k, 0⟩, []⟩

/-- The name of the second file of `smallImage`. -/
def nameA : CString := ⟨[0x61], by simp⟩

theorem descriptor_tables_refine_smallImage : ∃ k, Booted smallImage k ∧
    AllStates (sessionStep smallImage) (fun t => ∀ p, p = 0 →
        TableOk (openFiles smallImage t.record p) (t.files.kernel.pcbs p).fds) k.session
      [.call (.openFile (some nameA)), .run k.paging 0, .call (.close 2), .call (.close 2)] ∧
    AllMeet (sessionStep smallImage) (CallsAsMap smallImage) k.session
      [.call (.openFile (some nameA)), .run k.paging 0, .call (.close 2), .call (.close 2)] := by
  obtain ⟨k, hk⟩ := booted_smallImage
  exact ⟨k, hk, descriptor_tables_refine rfl hk.newProcesses hk.spec.runningPid
    (by simp [FileOp.Of])⟩

end Mp3Kernel
