/-
  Directory descriptors share one read position.

  `dir_read` takes the next entry from `dir_read_count`, which every open of a directory sets to
  0 and every read of a directory advances, whoever's descriptor it is. `callsOn` is what a
  process has called on a descriptor since it was opened; `Alone` says that the same calls, made
  by themselves from any state that gives out the same descriptor, return the same.

  `directories_alone`: in a run in which `dir_read_count` is, at every read of a directory, the
  number of reads through that descriptor, every directory descriptor has returned what it
  returns alone. `directories_interfere`: in the other runs it need not.
-/
import Mp3Kernel.Proofs.Logs

namespace Mp3Kernel

open Base.Runs

variable {img : Image} {procs : Nat → Prop} {s s' : Files} {t t' : Session} {files : OpenFiles}

/-! ## The calls on a descriptor -/

/-- The `open` that returned the descriptor and its reads, the last call first. -/
def descriptorCalls : Log (List Returned) := ⟨[], fun r => [r], fun calls r => r :: calls⟩

def callsOn (record : List Returned) (pid fd : Nat) : List Returned :=
  descriptorCalls.of record pid fd

/-- The call is a `read` that gets past the checks on its buffer and length. -/
def FileCall.reads : FileCall → Bool
  | .read _ _ buf nbytes => buf.isSome && decide (0 ≤ nbytes)
  | _ => false

/-- How often a descriptor has been read. -/
def readsOf (calls : List Returned) : Nat := calls.countP fun r => r.call.reads

@[simp] theorem readsOf_cons (r : Returned) (calls : List Returned) :
    readsOf (r :: calls) = readsOf calls + if r.call.reads then 1 else 0 :=
  List.countP_cons

/-- A state of process `pid` in which `open` returns `fd`. -/
structure OpensNext (img : Image) (t : Session) (pid fd : Nat) : Prop where
  tabled : Tabled img (fun p => p = pid) t
  lowest : LowestFree (openFiles img t.record pid) fd

/-- The calls return the same if no others are made. -/
def Alone (img : Image) (pid fd : Nat) (calls : List Returned) : Prop :=
  ∀ t0, OpensNext img t0 pid fd →
    ∃ t1, run (sessionStep img) t0 (calls.reverse.map fun r => .call r.call) = some t1 ∧
      t1.record = calls ++ t0.record

/-- Every open directory has returned what it returns alone. -/
def DirectoriesAlone (img : Image) (procs : Nat → Prop) (t : Session) : Prop :=
  ∀ p, procs p → ∀ fd f, openFiles img t.record p fd = some f → f.ops = .dir →
    Alone img p fd (callsOn t.record p fd)

/-- At a read of a directory the counter is the number of reads through its descriptor. -/
def ReadInTurn (img : Image) (t : Session) : FileOp → Prop
  | .call (.read fd _ (some _) nbytes) => ∀ f, 0 ≤ fd → 0 ≤ nbytes →
      openFiles img t.record t.files.kernel.runningPid fd.toNat = some f → f.ops = .dir →
      t.files.dirReadCount =
        readsOf (callsOn t.record t.files.kernel.runningPid fd.toNat) % u32
  | _ => True

/-! ## Opening a directory -/

theorem openFrom_dir {dentry : DirEntry} (hops : fileOps dentry.filetype = some .dir)
    {fd n : Nat} {ret : Int} (h : openFrom s dentry fd n = some (ret, s')) (hret : ret ≠ -1) :
    s'.dirReadCount = 0 := by
  induction n generalizing fd with
  | zero =>
    obtain ⟨rfl, -⟩ := Prod.mk.inj (Option.some.inj h)
    exact absurd rfl hret
  | succ n ih =>
    unfold openFrom at h
    split at h
    · exact ih h
    · rw [hops] at h
      obtain ⟨-, rfl⟩ := Prod.mk.inj (Option.some.inj h)
      rfl

theorem LowestFree.unique {fd fd' : Nat} (h : LowestFree files fd)
    (h' : LowestFree files fd') : fd = fd' := by
  rcases Nat.lt_trichotomy fd fd' with hlt | rfl | hgt
  · have hsome := h'.lowest fd h.start hlt
    rw [h.free] at hsome
    cases hsome
  · rfl
  · have hsome := h.lowest fd' h'.start hgt
    rw [h'.free] at hsome
    cases hsome

/-- A step of a session that adds `r` to the record and leaves the counter at `count`. -/
structure Adds (img : Image) (t t' : Session) (r : Returned) (count : Nat) : Prop where
  step : sessionStep img t (.call r.call) = some t'
  record : t'.record = r :: t.record
  count : t'.files.dirReadCount = count

variable {cname : CString} {dentry : DirEntry} {fd : Nat}

/-- Opening a directory with a descriptor free sets the counter to 0. -/
theorem Tabled.open_dir (h : Tabled img procs t)
    (hlow : LowestFree (openFiles img t.record t.files.kernel.runningPid) fd)
    (hname : strlen cname ≠ 0) (hfound : readDentryByName img cname = some dentry)
    (hops : fileOps dentry.filetype = some .dir) :
    ∃ t', Adds img t t' ⟨t.files.kernel.runningPid, .openFile (some cname), fd, []⟩ 0 := by
  obtain ⟨⟨ret, s'⟩, hopen⟩ := openCall_some (h.search _ h.running) (some cname)
  have hret : ret = fd := by
    rcases openCall_spec (h.table _ h.running) hopen with
      ⟨-, -, hrefused⟩ | ⟨fd', _, _, _, rfl, hlow', -⟩
    · cases hrefused with
      | empty hempty => exact absurd hempty hname
      | unknownName hno => exact nomatch hno.symm.trans hfound
      | unknownType hfound' htype =>
        obtain rfl := Option.some.inj (hfound'.symm.trans hfound)
        exact nomatch htype.symm.trans hops
      | full hfull =>
        have hsome := hfull fd hlow.start hlow.lt
        rw [hlow.free] at hsome
        cases hsome
    · rw [hlow'.unique hlow]
  subst hret
  refine ⟨t.returned (.openFile (some cname)) ⟨some (fd : Int), none, s'⟩, ?_, rfl, ?_⟩
  · show ((openCall img t.files (some cname)).map _).map _ = _
    rw [hopen]
    rfl
  · unfold openCall at hopen
    dsimp only at hopen
    rw [if_neg hname, hfound] at hopen
    exact openFrom_dir hops hopen (by omega)

/-! ## Reading a directory -/

/-- The driver's part of a `read` of a directory. -/
def dirCall (img : Image) (s : Files) (stale : Nat → UInt8) (buf : Option (Nat → UInt8))
    (nbytes : Int) : Outcome :=
  match buf with
  | none => ⟨some (-1), none, s⟩
  | some b => if nbytes < 0 then ⟨some (-1), buf, s⟩ else dirRead img s stale b nbytes

theorem readCall_dir {f : OpenFile} (hlt : fd < fdCnt) (hdesc : s.fd fd = f.desc)
    (hops : f.ops = .dir) (stale : Nat → UInt8) (buf : Option (Nat → UInt8)) (nbytes : Int) :
    readCall img s fd stale buf nbytes = some (dirCall img s stale buf nbytes) := by
  have hnat : (fd : Int).toNat = fd := Int.toNat_natCast fd
  have huse : f.desc.inUse = true := rfl
  have hjump : f.desc.jumptable = some .dir := congrArg some hops
  have hcheck : checkFd s fd nbytes = if nbytes < 0 then none else some .dir := by
    unfold checkFd
    rw [hnat, hdesc, huse, hjump]
    by_cases hneg : nbytes < 0
    · rw [if_pos hneg]
      exact if_pos (Or.inr (Or.inr (Or.inl hneg)))
    · rw [if_neg hneg]
      refine if_neg ?_
      simp only [hneg, Bool.not_true, Bool.false_eq_true, or_false]
      omega
  unfold readCall dirCall
  rw [hcheck]
  cases buf with
  | none => rfl
  | some b =>
    by_cases hneg : nbytes < 0
    · rw [if_pos hneg]
      exact congrArg some (if_pos hneg).symm
    · rw [if_neg hneg]
      exact congrArg some (if_neg hneg).symm

/-- The answer is one for each value of the counter. -/
theorem dirRead_eq (img : Image) (n : Nat) (stale b : Nat → UInt8) (nbytes : Int) :
    ∃ ret buf, ∀ s : Files, s.dirReadCount = n → dirRead img s stale b nbytes =
      ⟨some ret, some buf, { s with dirReadCount := (n + 1) % u32 }⟩ := by
  let filename := (readDentryByIndex img n).elim stale fun d => d.filename
  by_cases hneg : min (min nbytes 32) (nameLen filename) < 0
  · refine ⟨-1, b, ?_⟩
    rintro s rfl
    exact if_pos hneg
  · refine ⟨if (readDentryByIndex img n).isNone then 0 else min (min nbytes 32) (nameLen filename),
      fun i => if (i : Int) < min (min nbytes 32) (nameLen filename) then filename i else b i, ?_⟩
    rintro s rfl
    exact if_neg hneg

theorem dirCall_eq (img : Image) (n fd : Nat) (stale : Nat → UInt8) (buf : Option (Nat → UInt8))
    (nbytes : Int) :
    ∃ ret buf', ∀ s : Files,
      ((FileCall.read fd stale buf nbytes).reads = true → s.dirReadCount = n) →
      dirCall img s stale buf nbytes = ⟨some ret, buf',
        if (FileCall.read fd stale buf nbytes).reads then { s with dirReadCount := (n + 1) % u32 }
        else s⟩ := by
  cases buf with
  | none => exact ⟨-1, none, fun s _ => rfl⟩
  | some b =>
    by_cases hneg : nbytes < 0
    · have hreads : (FileCall.read fd stale (some b) nbytes).reads = false := by
        simp [FileCall.reads, hneg]
      refine ⟨-1, some b, fun s _ => ?_⟩
      rw [hreads]
      exact if_pos hneg
    · have hreads : (FileCall.read fd stale (some b) nbytes).reads = true := by
        simp only [FileCall.reads, Option.isSome_some, Bool.true_and, decide_eq_true_eq]
        omega
      obtain ⟨ret, buf', heq⟩ := dirRead_eq img n stale b nbytes
      refine ⟨ret, some buf', fun s hs => ?_⟩
      rw [if_pos hreads, ← heq s (hs hreads)]
      exact if_neg hneg

/-- Reading a directory descriptor adds the same to the record wherever the counter is the
    same. -/
theorem read_dir (img : Image) (n fd : Nat) (stale : Nat → UInt8) (buf : Option (Nat → UInt8))
    (nbytes : Int) :
    ∃ ret bytes, ∀ (procs : Nat → Prop) (t : Session) (f : OpenFile), Tabled img procs t →
      openFiles img t.record t.files.kernel.runningPid fd = some f → f.ops = .dir →
      ((FileCall.read fd stale buf nbytes).reads = true → t.files.dirReadCount = n) →
      ∃ t', Adds img t t' ⟨t.files.kernel.runningPid, .read fd stale buf nbytes, ret, bytes⟩
        (if (FileCall.read fd stale buf nbytes).reads then (n + 1) % u32
          else t.files.dirReadCount) := by
  obtain ⟨ret, buf', heq⟩ := dirCall_eq img n fd stale buf nbytes
  refine ⟨ret, buf'.elim [] fun b => (List.range ret.toNat).map b, ?_⟩
  intro procs t f h hf hops hn
  obtain ⟨hge, hlt⟩ := (h.table _ h.running).domain fd (by rw [hf]; rfl)
  have hdesc : t.files.fd fd = f.desc := by
    unfold Files.fd
    exact ((h.table _ h.running).opened fd hge hlt).trans (by rw [hf]; rfl)
  have hcall : readCall img t.files fd stale buf nbytes = _ :=
    readCall_dir hlt hdesc hops stale buf nbytes
  refine ⟨t.returned (.read fd stale buf nbytes) (dirCall img t.files stale buf nbytes),
    congrArg (Option.map _) hcall, ?_, ?_⟩
  · unfold Session.returned
    rw [heq t.files hn]
    rfl
  · show (dirCall img t.files stale buf nbytes).files.dirReadCount = _
    rw [heq t.files hn]
    dsimp only
    split <;> rfl

/-! ## Runs -/

/-- The calls on the descriptor, made alone, return the same and leave the counter at their
    number. -/
def Replayed (img : Image) (pid fd : Nat) (f : OpenFile) (calls : List Returned) : Prop :=
  f.ops = .dir → ∀ t0, OpensNext img t0 pid fd →
    ∃ t1, run (sessionStep img) t0 (calls.reverse.map fun r => .call r.call) = some t1 ∧
      t1.record = calls ++ t0.record ∧ Tabled img (fun p => p = pid) t1 ∧
      openFiles img t1.record pid fd = some f ∧ t1.files.dirReadCount = readsOf calls % u32

theorem Adds.tabled {r : Returned} {count : Nat} (h : Adds img t t' r count)
    (htabled : Tabled img procs t) : Tabled img procs t' :=
  htabled.step (show FileOp.Of procs (.call r.call) from trivial) h.step

theorem Adds.openFiles {r : Returned} {count : Nat} (h : Adds img t t' r count) :
    openFiles img t'.record r.pid = (openFiles img t.record r.pid).after img r.ret r.call := by
  rw [h.record]
  exact if_pos rfl

theorem replayed_open (hname : strlen cname ≠ 0) (hfound : readDentryByName img cname = some dentry)
    {ops : FileOps} (hops : fileOps dentry.filetype = some ops) (pid fd : Nat) :
    Replayed img pid fd (openedFile dentry ops) [⟨pid, .openFile (some cname), fd, []⟩] := by
  intro hdir t0 h0
  obtain rfl : ops = .dir := hdir
  have hpid : t0.files.kernel.runningPid = pid := h0.tabled.running
  have hlow := h0.lowest
  subst hpid
  obtain ⟨t1, h1⟩ := h0.tabled.open_dir hlow hname hfound hops
  refine ⟨t1, run_cons_of_some h1.step [], h1.record, h1.tabled h0.tabled, ?_, h1.count⟩
  have hfiles := h1.openFiles
  dsimp only at hfiles
  rw [hfiles, OpenFiles.after_opened hfound hops, Function.update_self]

theorem Replayed.read {pid : Nat} {f : OpenFile} {calls : List Returned}
    (h : Replayed img pid fd f calls) {stale : Nat → UInt8} {buf : Option (Nat → UInt8)}
    {nbytes ret : Int} {bytes : List UInt8}
    (hread : ∀ (t : Session), Tabled img (fun p => p = pid) t →
      openFiles img t.record pid fd = some f → f.ops = .dir →
      t.files.dirReadCount = readsOf calls % u32 →
      ∃ t', Adds img t t' ⟨pid, .read fd stale buf nbytes, ret, bytes⟩
        (if (FileCall.read fd stale buf nbytes).reads then (readsOf calls % u32 + 1) % u32
          else t.files.dirReadCount)) :
    Replayed img pid fd (f.advance ret)
      (⟨pid, .read fd stale buf nbytes, ret, bytes⟩ :: calls) := by
  intro hdir t0 h0
  rw [OpenFile.advance_ops] at hdir
  obtain ⟨t1, hrun, hrecord, htabled, hf, hcount⟩ := h hdir t0 h0
  obtain ⟨t2, h2⟩ := hread t1 htabled hf hdir hcount
  refine ⟨t2, ?_, ?_, h2.tabled htabled, ?_, ?_⟩
  · rw [List.reverse_cons, List.map_append]
    exact run_append_of_some hrun (run_cons_of_some h2.step [])
  · rw [h2.record, hrecord]
    rfl
  · have hfiles := h2.openFiles
    dsimp only at hfiles
    rw [hfiles, OpenFiles.after_read, hf]
    rfl
  · rw [h2.count, hcount, readsOf_cons]
    dsimp only
    split
    · exact Nat.mod_add_mod _ _ _
    · rfl

structure DirectoriesKept (img : Image) (procs : Nat → Prop) (t : Session) : Prop where
  tabled : Tabled img procs t
  replayed : LogsOk img descriptorCalls procs (fun p fd => Replayed img p fd) t

theorem DirectoriesKept.alone (h : DirectoriesKept img procs t) :
    DirectoriesAlone img procs t := by
  intro p hp fd f hf hops t0 h0
  obtain ⟨t1, hrun, hrecord, -⟩ := h.replayed p hp fd f hf hops t0 h0
  exact ⟨t1, hrun, hrecord⟩

/-- The record of the call is what `Adds` says of it. -/
theorem Adds.outcome {c : FileCall} {o : Outcome} {ret : Int} {r : Returned} {count : Nat}
    (h : Adds img t t' r count) (hc : r.call = c) (hcall : fileCall img t.files c = some o)
    (hret : o.ret = some ret) : r.ret = ret ∧ r.bytes = o.bytes := by
  subst hc
  have hstep : sessionStep img t (.call r.call) = some (t.returned r.call o) :=
    congrArg (Option.map _) hcall
  have hrecord : t'.record = ⟨t.files.kernel.runningPid, r.call, ret, o.bytes⟩ :: t.record := by
    rw [← Option.some.inj (hstep.symm.trans h.step)]
    unfold Session.returned
    rw [hret]
  have hr := (List.cons.inj (h.record.symm.trans hrecord)).1
  rw [hr]
  exact ⟨rfl, rfl⟩

/-- A read in turn returns what it returns alone. -/
theorem Tabled.keptReplayed (h : Tabled img procs t) {c : FileCall} {o : Outcome}
    (hturn : ReadInTurn img t (.call c)) (hcall : fileCall img t.files c = some o) :
    KeptBy img descriptorCalls (Replayed img t.files.kernel.runningPid)
      (openFiles img t.record t.files.kernel.runningPid)
      (descriptorCalls.of t.record t.files.kernel.runningPid) t.files.kernel.runningPid c o := by
  constructor
  · rintro cname dentry ops fd rfl hret hname hfound hops
    obtain ⟨⟨r, s'⟩, -, rfl⟩ := Option.map_eq_some_iff.mp hcall
    exact replayed_open hname hfound hops _ _
  · rintro fd f stale buf nbytes ret rfl hret hf hold hdir
    have hdir' : f.ops = .dir := (f.advance_ops ret).symm.trans hdir
    obtain ⟨ret', bytes, hread⟩ := read_dir img
      (readsOf (callsOn t.record t.files.kernel.runningPid fd) % u32) fd stale buf nbytes
    have hcount : (FileCall.read fd stale buf nbytes).reads = true → t.files.dirReadCount =
        readsOf (callsOn t.record t.files.kernel.runningPid fd) % u32 := by
      intro hreads
      cases buf with
      | none => cases hreads
      | some b =>
        have hnbytes : 0 ≤ nbytes := by simpa [FileCall.reads] using hreads
        exact hturn f (Int.natCast_nonneg fd) hnbytes hf hdir'
    obtain ⟨t', hadds⟩ := hread procs t f h hf hdir' hcount
    obtain ⟨rfl, rfl⟩ := hadds.outcome rfl hcall hret
    refine hold.read (fun t1 h1 hf1 hdir1 hcount1 => ?_) hdir
    have hpid : t1.files.kernel.runningPid = t.files.kernel.runningPid := h1.running
    have hf1' : openFiles img t1.record t1.files.kernel.runningPid fd = some f := by
      rw [hpid]
      exact hf1
    obtain ⟨t2, h2⟩ := hread _ t1 f h1 hf1' hdir1 fun _ => hcount1
    rw [hpid] at h2
    exact ⟨t2, h2⟩

theorem DirectoriesKept.step (h : DirectoriesKept img procs t) {op : FileOp} (hof : op.Of procs)
    (hturn : ReadInTurn img t op) (hstep : sessionStep img t op = some t') :
    DirectoriesKept img procs t' := by
  refine ⟨h.tabled.step hof hstep, h.replayed.step h.tabled ?_ hstep⟩
  rintro c o rfl hcall
  exact h.tabled.keptReplayed hturn hcall

/-- From the tables `execute` builds, through any run of calls of any processes in which each
    directory is read in turn: every directory descriptor has returned what it returns alone. -/
theorem directories_alone (hrecord : t.record = [])
    (hstart : ∀ p, procs p → NewProcess t.files.kernel p) (hrun : procs t.files.kernel.runningPid)
    {ops : List FileOp} (hops : ∀ op ∈ ops, op.Of procs)
    (hturns : AllSteps (sessionStep img) (ReadInTurn img) t ops) :
    AllStates (sessionStep img) (DirectoriesAlone img procs) t ops := by
  have hkept : DirectoriesKept img procs t := ⟨.start hrecord hstart hrun, .start hrecord⟩
  have hstep : ∀ t op t', DirectoriesKept img procs t → op.Of procs ∧ ReadInTurn img t op →
      sessionStep img t op = some t' → DirectoriesKept img procs t' :=
    fun _ _ _ h hop hstep => h.step hop.1 hop.2 hstep
  have hboth := (allMeet_of_forall hops t).allSteps.and hturns
  exact (allStates_of_allSteps hstep hkept hboth).imp fun _ h => h.alone

/-! ## Two descriptors -/

/-- `smallImage` with the directory in the place of its second file. -/
def dirImage : Image :=
  { smallImage with
    direntries := fun i =>
      if i = 1 then ⟨fun j => if j = 0 then 0x2e else 0, ftDir, 0⟩ else smallImage.direntries i }

/-- The name of the directory. -/
def dot : CString := ⟨[0x2e], by simp⟩

theorem booted_dirImage : ∃ k, Booted dirImage k :=
  booted_of_launchable ⟨by decide, by decide, by decide, by decide, by decide⟩ bootState_resetKernel

theorem readDentryByName_dot : readDentryByName dirImage dot = some (dirImage.direntries 1) := by
  rfl

/-- `open(".")`. -/
def openDot : FileCall := .openFile (some dot)

/-- `read` of descriptor 2 with room for a name. -/
def readTwo : FileCall := .read 2 (fun _ => 0) (some fun _ => 0) 32

variable {k : Kernel}

theorem Booted.tabled (hk : Booted img k) : Tabled img (fun p => p = 0) k.session :=
  .start rfl hk.newProcesses hk.spec.runningPid

theorem lowestFree_two (h : ∀ fd, files fd = none) : LowestFree files 2 :=
  ⟨by decide, by decide, h 2, fun j hj hlt => absurd hj (by unfold fdStart; omega)⟩

theorem Booted.opensNext (hk : Booted img k) : OpensNext img k.session 0 2 :=
  ⟨hk.tabled, lowestFree_two fun _ => rfl⟩

def dotFile : OpenFile := openedFile (dirImage.direntries 1) .dir

/-- Process 0 has the directory open as descriptor 2. -/
structure DotOpen (t : Session) (count : Nat) : Prop where
  tabled : Tabled dirImage (fun p => p = 0) t
  opened : openFiles dirImage t.record 0 2 = some dotFile
  count : t.files.dirReadCount = count

theorem Booted.openDot (hk : Booted dirImage k) :
    ∃ t, Adds dirImage k.session t ⟨0, openDot, 2, []⟩ 0 ∧ DotOpen t 0 := by
  have hrun : k.session.files.kernel.runningPid = 0 := hk.spec.runningPid
  have hlow : LowestFree (openFiles dirImage k.session.record k.session.files.kernel.runningPid) 2 :=
    lowestFree_two fun _ => rfl
  obtain ⟨t, hadds⟩ := hk.tabled.open_dir hlow (by decide) readDentryByName_dot rfl
  rw [hrun] at hadds
  refine ⟨t, hadds, hadds.tabled hk.tabled, ?_, hadds.count⟩
  rw [hadds.openFiles]
  exact congrFun (OpenFiles.after_opened readDentryByName_dot rfl 2) 2

/-- Opening the directory once more. -/
theorem DotOpen.openDot {n : Nat} (h : DotOpen t n)
    (hfree : openFiles dirImage t.record 0 3 = none) :
    ∃ t', Adds dirImage t t' ⟨0, openDot, 3, []⟩ 0 ∧ DotOpen t' 0 := by
  have hrun : t.files.kernel.runningPid = 0 := h.tabled.running
  have hlow : LowestFree (openFiles dirImage t.record t.files.kernel.runningPid) 3 := by
    rw [hrun]
    refine ⟨by decide, by decide, hfree, fun j hj hlt => ?_⟩
    obtain rfl : j = 2 := by unfold fdStart at hj; omega
    rw [h.opened]
    rfl
  obtain ⟨t', hadds⟩ := h.tabled.open_dir hlow (by decide) readDentryByName_dot rfl
  rw [hrun] at hadds
  refine ⟨t', hadds, hadds.tabled h.tabled, ?_, hadds.count⟩
  rw [hadds.openFiles]
  refine (congrFun (OpenFiles.after_opened readDentryByName_dot rfl 3) 2).trans ?_
  exact (Function.update_of_ne (by decide) _ _).trans h.opened

/-- Reading it where the counter is `n`. -/
theorem DotOpen.readTwo {n r : Nat} (h : DotOpen t n)
    (hret : ∀ s : Files, s.dirReadCount = n →
      (dirRead dirImage s (fun _ => 0) (fun _ => 0) 32).ret = some (r : Int)) :
    ∃ t' bytes, Adds dirImage t t' ⟨0, readTwo, r, bytes⟩ ((n + 1) % u32) ∧
      DotOpen t' ((n + 1) % u32) := by
  have hrun : t.files.kernel.runningPid = 0 := h.tabled.running
  have hf : openFiles dirImage t.record t.files.kernel.runningPid 2 = some dotFile := by
    rw [hrun]
    exact h.opened
  obtain ⟨ret, bytes, hread⟩ := read_dir dirImage n 2 (fun _ => 0) (some fun _ => 0) 32
  obtain ⟨t', hadds⟩ := hread _ t dotFile h.tabled hf rfl fun _ => h.count
  obtain ⟨hge, hlt⟩ := (h.tabled.table _ h.tabled.running).domain 2 (by rw [hf]; rfl)
  have hdesc : t.files.fd 2 = dotFile.desc :=
    ((h.tabled.table _ h.tabled.running).opened 2 hge hlt).trans (by rw [hf]; rfl)
  have hcall : fileCall dirImage t.files Mp3Kernel.readTwo = _ :=
    readCall_dir hlt hdesc rfl (fun _ => 0) (some fun _ => 0) 32
  obtain ⟨rfl, -⟩ := hadds.outcome rfl hcall (hret t.files h.count)
  rw [hrun] at hadds
  refine ⟨t', bytes, hadds, hadds.tabled h.tabled, ?_, hadds.count⟩
  rw [hadds.openFiles]
  refine (OpenFiles.after_read _ 2 _ _ _ _).trans ?_
  rw [h.opened, Option.map_some, OpenFile.advance_of_ne (by decide)]

theorem dirRead_first (s : Files) (h : s.dirReadCount = 0) :
    (dirRead dirImage s (fun _ => 0) (fun _ => 0) 32).ret = some 5 := by
  unfold dirRead
  rw [h]
  rfl

theorem dirRead_second (s : Files) (h : s.dirReadCount = 1) :
    (dirRead dirImage s (fun _ => 0) (fun _ => 0) 32).ret = some 1 := by
  unfold dirRead
  rw [h]
  rfl

/-- The read is in turn if the calls so far say so. -/
theorem DotOpen.readInTurn {n : Nat} (h : DotOpen t n)
    (hcalls : n = readsOf (callsOn t.record 0 2) % u32) :
    ReadInTurn dirImage t (.call Mp3Kernel.readTwo) := by
  intro f _ _ _ _
  rw [h.tabled.running, h.count]
  exact hcalls

theorem directories_alone_dirImage : ∃ k, Booted dirImage k ∧
    AllStates (sessionStep dirImage) (DirectoriesAlone dirImage fun p => p = 0) k.session
      [.call openDot, .call readTwo, .call readTwo] := by
  obtain ⟨k, hk⟩ := booted_dirImage
  obtain ⟨t1, h1, hopen1⟩ := hk.openDot
  obtain ⟨t2, b, h2, hopen2⟩ := hopen1.readTwo (r := 5) dirRead_first
  refine ⟨k, hk, directories_alone rfl hk.newProcesses hk.spec.runningPid
    (by simp [FileOp.Of]) ?_⟩
  intro t1' hstep1
  obtain rfl := Option.some.inj (h1.step.symm.trans hstep1)
  refine ⟨trivial, fun t2' hstep2 => ⟨hopen1.readInTurn ?_, fun t3 _ => ⟨?_, trivial⟩⟩⟩
  · rw [h1.record]
    rfl
  · obtain rfl := Option.some.inj (h2.step.symm.trans hstep2)
    refine hopen2.readInTurn ?_
    rw [h2.record, h1.record]
    rfl

/-- The second `open` sets the counter back under the first descriptor, whose second read gets
    the first entry again. -/
theorem directories_interfere : ∃ k t, Booted dirImage k ∧
    run (sessionStep dirImage) k.session
      [.call openDot, .call readTwo, .call openDot, .call readTwo] = some t ∧
    ¬ DirectoriesAlone dirImage (fun p => p = 0) t := by
  obtain ⟨k, hk⟩ := booted_dirImage
  obtain ⟨t1, h1, hopen1⟩ := hk.openDot
  obtain ⟨t2, b2, h2, hopen2⟩ := hopen1.readTwo (r := 5) dirRead_first
  have hfree : openFiles dirImage t2.record 0 3 = none := by
    rw [h2.record, h1.record]
    rfl
  obtain ⟨t3, h3, hopen3⟩ := hopen2.openDot hfree
  obtain ⟨t4, b4, h4, hopen4⟩ := hopen3.readTwo (r := 5) dirRead_first
  refine ⟨k, t4, hk, ?_, fun halone => ?_⟩
  · rw [run_cons_of_some h1.step, run_cons_of_some h2.step, run_cons_of_some h3.step,
      run_cons_of_some h4.step]
    rfl
  -- alone, the second read gets the second entry
  obtain ⟨t5, b5, h5, -⟩ := hopen2.readTwo (r := 1) dirRead_second
  obtain ⟨t5', hrun, hrecord⟩ := halone 0 rfl 2 dotFile hopen4.opened rfl k.session hk.opensNext
  have hcalls : callsOn t4.record 0 2 =
      [⟨0, readTwo, 5, b4⟩, ⟨0, readTwo, 5, b2⟩, ⟨0, openDot, 2, []⟩] := by
    rw [h4.record, h3.record, h2.record, h1.record]
    rfl
  rw [hcalls] at hrun hrecord
  have hrun' : run (sessionStep dirImage) k.session
      [.call openDot, .call readTwo, .call readTwo] = some t5 := by
    rw [run_cons_of_some h1.step, run_cons_of_some h2.step, run_cons_of_some h5.step]
    rfl
  obtain rfl := Option.some.inj (hrun.symm.trans hrun')
  rw [h5.record] at hrecord
  have hret := congrArg Returned.ret (List.cons.inj hrecord).1
  cases hret

end Mp3Kernel
