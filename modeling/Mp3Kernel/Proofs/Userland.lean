/-
  A user program among the other processes.

  `KernelAnswers` is the environment of the program of process `p`: before a call of it returns,
  other processes run, and the keyboard and the clock interrupt. The others are those of a fixed
  set; they open, close, read and write files and terminals. Their `execute` and `halt` are no
  steps here: no process starts or ends in the meantime, and each keeps its terminal (a root
  process that halts can take another's, Relaunch.lean).

  `Proc` is what a program can know in spite of that: its descriptors, its arguments, and what it
  has written. Each system call has a rule (`Proc.write`, …), and a program is verified with
  these alone.
-/
import Mp3Kernel.Model.Programs
import Mp3Kernel.Proofs.FileReads
import Mp3Kernel.Proofs.Texts

namespace Mp3Kernel.User

open Base.Programs Base.Runs

variable {img : Image} {procs : Nat → Prop} {p : Nat} {t t' : Session}

/-! ## The environment -/

/-- No call of process `p`. -/
def NotBy (p : Nat) (t : Session) : FileOp → Prop
  | .call _ => t.files.kernel.runningPid ≠ p
  | _ => True

/-- What can happen until a call of process `p` has returned: calls of the other processes of
    `procs` on descriptors, process switches, and interrupts. -/
def KernelAnswers (img : Image) (procs : Nat → Prop) (p : Nat) (t : Session) (q : Call)
    (a : Answer) (t' : Session) : Prop :=
  ∃ ops t1, AllSteps (sessionStep img) (fun t op => op.Of procs ∧ NotBy p t op) t ops ∧
    run (sessionStep img) t ops = some t1 ∧ t1.files.kernel.runningPid = p ∧
    Returns img t1 q a t'

/-- What a call that has returned has put on the screen. -/
def written (r : Returned) : List UInt8 :=
  match r.call with
  | .write 1 (some buf) _ => (List.range r.ret.toNat).map buf
  | _ => []

/-- What process `p` has put on the screen, by the record of the calls. -/
def output (p : Nat) (record : List Returned) : List UInt8 :=
  record.foldr (fun r out => if r.pid = p then out ++ written r else out) []

/-- What process `p` can know. -/
structure Proc (img : Image) (procs : Nat → Prop) (p : Nat) (files : OpenFiles) (args : CString)
    (out : List UInt8) (t : Session) : Prop where
  tabled : Tabled img procs t
  proc : procs p
  files : openFiles img t.record p = files
  args : argString (t.files.kernel.pcbs p) = args
  output : output p t.record = out
  terminal : ∃ tm, getRunningTerminal { t.files.kernel with runningPid := p } = some (some tm)

variable {files : OpenFiles} {args : CString} {out : List UInt8}

/-! ## The others -/

theorem output_returned (t : Session) (c : FileCall) (o : Outcome) (p : Nat) :
    output p (t.returned c o).record = if t.files.kernel.runningPid = p then
      o.ret.elim (output p t.record) fun ret =>
        output p t.record ++ written ⟨p, c, ret, o.bytes⟩
      else output p t.record := by
  unfold Session.returned
  dsimp only
  cases o.ret with
  | none => rw [Option.elim_none, ite_self]
  | some ret =>
    show (if t.files.kernel.runningPid = p then _ else _) = _
    split
    · rename_i hrun
      rw [Option.elim_some, ← hrun]
      rfl
    · rfl

theorem argString_called {s s' : Files} {fds : Nat → FileDesc} (h : Called s s' fds) (p : Nat) :
    argString (s'.kernel.pcbs p) = argString (s.kernel.pcbs p) := by
  rw [h.pcbs]
  by_cases hp : p = s.kernel.runningPid
  · rw [hp, Function.update_self]
    rfl
  · rw [Function.update_of_ne hp]

theorem Proc.step (h : Proc img procs p files args out t) {op : FileOp} (hof : op.Of procs)
    (hby : NotBy p t op) (hstep : sessionStep img t op = some t') :
    Proc img procs p files args out t' := by
  have htabled := h.tabled.step hof hstep
  cases op with
  | call c =>
    obtain ⟨o, hcall, rfl⟩ := Option.map_eq_some_iff.mp hstep
    obtain ⟨fds, hcalled, -, -⟩ := fileCall_refines (h.tabled.table _ h.tabled.running) hcall
    have hby : t.files.kernel.runningPid ≠ p := hby
    refine ⟨htabled, h.proc, ?_, (argString_called hcalled p).trans h.args, ?_, ?_⟩
    · rw [Session.returned_eq, if_neg hby, h.files]
    · rw [output_returned, if_neg hby, h.output]
    · obtain ⟨tm, htm⟩ := h.terminal
      exact ⟨tm, (hcalled.search p).trans htm⟩
  | run paging pid =>
    obtain rfl := Option.some.inj hstep
    obtain ⟨tm, htm⟩ := h.terminal
    exact ⟨htabled, h.proc, h.files, h.args, h.output, tm, htm⟩
  | interrupt mem terminals =>
    obtain rfl := Option.some.inj hstep
    obtain ⟨tm, htm⟩ := h.terminal
    exact ⟨htabled, h.proc, h.files, h.args, h.output, tm, htm⟩

/-- Whatever the others do before a call of the program returns, it returns from a state in
    which the program knows the same. -/
theorem Proc.returns (h : Proc img procs p files args out t) {q : Call} {a : Answer}
    (hans : KernelAnswers img procs p t q a t') :
    ∃ t1, Proc img procs p files args out t1 ∧ t1.files.kernel.runningPid = p ∧
      Returns img t1 q a t' := by
  obtain ⟨ops, t1, hops, hrun, hpid, hreturns⟩ := hans
  have hall : AllStates (sessionStep img) (Proc img procs p files args out) t ops :=
    allStates_of_allSteps (fun _ _ _ h hop hstep => h.step hop.1 hop.2 hstep) h hops
  exact ⟨t1, (allStates_iff_reached t ops).mp hall ops t1 (List.prefix_refl ops) hrun, hpid,
    hreturns⟩

/-! ## The calls of the program -/

theorem Proc.returned {t1 : Session} (h : Proc img procs p files args out t1)
    (hpid : t1.files.kernel.runningPid = p) {c : FileCall} {o : Outcome}
    (hcall : fileCall img t1.files c = some o) {ret : Int} (hret : o.ret = some ret) :
    Proc img procs p (files.after img ret c) args (out ++ written ⟨p, c, ret, o.bytes⟩)
      (t1.returned c o) := by
  obtain ⟨fds, hcalled, -, -⟩ := fileCall_refines (h.tabled.table _ h.tabled.running) hcall
  refine ⟨h.tabled.call hcall, h.proc, ?_, (argString_called hcalled p).trans h.args, ?_, ?_⟩
  · rw [Session.returned_eq, if_pos hpid, hret, Option.elim_some, h.files]
  · rw [output_returned, if_pos hpid, hret, Option.elim_some, h.output]
  · obtain ⟨tm, htm⟩ := h.terminal
    exact ⟨tm, (hcalled.search p).trans htm⟩

/-- The table in the kernel of the process, by its map. -/
theorem Proc.refines {t1 : Session} (h : Proc img procs p files args out t1)
    (hpid : t1.files.kernel.runningPid = p) : Refines files (getCurrentPcb t1.files.kernel).fds := by
  have htable := h.tabled.table p h.proc
  rw [h.files, ← hpid] at htable
  exact htable

/-- A write of something to the screen. -/
theorem Proc.write (h : Proc img procs p files args out t) {buf : Nat → UInt8} {n : Nat}
    (hn : 0 < n) {a : Answer} (hans : KernelAnswers img procs p t (.write 1 buf n) a t') :
    a.ret = n ∧ Proc img procs p files args (out ++ (List.range n).map buf) t' := by
  obtain ⟨t1, h1, hpid, hreturns⟩ := h.returns hans
  cases hreturns with
  | @file _ c o ret buf' henters hcall hret hbuf =>
    cases henters
    have hcheck : checkFd t1.files 1 n = some .stdOut := by
      have hfd : t1.files.fd (Int.toNat 1) = stdoutFd := (h1.refines hpid).stdout
      unfold checkFd
      rw [hfd, if_neg (by simp [stdoutFd, fdCnt])]
      rfl
    have hreal : ret = n := by
      obtain ⟨⟨r, s'⟩, hwrite, rfl⟩ := Option.map_eq_some_iff.mp hcall
      obtain rfl := Option.some.inj hret
      unfold writeCall at hwrite
      rw [hcheck] at hwrite
      obtain ⟨⟨r', k'⟩, hdriver, he⟩ := Option.map_eq_some_iff.mp hwrite
      obtain ⟨rfl, -⟩ := Prod.mk.inj he
      obtain ⟨tm, htm⟩ := h1.terminal
      rw [← hpid] at htm
      obtain ⟨term, hterm, hdriver⟩ := Option.bind_eq_some_iff.mp hdriver
      obtain rfl := Option.some.inj (hterm.symm.trans htm)
      obtain ⟨m, rfl⟩ := Nat.exists_eq_succ_of_ne_zero (Nat.ne_of_gt hn)
      rw [Int.toNat_natCast, List.range_succ_eq_map, List.map_cons] at hdriver
      obtain ⟨k2, -, hdriver⟩ := Option.bind_eq_some_iff.mp hdriver
      obtain ⟨rfl, -⟩ := Prod.mk.inj (Option.some.inj hdriver)
      simp
    subst hreal
    exact ⟨rfl, h1.returned hpid hcall hret⟩

/-- A read of an open file. -/
theorem Proc.read (h : Proc img procs p files args out t) (hsizes : img.SizesFit) {fd : Nat}
    {f : OpenFile} (hf : files fd = some f) (hops : f.ops = .fs) {buf : Nat → UInt8} {n : Nat}
    (hn : 0 < n) (hlt : n < 2147483648) {a : Answer}
    (hans : KernelAnswers img procs p t (.read fd buf n) a t') :
    (a.ret = -1 ∧ (readData img f.inode f.position (some buf) n).ret = -1 ∧
        Proc img procs p files args out t') ∨
      ∃ r : Nat, a.ret = r ∧ r = min n ((img.inodes f.inode).size - f.position) ∧
        f.inode < img.fsStats.inodeCnt ∧
        (∀ k, k < r → a.buf k = img.fileByte f.inode (f.position + k)) ∧
        (∀ k, r ≤ k → a.buf k = buf k) ∧
        Proc img procs p
          (Function.update files fd (some { f with position := (f.position + r) % u32 })) args out
          t' := by
  obtain ⟨t1, h1, hpid, hreturns⟩ := h.returns hans
  cases hreturns with
  | @file _ c o ret buf' henters hcall hret hbuf =>
    cases henters with
    | read _ stale =>
      have htable := h1.refines hpid
      obtain ⟨hge, hfd⟩ := htable.domain fd (by rw [hf]; rfl)
      have hdesc : t1.files.fd (fd : Int).toNat = f.desc := by
        show (getCurrentPcb t1.files.kernel).fds fd = f.desc
        rw [htable.opened fd hge hfd, hf]
        rfl
      have hread : readCall img t1.files fd stale (some buf) n =
          some (fileRead img t1.files fd buf n) :=
        readCall_file (Int.natCast_nonneg fd) (by omega) hdesc hops (Int.natCast_nonneg n) stale buf
      have huse : (t1.files.fd fd).inUse = true := congrArg FileDesc.inUse hdesc
      have hreq : fileRequest img (t1.files.fd fd) buf n =
          readData img f.inode f.position (some buf) n := by
        have hword : ((n : Int) % u32).toNat = n := by unfold u32; omega
        have hdesc' : t1.files.fd fd = f.desc := hdesc
        unfold fileRequest
        rw [hdesc', if_neg (by omega), hword]
        rfl
      have ho : fileRead img t1.files fd buf n = o := Option.some.inj (hread.symm.trans hcall)
      rw [fileRead_eq huse, hreq] at ho
      have hretd : (readData img f.inode f.position (some buf) n).ret = ret := by
        rw [← ho] at hret
        exact Option.some.inj hret
      have hafter := h1.returned hpid hcall hret
      have hnothing : written ⟨p, .read fd stale (some buf) n, ret, o.bytes⟩ = [] := rfl
      rw [hnothing, List.append_nil] at hafter
      rcases readData_served img f.inode f.position n hsizes.lt_u32 hlt buf with
        hfail | ⟨hino, r, b, hr, hb, hamount, hbytes, hframe⟩
      · obtain rfl : ret = -1 := hretd.symm.trans hfail
        exact Or.inl ⟨rfl, hfail, hafter⟩
      · obtain rfl : ret = r := hretd.symm.trans hr
        obtain rfl : buf' = b := hbuf b (by rw [← ho]; exact hb)
        have hupdate : files.after img r (.read fd stale (some buf) n) = _ :=
          OpenFiles.after_read_fs (show files (fd : Int).toNat = some f from hf) hops
            (Int.natCast_nonneg r) stale (some buf) n
        rw [hupdate] at hafter
        exact Or.inr ⟨r, rfl, hamount, hino, hbytes, hframe, hafter⟩

/-- A file is opened, with a descriptor left for it. -/
theorem Proc.openFile (h : Proc img procs p files args out t) {filename : Nat → UInt8}
    {name : CString} (hname : TextAt filename name.bytes) {dentry : DirEntry} {ops : FileOps}
    (hfound : readDentryByName img name = some dentry)
    (hops : fileOps dentry.filetype = some ops) (hempty : strlen name ≠ 0)
    (hfree : ∃ fd, LowestFree files fd) {a : Answer}
    (hans : KernelAnswers img procs p t (.openFile filename) a t') :
    ∃ fd : Nat, a.ret = fd ∧ LowestFree files fd ∧
      Proc img procs p (Function.update files fd (some (openedFile dentry ops))) args out t' := by
  obtain ⟨t1, h1, hpid, hreturns⟩ := h.returns hans
  cases hreturns with
  | @file _ c o ret buf' henters hcall hret hbuf =>
    cases henters with
    | @openFile _ name' hname' =>
      have hafter := h1.returned hpid hcall hret
      have hnothing : written ⟨p, .openFile (some name'), ret, o.bytes⟩ = [] := rfl
      rw [hnothing, List.append_nil] at hafter
      have hsame : name' = name := by
        have hbytes : name'.bytes = name.bytes :=
          textAt_unique hname' hname name'.noNul name.noNul
        cases name'
        cases name
        congr
      subst hsame
      obtain ⟨⟨r, s'⟩, hopen, rfl⟩ := Option.map_eq_some_iff.mp hcall
      obtain rfl := Option.some.inj hret
      rcases openCall_spec (h1.refines hpid) hopen with
        ⟨-, -, hrefused⟩ | ⟨fd, cname, dentry', ops', rfl, hlow, -, hcname, hfound', hops', -⟩
      · exfalso
        obtain ⟨j, hj⟩ := hfree
        cases hrefused with
        | empty he => exact hempty he
        | unknownName hno => exact nomatch hno.symm.trans hfound
        | unknownType hfound' hno =>
          obtain rfl := Option.some.inj (hfound'.symm.trans hfound)
          exact nomatch hno.symm.trans hops
        | full hall =>
          have hsome := hall j hj.start hj.lt
          rw [hj.free] at hsome
          cases hsome
      · obtain rfl := Option.some.inj hcname
        rw [OpenFiles.after_opened hfound' hops'] at hafter
        obtain rfl := Option.some.inj (hfound'.symm.trans hfound)
        obtain rfl := Option.some.inj (hops'.symm.trans hops)
        exact ⟨fd, rfl, hlow, hafter⟩

/-- A close, of an open file or not. -/
theorem Proc.close (h : Proc img procs p files args out t) {fd : Nat} {a : Answer}
    (hans : KernelAnswers img procs p t (.close fd) a t') :
    a.ret = (if (files fd).isSome then 0 else -1) ∧
      Proc img procs p (Function.update files fd none) args out t' := by
  obtain ⟨t1, h1, hpid, hreturns⟩ := h.returns hans
  cases hreturns with
  | @file _ c o ret buf' henters hcall hret hbuf =>
    cases henters
    have hafter := h1.returned hpid hcall hret
    have hnothing : written ⟨p, .close fd, ret, o.bytes⟩ = [] := rfl
    rw [hnothing, List.append_nil] at hafter
    have hclose : (closeCall t1.files fd).1 = ret := by
      rw [← Option.some.inj hcall] at hret
      exact Option.some.inj hret
    rcases closeCall_spec (h1.refines hpid) fd with ⟨hzero, hsome, -⟩ | ⟨hneg, hnone, -⟩
    · obtain rfl : ret = 0 := hclose.symm.trans hzero
      exact ⟨(if_pos hsome).symm, hafter⟩
    · obtain rfl : ret = -1 := hclose.symm.trans hneg
      have hnone : files fd = none := hnone
      have hsame : Function.update files fd none = files := by
        rw [← hnone, Function.update_eq_self]
      rw [hsame, hnone]
      exact ⟨rfl, hafter⟩

/-- The arguments are there, and the buffer has room for them. -/
theorem Proc.getargs (h : Proc img procs p files args out t) (hargs : strlen args ≠ 0) {n : Nat}
    (hn : strlen args < n) {buf : Nat → UInt8} {a : Answer}
    (hans : KernelAnswers img procs p t (.getargs buf n) a t') :
    a.ret = 0 ∧ TextAt a.buf args.bytes ∧ Proc img procs p files args out t' := by
  obtain ⟨t1, h1, hpid, hreturns⟩ := h.returns hans
  cases hreturns with
  | file henters => cases henters
  | @getargs _ buf' _ ret hget =>
    have hstring : argString (getCurrentPcb t'.files.kernel) = args := by
      unfold getCurrentPcb
      rw [hpid]
      exact h1.args
    have hfirst : args.get 0 ≠ 0 := by
      have hpos : 0 < args.bytes.length := Nat.pos_of_ne_zero hargs
      unfold CString.get
      rw [List.getD_eq_getElem _ _ hpos]
      exact args.noNul _ (List.getElem_mem hpos)
    have hok : ¬ ((n : Int) < 0 ∨ args.get 0 = 0) := fun hbad =>
      hbad.elim (fun hneg => by omega) hfirst
    unfold Mp3Kernel.getargs at hget
    dsimp only at hget
    rw [hstring, if_neg hok] at hget
    obtain ⟨rfl, hb⟩ := Prod.mk.inj hget
    obtain rfl := Option.some.inj hb
    refine ⟨rfl, fun i hi => ?_, h1⟩
    have hi' : i < min (strlen args + 1) (n : Int).toNat := by
      have : i ≤ strlen args := hi
      omega
    dsimp only
    rw [if_pos hi']
    rfl

end Mp3Kernel.User
