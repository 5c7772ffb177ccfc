/-
  A log for each open descriptor.

  A `Log` is started by the `open` that returns the descriptor and continued by the reads of it.
  `Tabled.logs_call`: a property of all open files and their logs is kept by a call if opening
  a file and reading one keep it.
-/
import Mp3Kernel.Proofs.Descriptors

namespace Mp3Kernel

open Base.Runs

variable {img : Image} {procs : Nat → Prop} {t t' : Session} {L : Type}

structure Log (L : Type) where
  unopened : L
  opened : Returned → L
  read : L → Returned → L

def Log.after (g : Log L) (fd : Nat) (l : L) (r : Returned) : L :=
  match r.call with
  | .openFile _ => if r.ret = fd then g.opened r else l
  | .read fd' _ _ _ => if fd' = fd then g.read l r else l
  | _ => l

/-- The log of descriptor `fd` of process `pid`. -/
def Log.of (g : Log L) (record : List Returned) (pid fd : Nat) : L :=
  record.foldr (fun r l => if r.pid = pid then g.after fd l r else l) g.unopened

@[simp] theorem Log.of_nil (g : Log L) (pid fd : Nat) : g.of [] pid fd = g.unopened := rfl

theorem Log.of_cons (g : Log L) (r : Returned) (record : List Returned) (pid fd : Nat) :
    g.of (r :: record) pid fd =
      if r.pid = pid then g.after fd (g.of record pid fd) r else g.of record pid fd := rfl

/-- What a read that has returned `ret` makes of the file. -/
def OpenFile.advance (f : OpenFile) (ret : Int) : OpenFile :=
  if ret < 0 then f
  else if f.ops = .fs then { f with position := (f.position + ret.toNat) % u32 } else f

@[simp] theorem OpenFile.advance_ops (f : OpenFile) (ret : Int) : (f.advance ret).ops = f.ops := by
  unfold OpenFile.advance
  split
  · rfl
  · split <;> rfl

@[simp] theorem OpenFile.advance_inode (f : OpenFile) (ret : Int) :
    (f.advance ret).inode = f.inode := by
  unfold OpenFile.advance
  split
  · rfl
  · split <;> rfl

theorem OpenFile.advance_of_ne {f : OpenFile} (h : f.ops ≠ .fs) (ret : Int) :
    f.advance ret = f := by
  unfold OpenFile.advance
  rw [if_neg h, ite_self]

variable {files : OpenFiles}

theorem OpenFiles.after_read (files : OpenFiles) (fd : Nat) (ret : Int) (stale : Nat → UInt8)
    (buf : Option (Nat → UInt8)) (nbytes : Int) :
    files.after img ret (.read fd stale buf nbytes) fd =
      (files fd).map fun f => f.advance ret := by
  unfold OpenFiles.after OpenFile.advance
  dsimp only
  split
  · rw [Option.map_id']
  · rw [Int.toNat_natCast, Function.update_self]

/-- A read changes the entry of its descriptor at most. -/
theorem OpenFiles.after_read_other (hnone : ∀ fd, (files fd).isSome = true → fdStart ≤ fd)
    {fd0 : Int} {fd : Nat} (hne : fd0 ≠ fd) (ret : Int) (stale : Nat → UInt8)
    (buf : Option (Nat → UInt8)) (nbytes : Int) :
    files.after img ret (.read fd0 stale buf nbytes) fd = files fd := by
  by_cases he : fd = fd0.toNat
  · -- a negative descriptor: there is nothing at 0
    have hnone : files fd0.toNat = none := by
      rw [← Option.not_isSome_iff_eq_none]
      intro hsome
      have := hnone _ hsome
      unfold fdStart at this
      omega
    rw [OpenFiles.after_read_same (fun f hf => nomatch hnone.symm.trans hf)]
  · unfold OpenFiles.after
    dsimp only
    split
    · rfl
    · exact Function.update_of_ne he _ _

theorem OpenFiles.after_close {fd0 ret : Int} {fd : Nat} {f : OpenFile}
    (hf : files.after img ret (.close fd0) fd = some f) : files fd = some f := by
  unfold OpenFiles.after at hf
  dsimp only at hf
  split at hf
  · by_cases he : fd = fd0.toNat
    · rw [he, Function.update_self] at hf
      cases hf
    · rwa [Function.update_of_ne he] at hf
  · exact hf

/-- A property of an open file and its log, kept by the calls of one process. -/
structure KeptBy (img : Image) (g : Log L) (P : Nat → OpenFile → L → Prop) (files : OpenFiles)
    (log : Nat → L) (pid : Nat) (c : FileCall) (o : Outcome) : Prop where
  opened : ∀ (cname : CString) (dentry : DirEntry) (ops : FileOps) (fd : Nat),
    c = .openFile (some cname) → o.ret = some (fd : Int) → strlen cname ≠ 0 →
    readDentryByName img cname = some dentry → fileOps dentry.filetype = some ops →
    P fd (openedFile dentry ops) (g.opened ⟨pid, c, fd, o.bytes⟩)
  read : ∀ (fd : Nat) (f : OpenFile) (stale : Nat → UInt8) (buf : Option (Nat → UInt8))
    (nbytes ret : Int), c = .read fd stale buf nbytes → o.ret = some ret →
    files fd = some f → P fd f (log fd) →
    P fd (f.advance ret) (g.read (log fd) ⟨pid, c, ret, o.bytes⟩)

theorem KeptBy.call {g : Log L} {P : Nat → OpenFile → L → Prop} {s : Files} {pid : Nat}
    {c : FileCall} {o : Outcome} {log : Nat → L} (h : KeptBy img g P files log pid c o)
    (htable : Refines files (getCurrentPcb s.kernel).fds) (hcall : fileCall img s c = some o)
    {ret : Int} (hret : o.ret = some ret)
    (hold : ∀ fd f, files fd = some f → P fd f (log fd)) (fd : Nat) (f : OpenFile)
    (hf : files.after img ret c fd = some f) :
    P fd f (g.after fd (log fd) ⟨pid, c, ret, o.bytes⟩) := by
  cases c with
  | openFile name =>
    obtain ⟨⟨r, s'⟩, hopen, rfl⟩ := Option.map_eq_some_iff.mp hcall
    obtain rfl := Option.some.inj hret
    show P fd f (if r = fd then _ else _)
    rcases openCall_spec htable hopen with
      ⟨rfl, -, -⟩ | ⟨fd0, cname, dentry, ops, rfl, -, hnot, rfl, hfound, hops, -⟩
    · rw [if_neg (by omega)]
      rw [OpenFiles.after_open_fails] at hf
      exact hold fd f hf
    rw [OpenFiles.after_opened hfound hops] at hf
    by_cases he : fd = fd0
    · subst he
      rw [Function.update_self] at hf
      obtain rfl := Option.some.inj hf
      rw [if_pos rfl]
      exact h.opened cname dentry ops fd rfl rfl (fun hempty => hnot (.empty hempty)) hfound hops
    · rw [Function.update_of_ne he] at hf
      rw [if_neg (by omega)]
      exact hold fd f hf
  | close fd0 => exact hold fd f (OpenFiles.after_close hf)
  | read fd0 stale buf nbytes =>
    show P fd f (if fd0 = fd then _ else _)
    by_cases he : fd0 = fd
    · subst he
      rw [OpenFiles.after_read] at hf
      obtain ⟨f0, hf0, rfl⟩ := Option.map_eq_some_iff.mp hf
      rw [if_pos rfl]
      exact h.read fd f0 stale buf nbytes ret rfl hret hf0 (hold fd f0 hf0)
    · rw [OpenFiles.after_read_other (fun fd hs => (htable.domain fd hs).1) he] at hf
      rw [if_neg he]
      exact hold fd f hf
  | write fd0 buf nbytes => exact hold fd f hf

/-- What is known of every open file and its log. -/
def LogsOk (img : Image) (g : Log L) (procs : Nat → Prop) (P : Nat → Nat → OpenFile → L → Prop)
    (t : Session) : Prop :=
  ∀ p, procs p → ∀ fd f, openFiles img t.record p fd = some f → P p fd f (g.of t.record p fd)

theorem Tabled.logs_call {g : Log L} {P : Nat → Nat → OpenFile → L → Prop}
    (h : Tabled img procs t) (hold : LogsOk img g procs P t) {c : FileCall} {o : Outcome}
    (hcall : fileCall img t.files c = some o)
    (hkept : KeptBy img g (P t.files.kernel.runningPid)
      (openFiles img t.record t.files.kernel.runningPid) (g.of t.record t.files.kernel.runningPid)
      t.files.kernel.runningPid c o) :
    LogsOk img g procs P (t.returned c o) := by
  intro p hp fd f hf
  cases hret : o.ret with
  | none =>
    have hrecord : (t.returned c o).record = t.record := by
      unfold Session.returned
      rw [hret]
    rw [hrecord] at hf ⊢
    exact hold p hp fd f hf
  | some ret =>
    have hrecord : (t.returned c o).record =
        ⟨t.files.kernel.runningPid, c, ret, o.bytes⟩ :: t.record := by
      unfold Session.returned
      rw [hret]
    rw [Session.returned_eq, hret] at hf
    rw [hrecord, Log.of_cons]
    dsimp only at hf ⊢
    by_cases hrun : t.files.kernel.runningPid = p
    · rw [if_pos hrun] at hf ⊢
      subst hrun
      exact hkept.call (h.table _ h.running) hcall hret (hold _ hp) fd f hf
    · rw [if_neg hrun] at hf ⊢
      exact hold p hp fd f hf

/-- The steps that are no calls leave the record alone. -/
theorem LogsOk.step {g : Log L} {P : Nat → Nat → OpenFile → L → Prop}
    (hold : LogsOk img g procs P t) (h : Tabled img procs t) {op : FileOp}
    (hkept : ∀ c o, op = .call c → fileCall img t.files c = some o →
      KeptBy img g (P t.files.kernel.runningPid)
        (openFiles img t.record t.files.kernel.runningPid)
        (g.of t.record t.files.kernel.runningPid) t.files.kernel.runningPid c o)
    (hstep : sessionStep img t op = some t') : LogsOk img g procs P t' := by
  cases op with
  | call c =>
    obtain ⟨o, hcall, rfl⟩ := Option.map_eq_some_iff.mp hstep
    exact h.logs_call hold hcall (hkept c o rfl hcall)
  | run paging pid =>
    obtain rfl := Option.some.inj hstep
    exact hold
  | interrupt mem terminals =>
    obtain rfl := Option.some.inj hstep
    exact hold

theorem LogsOk.start {g : Log L} {P : Nat → Nat → OpenFile → L → Prop} (hrecord : t.record = []) :
    LogsOk img g procs P t := by
  intro p _ fd f hf
  rw [hrecord] at hf
  cases hf

end Mp3Kernel
