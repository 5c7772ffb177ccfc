/-
  Whose exit status does an `execute` return?

  A process that ends returns to the `execute` that started it, with its status, or with 256
  if an exception ended it. What tells the two apart is one flag: the exception handler sets
  it, and `halt` reads and clears it on its way back to a parent. A root process has no parent
  to return to, so its exception leaves the flag set; and a handler that has opened the
  interrupts can be preempted between setting the flag and halting.

  `exitStep` has the handler in two steps, `raise` and `die`. `exit_status_iff`: the values
  are right exactly in the runs in which every `halt` that returns to a parent finds that no
  handler has set the flag since the last such return, and every `die` that one has.
  `exit_status_misattributed`: after the exception of a root shell, a child that halts with
  status 0 returns 256.
-/
import Mp3Kernel.Proofs.Nesting

namespace Mp3Kernel

open Base.Runs

variable {fs : Image} {k k' : Kernel} {n : Nat}

/-! ## The machine -/

structure Exits where
  kernel : Kernel
  /-- The processes in an exception handler, and whether it has opened the interrupts. -/
  handler : Nat → Option Bool
  /-- A handler has set the flag since a process last returned to its parent. -/
  marked : Bool

inductive ExitOp where
  | execute (ucmd : Option CString) (esp ebp : Nat)
  | halt (status : UInt8) (esp ebp : Nat)
  /-- An exception handler, up to `set_program_exception(1)`. -/
  | raise
  /-- The rest of it: `halt(1)`. -/
  | die (esp ebp : Nat)
  | tick (esp ebp : Nat)
  | request (t : Fin 3)

/-- The screen routines open the interrupts if they have to remap VIDEO. -/
def remapsVideo (k : Kernel) : Bool :=
  match getRunningTerminal k with
  | some (some t) => (k.terminals t).id ≠ k.currentTerminal
  | _ => false

/-- The running process ends: one that has a parent returns to it. -/
def Exits.ended (s : Exits) (k : Kernel) (handler : Nat → Option Bool) : Exits :=
  ⟨k, handler, if (getCurrentPcb s.kernel).parentPid = -1 then s.marked else false⟩

/-- A process in its handler can only die; interrupts reach it if the handler has opened
    them. -/
def exitStep (fs : Image) (s : Exits) (op : ExitOp) : Option Exits :=
  let k := s.kernel
  let handler := s.handler k.runningPid
  match op with
  | .execute ucmd esp ebp =>
    if handler.isSome then none
    else (execute fs k ucmd esp ebp).state.map fun k => { s with kernel := k }
  | .halt status esp ebp =>
    if handler.isSome then none
    else (halt fs k status esp ebp).map fun k => s.ended k s.handler
  | .raise =>
    if handler.isSome then none
    else some ⟨{ k with programExceptionOccured := true },
      Function.update s.handler k.runningPid (some (remapsVideo k)), true⟩
  | .die esp ebp =>
    if handler.isNone then none
    else (halt fs k 1 esp ebp).map fun k' =>
      s.ended k' (Function.update s.handler k.runningPid none)
  | .tick esp ebp =>
    if handler = some false then none
    else (irqhPit fs k esp ebp).map fun k => { s with kernel := k }
  | .request t =>
    if handler = some false then none
    else some { s with kernel := { k with terminalToSwitchTo := some t } }

/-- What the `execute` that started the process is to return when it ends so. -/
def ExitOp.status : ExitOp → Option Nat
  | .halt status _ _ => some status.toNat
  | .die _ _ => some processKilledByException
  | _ => none

/-- A process that returns to its parent returns its own status. -/
def StatusReturned (fs : Image) (s : Exits) (op : ExitOp) : Prop :=
  ∀ v s', op.status = some v → (getCurrentPcb s.kernel).parentPid ≠ -1 →
    exitStep fs s op = some s' → (s'.kernel.pcbs s.kernel.runningPid).childReturn = v

/-- A `halt` that returns to a parent comes when no handler has set the flag since the last
    such return, and a `die` when one has. -/
def MarkedByItself (s : Exits) (op : ExitOp) : Prop :=
  (getCurrentPcb s.kernel).parentPid ≠ -1 →
    match op with
    | .halt _ _ _ => s.marked = false
    | .die _ _ => s.marked = true
    | _ => True

/-! ## The flag -/

theorem execute_exception {ucmd : Option CString} {esp ebp : Nat}
    (h : (execute fs k ucmd esp ebp).state = some k') :
    k'.programExceptionOccured = k.programExceptionOccured := by
  cases hexec : execute fs k ucmd esp ebp with
  | fault =>
    rw [hexec] at h
    cases h
  | failed k1 =>
    rw [hexec] at h
    obtain rfl := Option.some.inj h
    rcases execute_failed hexec with
      rfl | ⟨cmd, pid, -, -, -, -, ⟨rfl, -⟩ | ⟨p, mem, -, rfl, -⟩⟩
    · rfl
    · rfl
    · rfl
  | launched k1 entry =>
    rw [hexec] at h
    obtain rfl := Option.some.inj h
    obtain ⟨⟨pid, t, hl⟩, -⟩ := launched_of_execute hexec
    exact hl.exception

theorem pendingSwitch_exception (h : pendingSwitch k = some k') :
    k'.programExceptionOccured = k.programExceptionOccured := by
  rcases pendingSwitch_cases h with ⟨rfl, -⟩ | ⟨t, k1, -, -, hrestore, rfl⟩
  · rfl
  · exact (frame_restoreTerminal hrestore).exception

theorem irqhPit_exception {esp ebp : Nat} (h : irqhPit fs k esp ebp = some k') :
    k'.programExceptionOccured = k.programExceptionOccured := by
  obtain ⟨k1, next, hswitch, -, hcase⟩ := irqhPit_cases h
  have hk1 := pendingSwitch_exception hswitch
  rcases hcase with ⟨-, rfl⟩ | ⟨-, -, e, -, rfl⟩ | ⟨-, -, hexec⟩
  · exact hk1
  · exact (resumeProcess_spec _ e).exception.trans hk1
  · exact (execute_exception hexec).trans hk1

/-- A return to a parent clears the flag, a root's halt leaves it. -/
theorem halt_exception {status : UInt8} {esp ebp : Nat} (h : halt fs k status esp ebp = some k') :
    k'.programExceptionOccured =
      if (getCurrentPcb k).parentPid = -1 then k.programExceptionOccured else false := by
  unfold getCurrentPcb
  obtain ⟨pcbs, t, -, -, ⟨hroot, entry, hexec⟩ | ⟨hparent, rfl⟩⟩ := halt_cases h
  · rw [if_pos hroot]
    obtain ⟨⟨pid, u, hl⟩, -⟩ := launched_of_execute hexec
    exact hl.exception
  · rw [if_neg hparent]
    rfl

/-- What a process with a parent returns. -/
theorem halt_childReturn {status : UInt8} {esp ebp : Nat}
    (h : halt fs k status esp ebp = some k') (hparent : (getCurrentPcb k).parentPid ≠ -1) :
    (k'.pcbs k.runningPid).childReturn =
      if k.programExceptionOccured then processKilledByException else status.toNat := by
  obtain ⟨pcbs, t, -, -, ⟨hroot, -⟩ | ⟨-, rfl⟩⟩ := halt_cases h
  · exact absurd hroot hparent
  · show (Function.update pcbs k.runningPid _ k.runningPid).childReturn = _
    rw [Function.update_self]
    rfl

/-- The flag is up to date. -/
def Flagged (s : Exits) : Prop := s.kernel.programExceptionOccured = s.marked

theorem Flagged.ended {s : Exits} {status : UInt8} {esp ebp : Nat} (h : Flagged s)
    (hhalt : Mp3Kernel.halt fs s.kernel status esp ebp = some k) (handler : Nat → Option Bool) :
    Flagged (s.ended k handler) := by
  show k.programExceptionOccured = _
  rw [halt_exception hhalt, show s.kernel.programExceptionOccured = s.marked from h]
  rfl

theorem Flagged.step {s s' : Exits} {op : ExitOp} (h : Flagged s)
    (hstep : exitStep fs s op = some s') : Flagged s' := by
  cases op with
  | execute ucmd esp ebp =>
    obtain ⟨-, hstep⟩ := Option.ite_none_left_eq_some.mp hstep
    obtain ⟨k, hexec, rfl⟩ := Option.map_eq_some_iff.mp hstep
    exact (execute_exception hexec).trans h
  | halt status esp ebp =>
    obtain ⟨-, hstep⟩ := Option.ite_none_left_eq_some.mp hstep
    obtain ⟨k, hhalt, rfl⟩ := Option.map_eq_some_iff.mp hstep
    exact h.ended hhalt _
  | raise =>
    obtain ⟨-, hstep⟩ := Option.ite_none_left_eq_some.mp hstep
    obtain rfl := Option.some.inj hstep
    rfl
  | die esp ebp =>
    obtain ⟨-, hstep⟩ := Option.ite_none_left_eq_some.mp hstep
    obtain ⟨k, hhalt, rfl⟩ := Option.map_eq_some_iff.mp hstep
    exact h.ended hhalt _
  | tick esp ebp =>
    obtain ⟨-, hstep⟩ := Option.ite_none_left_eq_some.mp hstep
    obtain ⟨k, htick, rfl⟩ := Option.map_eq_some_iff.mp hstep
    exact (irqhPit_exception htick).trans h
  | request t =>
    obtain ⟨-, hstep⟩ := Option.ite_none_left_eq_some.mp hstep
    obtain rfl := Option.some.inj hstep
    exact h

/-- The value of a process with a parent, by the mark. -/
theorem Flagged.childReturn {s : Exits} {status : UInt8} {esp ebp : Nat} (h : Flagged s)
    (hhalt : Mp3Kernel.halt fs s.kernel status esp ebp = some k)
    (hparent : (getCurrentPcb s.kernel).parentPid ≠ -1) :
    (k.pcbs s.kernel.runningPid).childReturn =
      if s.marked then processKilledByException else status.toNat := by
  rw [halt_childReturn hhalt hparent, show s.kernel.programExceptionOccured = s.marked from h]

/-- Each end of a process that has a parent is right exactly under the condition. -/
theorem Flagged.statusReturned_iff {s s' : Exits} {op : ExitOp} (h : Flagged s)
    (hstep : exitStep fs s op = some s') : StatusReturned fs s op ↔ MarkedByItself s op := by
  cases op with
  | halt status esp ebp =>
    obtain ⟨-, hmap⟩ := Option.ite_none_left_eq_some.mp hstep
    obtain ⟨k, hhalt, rfl⟩ := Option.map_eq_some_iff.mp hmap
    constructor
    · intro hret hparent
      have hvalue := (h.childReturn hhalt hparent).symm.trans (hret _ _ rfl hparent hstep)
      cases hm : s.marked with
      | false => rfl
      | true =>
        -- a status is a byte
        rw [hm, if_pos rfl] at hvalue
        have := status.toNat_lt
        unfold processKilledByException at hvalue
        omega
    · rintro hmark v s' hv hparent hstep'
      obtain rfl := Option.some.inj hv
      obtain rfl := Option.some.inj (hstep.symm.trans hstep')
      refine (h.childReturn hhalt hparent).trans ?_
      rw [hmark hparent]
      rfl
  | die esp ebp =>
    obtain ⟨-, hmap⟩ := Option.ite_none_left_eq_some.mp hstep
    obtain ⟨k, hhalt, rfl⟩ := Option.map_eq_some_iff.mp hmap
    constructor
    · intro hret hparent
      have hvalue := (h.childReturn hhalt hparent).symm.trans (hret _ _ rfl hparent hstep)
      cases hm : s.marked with
      | true => rfl
      | false =>
        rw [hm] at hvalue
        cases hvalue
    · rintro hmark v s' hv hparent hstep'
      obtain rfl := Option.some.inj hv
      obtain rfl := Option.some.inj (hstep.symm.trans hstep')
      refine (h.childReturn hhalt hparent).trans ?_
      rw [hmark hparent]
      rfl
  | execute ucmd esp ebp => exact ⟨fun _ _ => trivial, fun _ _ _ hv => nomatch hv⟩
  | raise => exact ⟨fun _ _ => trivial, fun _ _ _ hv => nomatch hv⟩
  | tick esp ebp => exact ⟨fun _ _ => trivial, fun _ _ _ hv => nomatch hv⟩
  | request t => exact ⟨fun _ _ => trivial, fun _ _ _ hv => nomatch hv⟩

/-! ## Every run -/

/-- No process is in an exception handler, and none has been. -/
def bootExits (k : Kernel) : Exits := ⟨k, fun _ => none, false⟩

theorem Booted.flagged (hk : Booted fs k) : Flagged (bootExits k) := hk.spec.exception

/-- In every run from boot: all values are right if and only if all ends meet the condition. -/
theorem exit_status_iff (fs : Image) (k : Kernel) (ops : List ExitOp) (hk : Booted fs k) :
    AllSteps (exitStep fs) (StatusReturned fs) (bootExits k) ops ↔
      AllSteps (exitStep fs) MarkedByItself (bootExits k) ops :=
  allSteps_congr (fun _ _ _ h hstep => h.step hstep)
    (fun _ _ _ h hstep => h.statusReturned_iff hstep) hk.flagged

/-- A child that an exception ends returns 256. -/
theorem exit_status_child : ∃ k, Booted smallImage k ∧
    AllSteps (exitStep smallImage) (StatusReturned smallImage) (bootExits k)
      [.execute (some shellCmd) 0 0, .raise, .die 0 0] := by
  obtain ⟨k, hk⟩ := booted_smallImage
  refine ⟨k, hk, (exit_status_iff smallImage k _ hk).mpr ?_⟩
  refine fun s1 _ => ⟨fun _ => trivial, fun s2 h2 => ⟨fun _ => trivial, fun s3 _ =>
    ⟨fun _ => ?_, trivial⟩⟩⟩
  obtain ⟨-, h2⟩ := Option.ite_none_left_eq_some.mp h2
  obtain rfl := Option.some.inj h2
  rfl

/-! ## The exception of a root shell -/

theorem Chained.setException (h : Chained n k) (b : Bool) :
    Chained n { k with programExceptionOccured := b } :=
  ⟨h.pos, h.depth, h.last, h.procs, h.running, h.cr3, h.esp0, h.pid, h.rootPid, h.rootPcb,
    h.parentPid, h.parentPcb, h.child, h.top, h.currentTerminal, h.terminalPid, h.terminalRunning⟩

/-- The shell that replaces it runs a child, which halts with status 0 and returns 256. -/
theorem exit_status_misattributed : ∃ k, Booted smallImage k ∧
    ¬ AllSteps (exitStep smallImage) (StatusReturned smallImage) (bootExits k)
      [.raise, .die 0 0, .execute (some shellCmd) 0 0, .halt 0 0 0] := by
  obtain ⟨k, hk⟩ := booted_smallImage
  refine ⟨k, hk, fun hall => ?_⟩
  have h1 : Chained 1 { k with programExceptionOccured := true } := hk.chained.setException true
  obtain ⟨k2, hdie, h2⟩ := h1.halt_root launchable_smallImage 1 0 0
  obtain ⟨k3, entry, hexec⟩ := execute_of_launchable launchable_smallImage h2.last
    (h2.allocPid (by decide)) 0 0
  obtain ⟨⟨pid, t, hl⟩, -⟩ := launched_of_execute hexec
  have h3 : Chained 2 k3 := h2.launched hl
  obtain ⟨k4, hhalt, -⟩ := h3.halt_top smallImage (by decide) 0 0 0
  -- the handler's end leaves no process in a handler, and the mark
  let s1 : Exits := ⟨{ k with programExceptionOccured := true },
    Function.update (fun _ => none) k.runningPid (some (remapsVideo k)), true⟩
  have hs1 : exitStep smallImage (bootExits k) .raise = some s1 := rfl
  have hs2 : exitStep smallImage s1 (.die 0 0) = some ⟨k2, fun _ => none, true⟩ := by
    have hin : s1.handler s1.kernel.runningPid = some (remapsVideo k) := by simp [s1]
    have hout : Function.update s1.handler s1.kernel.runningPid none = fun _ => none := by
      simp [s1]
    have hroot : (getCurrentPcb s1.kernel).parentPid = -1 := by
      unfold getCurrentPcb
      rw [Nat.succ.inj h1.running]
      exact h1.rootPid
    refine Option.ite_none_left_eq_some.mpr ⟨by simp [hin], ?_⟩
    rw [hdie, hout]
    unfold Exits.ended
    rw [if_pos hroot]
    rfl
  have hs3 : exitStep smallImage ⟨k2, fun _ => none, true⟩ (.execute (some shellCmd) 0 0) =
      some ⟨k3, fun _ => none, true⟩ := by
    show (execute smallImage k2 (some shellCmd) 0 0).state.map _ = _
    rw [hexec]
    rfl
  have hs4 : exitStep smallImage ⟨k3, fun _ => none, true⟩ (.halt 0 0 0) =
      some (Exits.ended ⟨k3, fun _ => none, true⟩ k4 fun _ => none) := by
    show (halt smallImage k3 0 0 0).map _ = _
    rw [hhalt]
    rfl
  have hflag : Flagged ⟨k3, fun _ => none, true⟩ :=
    ((hk.flagged.step hs1).step hs2).step hs3
  have hparent : (getCurrentPcb k3).parentPid ≠ -1 := by
    unfold getCurrentPcb
    rw [Nat.succ.inj h3.running, h3.parentPid 0 (by decide)]
    decide
  have hreturned := (((hall _ hs1).2 _ hs2).2 _ hs3).2 _ hs4
  exact nomatch (hflag.statusReturned_iff hs4).mp hreturned.1 hparent

end Mp3Kernel
