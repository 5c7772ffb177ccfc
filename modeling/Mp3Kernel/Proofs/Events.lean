/-
  The events that move processes between terminals, in settled states.

  `eventStep` is `step` on those four kinds of event, an `execute` being one that succeeds.
  `Settled.tick_cases` and `Settled.halt_cases` list what a tick and a halt come to.
  Which slot a tick turns to, and which terminal it leaves displayed, can be said of the
  state before it: `slotAfter`, `displayedAfter`.
-/
import Mp3Kernel.Proofs.Processes

namespace Mp3Kernel

open Base.Bitmap

variable {fs : Image} {k k' : Kernel} {owner : Nat → Fin 3}

inductive Event where
  /-- The running process calls `execute`, successfully. -/
  | execute (ucmd : Option CString) (esp ebp : Nat)
  | halt (status : UInt8) (esp ebp : Nat)
  | tick (esp ebp : Nat)
  | request (t : Fin 3)

def Event.op : Event → Op
  | .execute ucmd esp ebp => .execute ucmd esp ebp
  | .halt status esp ebp => .halt status esp ebp
  | .tick esp ebp => .tick esp ebp
  | .request t => .request t

def ExecResult.isLaunched : ExecResult → Bool
  | .launched _ _ => true
  | _ => false

def Event.succeeds (fs : Image) (k : Kernel) : Event → Bool
  | .execute ucmd esp ebp => (Mp3Kernel.execute fs k ucmd esp ebp).isLaunched
  | _ => true

def eventStep (fs : Image) (k : Kernel) (e : Event) : Option Kernel :=
  if e.succeeds fs k then step fs k e.op else none

theorem eventStep_execute {ucmd : Option CString} {esp ebp : Nat}
    (h : eventStep fs k (.execute ucmd esp ebp) = some k') :
    ∃ pid t, Launched k k' pid t := by
  unfold eventStep at h
  split at h
  · rename_i hsucc
    have hok : (execute fs k ucmd esp ebp).isLaunched = true := hsucc
    have hstep : (execute fs k ucmd esp ebp).state = some k' := h
    cases hexec : execute fs k ucmd esp ebp with
    | fault =>
      rw [hexec] at hok
      cases hok
    | failed k1 =>
      rw [hexec] at hok
      cases hok
    | launched k1 entry =>
      rw [hexec] at hstep
      obtain rfl := Option.some.inj hstep
      exact (launched_of_execute hexec).1
  · cases h

theorem eventStep_of_launched {ucmd : Option CString} {esp ebp entry : Nat}
    (h : execute fs k ucmd esp ebp = .launched k' entry) :
    eventStep fs k (.execute ucmd esp ebp) = some k' := by
  have hok : (Event.execute ucmd esp ebp).succeeds fs k = true := by
    show (execute fs k ucmd esp ebp).isLaunched = true
    rw [h]
    rfl
  unfold eventStep
  rw [if_pos hok]
  show (execute fs k ucmd esp ebp).state = some k'
  rw [h]
  rfl

/-! ## Looking ahead of a tick -/

/-- The terminal displayed once the pending switch is done. -/
def displayedAfter (k : Kernel) : Fin 3 := k.terminalToSwitchTo.getD k.currentTerminal

/-- The terminal has been displayed before, or the pending switch will do so. -/
def Shown (k : Kernel) (t : Fin 3) : Prop :=
  (k.terminals t).status = .running ∨ (k.terminalToSwitchTo = some t ∧ t ≠ k.currentTerminal)

instance (k : Kernel) (t : Fin 3) : Decidable (Shown k t) := by
  unfold Shown
  infer_instance

/-- The slot a tick turns to. -/
def slotAfter (k : Kernel) : Option (Fin 3) :=
  let c := k.scheduleCounter
  if Shown k (c + 1) then some (c + 1)
  else if Shown k (c + 2) then some (c + 2)
  else if Shown k c then some c
  else none

structure Switched (k k1 : Kernel) : Prop where
  currentTerminal : k1.currentTerminal = displayedAfter k
  status : ∀ t, (k1.terminals t).status = .running ↔ Shown k t
  running : ∀ t, (k1.terminals t).running = (k.terminals t).running
  pid : ∀ t, (k1.terminals t).pid = (k.terminals t).pid
  vidmap : ∀ t, (k1.terminals t).vidmap = (k.terminals t).vidmap
  vidMemBuf : ∀ t, (k1.terminals t).vidMemBuf = (k.terminals t).vidMemBuf
  pcbs : k1.pcbs = k.pcbs
  procs : k1.procs = k.procs
  runningPid : k1.runningPid = k.runningPid
  terminalToSwitchTo : k1.terminalToSwitchTo = none
  currentSchedule : k1.currentSchedule = k.currentSchedule
  scheduleCounter : k1.scheduleCounter = k.scheduleCounter

theorem switched_of_pendingSwitch {k1 : Kernel} (h : pendingSwitch k = some k1) :
    Switched k k1 := by
  rcases pendingSwitch_cases h with ⟨rfl, hsame⟩ | ⟨t, k2, hreq, hne, hrestore, rfl⟩
  · refine ⟨?_, fun t => ?_, fun _ => rfl, fun _ => rfl, fun _ => rfl, fun _ => rfl, rfl, rfl,
      rfl, rfl, rfl, rfl⟩
    · unfold displayedAfter
      cases hreq : k.terminalToSwitchTo with
      | none => rfl
      | some t => exact (hsame t hreq).symm
    · exact ⟨Or.inl, fun hs => hs.resolve_right fun hr => hr.2 (hsame t hr.1)⟩
  · have hf := frame_restoreTerminal hrestore
    have hterms : ∀ u, (((showTerminal k2 t).terminals u).running = (k.terminals u).running ∧
          ((showTerminal k2 t).terminals u).pid = (k.terminals u).pid ∧
          ((showTerminal k2 t).terminals u).vidmap = (k.terminals u).vidmap ∧
          ((showTerminal k2 t).terminals u).vidMemBuf = (k.terminals u).vidMemBuf) ∧
        (((showTerminal k2 t).terminals u).status = .running ↔ Shown k u) := by
      unfold showTerminal
      dsimp only [setTerminal_terminals]
      rw [Function.forall_update_iff k2.terminals fun u (a : Terminal) =>
        (a.running = (k.terminals u).running ∧ a.pid = (k.terminals u).pid ∧
          a.vidmap = (k.terminals u).vidmap ∧ a.vidMemBuf = (k.terminals u).vidMemBuf) ∧
          (a.status = .running ↔ Shown k u)]
      have hsame : ∀ u, (k2.terminals u).running = (k.terminals u).running ∧
          (k2.terminals u).pid = (k.terminals u).pid ∧
          (k2.terminals u).vidmap = (k.terminals u).vidmap ∧
          (k2.terminals u).vidMemBuf = (k.terminals u).vidMemBuf := fun u =>
        have hu := hf.terminals u
        ⟨hu.running, hu.pid, hu.vidmap, hu.vidMemBuf⟩
      refine ⟨⟨hsame t, fun _ => Or.inr ⟨hreq, hne⟩, fun _ => rfl⟩, fun u hu => ⟨hsame u, ?_⟩⟩
      rw [(hf.terminals u).status]
      refine ⟨Or.inl, fun hs => hs.resolve_right fun hr => hu ?_⟩
      exact (Option.some.inj (hreq.symm.trans hr.1)).symm
    refine ⟨?_, fun u => (hterms u).2, fun u => (hterms u).1.1, fun u => (hterms u).1.2.1,
      fun u => (hterms u).1.2.2.1, fun u => (hterms u).1.2.2.2, hf.pcbs, hf.procs, hf.runningPid,
      rfl, hf.currentSchedule, hf.scheduleCounter⟩
    unfold displayedAfter
    rw [hreq]
    rfl

theorem Switched.nextSchedule_eq {k1 : Kernel} (h : Switched k k1) :
    nextSchedule k1 = slotAfter k := by
  unfold nextSchedule slotAfter
  dsimp only
  simp only [h.status, h.scheduleCounter]

/-! ## Ticks and halts -/

/-- A tick finds nothing else to turn to, resumes a process, starts a shell, or cannot start
    one. -/
theorem Settled.tick_cases {esp ebp : Nat} (hshell : Launchable fs shellCmd)
    (h : Settled owner k) (htick : irqhPit fs k esp ebp = some k') :
    ∃ k1 t, pendingSwitch k = some k1 ∧ Switched k k1 ∧ Settled owner k1 ∧
      slotAfter k = some t ∧
      ((t = k.currentSchedule ∧ k' = { k1 with scheduleCounter := t }) ∨
        (t ≠ k.currentSchedule ∧ (k.terminals t).running = true ∧
          ∃ e, owner e = t ∧ Settled owner k' ∧ k'.runningPid = e ∧
            Resumed (scheduledState k1 t esp ebp) k' e) ∨
        (t ≠ k.currentSchedule ∧ (k.terminals t).running = false ∧
          ∃ pid u, Launched (scheduledState k1 t esp ebp) k' pid u) ∨
        (t ≠ k.currentSchedule ∧ (k.terminals t).running = false ∧ allocPid k.procs = none ∧
          k' = scheduledState k1 t esp ebp)) := by
  obtain ⟨k1, t, hswitch, hnext, hcase⟩ := irqhPit_cases htick
  have hs := switched_of_pendingSwitch hswitch
  have h1 := h.switched hswitch
  have h2 := h1.scheduled t esp ebp
  refine ⟨k1, t, hswitch, hs, h1, by rw [← hs.nextSchedule_eq]; exact hnext, ?_⟩
  rw [← hs.currentSchedule, ← hs.running]
  rcases hcase with hsame | ⟨hne, hrun, e, he, rfl⟩ | ⟨hne, hstop, hexec⟩
  · exact Or.inl hsame
  · obtain ⟨hset, hrunning, hown, hres⟩ := h2.resumed (t := t) hrun he
    exact Or.inr (Or.inl ⟨hne, hrun, e, hown, hset, hrunning, hres⟩)
  · cases hres : execute fs (scheduledState k1 t esp ebp) (some shellCmd) esp ebp with
    | fault =>
      rw [hres] at hexec
      cases hexec
    | failed k2 =>
      rw [hres] at hexec
      obtain rfl := Option.some.inj hexec
      refine Or.inr (Or.inr (Or.inr ⟨hne, hstop, ?_,
        execute_failed_eq h2.last (hshell.not_failsWithPid _) hres⟩))
      cases hpid : allocPid k.procs with
      | none => rfl
      | some pid =>
        have hprocs : (scheduledState k1 t esp ebp).procs = k.procs := hs.procs
        obtain ⟨k3, entry, hexec'⟩ :=
          execute_of_launchable hshell h2.last (hprocs ▸ hpid) esp ebp
        exact nomatch hres.symm.trans hexec'
    | launched k2 entry =>
      rw [hres] at hexec
      obtain rfl := Option.some.inj hexec
      exact Or.inr (Or.inr (Or.inl ⟨hne, hstop, (launched_of_execute hres).1⟩))

/-- A process with a parent returns to it; another shell is launched for a root. -/
theorem Settled.halt_cases {status : UInt8} {esp ebp : Nat} (h : Settled owner k)
    (hhalt : halt fs k status esp ebp = some k') :
    ∃ pcbs, HaltedPcbs k pcbs ∧
      ((∃ q, (k.pcbs k.runningPid).parentPcb = some q ∧
          ReturnedTo (freePid (haltedState k pcbs) (k.pcbs k.runningPid).pid) k' k.runningPid
            (owner k.runningPid)) ∨
        ((k.pcbs k.runningPid).parentPcb = none ∧ ∃ pid u,
          Launched (stopTerminal (freePid (haltedState k pcbs) (k.pcbs k.runningPid).pid)
            (owner k.runningPid)) k' pid u)) := by
  obtain ⟨pcbs, t, hp, hterm, hcase⟩ := Mp3Kernel.halt_cases hhalt
  obtain rfl : owner k.runningPid = t :=
    Option.some.inj (Option.some.inj ((h.haltedTerminal hp).symm.trans hterm))
  refine ⟨pcbs, hp, ?_⟩
  rw [h.consistent.parentPid _ h.live] at hcase
  rcases hcase with ⟨hroot, entry, hexec⟩ | ⟨hparent, rfl⟩
  · exact Or.inr ⟨(parentNumber_eq_neg_one _).mp hroot, (launched_of_execute hexec).1⟩
  · have hsome : (k.pcbs k.runningPid).parentPcb ≠ none :=
      fun he => hparent ((parentNumber_eq_neg_one _).mpr he)
    obtain ⟨q, hq⟩ := Option.ne_none_iff_exists'.mp hsome
    exact Or.inl ⟨q, hq, resumeParent_spec _ _ _ _⟩

/-- A process with a parent can halt. -/
theorem Settled.halt_child (fs : Image) {q : Nat} (h : Settled owner k)
    (hparent : (k.pcbs k.runningPid).parentPcb = some q) (status : UInt8) (esp ebp : Nat) :
    ∃ pcbs k', HaltedPcbs k pcbs ∧ halt fs k status esp ebp = some k' ∧
      ReturnedTo (freePid (haltedState k pcbs) (k.pcbs k.runningPid).pid) k' k.runningPid
        (owner k.runningPid) := by
  obtain ⟨pcbs, hstate, hp⟩ := closeUnlinked_spec k
  refine ⟨pcbs, _, hp, halt_of_parent hstate hp (h.haltedTerminal hp) ?_,
    resumeParent_spec _ _ _ _⟩
  rw [h.consistent.parentPid _ h.live, ne_eq, parentNumber_eq_neg_one, hparent]
  exact fun he => nomatch he

/-- A root process can halt: its own PID is free for the shell. -/
theorem Settled.halt_root (hshell : Launchable fs shellCmd) (h : Settled owner k)
    (hroot : (k.pcbs k.runningPid).parentPcb = none) (status : UInt8) (esp ebp : Nat) :
    ∃ k', halt fs k status esp ebp = some k' := by
  have hlt : k.runningPid < 8 := Taken.lt h.live
  obtain ⟨pcbs, hstate, hp⟩ := closeUnlinked_spec k
  have hpid : ∃ pid, allocPid (freePid (haltedState k pcbs) (k.pcbs k.runningPid).pid).procs =
      some pid := by
    rw [h.consistent.pid _ h.live]
    refine allocPid_isSome ⟨k.runningPid, hlt, fun htaken => ?_⟩
    exact ((freePid_procs (haltedState k pcbs) hlt _).mp htaken).2 rfl
  obtain ⟨pid, hpid⟩ := hpid
  obtain ⟨k', entry, hexec⟩ := execute_of_launchable (k := stopTerminal
    (freePid (haltedState k pcbs) (k.pcbs k.runningPid).pid) (owner k.runningPid))
    hshell h.last hpid esp ebp
  refine ⟨k', halt_of_root hstate hp (h.haltedTerminal hp) ?_ hexec⟩
  rw [h.consistent.parentPid _ h.live, hroot]
  rfl

end Mp3Kernel
