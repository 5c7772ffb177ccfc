/-
  Is a new process bound to the terminal that asked for it?

  `execute` binds to the displayed terminal, or to the first that does not run; who asked is
  another matter. `Tracked` keeps, beside the kernel, on whose behalf each process was
  created: the terminal of the process that called `execute` or halted as a root, or the slot
  the scheduler started a shell for. `Bound` says the kernel agrees.

  `execute_binds`: it does in every run whose steps meet `BindsAsker`, a condition on the
  state before the step. For an `execute` and a tick the condition is also necessary
  (`bindsAsker_of_bound`); a root that halts while another terminal is displayed clears the
  flag of that other terminal. `execute_misbinds`: Alt+F3 right after booting starts the shell
  of terminal 2 on terminal 1.
-/
import Mp3Kernel.Proofs.Events

namespace Mp3Kernel

open Base.Runs Base.Bitmap

variable {fs : Image} {k k' : Kernel} {owner : Nat → Fin 3}

structure Tracked where
  kernel : Kernel
  /-- On whose behalf each process was created. -/
  asker : Nat → Fin 3
  /-- The slot the last event created a process for, if it was a tick that did. -/
  started : Option (Fin 3)

/-- The process now running was created on behalf of the terminal `t`. -/
def Tracked.created (s : Tracked) (k : Kernel) (t : Fin 3) : Nat → Fin 3 :=
  Function.update s.asker k.runningPid t

/-- A tick that has taken a PID has created a process for the slot it turned to. -/
def trackStep (fs : Image) (s : Tracked) (e : Event) : Option Tracked :=
  (eventStep fs s.kernel e).map fun k =>
    match e with
    | .execute _ _ _ => ⟨k, s.created k (s.asker s.kernel.runningPid), none⟩
    | .halt _ _ _ =>
      if (getCurrentPcb s.kernel).parentPid = -1 then
        ⟨k, s.created k (s.asker s.kernel.runningPid), none⟩
      else ⟨k, s.asker, none⟩
    | .tick _ _ =>
      if k.procs = s.kernel.procs then ⟨k, s.asker, none⟩
      else ⟨k, s.created k k.currentSchedule, some k.currentSchedule⟩
    | .request _ => ⟨k, s.asker, none⟩

/-- The running process is on the terminal that asked for it, and if the scheduler has just
    created it, it is the root of that terminal. -/
structure Bound (s : Tracked) : Prop where
  terminal : getRunningTerminal s.kernel = some (some (s.asker s.kernel.runningPid))
  started : ∀ t, s.started = some t → (s.kernel.terminals t).running = true ∧
    (s.kernel.terminals t).pid = s.kernel.runningPid

/-- A process calls `execute` while the displayed terminal runs. A root halts on the displayed
    terminal, and every lower terminal runs. A tick that starts a shell, with a PID free, does
    so when the displayed terminal does not run, on the first terminal that does not. -/
def BindsAsker (s : Tracked) : Event → Prop
  | .execute _ _ _ => (s.kernel.terminals s.kernel.currentTerminal).running = true
  | .halt _ _ _ => (getCurrentPcb s.kernel).parentPid = -1 →
      getRunningTerminal s.kernel = some (some s.kernel.currentTerminal) ∧
        ∀ t, t < s.kernel.currentTerminal → (s.kernel.terminals t).running = true
  | .tick _ _ => ∀ t pid, slotAfter s.kernel = some t → t ≠ s.kernel.currentSchedule →
      (s.kernel.terminals t).running = false → allocPid s.kernel.procs = some pid →
        (s.kernel.terminals (displayedAfter s.kernel)).running = false ∧
          ∀ u, u < t → (s.kernel.terminals u).running = true
  | .request _ => True

/-- The askers are the owners of the forest. -/
structure Attributed (s : Tracked) : Prop where
  settled : Settled s.asker s.kernel
  started : ∀ t, s.started = some t → (s.kernel.terminals t).running = true ∧
    (s.kernel.terminals t).pid = s.kernel.runningPid

theorem Attributed.bound {s : Tracked} (h : Attributed s) : Bound s :=
  ⟨h.settled.terminal, h.started⟩

theorem attributed_quiet {asker : Nat → Fin 3} (h : Settled asker k) :
    Attributed ⟨k, asker, none⟩ := ⟨h, fun _ ht => nomatch ht⟩

/-! ## One event -/

theorem attributed_execute {asker : Nat → Fin 3} {pid : Nat} {t : Fin 3} (h : Settled asker k)
    (hcur : (k.terminals k.currentTerminal).running = true) (hl : Launched k k' pid t) :
    Attributed ⟨k', Function.update asker k'.runningPid (asker k.runningPid), none⟩ := by
  refine attributed_quiet ?_
  rw [hl.runningPid]
  exact (h.launchedChild hl hcur).1

theorem attributed_halt {asker : Nat → Fin 3} {status : UInt8} {esp ebp : Nat}
    (h : Settled asker k)
    (hroot : (getCurrentPcb k).parentPid = -1 →
      getRunningTerminal k = some (some k.currentTerminal) ∧
        ∀ t, t < k.currentTerminal → (k.terminals t).running = true)
    (hhalt : halt fs k status esp ebp = some k') :
    Attributed (if (getCurrentPcb k).parentPid = -1 then
      ⟨k', Function.update asker k'.runningPid (asker k.runningPid), none⟩
      else ⟨k', asker, none⟩) := by
  have hnum : (getCurrentPcb k).parentPid = -1 ↔ (k.pcbs k.runningPid).parentPcb = none := by
    unfold getCurrentPcb
    rw [h.consistent.parentPid _ h.live, parentNumber_eq_neg_one]
  obtain ⟨pcbs, hp, ⟨q, hq, hr⟩ | ⟨hpar, pid, u, hl⟩⟩ := h.halt_cases hhalt
  · have hne : ¬ (getCurrentPcb k).parentPid = -1 := by
      rw [hnum, hq]
      exact fun he => nomatch he
    rw [if_neg hne]
    exact attributed_quiet (h.returned hp hq hr).1
  · have hm1 := hnum.mpr hpar
    obtain ⟨hterm, hlower⟩ := hroot hm1
    have hown : asker k.runningPid = k.currentTerminal :=
      Option.some.inj (Option.some.inj (h.terminal.symm.trans hterm))
    rw [if_pos hm1, hl.runningPid, hown]
    exact attributed_quiet (h.relaunched hp hpar hown hlower hl).1

/-- The shell a tick starts becomes the root of the slot's terminal. -/
theorem attributed_start {asker : Nat → Fin 3} {pid : Nat} {t u : Fin 3} (h : Settled asker k)
    (hcur : (k.terminals k.currentTerminal).running = false)
    (hstop : (k.terminals t).running = false) (hlower : ∀ v, v < t → (k.terminals v).running = true)
    (hl : Launched k k' pid u) (hsched : k'.currentSchedule = t) :
    Attributed ⟨k', Function.update asker k'.runningPid k'.currentSchedule,
      some k'.currentSchedule⟩ := by
  obtain ⟨hset, hr⟩ := h.launchedRoot hl hcur
  obtain rfl := hl.first hcur hstop hlower
  rw [hsched, hl.runningPid]
  refine ⟨hset, fun v hv => ?_⟩
  obtain rfl := Option.some.inj hv
  dsimp only
  rw [hr.terminals, Function.update_self, hl.runningPid]
  exact ⟨rfl, rfl⟩

theorem attributed_tick {asker : Nat → Fin 3} {esp ebp : Nat} (hshell : Launchable fs shellCmd)
    (h : Settled asker k)
    (hstart : ∀ t pid, slotAfter k = some t → t ≠ k.currentSchedule →
      (k.terminals t).running = false → allocPid k.procs = some pid →
        (k.terminals (displayedAfter k)).running = false ∧
          ∀ u, u < t → (k.terminals u).running = true)
    (htick : irqhPit fs k esp ebp = some k') :
    Attributed (if k'.procs = k.procs then ⟨k', asker, none⟩
      else ⟨k', Function.update asker k'.runningPid k'.currentSchedule,
        some k'.currentSchedule⟩) := by
  obtain ⟨k1, t, -, hs, h1, hslot, hcase⟩ := h.tick_cases hshell htick
  have h2 := h1.scheduled t esp ebp
  rcases hcase with ⟨-, rfl⟩ | ⟨-, -, e, -, hset, -, hres⟩ | ⟨hne, hstop, pid, u, hl⟩ |
    ⟨-, -, -, rfl⟩
  · rw [if_pos hs.procs]
    exact attributed_quiet (h1.of_same ⟨fun _ => ⟨rfl, rfl, rfl, rfl⟩, rfl, rfl,
      fun _ => ⟨rfl, rfl, rfl⟩⟩ (keepsLast_of_paging rfl))
  · rw [if_pos (hres.procs.trans hs.procs)]
    exact attributed_quiet hset
  · have hprocs : (scheduledState k1 t esp ebp).procs = k.procs := hs.procs
    have hfree := hl.free
    rw [hprocs] at hfree
    obtain ⟨hcur, hlower⟩ := hstart t pid hslot hne hstop hfree
    rw [if_neg (by rw [← hprocs]; exact hl.procs_ne)]
    refine attributed_start h2 ?_ ((hs.running t).trans hstop)
      (fun v hv => (hs.running v).trans (hlower v hv)) hl hl.currentSchedule
    show (k1.terminals k1.currentTerminal).running = false
    rw [hs.currentTerminal, hs.running]
    exact hcur
  · have hprocs : (scheduledState k1 t esp ebp).procs = k.procs := hs.procs
    rw [if_pos hprocs]
    exact attributed_quiet h2

/-! ## Every run -/

theorem attributed_step {s s' : Tracked} {e : Event} (hshell : Launchable fs shellCmd)
    (h : Attributed s) (hbinds : BindsAsker s e) (hstep : trackStep fs s e = some s') :
    Attributed s' := by
  obtain ⟨k', hk', rfl⟩ := Option.map_eq_some_iff.mp hstep
  cases e with
  | execute ucmd esp ebp =>
    obtain ⟨pid, t, hl⟩ := eventStep_execute hk'
    exact attributed_execute h.settled hbinds hl
  | halt status esp ebp => exact attributed_halt h.settled hbinds hk'
  | tick esp ebp => exact attributed_tick hshell h.settled hbinds hk'
  | request t =>
    have hreq : Option.some { s.kernel with terminalToSwitchTo := some t } = some k' := hk'
    obtain rfl := Option.some.inj hreq
    exact attributed_quiet (h.settled.of_same ⟨fun _ => ⟨rfl, rfl, rfl, rfl⟩, rfl, rfl,
      fun _ => ⟨rfl, rfl, rfl⟩⟩ (keepsLast_of_paging rfl))

/-- A kernel that has just booted: the first shell was created for terminal 0. -/
def bootTracked (k : Kernel) : Tracked := ⟨k, fun _ => 0, none⟩

/-- In every state of every run of events from boot whose steps all meet the condition. -/
theorem execute_binds (fs : Image) (k : Kernel) (events : List Event) (hk : Booted fs k)
    (hevents : AllSteps (trackStep fs) BindsAsker (bootTracked k) events) :
    AllStates (trackStep fs) Bound (bootTracked k) events := by
  have hinv : AllStates (trackStep fs) Attributed (bootTracked k) events :=
    allStates_of_allSteps (fun s e t hs hG ht => attributed_step hk.launchable hs hG ht)
      (attributed_quiet hk.settled) hevents
  exact hinv.imp fun t ht => ht.bound

/-- For events that create a process outside `halt`, the condition is necessary as well. -/
theorem bindsAsker_of_bound {s s' : Tracked} {e : Event} (hshell : Launchable fs shellCmd)
    (h : Attributed s) (hstep : trackStep fs s e = some s') (hbound : Bound s')
    (he : ∀ status esp ebp, e ≠ .halt status esp ebp) : BindsAsker s e := by
  obtain ⟨k', hk', rfl⟩ := Option.map_eq_some_iff.mp hstep
  cases e with
  | execute ucmd esp ebp =>
    obtain ⟨pid, t, hl⟩ := eventStep_execute hk'
    show (s.kernel.terminals s.kernel.currentTerminal).running = true
    by_contra hcur
    -- the new process is the root of a stopped terminal, its asker's terminal runs
    obtain ⟨hset, hr⟩ := h.settled.launchedRoot hl (Bool.eq_false_iff.mpr hcur)
    have hterm := hset.terminal.symm.trans hbound.terminal
    dsimp only [Tracked.created] at hterm
    rw [hl.runningPid, Function.update_self, Function.update_self] at hterm
    have hrun := h.settled.owner_running h.settled.live
    rw [← Option.some.inj (Option.some.inj hterm), hr.stopped] at hrun
    cases hrun
  | halt status esp ebp => exact absurd rfl (he status esp ebp)
  | tick esp ebp =>
    intro t pid hslot hne hstop hpid
    obtain ⟨k1, t', -, hs, h1, hslot', hcase⟩ := h.settled.tick_cases hshell hk'
    obtain rfl := Option.some.inj (hslot.symm.trans hslot')
    have h2 := h1.scheduled t esp ebp
    rcases hcase with ⟨hsame, -⟩ | ⟨-, hrun, -⟩ | ⟨-, -, pid', u, hl⟩ | ⟨-, -, hnone, -⟩
    · exact absurd hsame hne
    · exact nomatch hrun.symm.trans hstop
    · have hprocs : (scheduledState k1 t esp ebp).procs = s.kernel.procs := hs.procs
      have hnew : k'.procs ≠ s.kernel.procs := by
        rw [← hprocs]
        exact hl.procs_ne
      have hstop1 : (k1.terminals t).running = false := (hs.running t).trans hstop
      -- the slot's terminal runs afterwards, so it is the one that was bound
      have hrun : (k'.terminals t).running = true := by
        dsimp only at hbound
        rw [if_neg hnew] at hbound
        exact (hbound.started t (congrArg some hl.currentSchedule)).1
      have hcur : (k1.terminals k1.currentTerminal).running = false := by
        cases hc : (k1.terminals k1.currentTerminal).running with
        | false => rfl
        | true =>
          obtain ⟨-, -, hterms, -⟩ := h2.launchedChild hl hc
          rw [hterms] at hrun
          exact nomatch hstop1.symm.trans hrun
      obtain ⟨-, hr⟩ := h2.launchedRoot hl hcur
      have htu : t = u := by
        by_contra htu
        rw [hr.terminals, Function.update_of_ne htu] at hrun
        exact nomatch hstop1.symm.trans hrun
      subst htu
      rw [hs.currentTerminal, hs.running] at hcur
      exact ⟨hcur, fun v hv => (hs.running v).symm.trans (hr.lower v hv)⟩
    · exact nomatch hnone.symm.trans hpid
  | request t => trivial

/-! ## Alt+Fn right after booting -/

/-- The state in which terminal `t` has been asked for. -/
def requested (k : Kernel) (t : Fin 3) : Kernel := { k with terminalToSwitchTo := some t }

theorem Booted.shown {t : Fin 3} (hk : Booted fs k) (ht : t ≠ 0) (u : Fin 3) :
    Shown (requested k t) u ↔ u = 0 ∨ u = t := by
  have hs := hk.spec
  unfold Shown requested
  dsimp only
  rw [hs.terminals.started, hs.currentTerminal, Option.some.injEq]
  constructor
  · rintro (h0 | ⟨hu, -⟩)
    · exact Or.inl h0
    · exact Or.inr hu.symm
  · rintro (h0 | rfl)
    · exact Or.inl h0
    · exact Or.inr ⟨rfl, ht⟩

theorem Booted.slotAfter {t : Fin 3} (hk : Booted fs k) (ht : t ≠ 0) :
    Mp3Kernel.slotAfter (requested k t) = some t := by
  have hs := hk.spec
  have hshown := hk.shown ht
  unfold Mp3Kernel.slotAfter
  dsimp only
  rw [show (requested k t).scheduleCounter = 0 from hs.scheduleCounter]
  obtain rfl | rfl : t = 1 ∨ t = 2 := by omega
  · rw [if_pos ((hshown (0 + 1)).mpr (Or.inr rfl))]
    rfl
  · rw [if_neg (fun h1 => absurd ((hshown (0 + 1)).mp h1) (by decide)),
      if_pos ((hshown (0 + 2)).mpr (Or.inr rfl))]
    rfl

/-- A request changes nothing but itself. -/
theorem Settled.requested {owner : Nat → Fin 3} (h : Settled owner k) (t : Fin 3) :
    Settled owner (Mp3Kernel.requested k t) :=
  h.of_same ⟨fun _ => ⟨rfl, rfl, rfl, rfl⟩, rfl, rfl, fun _ => ⟨rfl, rfl, rfl⟩⟩
    (keepsLast_of_paging rfl)

/-- The tick after the request displays the terminal, and starts a shell if it is that terminal's
    turn and it does not run. -/
theorem irqhPit_starts {owner : Nat → Fin 3} {t : Fin 3} {free : Nat}
    (hshell : Launchable fs shellCmd) (h : Settled owner k)
    (hw : Window k.paging k.runningPid video)
    (hbuf : ∀ u, (k.terminals u).vidMemBuf = vidMemBufAddr u)
    (hslot : slotAfter (requested k t) = some t) (hne : t ≠ k.currentSchedule)
    (hstop : (k.terminals t).running = false) (hfree : allocPid k.procs = some free)
    (esp ebp : Nat) :
    ∃ k1 k' u, irqhPit fs (requested k t) esp ebp = some k' ∧
      pendingSwitch (requested k t) = some k1 ∧ Switched (requested k t) k1 ∧
      Settled owner k1 ∧ Launched (scheduledState k1 t esp ebp) k' free u := by
  have hreq : Window (requested k t).paging (getCurrentPcb (requested k t)).pid video := by
    rw [show (getCurrentPcb (requested k t)).pid = k.runningPid from
      h.consistent.pid _ h.live]
    exact hw
  obtain ⟨k1, hswitch⟩ := pendingSwitch_some hreq hbuf
  have hsw := switched_of_pendingSwitch hswitch
  have h1 := (h.requested t).switched hswitch
  have hpid : allocPid (scheduledState k1 t esp ebp).procs = some free := by
    rw [show (scheduledState k1 t esp ebp).procs = k.procs from hsw.procs]
    exact hfree
  obtain ⟨k', entry, hexec⟩ :=
    execute_of_launchable hshell (h1.scheduled t esp ebp).last hpid esp ebp
  obtain ⟨⟨pid, u, hl⟩, -⟩ := launched_of_execute hexec
  obtain rfl : pid = free := Option.some.inj (hl.free.symm.trans hpid)
  refine ⟨k1, k', u, irqhPit_of_start hswitch ?_ ?_ ?_ hexec, hswitch, hsw, h1, hl⟩
  · rw [hsw.nextSchedule_eq]
    exact hslot
  · rw [hsw.currentSchedule]
    exact hne
  · rw [hsw.running]
    exact hstop

/-- Alt+F2: terminal 1 is the first that does not run. -/
theorem execute_binds_altF2 : ∃ k, Booted smallImage k ∧
    AllStates (trackStep smallImage) Bound (bootTracked k) [.request 1, .tick 0 0] := by
  obtain ⟨k, hk⟩ := booted_smallImage
  refine ⟨k, hk, execute_binds smallImage k _ hk fun s1 hs1 => ⟨trivial, fun s2 _ =>
    ⟨fun t pid hslot hne hstop _ => ?_, trivial⟩⟩⟩
  obtain rfl := Option.some.inj hs1
  obtain rfl := Option.some.inj ((hk.slotAfter (by decide)).symm.trans hslot)
  refine ⟨hstop, fun u hu => ?_⟩
  obtain rfl : u = 0 := by omega
  exact (hk.spec.terminals.running 0)

/-- Alt+F3: the shell that is to run on terminal 2 is bound to terminal 1. -/
theorem execute_misbinds : ∃ k, Booted smallImage k ∧
    ¬ AllStates (trackStep smallImage) Bound (bootTracked k) [.request 2, .tick 0 0] := by
  obtain ⟨k, hk⟩ := booted_smallImage
  refine ⟨k, hk, fun hall => ?_⟩
  have hs := hk.spec
  obtain ⟨pid, hpid⟩ : ∃ pid, allocPid k.procs = some pid :=
    allocPid_isSome ⟨1, by decide, fun h => absurd ((hs.procs 1).mp h) (by decide)⟩
  have hne : (2 : Fin 3) ≠ k.currentSchedule := by
    rw [hs.currentSchedule]
    decide
  obtain ⟨k1, k', u, htick, -, hsw, h1, hl⟩ := irqhPit_starts hk.launchable hk.settled
    (hs.runningPid ▸ hs.window) hs.terminals.vidMemBuf (hk.slotAfter (by decide)) hne
    (hs.terminals.running 2) hpid 0 0
  have hrunning : ∀ v, (k1.terminals v).running = decide (v = 0) := by
    intro v
    rw [hsw.running]
    exact hk.spec.terminals.running v
  have hcur : (k1.terminals k1.currentTerminal).running = false := by
    rw [hsw.currentTerminal, hrunning]
    rfl
  have hr := hl.rootLaunched hcur
  have hu : u ≠ 2 := by
    rintro rfl
    have h1run := hr.lower 1 (by decide)
    exact nomatch h1run.symm.trans (hrunning 1)
  have hprocs : k'.procs ≠ k.procs := by
    have hne := hl.procs_ne
    rwa [show (scheduledState k1 2 0 0).procs = k.procs from hsw.procs] at hne
  have hstep : trackStep smallImage ⟨requested k 2, fun _ => 0, none⟩ (.tick 0 0) =
      some ⟨k', Function.update (fun _ => 0) k'.runningPid k'.currentSchedule,
        some k'.currentSchedule⟩ := by
    show (irqhPit smallImage (requested k 2) 0 0).map _ = _
    rw [htick, Option.map_some]
    exact congrArg some (if_neg hprocs)
  have hbound := ((hall.2 _ rfl).2 _ hstep).started 2 (congrArg some hl.currentSchedule)
  have hstopped : (k'.terminals 2).running = false := by
    rw [hr.terminals, Function.update_of_ne hu.symm]
    exact hrunning 2
  exact nomatch hstopped.symm.trans hbound.1

end Mp3Kernel
