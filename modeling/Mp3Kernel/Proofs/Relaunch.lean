/-
  Which terminal does a root shell that halts come back on?

  `halt` looks for the terminal of the process that ends, and then gives up the displayed one;
  `execute` and `new_terminal` take it again for the new shell. So while all three terminals
  run, the new shell is always the displayed terminal's.

  `root_relaunched_iff`: that is the terminal of the process that ended, with the other two
  left alone, exactly if this terminal is displayed, or has the pid of the displayed one and
  the new shell is given that pid once more. `root_relaunched_elsewhere`: with a shell on each
  terminal and terminal 2 displayed, the halt of terminal 0's shell costs terminal 2 its own.
-/
import Mp3Kernel.Proofs.Shells

namespace Mp3Kernel

open Base.Runs Base.Bitmap

variable {fs : Image} {k k' : Kernel} {owner : Nat → Fin 3}

/-- The operation ends the running process. -/
def Op.ends : Op → Bool
  | .halt _ _ _ => true
  | .exception _ _ => true
  | _ => false

/-- Terminal `t` runs the new shell, and the other terminals what they ran before. -/
structure RelaunchedOn (k k' : Kernel) (t : Fin 3) : Prop where
  running : (k'.terminals t).running = true
  pid : (k'.terminals t).pid = k'.runningPid
  others : ∀ u, u ≠ t → (k'.terminals u).running = (k.terminals u).running ∧
    (k'.terminals u).pid = (k.terminals u).pid

/-- Terminal `t` is displayed, or it shares its pid with the displayed terminal and this is the
    lowest one free once the running process has given up its own. -/
def RelaunchesOn (k : Kernel) (t : Fin 3) : Prop :=
  t = k.currentTerminal ∨ ((k.terminals k.currentTerminal).pid = (k.terminals t).pid ∧
    allocPid (freePid k (getCurrentPcb k).pid).procs = some (k.terminals t).pid)

/-! ## The effect of a root's end -/

/-- The displayed terminal is given the new shell. -/
structure DisplayedRelaunched (k k' : Kernel) : Prop where
  free : allocPid (freePid k (getCurrentPcb k).pid).procs = some k'.runningPid
  terminals : k'.terminals = Function.update k.terminals k.currentTerminal
    { k.terminals k.currentTerminal with pid := k'.runningPid, running := true }

/-- The terminal just stopped is the only one that does not run. -/
theorem displayedRelaunched_of_launched {k1 : Kernel} {pid : Nat} {u : Fin 3}
    (hl : Launched k1 k' pid u) (hall : ∀ t, (k.terminals t).running = true)
    (hprocs : k1.procs = (freePid k (getCurrentPcb k).pid).procs)
    (hcur : k1.currentTerminal = k.currentTerminal)
    (hterms : k1.terminals = Function.update k.terminals k.currentTerminal
      { k.terminals k.currentTerminal with running := false }) : DisplayedRelaunched k k' := by
  have hr := hl.rootLaunched (by rw [hcur, hterms, Function.update_self])
  have hu : u = k.currentTerminal := by
    by_contra hne
    have hstop := hr.stopped
    rw [hterms, Function.update_of_ne hne, hall u] at hstop
    cases hstop
  subst hu
  refine ⟨?_, ?_⟩
  · rw [hr.runningPid, ← hprocs]
    exact hl.free
  · rw [hr.terminals, hr.runningPid, hterms, Function.update_self, Function.update_idem]

theorem displayedRelaunched_of_halt {status : UInt8} {esp ebp : Nat}
    (hall : ∀ t, (k.terminals t).running = true) (hroot : (getCurrentPcb k).parentPid = -1)
    (hhalt : halt fs k status esp ebp = some k') :
    (∃ t, getRunningTerminal k = some (some t)) ∧ DisplayedRelaunched k k' := by
  obtain ⟨pcbs, t, hp, hterm, ⟨-, entry, hexec⟩ | ⟨hparent, -⟩⟩ := halt_cases hhalt
  · obtain ⟨⟨pid, u, hl⟩, -⟩ := launched_of_execute hexec
    have hfound : getRunningTerminal (haltedState k pcbs) = getRunningTerminal k :=
      getRunningTerminal_congr rfl (fun _ => rfl) hp.pid hp.parentPid hp.parentPcb
    exact ⟨⟨t, hfound.symm.trans hterm⟩, displayedRelaunched_of_launched hl hall rfl rfl rfl⟩
  · exact absurd hroot hparent

/-- An exception handler halts the process too. -/
theorem displayedRelaunched_of_ends {op : Op} (hall : ∀ t, (k.terminals t).running = true)
    (hroot : (getCurrentPcb k).parentPid = -1) (hop : op.ends = true)
    (hstep : step fs k op = some k') :
    (∃ t, getRunningTerminal k = some (some t)) ∧ DisplayedRelaunched k k' := by
  cases op with
  | halt status esp ebp => exact displayedRelaunched_of_halt hall hroot hstep
  | exception esp ebp =>
    obtain ⟨hterm, hfree, hterms⟩ :=
      displayedRelaunched_of_halt (k := { k with programExceptionOccured := true }) hall hroot hstep
    exact ⟨hterm, hfree, hterms⟩
  | _ => cases hop

theorem DisplayedRelaunched.on_iff (h : DisplayedRelaunched k k')
    (hall : ∀ t, (k.terminals t).running = true) (t : Fin 3) :
    RelaunchedOn k k' t ↔ RelaunchesOn k t := by
  have hself : (k'.terminals k.currentTerminal).running = true ∧
      (k'.terminals k.currentTerminal).pid = k'.runningPid := by
    rw [h.terminals, Function.update_self]
    exact ⟨rfl, rfl⟩
  have hother : ∀ u, u ≠ k.currentTerminal → k'.terminals u = k.terminals u := by
    intro u hu
    rw [h.terminals, Function.update_of_ne hu]
  constructor
  · intro hon
    by_cases ht : t = k.currentTerminal
    · exact Or.inl ht
    · -- the displayed terminal has kept its pid, and so has t
      have hpid := hon.pid
      rw [hother t ht] at hpid
      have hcur := (hon.others _ (Ne.symm ht)).2
      rw [hself.2] at hcur
      refine Or.inr ⟨hcur.symm.trans hpid.symm, ?_⟩
      rw [hpid]
      exact h.free
  · rintro (rfl | ⟨hpids, hfree⟩)
    · exact ⟨hself.1, hself.2, fun u hu => by rw [hother u hu]; exact ⟨rfl, rfl⟩⟩
    · have hpid : k'.runningPid = (k.terminals t).pid := Option.some.inj (h.free.symm.trans hfree)
      have hsame : ∀ u, (k'.terminals u).running = (k.terminals u).running ∧
          (k'.terminals u).pid = (k.terminals u).pid := by
        intro u
        by_cases hu : u = k.currentTerminal
        · subst hu
          exact ⟨hself.1.trans (hall _).symm, hself.2.trans (hpid.trans hpids.symm)⟩
        · rw [hother u hu]
          exact ⟨rfl, rfl⟩
      exact ⟨(hsame t).1.trans (hall t), (hsame t).2.trans hpid.symm, fun u _ => hsame u⟩

/-- From every state in which all terminals run: where the root process running now ends, the
    terminal `halt` finds for it gets the new shell, and no other changes, exactly under the
    condition. -/
theorem root_relaunched_iff (fs : Image) (k k' : Kernel) (op : Op)
    (hall : ∀ t, (k.terminals t).running = true) (hroot : (getCurrentPcb k).parentPid = -1)
    (hop : op.ends = true) (hstep : step fs k op = some k') :
    ∃ t, getRunningTerminal k = some (some t) ∧ (RelaunchedOn k k' t ↔ RelaunchesOn k t) := by
  obtain ⟨⟨t, ht⟩, h⟩ := displayedRelaunched_of_ends hall hroot hop hstep
  exact ⟨t, ht, h.on_iff hall t⟩

/-! ## A shell on each terminal -/

/-- In a settled state the terminals that run have pids of their own, and the condition is that
    the terminal is displayed. -/
theorem Settled.relaunchesOn_iff (h : Settled owner k)
    (hall : ∀ t, (k.terminals t).running = true) (t : Fin 3) :
    RelaunchesOn k t ↔ t = k.currentTerminal := by
  have howner : ∀ u, owner (k.terminals u).pid = u := fun u =>
    (h.wf.rooted u _ (forestOf_root.mpr ⟨hall u, rfl⟩)).2.2
  constructor
  · rintro (ht | ⟨hpids, -⟩)
    · exact ht
    · rw [← howner t, ← hpids]
      exact howner _
  · exact Or.inl

theorem Settled.root_parentPid (h : Settled owner k)
    (hroot : (k.pcbs k.runningPid).parentPcb = none) : (getCurrentPcb k).parentPid = -1 := by
  unfold getCurrentPcb
  rw [h.consistent.parentPid _ h.live, hroot]
  rfl

/-- Alt+F2 and Alt+F3, each followed by a tick. -/
def threeShells : List Op := [.request 1, .tick 0 0, .request 2, .tick 0 0]

theorem Booted.threeShells (hk : Booted fs k) : ∃ k' owner,
    run (step fs) k Mp3Kernel.threeShells = some k' ∧ ShellsOn owner 2 k' ∧
      k'.terminalToSwitchTo = none := by
  obtain ⟨-, k1, -, -, htick1, -, -, h1, -⟩ :=
    hk.shellsOn.start hk.launchable (t := 1) rfl 0 0
  obtain ⟨-, k2, -, -, htick2, -, -, h2, hpending⟩ := h1.start hk.launchable (t := 2) rfl 0 0
  refine ⟨k2, _, ?_, h2, hpending⟩
  rw [Mp3Kernel.threeShells, run_cons_of_some (t := requested k 1) rfl, run_cons_of_some htick1,
    run_cons_of_some (t := requested k1 2) rfl, run_cons_of_some htick2, run_nil]

/-- The shell of terminal 2 halts while terminal 2 is displayed. -/
theorem root_relaunched_displayed : ∃ k k', Reachable smallImage k ∧
    step smallImage k (.halt 0 0 0) = some k' ∧ getRunningTerminal k = some (some 2) ∧
    RelaunchedOn k k' 2 := by
  obtain ⟨k0, hk⟩ := booted_smallImage
  obtain ⟨k, owner, hrun, h, -⟩ := hk.threeShells
  have hall : ∀ t, (k.terminals t).running = true := fun t =>
    (h.running t).trans (decide_eq_true (by omega))
  obtain ⟨-, hparent, hown⟩ := h.settled.wf.rooted 2 k.runningPid
    (forestOf_root.mpr ⟨hall 2, (h.pid 2 (le_refl 2)).trans h.runningPid.symm⟩)
  obtain ⟨k', hhalt⟩ := h.settled.halt_root hk.launchable hparent 0 0 0
  have hterm := h.settled.terminal
  rw [show owner k.runningPid = 2 from hown] at hterm
  obtain ⟨t, ht, hiff⟩ := root_relaunched_iff smallImage k k' (.halt 0 0 0) hall
    (h.settled.root_parentPid hparent) rfl hhalt
  obtain rfl : t = 2 := Option.some.inj (Option.some.inj (ht.symm.trans hterm))
  exact ⟨k, k', ⟨k0, _, hk, hrun⟩, hhalt, hterm, hiff.mpr (Or.inl h.displayed.symm)⟩

/-- The shell of terminal 0 halts while terminal 2 is displayed. -/
theorem root_relaunched_elsewhere : ∃ k k', Reachable smallImage k ∧
    (∀ t, (k.terminals t).running = true) ∧ (getCurrentPcb k).parentPid = -1 ∧
    getRunningTerminal k = some (some 0) ∧ step smallImage k (.halt 0 0 0) = some k' ∧
    ¬ RelaunchedOn k k' 0 := by
  obtain ⟨k0, hk⟩ := booted_smallImage
  obtain ⟨k2, owner, hrun, h, hpending⟩ := hk.threeShells
  obtain ⟨htick, hset, hrunning, hown, hres⟩ := h.back (by decide) hpending 0 0
  obtain ⟨k, hk1⟩ : ∃ k, k = resumeProcess (scheduledState k2 0 0 0) 0 := ⟨_, rfl⟩
  rw [← hk1] at htick hset hrunning hres
  have hterms : k.terminals = k2.terminals := hres.terminals
  have hall : ∀ t, (k.terminals t).running = true := by
    intro t
    rw [hterms, h.running]
    exact decide_eq_true (by omega)
  have hparent : (k.pcbs k.runningPid).parentPcb = none := by
    rw [hrunning]
    exact hset.first.2.1
  have hterm := hset.terminal
  rw [hrunning, hown] at hterm
  obtain ⟨k', hhalt⟩ := hset.halt_root hk.launchable hparent 0 0 0
  have hroot := hset.root_parentPid hparent
  obtain ⟨-, hdisp⟩ := displayedRelaunched_of_halt hall hroot hhalt
  refine ⟨k, k', ⟨k0, threeShells ++ [.tick 0 0], hk, run_append_of_some hrun ?_⟩, hall, hroot,
    hterm, hhalt, fun hon => ?_⟩
  · rw [run_cons_of_some htick, run_nil]
  · have hcur : k.currentTerminal = 2 := hres.currentTerminal.trans h.displayed
    have h0 := (hset.relaunchesOn_iff hall 0).mp ((hdisp.on_iff hall 0).mp hon)
    rw [hcur] at h0
    cases h0

end Mp3Kernel
