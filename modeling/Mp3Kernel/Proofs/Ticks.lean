/-
  Ticks on the machine, from the interrupt to the return.

  `Traced` keeps, beside the machine, which process has the CPU, where each process was last
  preempted and what the last step restored. From the save to the stack switch of a tick no
  process has the CPU: one has been preempted, the other is not yet resumed.

  `run_to_switch` and `run_switch` are the straight runs through a tick that resumes a process,
  `run_same` through one that does not. A tick that nothing interrupts does to the kernel what
  `irqhPit` does (`uninterrupted`).
-/
import Mp3Kernel.Model.Interrupts
import Mp3Kernel.Proofs.Shells

namespace Mp3Kernel

open Base.Runs Base.Bitmap

variable {fs : Image} {k k' : Kernel} {owner : Nat → Fin 3}

structure Traced where
  machine : Machine
  /-- The process that runs, or that the handlers on its stack will return to. -/
  onCpu : Option Nat
  preempted : Nat → Nat × Nat
  /-- The process the last step resumed, with the stack and the base pointer it loaded. -/
  restored : Option (Nat × Nat × Nat)

def Traced.kernel (s : Traced) : Kernel := s.machine.kernel

/-- The process that has the CPU, if one has, is preempted. -/
def Traced.preempt (s : Traced) (esp ebp : Nat) : Nat → Nat × Nat :=
  match s.onCpu with
  | some p => Function.update s.preempted p (esp, ebp)
  | none => s.preempted

def traceStep (s : Traced) (a : Action) : Option Traced :=
  (machineStep s.machine a).map fun m =>
    match a, s.machine.code with
    | .run, .handler .save esp ebp _ => ⟨m, none, s.preempt esp ebp, none⟩
    | .run, .handler (.base next esp) _ _ _ =>
      ⟨m, some next, s.preempted, some (next, esp, (s.machine.kernel.pcbs next).kbp)⟩
    | _, _ => ⟨m, s.onCpu, s.preempted, none⟩

/-! ## Straight runs -/

section Straight

variable {k1 : Kernel} {flag sent : Bool} {esp ebp e : Nat} {code : Code} {t : Fin 3}
  {frames : Nat × Nat → Option Code} {cpu : Option Nat} {pre : Nat → Nat × Nat}
  {res : Option (Nat × Nat × Nat)}

theorem mapVidmap_pcbs (k : Kernel) (pid : Nat) : (mapVidmap k pid).pcbs = k.pcbs := by
  unfold mapVidmap
  split
  · rfl
  · rfl

theorem traceStep_tick (hstack : OnStack code.owner esp) :
    traceStep ⟨⟨k, true, true, code, frames⟩, cpu, pre, res⟩ (.tick esp ebp) =
      some ⟨⟨k, false, false, .handler .start esp ebp code, frames⟩, cpu, pre, none⟩ := by
  have hstep : machineStep ⟨k, true, true, code, frames⟩ (.tick esp ebp) =
      some ⟨k, false, false, .handler .start esp ebp code, frames⟩ := by
    unfold machineStep
    exact if_pos ⟨rfl, rfl, hstack⟩
  unfold traceStep
  rw [hstep]
  rfl

/-- The pending switch and the choice of the terminal. -/
theorem run_pick (hswitch : pendingSwitch k = some k1) (hnext : nextSchedule k1 = some t) :
    run traceStep ⟨⟨k, flag, sent, .handler .start esp ebp code, frames⟩, cpu, pre, res⟩
      [.run, .run] = some ⟨⟨{ k1 with scheduleCounter := t }, flag || switchesTerminal k, sent,
        .handler (if t = k1.currentSchedule then .eoiSame else .save) esp ebp code, frames⟩,
        cpu, pre, none⟩ := by
  have h1 : traceStep ⟨⟨k, flag, sent, .handler .start esp ebp code, frames⟩, cpu, pre, res⟩ .run =
      some ⟨⟨k1, flag || switchesTerminal k, sent, .handler .pick esp ebp code, frames⟩, cpu, pre,
        none⟩ := by
    show Option.map _ (Option.map _ (pendingSwitch k)) = _
    rw [hswitch]
    rfl
  rw [run_cons, h1, Option.bind_some, run_cons]
  show Option.bind (Option.map _ (Option.map _ (nextSchedule k1))) _ = _
  rw [hnext]
  rfl

theorem run_same (hswitch : pendingSwitch k = some k1) (hnext : nextSchedule k1 = some t)
    (hsame : t = k1.currentSchedule) :
    run traceStep ⟨⟨k, flag, sent, .handler .start esp ebp code, frames⟩, cpu, pre, res⟩
      (List.replicate 4 .run) =
        some ⟨⟨{ k1 with scheduleCounter := t }, true, true, code, frames⟩, cpu, pre, none⟩ := by
  show run traceStep _ ([.run, .run] ++ [.run, .run]) = _
  rw [run_append, run_pick hswitch hnext, if_pos hsame, Option.bind_some]
  rfl

/-- The process at slot `e` is entered and its screen mapped, up to the stack switch. -/
theorem run_enter (cpu : Option Nat) (pre : Nat → Nat × Nat) :
    run traceStep ⟨⟨k, flag, sent, .handler (.enter e) esp ebp code, frames⟩, cpu, pre, none⟩
      (List.replicate 5 .run) = some ⟨⟨resumeProcess k e, flagAfterMap (k.pcbs e).pid, true,
        .handler (.stack e) esp ebp code, frames⟩, cpu, pre, none⟩ := by
  obtain ⟨k2, hk2⟩ : ∃ k2, k2 = mapVidmap (enterProcess k (k.pcbs e).pid) (k.pcbs e).pid :=
    ⟨_, rfl⟩
  have hpid : (k2.pcbs e).pid = (k.pcbs e).pid := by
    rw [hk2, mapVidmap_pcbs]
    rfl
  -- the flag is settled only when the screen is mapped
  obtain ⟨flag', henter⟩ : ∃ flag', run traceStep
      ⟨⟨k, flag, sent, .handler (.enter e) esp ebp code, frames⟩, cpu, pre, none⟩ [.run, .run] =
        some ⟨⟨k2, flag', sent, .handler (.screen e) esp ebp code, frames⟩, cpu, pre, none⟩ := by
    rw [hk2]
    exact ⟨_, rfl⟩
  have hmap : run traceStep
      ⟨⟨k2, flag', sent, .handler (.screen e) esp ebp code, frames⟩, cpu, pre, none⟩
      [.run, .run, .run] = some ⟨⟨flushTlb (mapScreen k2 (k2.pcbs e).pid),
        flagAfterMap (k2.pcbs e).pid, true, .handler (.stack e) esp ebp code, frames⟩,
        cpu, pre, none⟩ := rfl
  rw [hpid, hk2] at hmap
  rw [hk2] at henter
  exact run_append_of_some henter hmap

/-- A tick on its way to another process, up to the stack switch. -/
theorem run_to_switch (hswitch : pendingSwitch k = some k1) (hnext : nextSchedule k1 = some t)
    (hne : t ≠ k1.currentSchedule) (hrun : (k1.terminals t).running = true)
    (he : lowestChild (scheduledState k1 t esp ebp) ((k1.terminals t).pid % 256) = some e) :
    run traceStep ⟨⟨k, flag, sent, .handler .start esp ebp code, frames⟩, cpu, pre, res⟩
      (List.replicate 9 .run) = some ⟨⟨resumeProcess (scheduledState k1 t esp ebp) e,
        flagAfterMap ((scheduledState k1 t esp ebp).pcbs e).pid, true,
        .handler (.stack e) esp ebp code, Function.update frames (esp, ebp) (some code)⟩,
        none, Traced.preempt ⟨⟨k, flag, sent, code, frames⟩, cpu, pre, res⟩ esp ebp, none⟩ := by
  obtain ⟨k2, hk2⟩ : ∃ k2, k2 = scheduledState k1 t esp ebp := ⟨_, rfl⟩
  show run traceStep _ ([.run, .run] ++ .run :: .run :: List.replicate 5 .run) = _
  rw [run_append, run_pick hswitch hnext, if_neg hne, Option.bind_some]
  have hsave : ∀ pre' res' flag' cpu', traceStep ⟨⟨{ k1 with scheduleCounter := t }, flag', sent,
      .handler .save esp ebp code, frames⟩, cpu', pre', res'⟩ .run =
        some ⟨⟨k2, flag', sent, .handler .find esp ebp code,
          Function.update frames (esp, ebp) (some code)⟩, none,
          Traced.preempt ⟨⟨k, flag, sent, code, frames⟩, cpu', pre', res'⟩ esp ebp, none⟩ := by
    intro pre' res' flag' cpu'
    rw [hk2]
    rfl
  have hfind : ∀ pre' flag' frames', traceStep ⟨⟨k2, flag', sent, .handler .find esp ebp code,
      frames'⟩, none, pre', none⟩ .run = some ⟨⟨k2, flag', sent, .handler (.enter e) esp ebp code,
        frames'⟩, none, pre', none⟩ := by
    intro pre' flag' frames'
    have hstep : machineStep ⟨k2, flag', sent, .handler .find esp ebp code, frames'⟩ .run =
        some ⟨k2, flag', sent, .handler (.enter e) esp ebp code, frames'⟩ := by
      show (if (k2.terminals k2.currentSchedule).running then
        (lowestChild k2 ((k2.terminals k2.currentSchedule).pid % 256)).map _ else none) = _
      subst hk2
      refine (if_pos hrun).trans ?_
      exact congrArg (Option.map _) he
    unfold traceStep
    rw [hstep]
    rfl
  rw [run_cons, hsave, Option.bind_some, run_cons, hfind, Option.bind_some, ← hk2]
  exact run_enter none _

/-- The stack switch. -/
theorem run_switch {code' : Code}
    (hframe : frames ((k.pcbs e).ksp, (k.pcbs e).kbp) = some code') :
    run traceStep ⟨⟨k, flag, sent, .handler (.stack e) esp ebp code, frames⟩, cpu, pre, res⟩
      (List.replicate 2 .run) = some ⟨⟨k, true, sent, code', frames⟩, some e, pre,
        some (e, (k.pcbs e).ksp, (k.pcbs e).kbp)⟩ := by
  show Option.bind (Option.map _ (Option.map _ (frames ((k.pcbs e).ksp, (k.pcbs e).kbp)))) _ = _
  rw [hframe]
  rfl

/-- The whole tick. -/
theorem run_resume {k2 : Kernel} {code' : Code} (hswitch : pendingSwitch k = some k1)
    (hnext : nextSchedule k1 = some t) (hne : t ≠ k1.currentSchedule)
    (hrun : (k1.terminals t).running = true)
    (he : lowestChild (scheduledState k1 t esp ebp) ((k1.terminals t).pid % 256) = some e)
    (hk2 : k2 = resumeProcess (scheduledState k1 t esp ebp) e)
    (hframe : Function.update frames (esp, ebp) (some code) ((k2.pcbs e).ksp, (k2.pcbs e).kbp) =
      some code') :
    run traceStep ⟨⟨k, flag, sent, .handler .start esp ebp code, frames⟩, cpu, pre, res⟩
      (List.replicate 11 .run) = some ⟨⟨k2, true, true, code',
        Function.update frames (esp, ebp) (some code)⟩, some e,
        Traced.preempt ⟨⟨k, flag, sent, code, frames⟩, cpu, pre, res⟩ esp ebp,
        some (e, (k2.pcbs e).ksp, (k2.pcbs e).kbp)⟩ := by
  subst hk2
  exact run_append_of_some (run_to_switch hswitch hnext hne hrun he) (run_switch hframe)

end Straight

/-! ## Two shells taking turns -/

/-- The terminals 0 and 1 have a shell each, with the PID of their number, and nothing else
    runs; terminal `t` is scheduled. -/
structure Shells (t : Fin 3) (k : Kernel) : Prop where
  pending : k.terminalToSwitchTo = none
  status : ∀ u, (k.terminals u).status = .running ↔ u ≠ 2
  shell : ∀ u, u ≠ 2 → (k.terminals u).running = true ∧ (k.terminals u).pid = u.val ∧
    (k.pcbs u.val).pid = u.val ∧ (k.pcbs u.val).childPcb = none
  schedule : k.currentSchedule = t
  counter : k.scheduleCounter = t

def otherShell (t : Fin 3) : Fin 3 := if t = 0 then 1 else 0

theorem otherShell_ne {t : Fin 3} (ht : t ≠ 2) : otherShell t ≠ t ∧ otherShell t ≠ 2 := by
  revert t
  decide

theorem Shells.next {t : Fin 3} (h : Shells t k) (ht : t ≠ 2) :
    nextSchedule k = some (otherShell t) := by
  unfold nextSchedule
  dsimp only
  rw [h.counter]
  obtain rfl | rfl : t = 0 ∨ t = 1 := by omega
  · rw [if_pos ((h.status _).mpr (by decide))]
    rfl
  · rw [if_neg (fun hs => absurd ((h.status _).mp hs) (by decide)),
      if_pos ((h.status _).mpr (by decide))]
    rfl

/-- A tick that saves a position for the running process and turns to the shell of `t`. -/
structure Turned (k k2 : Kernel) (t : Fin 3) (esp ebp : Nat) : Prop where
  shells : Shells t k2
  runningPid : k2.runningPid = t.val
  pcbs : k2.pcbs = Function.update k.pcbs k.runningPid
    { k.pcbs k.runningPid with ksp := esp, kbp := ebp }
  toSwitch : ∀ code frames cpu pre res, OnStack code.owner esp →
    run traceStep ⟨⟨k, true, true, code, frames⟩, cpu, pre, res⟩
      (.tick esp ebp :: List.replicate 9 .run) = some ⟨⟨k2, true, true,
        .handler (.stack t.val) esp ebp code, Function.update frames (esp, ebp) (some code)⟩,
        none, Traced.preempt ⟨⟨k, true, true, code, frames⟩, cpu, pre, res⟩ esp ebp, none⟩

theorem Turned.resume {k2 : Kernel} {t : Fin 3} {esp ebp : Nat} (h : Turned k k2 t esp ebp)
    (code code' : Code) (frames : Nat × Nat → Option Code) (cpu : Option Nat)
    (pre : Nat → Nat × Nat) (res : Option (Nat × Nat × Nat)) (hstack : OnStack code.owner esp)
    (hframe : Function.update frames (esp, ebp) (some code)
      ((k2.pcbs t.val).ksp, (k2.pcbs t.val).kbp) = some code') :
    run traceStep ⟨⟨k, true, true, code, frames⟩, cpu, pre, res⟩
      (.tick esp ebp :: List.replicate 11 .run) = some ⟨⟨k2, true, true, code',
        Function.update frames (esp, ebp) (some code)⟩, some t.val,
        Traced.preempt ⟨⟨k, true, true, code, frames⟩, cpu, pre, res⟩ esp ebp,
        some (t.val, (k2.pcbs t.val).ksp, (k2.pcbs t.val).kbp)⟩ := by
  have hsteps : (.tick esp ebp :: List.replicate 11 .run : List Action) =
      (.tick esp ebp :: List.replicate 9 .run) ++ List.replicate 2 .run := rfl
  rw [hsteps]
  exact run_append_of_some (h.toSwitch _ _ _ _ _ hstack) (run_switch hframe)

theorem Shells.turn {t : Fin 3} (h : Shells t k) (ht : t ≠ 2) (esp ebp : Nat) :
    ∃ k2, Turned k k2 (otherShell t) esp ebp := by
  obtain ⟨hother, hother2⟩ := otherShell_ne ht
  generalize hu : otherShell t = u at hother hother2 ⊢
  obtain ⟨hrun, hpid, hnum, hleaf⟩ := h.shell u hother2
  have hlinks := scheduledState_links k u esp ebp
  have hnum' : ((scheduledState k u esp ebp).pcbs u.val).pid = u.val :=
    (hlinks u.val).pid.trans hnum
  have hlowest : lowestChild (scheduledState k u esp ebp) ((k.terminals u).pid % 256) =
      some u.val := by
    rw [hpid, Nat.mod_eq_of_lt (by omega)]
    exact Base.Chain.last_of_none ((hlinks u.val).childPcb.trans hleaf)
  have hres := resumeProcess_spec (scheduledState k u esp ebp) u.val
  rw [hnum'] at hres
  have hswitch : pendingSwitch k = some k := by
    unfold pendingSwitch
    rw [h.pending]
  refine ⟨resumeProcess (scheduledState k u esp ebp) u.val, ⟨?_, ?_, fun v hv => ?_, ?_, ?_⟩, ?_,
    hres.pcbs, fun code frames cpu pre res hstack => ?_⟩
  · exact hres.terminalToSwitchTo.trans h.pending
  · rw [hres.terminals]
    exact h.status
  · rw [hres.terminals, hres.pcbs, (hlinks v.val).pid, (hlinks v.val).childPcb]
    exact h.shell v hv
  · exact hres.currentSchedule
  · exact hres.scheduleCounter
  · rw [hres.runningPid]
    omega
  · rw [run_cons, traceStep_tick hstack, Option.bind_some,
      run_to_switch hswitch (hu ▸ h.next ht) (h.schedule.symm ▸ hother) hrun hlowest, hnum']
    unfold flagAfterMap
    rw [decide_eq_true (show u.val % 256 < 8 by omega)]
    rfl

/-- Alt+F2 right after booting, and the tick that starts the shell of terminal 1. -/
theorem Booted.shells (hk : Booted fs k) (esp ebp : Nat) :
    ∃ k', run (step fs) k [.request 1, .tick esp ebp] = some k' ∧ Shells 1 k' ∧
      k'.runningPid = 1 ∧ ((k'.pcbs 0).ksp, (k'.pcbs 0).kbp) = (esp, ebp) ∧
      Settled (Function.update (fun _ => 0) 1 1) k' ∧
      ∀ p, Taken k'.procs p ↔ p = 0 ∨ p = 1 := by
  obtain ⟨k1, k', pid, u, htick, hswitch, hl, hon, hpending⟩ :=
    hk.shellsOn.start hk.launchable (t := 1) rfl esp ebp
  have hsw := switched_of_pendingSwitch hswitch
  obtain rfl : pid = 1 := hl.runningPid.symm.trans hon.runningPid
  have hcur : (k1.terminals k1.currentTerminal).running = false := by
    rw [hsw.currentTerminal, hsw.running]
    exact hk.spec.terminals.running 1
  obtain ⟨pcb, hpcbs, -⟩ := (hl.rootLaunched hcur).pcbs
  have hpcb0 : k'.pcbs 0 = { k1.pcbs 0 with ksp := esp, kbp := ebp } := by
    have hrp : k1.runningPid = 0 := hsw.runningPid.trans hk.spec.runningPid
    rw [hpcbs, Function.update_of_ne (by decide)]
    show Function.update k1.pcbs k1.runningPid _ 0 = _
    rw [hrp, Function.update_self]
    rfl
  have hle : ∀ v : Fin 3, v ≤ 1 ↔ v ≠ 2 := by decide
  refine ⟨k', ?_, ⟨hpending, fun v => (hon.status v).trans (hle v), fun v hv => ?_, hon.schedule,
    hon.counter⟩, hon.runningPid, ?_, hon.settled, fun p => ?_⟩
  · show (irqhPit fs (requested k 1) esp ebp).bind _ = _
    rw [htick]
    rfl
  · have hv1 : v ≤ 1 := (hle v).mpr hv
    have hlive : Taken k'.procs v := (hon.procs v).mpr hv1
    exact ⟨(hon.running v).trans (decide_eq_true hv1), hon.pid v hv1,
      hon.settled.consistent.pid v hlive, hon.leaf v hlive⟩
  · rw [hpcb0]
  · refine (hon.procs p).trans ?_
    show p ≤ 1 ↔ _
    omega

end Mp3Kernel
