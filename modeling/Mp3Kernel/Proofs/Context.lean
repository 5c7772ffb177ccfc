/-
  Is a process resumed with the context that was saved when it was preempted?

  `context_kept`: it is, in every run in which no timer interrupt comes between the EOI of a
  tick and its stack switch. The invariant is that every leaf of the process forest that does
  not have the CPU is `Suspended`: what its PCB holds is what was saved when it was preempted.

  `Sound.tick_in_switch`: an interrupt that does come there, if it turns to another terminal,
  overwrites the position of the process about to be resumed. In `context_lost` a later tick
  restores it.
-/
import Mp3Kernel.Proofs.Ticks

namespace Mp3Kernel

open Base.Runs Base.Bitmap

variable {fs : Image} {k k' : Kernel} {owner : Nat → Fin 3}

def ContextKept (s : Traced) : Prop :=
  ∀ p esp ebp, s.restored = some (p, esp, ebp) → (esp, ebp) = s.preempted p

/-- Between the EOI of a tick that resumes a process and the end of its stack switch. -/
def Code.inSwitch : Code → Bool
  | .handler (.stack _) _ _ _ => true
  | .handler (.base _ _) _ _ _ => true
  | _ => false

def TickOutsideSwitch (s : Traced) (a : Action) : Prop :=
  ∀ esp ebp, a = .tick esp ebp → s.machine.code.inSwitch = false

/-! ## The invariant -/

/-- Code that gives the CPU back to process `p`. -/
inductive Returns (p : Nat) : Code → Prop
  | process : Returns p (.process p)
  | handler {esp ebp : Nat} {code : Code} : Returns p code →
      Returns p (.handler .ret esp ebp code)

theorem Returns.owner_eq {p : Nat} {code : Code} (h : Returns p code) : code.owner = p := by
  induction h with
  | process => rfl
  | handler _ ih => exact ih

/-- The position saved in the PCB of process `p` is the one it was preempted at, is on the
    process's own stack, and leads back to the process. -/
structure Suspended (frames : Nat × Nat → Option Code) (p : Nat) (pcb : Pcb)
    (preempted : Nat × Nat) : Prop where
  saved : (pcb.ksp, pcb.kbp) = preempted
  onStack : OnStack p pcb.ksp
  frame : ∃ code, frames (pcb.ksp, pcb.kbp) = some code ∧ Returns p code

def Pc.beforeSave : Pc → Prop
  | .start | .pick | .eoiSame | .save => True
  | _ => False

/-- The slot a tick past its save is about to resume: the leaf of a stack, and from `set_pid`
    on the running process. -/
def Target (k : Kernel) : Pc → Prop
  | .find => True
  | .enter next => Taken k.procs next ∧ (k.pcbs next).childPcb = none
  | .vidmap next | .screen next | .flush next | .eoi next | .stack next => k.runningPid = next
  | .base next esp => k.runningPid = next ∧ esp = (k.pcbs next).ksp
  | _ => False

/-- What the CPU does: it runs the running process or returns to it, has begun a tick on its
    stack, or is past the save of a tick. -/
inductive Control (k : Kernel) : Code → Bool → Option Nat → Prop
  | running {code : Code} {sent : Bool} : Returns k.runningPid code →
      Control k code sent (some k.runningPid)
  | ticking {pc : Pc} {esp ebp : Nat} {code : Code} : pc.beforeSave →
      Returns k.runningPid code → OnStack k.runningPid esp →
      Control k (.handler pc esp ebp code) false (some k.runningPid)
  | switching {pc : Pc} {esp ebp : Nat} {code : Code} {sent : Bool} : Target k pc →
      ((Code.handler pc esp ebp code).inSwitch = false → sent = false) →
      Control k (.handler pc esp ebp code) sent none

/-- Every leaf that does not have the CPU is suspended. -/
structure Sound (owner : Nat → Fin 3) (s : Traced) : Prop where
  settled : Settled owner s.kernel
  suspended : ∀ p, Taken s.kernel.procs p → (s.kernel.pcbs p).childPcb = none →
    s.onCpu ≠ some p → Suspended s.machine.frames p (s.kernel.pcbs p) (s.preempted p)
  control : Control s.kernel s.machine.code s.machine.eoiSent s.onCpu
  kept : ContextKept s

/-- A process runs, and the others that can be resumed are suspended. -/
structure Started (owner : Nat → Fin 3) (s : Traced) : Prop where
  settled : Settled owner s.kernel
  code : s.machine.code = .process s.kernel.runningPid
  onCpu : s.onCpu = some s.kernel.runningPid
  restored : s.restored = none
  suspended : ∀ p, Taken s.kernel.procs p → (s.kernel.pcbs p).childPcb = none →
    p ≠ s.kernel.runningPid → Suspended s.machine.frames p (s.kernel.pcbs p) (s.preempted p)

theorem ContextKept.of_none {s : Traced} (h : s.restored = none) : ContextKept s :=
  fun _ _ _ hr => nomatch h.symm.trans hr

theorem Started.sound {s : Traced} (h : Started owner s) : Sound owner s := by
  refine ⟨h.settled, fun p hp hleaf hcpu => h.suspended p hp hleaf ?_, ?_, .of_none h.restored⟩
  · intro he
    exact hcpu (he ▸ h.onCpu)
  · rw [h.code, h.onCpu]
    exact .running .process

/-- Two stacks have no position in common. -/
theorem OnStack.unique {p q esp : Nat} (hp : OnStack p esp) (hq : OnStack q esp) : p = q := by
  unfold OnStack kb8 mb8 at hp hq
  omega

/-- A step that saves and restores nothing. -/
theorem Sound.quiet {s : Traced} {m : Machine} (h : Sound owner s)
    (hset : Settled owner m.kernel) (hpcbs : m.kernel.pcbs = s.kernel.pcbs)
    (hprocs : m.kernel.procs = s.kernel.procs) (hframes : m.frames = s.machine.frames)
    (hcontrol : Control m.kernel m.code m.eoiSent s.onCpu) :
    Sound owner ⟨m, s.onCpu, s.preempted, none⟩ := by
  refine ⟨hset, fun p hp hleaf hcpu => ?_, hcontrol, .of_none rfl⟩
  show Suspended m.frames p (m.kernel.pcbs p) _
  rw [hframes, hpcbs]
  exact h.suspended p (hprocs ▸ hp) (hpcbs ▸ hleaf) hcpu

/-! ## One step -/

section Steps

variable {s s' : Traced} {flag sent : Bool} {pc : Pc} {esp ebp : Nat} {code : Code}
  {frames : Nat × Nat → Option Code} {cpu : Option Nat} {pre : Nat → Nat × Nat}
  {res : Option (Nat × Nat × Nat)}

theorem Settled.counted (h : Settled owner k) (t : Fin 3) :
    Settled owner { k with scheduleCounter := t } :=
  h.of_same ⟨fun _ => ⟨rfl, rfl, rfl, rfl⟩, rfl, rfl, fun _ => ⟨rfl, rfl, rfl⟩⟩
    (keepsLast_of_paging rfl)

theorem Settled.entered {next : Nat} (h : Settled owner k) (hlive : Taken k.procs next)
    (hleaf : (k.pcbs next).childPcb = none) :
    Settled owner (enterProcess k next) ∧ (enterProcess k next).runningPid = next := by
  have hlt : next < 8 := Taken.lt hlive
  have hrun : (enterProcess k next).runningPid = next := by
    show next % 256 = next
    omega
  have hcons : Consistent (enterProcess k next) :=
    ⟨h.consistent.pid, h.consistent.parentPid, h.consistent.id, h.consistent.stopped,
      h.consistent.first⟩
  refine ⟨⟨h.last, hcons, h.wf, ?_, ?_⟩, hrun⟩
  · rw [hrun]
    exact hlive
  · rw [hrun]
    exact hleaf

theorem frame_mapVidmap (k : Kernel) : Frame k (mapVidmap k (getCurrentPcb k).pid) := by
  unfold mapVidmap
  split
  · exact frame_remap k _ (Or.inr rfl)
  · exact Frame.refl k

theorem frame_mapScreen (k : Kernel) : Frame k (mapScreen k (getCurrentPcb k).pid) := by
  unfold mapScreen
  split
  · exact frame_remap_video k _
  · exact frame_remap_video k _

theorem Settled.frame (h : Settled owner k) (hf : Frame k k') : Settled owner k' :=
  h.of_same hf.sameForest hf.keepsLast

/-- The step that saves the position: the process that had the CPU is suspended now. -/
theorem Sound.saved (h : Sound owner
      ⟨⟨k, flag, false, .handler .save esp ebp code, frames⟩, some k.runningPid, pre, res⟩)
    (hreturns : Returns k.runningPid code) (hstack : OnStack k.runningPid esp) :
    Sound owner ⟨⟨saveContext { k with currentSchedule := k.scheduleCounter } esp ebp, flag, false,
      .handler .find esp ebp code, Function.update frames (esp, ebp) (some code)⟩, none,
      Function.update pre k.runningPid (esp, ebp), none⟩ := by
  refine ⟨?_, fun p hp hleaf _ => ?_, .switching trivial fun _ => rfl, .of_none rfl⟩
  · exact h.settled.of_same ⟨sameLinks_update k.pcbs k.runningPid ⟨rfl, rfl, rfl, rfl⟩, rfl, rfl,
      fun _ => ⟨rfl, rfl, rfl⟩⟩ (keepsLast_of_paging rfl)
  show Suspended _ p (Function.update k.pcbs k.runningPid
    { k.pcbs k.runningPid with ksp := esp, kbp := ebp } p) (Function.update pre k.runningPid _ p)
  by_cases he : p = k.runningPid
  · subst he
    rw [Function.update_self, Function.update_self]
    exact ⟨rfl, hstack, code, Function.update_self _ _ _, hreturns⟩
  · have hpcb : (saveContext { k with currentSchedule := k.scheduleCounter } esp ebp).pcbs p =
        k.pcbs p := Function.update_of_ne he _ _
    obtain ⟨h1, h2, code', h3, h4⟩ := h.suspended p hp (hpcb ▸ hleaf)
      (fun hcpu => he (Option.some.inj hcpu).symm)
    -- its frame is on another stack, so it is not the one just saved
    have hframe : ((k.pcbs p).ksp, (k.pcbs p).kbp) ≠ (esp, ebp) := by
      intro heq
      have hesp : (k.pcbs p).ksp = esp := congrArg Prod.fst heq
      exact he (OnStack.unique h2 (hesp.symm ▸ hstack))
    rw [Function.update_of_ne he, Function.update_of_ne he]
    exact ⟨h1, h2, code', (Function.update_of_ne hframe _ _).trans h3, h4⟩

/-- The steps of a tick up to the save, and the return of one that saves nothing. -/
theorem Sound.ticking (h : Sound owner
      ⟨⟨k, flag, false, .handler pc esp ebp code, frames⟩, some k.runningPid, pre, res⟩)
    (hpc : pc.beforeSave) (hreturns : Returns k.runningPid code)
    (hstack : OnStack k.runningPid esp)
    (hstep : traceStep
      ⟨⟨k, flag, false, .handler pc esp ebp code, frames⟩, some k.runningPid, pre, res⟩ .run =
        some s') : Sound owner s' := by
  obtain ⟨m, hm, rfl⟩ := Option.map_eq_some_iff.mp hstep
  cases pc with
  | start =>
    obtain ⟨k1, hk1, rfl⟩ := Option.map_eq_some_iff.mp hm
    have hs := switched_of_pendingSwitch hk1
    refine h.quiet (h.settled.switched hk1) hs.pcbs hs.procs rfl ?_
    have hrun : k1.runningPid = k.runningPid := hs.runningPid
    rw [← hrun] at hreturns hstack
    show Control k1 _ false (some k.runningPid)
    rw [← hrun]
    exact .ticking trivial hreturns hstack
  | pick =>
    obtain ⟨t, -, rfl⟩ := Option.map_eq_some_iff.mp hm
    refine h.quiet (h.settled.counted t) rfl rfl rfl (.ticking ?_ hreturns hstack)
    split <;> trivial
  | eoiSame =>
    obtain rfl := Option.some.inj hm
    exact h.quiet h.settled rfl rfl rfl (.running (.handler hreturns))
  | save =>
    obtain rfl := Option.some.inj hm
    exact h.saved hreturns hstack
  | _ => exact hpc.elim

/-- The steps from the save to the stack switch. The switch restores what was saved when the
    process was preempted, and gives it the CPU. -/
theorem Sound.switching (h : Sound owner
      ⟨⟨k, flag, sent, .handler pc esp ebp code, frames⟩, none, pre, res⟩) (hpc : Target k pc)
    (hsent : (Code.handler pc esp ebp code).inSwitch = false → sent = false)
    (hstep : traceStep
      ⟨⟨k, flag, sent, .handler pc esp ebp code, frames⟩, none, pre, res⟩ .run = some s') :
    Sound owner s' := by
  obtain ⟨m, hm, rfl⟩ := Option.map_eq_some_iff.mp hstep
  have hset : Settled owner k := h.settled
  cases pc with
  | find =>
    have hfind : (if (k.terminals k.currentSchedule).running then _ else none) = some m := hm
    split at hfind
    · rename_i hrun
      obtain ⟨next, hnext, rfl⟩ := Option.map_eq_some_iff.mp hfind
      obtain ⟨hlive, -, hleaf⟩ := hset.lowest hrun hnext
      exact h.quiet hset rfl rfl rfl (.switching ⟨hlive, hleaf⟩ fun _ => hsent rfl)
    · cases hfind
  | enter next =>
    obtain rfl := Option.some.inj hm
    obtain ⟨hset', hrun⟩ := hset.entered hpc.1 hpc.2
    rw [← hset.consistent.pid next hpc.1] at hset' hrun
    refine h.quiet hset' rfl rfl rfl (.switching ?_ fun _ => hsent rfl)
    exact hrun.trans (hset.consistent.pid next hpc.1)
  | vidmap next =>
    obtain rfl := Option.some.inj hm
    obtain rfl : k.runningPid = next := hpc
    have hf := frame_mapVidmap k
    exact h.quiet (hset.frame hf) hf.pcbs hf.procs rfl
      (.switching hf.runningPid fun _ => hsent rfl)
  | screen next =>
    obtain rfl := Option.some.inj hm
    obtain rfl : k.runningPid = next := hpc
    have hf := frame_mapScreen k
    exact h.quiet (hset.frame hf) hf.pcbs hf.procs rfl
      (.switching hf.runningPid fun _ => hsent rfl)
  | flush next =>
    obtain rfl := Option.some.inj hm
    have hset' : Settled owner (flushTlb k) := hset.of_same
      ⟨fun _ => ⟨rfl, rfl, rfl, rfl⟩, rfl, rfl, fun _ => ⟨rfl, rfl, rfl⟩⟩ fun _ => rfl
    exact h.quiet hset' rfl rfl rfl (.switching hpc fun _ => hsent rfl)
  | eoi next =>
    obtain rfl := Option.some.inj hm
    exact h.quiet hset rfl rfl rfl (.switching hpc fun he => nomatch he)
  | stack next =>
    obtain rfl := Option.some.inj hm
    exact h.quiet hset rfl rfl rfl (.switching ⟨hpc, rfl⟩ fun he => nomatch he)
  | base next esp' =>
    obtain ⟨code', hcode', rfl⟩ := Option.map_eq_some_iff.mp hm
    obtain ⟨rfl, rfl⟩ := hpc
    obtain ⟨hsaved, -, code2, hcode2, hreturns⟩ :=
      h.suspended k.runningPid hset.live hset.leaf (fun he => nomatch he)
    obtain rfl : code' = code2 := Option.some.inj (hcode'.symm.trans hcode2)
    refine ⟨hset, fun p hp hleaf _ => h.suspended p hp hleaf (fun he => nomatch he),
      .running hreturns, fun p esp2 ebp2 hres => ?_⟩
    obtain ⟨rfl, rfl, rfl⟩ := Option.some.inj hres
    exact hsaved
  | start | pick | eoiSame | ret | save => exact hpc.elim

/-- A timer interrupt. -/
theorem Sound.tick (h : Sound owner s) (hout : s.machine.code.inSwitch = false)
    (hstep : traceStep s (.tick esp ebp) = some s') : Sound owner s' := by
  obtain ⟨m, hm, rfl⟩ := Option.map_eq_some_iff.mp hstep
  obtain ⟨⟨k, flag, sent, code, frames⟩, cpu, pre, res⟩ := s
  have htick : (if flag ∧ sent ∧ OnStack code.owner esp then some _ else none) = some m := hm
  split at htick
  · rename_i henabled
    obtain rfl := Option.some.inj htick
    obtain ⟨-, hsent, hstack⟩ := henabled
    obtain hcontrol := h.control
    dsimp only [Traced.kernel] at hcontrol
    cases hcontrol with
    | running hreturns =>
      refine h.quiet h.settled rfl rfl rfl (.ticking trivial hreturns ?_)
      rwa [hreturns.owner_eq] at hstack
    | ticking => cases hsent
    | switching hpc heoi =>
      rw [heoi hout] at hsent
      cases hsent
  · cases htick

theorem Sound.step {a : Action} (h : Sound owner s) (hout : TickOutsideSwitch s a)
    (hstep : traceStep s a = some s') : Sound owner s' := by
  cases a with
  | tick esp ebp => exact h.tick (hout esp ebp rfl) hstep
  | request t =>
    obtain ⟨m, hm, rfl⟩ := Option.map_eq_some_iff.mp hstep
    obtain rfl := Option.some.inj hm
    have hset : Settled owner { s.kernel with terminalToSwitchTo := some t } := h.settled.of_same
      ⟨fun _ => ⟨rfl, rfl, rfl, rfl⟩, rfl, rfl, fun _ => ⟨rfl, rfl, rfl⟩⟩ (keepsLast_of_paging rfl)
    refine h.quiet hset rfl rfl rfl ?_
    obtain ⟨⟨k, flag, sent, code, frames⟩, cpu, pre, res⟩ := s
    obtain hcontrol := h.control
    dsimp only [Traced.kernel] at hcontrol
    cases hcontrol with
    | running hreturns => exact .running hreturns
    | ticking hpc hreturns hstack => exact .ticking hpc hreturns hstack
    | switching hpc heoi => exact .switching hpc heoi
  | setFlag flag' =>
    obtain ⟨m, hm, rfl⟩ := Option.map_eq_some_iff.mp hstep
    obtain ⟨⟨k, flag, sent, code, frames⟩, cpu, pre, res⟩ := s
    cases code with
    | process pid =>
      obtain rfl := Option.some.inj hm
      exact h.quiet h.settled rfl rfl rfl h.control
    | handler pc esp ebp code => cases hm
  | run =>
    obtain ⟨⟨k, flag, sent, code, frames⟩, cpu, pre, res⟩ := s
    obtain hcontrol := h.control
    dsimp only [Traced.kernel] at hcontrol
    cases hcontrol with
    | running hreturns =>
      cases hreturns with
      | process => cases hstep
      | handler hreturns =>
        obtain rfl := Option.some.inj hstep
        exact h.quiet h.settled rfl rfl rfl (.running hreturns)
    | ticking hpc hreturns hstack => exact h.ticking hpc hreturns hstack hstep
    | switching hpc heoi => exact h.switching hpc heoi hstep

/-- Before its stack switch a tick has made the process running that it is about to resume,
    and that process is suspended. -/
theorem Sound.target {next : Nat} (h : Sound owner
      ⟨⟨k, flag, sent, .handler (.stack next) esp ebp code, frames⟩, none, pre, res⟩) :
    k.runningPid = next ∧ Suspended frames next (k.pcbs next) (pre next) := by
  have hcontrol := h.control
  dsimp only [Traced.kernel] at hcontrol
  cases hcontrol with
  | switching hpc _ =>
    obtain rfl : k.runningPid = next := hpc
    exact ⟨rfl, h.suspended _ h.settled.live h.settled.leaf (fun he => nomatch he)⟩

theorem outside_of_run (s : Traced) (n : Nat) :
    AllSteps traceStep TickOutsideSwitch s (List.replicate n .run) := by
  induction n generalizing s with
  | zero => trivial
  | succ n ih =>
    intro t _
    exact ⟨fun _ _ he => (nomatch he), ih t⟩

theorem Sound.runs {n : Nat} (h : Sound owner s)
    (hrun : run traceStep s (List.replicate n .run) = some s') : Sound owner s' := by
  have hall : AllStates traceStep (Sound owner) s (List.replicate n .run) :=
    allStates_of_allSteps (fun s a t h hG ht => h.step hG ht) h (outside_of_run s n)
  exact (allStates_iff_reached s _).mp hall _ s' (List.prefix_refl _) hrun

end Steps

/-- In every state of every run of the machine, from any state in which the processes that
    can be resumed are suspended. -/
theorem context_kept (owner : Nat → Fin 3) (s : Traced) (actions : List Action)
    (hs : Started owner s) (hactions : AllSteps traceStep TickOutsideSwitch s actions) :
    AllStates traceStep ContextKept s actions := by
  have hinv : AllStates traceStep (Sound owner) s actions :=
    allStates_of_allSteps (fun s a t h hG ht => h.step hG ht) hs.sound hactions
  exact hinv.imp fun t ht => ht.kept

/-- The shell of terminal 1 runs, the one of terminal 0 has been preempted at `pos`. -/
def twoShells (k : Kernel) (pos : Nat × Nat) : Traced :=
  ⟨⟨k, true, true, .process 1, Function.update (fun _ => none) pos (some (.process 0))⟩, some 1,
    Function.update (fun _ => (0, 0)) 0 pos, none⟩

theorem started_twoShells {pos : Nat × Nat}
    (hset : Settled (Function.update (fun _ => 0) 1 1) k) (hrunning : k.runningPid = 1)
    (hpos : ((k.pcbs 0).ksp, (k.pcbs 0).kbp) = pos)
    (htaken : ∀ p, Taken k.procs p ↔ p = 0 ∨ p = 1) (hstack : OnStack 0 pos.1) :
    Started (Function.update (fun _ => 0) 1 1) (twoShells k pos) := by
  refine ⟨hset, congrArg Code.process hrunning.symm, congrArg some hrunning.symm, rfl,
    fun p hp _ hne => ?_⟩
  obtain rfl : p = 0 := by
    rcases (htaken p).mp hp with h0 | h1
    · exact h0
    · exact absurd (h1.trans hrunning.symm) hne
  subst hpos
  refine ⟨rfl, hstack, .process 0, ?_, .process⟩
  show Function.update (fun _ => none) ((k.pcbs 0).ksp, (k.pcbs 0).kbp) _ _ = _
  exact Function.update_self _ _ _

/-- A tick among two shells: it restores what was saved for the shell of terminal 0. -/
theorem context_kept_twoShells : ∃ k0 k s', Booted smallImage k0 ∧
    run (step smallImage) k0 [.request 1, .tick 0x7FDF00 0x7FDF40] = some k ∧
    Started (Function.update (fun _ => 0) 1 1) (twoShells k (0x7FDF00, 0x7FDF40)) ∧
    run traceStep (twoShells k (0x7FDF00, 0x7FDF40))
      (.tick 0x7FBF00 0x7FBF40 :: List.replicate 11 .run) = some s' ∧
    s'.restored = some (0, 0x7FDF00, 0x7FDF40) ∧
    AllStates traceStep ContextKept (twoShells k (0x7FDF00, 0x7FDF40))
      (.tick 0x7FBF00 0x7FBF40 :: List.replicate 11 .run) := by
  obtain ⟨k0, hk0⟩ := booted_smallImage
  obtain ⟨k, hrun, hshells, hrunning, hpos, hset, htaken⟩ := hk0.shells 0x7FDF00 0x7FDF40
  have hs := started_twoShells hset hrunning hpos htaken (by decide)
  obtain ⟨k2, h2⟩ := hshells.turn (by decide) 0x7FBF00 0x7FBF40
  have hpos2 : ((k2.pcbs 0).ksp, (k2.pcbs 0).kbp) = (0x7FDF00, 0x7FDF40) := by
    rw [h2.pcbs, hrunning, Function.update_of_ne (by decide)]
    exact hpos
  have hframe : Function.update (Function.update (fun _ => none) (0x7FDF00, 0x7FDF40)
      (some (.process 0))) (0x7FBF00, 0x7FBF40) (some (.process 1))
        ((k2.pcbs 0).ksp, (k2.pcbs 0).kbp) = some (Code.process 0) := by
    rw [hpos2, Function.update_of_ne (by decide), Function.update_self]
  refine ⟨k0, k, _, hk0, hrun, hs, h2.resume _ _ _ _ _ _ (by decide) hframe, ?_, ?_⟩
  · exact congrArg (fun pos : Nat × Nat => some (0, pos)) hpos2
  · exact context_kept _ _ _ hs fun s1 _ =>
      ⟨fun _ _ _ => rfl, outside_of_run s1 11⟩

/-! ## A tick nothing interrupts -/

/-- It does to the kernel what `irqhPit` does, and gives the CPU to the process then running. -/
theorem Sound.uninterrupted {s : Traced} {esp ebp : Nat} {code : Code} (h : Sound owner s)
    (hcode : s.machine.code = .handler .start esp ebp code)
    (htick : irqhPit fs s.kernel esp ebp = some k')
    (hslot : ∀ t, slotAfter s.kernel = some t → (s.kernel.terminals t).running = true) :
    ∃ n s', run traceStep s (List.replicate n .run) = some s' ∧ s'.kernel = k' ∧
      s'.onCpu = some k'.runningPid ∧ Returns k'.runningPid s'.machine.code ∧ Sound owner s' := by
  obtain ⟨⟨k, flag, sent, code0, frames⟩, cpu, pre, res⟩ := s
  obtain rfl : code0 = .handler .start esp ebp code := hcode
  obtain ⟨k1, t, hswitch, hnext, hcase⟩ := irqhPit_cases htick
  have hs := switched_of_pendingSwitch hswitch
  have hrun : (k1.terminals t).running = true := by
    rw [hs.running]
    exact hslot t (hs.nextSchedule_eq ▸ hnext)
  obtain ⟨hcpu, hreturns⟩ : cpu = some k.runningPid ∧ Returns k.runningPid code := by
    have hcontrol := h.control
    dsimp only [Traced.kernel] at hcontrol
    cases hcontrol with
    | running hreturns => cases hreturns
    | ticking _ hreturns _ => exact ⟨rfl, hreturns⟩
    | switching hpc _ => exact hpc.elim
  rcases hcase with ⟨hsame, rfl⟩ | ⟨hne, -, e, he, rfl⟩ | ⟨-, hstop, -⟩
  · have hrunning : k1.runningPid = k.runningPid := hs.runningPid
    refine ⟨4, _, run_same hswitch hnext hsame, rfl, ?_, ?_, h.runs (run_same hswitch hnext hsame)⟩
    · exact hcpu.trans (congrArg some hrunning.symm)
    · exact hrunning.symm ▸ hreturns
  · have h9 := h.runs (run_to_switch hswitch hnext hne hrun he)
    obtain ⟨hrunning, -, -, code', hcode', hreturns'⟩ := h9.target
    exact ⟨11, _, run_resume hswitch hnext hne hrun he rfl hcode', rfl,
      congrArg some hrunning.symm, hrunning.symm ▸ hreturns',
      h.runs (run_resume hswitch hnext hne hrun he rfl hcode')⟩
  · exact nomatch hrun.symm.trans hstop

/-! ## A tick before the stack switch -/

/-- A timer interrupt before the stack switch of a tick, on the stack of another process than
    the one about to be resumed: if it turns to another terminal, it saves its position as
    that of the process about to be resumed. -/
theorem Sound.tick_in_switch {k1 : Kernel} {next esp ebp esp2 ebp2 : Nat} {code : Code}
    {frames : Nat × Nat → Option Code} {pre : Nat → Nat × Nat} {res : Option (Nat × Nat × Nat)}
    {t : Fin 3} (h : Sound owner
      ⟨⟨k, true, true, .handler (.stack next) esp ebp code, frames⟩, none, pre, res⟩)
    (hother : code.owner ≠ next) (hstack : OnStack code.owner esp2)
    (hswitch : pendingSwitch k = some k1) (hnext : nextSchedule k1 = some t)
    (hne : t ≠ k1.currentSchedule) :
    ∃ s', run traceStep ⟨⟨k, true, true, .handler (.stack next) esp ebp code, frames⟩, none, pre, res⟩
        [.tick esp2 ebp2, .run, .run, .run] = some s' ∧
      ((s'.kernel.pcbs next).ksp, (s'.kernel.pcbs next).kbp) ≠ s'.preempted next := by
  obtain ⟨hrunning, hsaved, hown, -⟩ := h.target
  refine ⟨⟨⟨scheduledState k1 t esp2 ebp2, false || switchesTerminal k, false, .handler .find esp2
    ebp2 (.handler (.stack next) esp ebp code), Function.update frames (esp2, ebp2)
      (some (.handler (.stack next) esp ebp code))⟩, none, pre, none⟩, ?_, ?_⟩
  · have hstack' : OnStack (Code.handler (.stack next) esp ebp code).owner esp2 := hstack
    rw [run_cons, traceStep_tick hstack', Option.bind_some]
    show run traceStep _ ([.run, .run] ++ [.run]) = _
    rw [run_append, run_pick hswitch hnext, if_neg hne, Option.bind_some]
    rfl
  · show ((Function.update k1.pcbs k1.runningPid _ next).ksp, _) ≠ pre next
    have hnext' : k1.runningPid = next :=
      (switched_of_pendingSwitch hswitch).runningPid.trans hrunning
    rw [hnext', Function.update_self, ← hsaved]
    intro he
    have hesp : esp2 = (k.pcbs next).ksp := congrArg Prod.fst he
    exact hother (OnStack.unique (hesp ▸ hstack) hown)

/-- A tick turns to the shell of terminal 0; before its stack switch another one turns back to
    the shell of terminal 1, whose stack it is still on. The third resumes the shell of terminal
    0 at the position of the second. -/
theorem nested_tick_restored {k1 k2 k3 : Kernel} {esp1 ebp1 esp2 ebp2 esp3 ebp3 : Nat}
    (hrunning : k.runningPid = 1) (h1 : Turned k k1 0 esp1 ebp1) (h2 : Turned k1 k2 1 esp2 ebp2)
    (h3 : Turned k2 k3 0 esp3 ebp3) (hs1 : OnStack 1 esp1) (hs2 : OnStack 1 esp2)
    (hs3 : OnStack 1 esp3) (h12 : esp1 ≠ esp2) (h23 : esp2 ≠ esp3)
    (frames : Nat × Nat → Option Code) (pre : Nat → Nat × Nat) :
    ∃ s, run traceStep ⟨⟨k, true, true, .process 1, frames⟩, some 1, pre, none⟩
        (.tick esp1 ebp1 :: List.replicate 9 .run ++ (.tick esp2 ebp2 :: List.replicate 11 .run ++
          .tick esp3 ebp3 :: List.replicate 11 .run)) = some s ∧
      s.restored = some (0, esp2, ebp2) ∧ s.preempted 0 = pre 0 := by
  have hrun1 : k1.runningPid = 0 := h1.runningPid
  have hrun2 : k2.runningPid = 1 := h2.runningPid
  have hne12 : (esp1, ebp1) ≠ (esp2, ebp2) := fun he => h12 (congrArg Prod.fst he)
  have hne23 : (esp2, ebp2) ≠ (esp3, ebp3) := fun he => h23 (congrArg Prod.fst he)
  -- the second tick saves its position in the PCB of PID 0
  have hpos2 : ((k2.pcbs 1).ksp, (k2.pcbs 1).kbp) = (esp1, ebp1) := by
    rw [h2.pcbs, hrun1, Function.update_of_ne (by decide), h1.pcbs, hrunning,
      Function.update_self]
  have hpos3 : ((k3.pcbs 0).ksp, (k3.pcbs 0).kbp) = (esp2, ebp2) := by
    rw [h3.pcbs, hrun2, Function.update_of_ne (by decide), h2.pcbs, hrun1, Function.update_self]
  have hframe2 : Function.update (Function.update frames (esp1, ebp1) (some (.process 1)))
      (esp2, ebp2) (some (.handler (.stack 0) esp1 ebp1 (.process 1)))
        ((k2.pcbs 1).ksp, (k2.pcbs 1).kbp) = some (.process 1) := by
    rw [hpos2, Function.update_of_ne hne12, Function.update_self]
  have hframe3 : Function.update (Function.update (Function.update frames (esp1, ebp1)
      (some (.process 1))) (esp2, ebp2) (some (.handler (.stack 0) esp1 ebp1 (.process 1))))
        (esp3, ebp3) (some (.process 1)) ((k3.pcbs 0).ksp, (k3.pcbs 0).kbp) =
          some (.handler (.stack 0) esp1 ebp1 (.process 1)) := by
    rw [hpos3, Function.update_of_ne hne23, Function.update_self]
  have hsecond := h2.resume (.handler (.stack 0) esp1 ebp1 (.process 1)) _ _ none
    (Function.update pre 1 (esp1, ebp1)) none hs2 hframe2
  have hthird := h3.resume (.process 1) _ _ (some 1) (Function.update pre 1 (esp1, ebp1))
    (some (1, (k2.pcbs 1).ksp, (k2.pcbs 1).kbp)) hs3 hframe3
  refine ⟨_, run_append_of_some (h1.toSwitch (.process 1) _ _ _ _ hs1)
    (run_append_of_some hsecond hthird), ?_, ?_⟩
  · exact congrArg (fun pos : Nat × Nat => some (0, pos)) hpos3
  · show Function.update (Function.update pre 1 (esp1, ebp1)) 1 (esp3, ebp3) 0 = pre 0
    rw [Function.update_of_ne (by decide), Function.update_of_ne (by decide)]

theorem context_lost : ∃ k0 k, Booted smallImage k0 ∧
    run (step smallImage) k0 [.request 1, .tick 0x7FDF00 0x7FDF40] = some k ∧
    Started (Function.update (fun _ => 0) 1 1) (twoShells k (0x7FDF00, 0x7FDF40)) ∧
    ¬ AllStates traceStep ContextKept (twoShells k (0x7FDF00, 0x7FDF40))
      (.tick 0x7FBF00 0x7FBF40 :: List.replicate 9 .run ++
        (.tick 0x7FBE00 0x7FBE40 :: List.replicate 11 .run ++
          .tick 0x7FBD00 0x7FBD40 :: List.replicate 11 .run)) := by
  obtain ⟨k0, hk0⟩ := booted_smallImage
  obtain ⟨k, hrun, hshells, hrunning, hpos, hset, htaken⟩ := hk0.shells 0x7FDF00 0x7FDF40
  refine ⟨k0, k, hk0, hrun, started_twoShells hset hrunning hpos htaken (by decide), fun hall => ?_⟩
  obtain ⟨k1, h1⟩ : ∃ k1, Turned k k1 0 0x7FBF00 0x7FBF40 := hshells.turn (by decide) _ _
  obtain ⟨k2, h2⟩ : ∃ k2, Turned k1 k2 1 0x7FBE00 0x7FBE40 := h1.shells.turn (by decide) _ _
  obtain ⟨k3, h3⟩ : ∃ k3, Turned k2 k3 0 0x7FBD00 0x7FBD40 := h2.shells.turn (by decide) _ _
  obtain ⟨s, hs, hrestored, hpre⟩ := nested_tick_restored hrunning h1 h2 h3 (by decide) (by decide)
    (by decide) (by decide) (by decide) (twoShells k (0x7FDF00, 0x7FDF40)).machine.frames
      (twoShells k (0x7FDF00, 0x7FDF40)).preempted
  have hkept := (allStates_iff_reached _ _).mp hall _ s (List.prefix_refl _) hs
  have heq : ((0x7FBE00 : Nat), (0x7FBE40 : Nat)) = (0x7FDF00, 0x7FDF40) :=
    (hkept 0 _ _ hrestored).trans hpre
  exact absurd heq (by decide)

end Mp3Kernel
