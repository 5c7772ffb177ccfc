/-
  The processes as a forest: one stack of processes for each running terminal.

  `forestOf owner k` reads a forest off the PID bitmap, the links of the PCBs and the running
  terminals. In a `Settled` state it is well formed and the running process is a leaf; then
  `get_running_terminal` finds the owner of the running process (`Settled.terminal`). Each
  operation is an operation on the forest: a launch is `addChild` or `addRoot`, a return to
  the parent is `remove`, a root's halt is `remove` and `addRoot`, and a resumption none.
-/
import Mp3Kernel.Base.Forest
import Mp3Kernel.Proofs.Coherence
import Mathlib.Order.Fin.Basic

namespace Mp3Kernel

open Base Base.Bitmap

variable {fs : Image} {k k' : Kernel} {owner : Nat → Fin 3}

def forestOf (owner : Nat → Fin 3) (k : Kernel) : Forest Nat (Fin 3) where
  live p := Taken k.procs p
  parent s := (k.pcbs s).parentPcb
  child s := (k.pcbs s).childPcb
  owner := owner
  root t := if (k.terminals t).running then some (k.terminals t).pid else none

/-- The `parent_pid` that goes with a `parent_pcb`. -/
def parentNumber : Option Nat → Int
  | none => -1
  | some q => q

/-- The fields a forest does not show. A terminal that is not running has pid 0, and that is
    the pid of terminal 0, which always runs. -/
structure Consistent (k : Kernel) : Prop where
  pid : ∀ p, Taken k.procs p → (k.pcbs p).pid = p
  parentPid : ∀ p, Taken k.procs p → (k.pcbs p).parentPid = parentNumber (k.pcbs p).parentPcb
  id : ∀ t, (k.terminals t).id = t
  stopped : ∀ t, (k.terminals t).running = false → (k.terminals t).pid = 0
  first : (k.terminals 0).running = true ∧ (k.terminals 0).pid = 0

structure Settled (owner : Nat → Fin 3) (k : Kernel) : Prop where
  last : ProgramPageLast k.paging
  consistent : Consistent k
  wf : (forestOf owner k).Wf
  live : Taken k.procs k.runningPid
  leaf : (k.pcbs k.runningPid).childPcb = none

theorem forestOf_root {t : Fin 3} {p : Nat} : (forestOf owner k).root t = some p ↔
    (k.terminals t).running = true ∧ (k.terminals t).pid = p := by
  show (if (k.terminals t).running then some (k.terminals t).pid else none) = some p ↔ _
  split
  · rename_i hrun
    rw [Option.some.injEq]
    exact ⟨fun h => ⟨hrun, h⟩, fun h => h.2⟩
  · rename_i hrun
    constructor
    · intro h
      cases h
    · intro h
      exact absurd h.1 hrun

theorem forestOf_root_none {t : Fin 3} (h : (k.terminals t).running = false) :
    (forestOf owner k).root t = none := by
  show (if (k.terminals t).running then some (k.terminals t).pid else none) = none
  rw [if_neg (by rw [h]; exact Bool.false_ne_true)]

theorem parentNumber_eq_neg_one (q : Option Nat) : parentNumber q = -1 ↔ q = none := by
  cases q with
  | none => exact ⟨fun _ => rfl, fun _ => rfl⟩
  | some q =>
    refine ⟨fun h => ?_, fun h => nomatch h⟩
    have hq : (q : Int) = -1 := h
    omega

theorem Booted.settled (h : Booted fs k) : Settled (fun _ => 0) k := by
  have hs := h.spec
  have hroot : ∀ t p, (forestOf (fun _ => 0) k).root t = some p → p = 0 ∧ t = 0 := by
    intro t p hp
    obtain ⟨hrun, hpid⟩ := forestOf_root.mp hp
    rw [hs.terminals.running, decide_eq_true_eq] at hrun
    exact ⟨hpid.symm.trans (hs.terminals.pid t), hrun⟩
  have hlive : ∀ p, (forestOf (fun _ => 0) k).live p → p = 0 := fun p hp => (hs.procs p).mp hp
  refine ⟨hs.last, ⟨fun p hp => ?_, fun p hp => ?_, hs.terminals.id, fun t _ => hs.terminals.pid t,
    hs.terminals.running 0, hs.terminals.pid 0⟩, ⟨fun t p hp => ?_, fun p hp _ => ?_,
    fun p q hp hq => ?_, fun p c hp hc => ?_, fun p => p, fun p q hp hq => ?_⟩, ?_, ?_⟩
  · rw [(hs.procs p).mp hp]
    exact hs.pid
  · rw [(hs.procs p).mp hp, hs.parentPid, hs.parentPcb]
    rfl
  · obtain ⟨rfl, rfl⟩ := hroot t p hp
    exact ⟨(hs.procs 0).mpr rfl, hs.parentPcb, rfl⟩
  · rw [hlive p hp]
    exact forestOf_root.mpr ⟨hs.terminals.running 0, hs.terminals.pid 0⟩
  · rw [hlive p hp] at hq
    exact nomatch hs.parentPcb.symm.trans hq
  · rw [hlive p hp] at hc
    exact nomatch hs.childPcb.symm.trans hc
  · rw [hlive p hp] at hq
    exact nomatch hs.parentPcb.symm.trans hq
  · rw [hs.runningPid]
    exact (hs.procs 0).mpr rfl
  · rw [hs.runningPid]
    exact hs.childPcb

/-! ## The running terminal -/

theorem Settled.first (h : Settled owner k) :
    Taken k.procs 0 ∧ (k.pcbs 0).parentPcb = none ∧ owner 0 = 0 :=
  h.wf.rooted 0 0 (forestOf_root.mpr h.consistent.first)

theorem firstTerminal_eq_none {test : Fin 3 → Bool} (h : ∀ t, test t = false) :
    firstTerminal test = none := by
  unfold firstTerminal
  simp only [h, Bool.false_eq_true, if_false]

/-- A terminal has the pid of a live process exactly if it is the root of that terminal's
    stack, or a stopped terminal and PID 0. -/
theorem Settled.pid_owner (h : Settled owner k) {p : Nat} {t : Fin 3}
    (ht : (k.terminals t).pid = p) : (k.pcbs p).parentPcb = none ∧ (owner p = t ∨ owner p = 0) := by
  cases hrun : (k.terminals t).running with
  | true =>
    obtain ⟨-, h2, h3⟩ := h.wf.rooted t p (forestOf_root.mpr ⟨hrun, ht⟩)
    exact ⟨h2, Or.inl h3⟩
  | false =>
    rw [h.consistent.stopped t hrun] at ht
    subst ht
    exact ⟨h.first.2.1, Or.inr h.first.2.2⟩

theorem Settled.terminalFromPid (h : Settled owner k) {p : Nat} (hp : Taken k.procs p) :
    getTerminalFromPid k p =
      if (k.pcbs p).parentPcb = none then some (owner p) else none := by
  unfold getTerminalFromPid
  by_cases hroot : (k.pcbs p).parentPcb = none
  · rw [if_pos hroot]
    obtain ⟨-, hpid⟩ := forestOf_root.mp (h.wf.top p hp hroot)
    refine firstTerminal_eq (beq_iff_eq.mpr hpid) fun u hu => beq_eq_false_iff_ne.mpr fun he => ?_
    rcases (h.pid_owner he).2 with ho | ho
    · have hu' : owner p < owner p := ho.symm ▸ hu
      exact Nat.lt_irrefl _ hu'
    · have hu' : u < 0 := ho ▸ hu
      exact absurd hu' (Fin.not_lt_zero u)
  · rw [if_neg hroot]
    exact firstTerminal_eq_none fun u => beq_eq_false_iff_ne.mpr fun he =>
      hroot (h.pid_owner he).1

/-- The terminal of every live process is found, from the root above it. -/
theorem Settled.terminalOf (h : Settled owner k) {p : Nat} (hp : Taken k.procs p) :
    getRunningTerminal { k with runningPid := p } = some (some (owner p)) := by
  unfold getRunningTerminal getCurrentPcb
  dsimp only
  rw [h.consistent.pid p hp, show getTerminalFromPid { k with runningPid := p } p =
    getTerminalFromPid k p from rfl, h.terminalFromPid hp]
  cases hpar : (k.pcbs p).parentPcb with
  | none => rfl
  | some q =>
    have hsearch : searchParents k p = some (owner p) := by
      refine h.wf.search_root (Finset.range 8) (fun a ha => Finset.mem_range.mpr ha.lt)
        (fun a r ha hr => ?_) (by decide) hp
        (by rw [show (forestOf owner k).parent _ = _ from hpar]; exact fun he => nomatch he)
      obtain ⟨hrl, -, hro⟩ := h.wf.up a r ha hr
      have hlt : r < 8 := Taken.lt hrl
      have hnum : ((k.pcbs a).parentPid % (u32 : Int)).toNat = r := by
        rw [h.consistent.parentPid a ha, show (k.pcbs a).parentPcb = some r from hr]
        show ((r : Int) % (u32 : Int)).toNat = r
        unfold u32
        omega
      rw [hnum, h.terminalFromPid hrl]
      exact congrArg (fun o => if (k.pcbs r).parentPcb = none then some o else none) hro
    rw [show searchParents { k with runningPid := p } p = searchParents k p from rfl, hsearch]
    rfl

theorem Settled.terminal (h : Settled owner k) :
    getRunningTerminal k = some (some (owner k.runningPid)) :=
  h.terminalOf h.live

/-- The owner of a live process runs. -/
theorem Settled.owner_running (h : Settled owner k) {p : Nat} (hp : Taken k.procs p) :
    (k.terminals (owner p)).running = true := by
  obtain ⟨r, hr⟩ := h.wf.root_some hp
  exact (forestOf_root.mp hr).1

/-! ## States with the same processes -/

structure SameLinks (a b : Pcb) : Prop where
  pid : b.pid = a.pid
  parentPid : b.parentPid = a.parentPid
  parentPcb : b.parentPcb = a.parentPcb
  childPcb : b.childPcb = a.childPcb

structure SameRoot (a b : Terminal) : Prop where
  pid : b.pid = a.pid
  id : b.id = a.id
  running : b.running = a.running

theorem sameLinks_update (pcbs : Nat → Pcb) (slot : Nat) {pcb : Pcb}
    (h : SameLinks (pcbs slot) pcb) : ∀ s, SameLinks (pcbs s) (Function.update pcbs slot pcb s) := by
  rw [Function.forall_update_iff pcbs fun s a => SameLinks (pcbs s) a]
  exact ⟨h, fun s _ => ⟨rfl, rfl, rfl, rfl⟩⟩

theorem sameRoot_update (terms : Fin 3 → Terminal) (t : Fin 3) {term : Terminal}
    (h : SameRoot (terms t) term) : ∀ u, SameRoot (terms u) (Function.update terms t term u) := by
  rw [Function.forall_update_iff terms fun u a => SameRoot (terms u) a]
  exact ⟨h, fun u _ => ⟨rfl, rfl, rfl⟩⟩

structure SameForest (k k' : Kernel) : Prop where
  links : ∀ s, SameLinks (k.pcbs s) (k'.pcbs s)
  procs : k'.procs = k.procs
  runningPid : k'.runningPid = k.runningPid
  terminals : ∀ t, SameRoot (k.terminals t) (k'.terminals t)

theorem SameForest.forestOf_eq (h : SameForest k k') (owner : Nat → Fin 3) :
    forestOf owner k' = forestOf owner k := by
  unfold forestOf
  rw [h.procs]
  simp only [(h.links _).parentPcb, (h.links _).childPcb, (h.terminals _).pid,
    (h.terminals _).running]

theorem Settled.of_same (h : Settled owner k) (hs : SameForest k k') (hlast : KeepsLast k k') :
    Settled owner k' := by
  refine ⟨hlast.programPageLast h.last, ⟨fun p hp => ?_, fun p hp => ?_, fun t => ?_,
    fun t ht => ?_, ?_, ?_⟩, ?_, ?_, ?_⟩
  · rw [(hs.links p).pid]
    exact h.consistent.pid p (hs.procs ▸ hp)
  · rw [(hs.links p).parentPid, (hs.links p).parentPcb]
    exact h.consistent.parentPid p (hs.procs ▸ hp)
  · rw [(hs.terminals t).id]
    exact h.consistent.id t
  · rw [(hs.terminals t).pid]
    exact h.consistent.stopped t ((hs.terminals t).running ▸ ht)
  · rw [(hs.terminals 0).running]
    exact h.consistent.first.1
  · rw [(hs.terminals 0).pid]
    exact h.consistent.first.2
  · rw [hs.forestOf_eq]
    exact h.wf
  · rw [hs.procs, hs.runningPid]
    exact h.live
  · rw [hs.runningPid, (hs.links _).childPcb]
    exact h.leaf

theorem Frame.sameForest (h : Frame k k') : SameForest k k' := by
  refine ⟨fun s => ?_, h.procs, h.runningPid,
    fun t => ⟨(h.terminals t).pid, (h.terminals t).id, (h.terminals t).running⟩⟩
  rw [h.pcbs]
  exact ⟨rfl, rfl, rfl, rfl⟩

theorem Settled.switched (h : Settled owner k) (hs : pendingSwitch k = some k') :
    Settled owner k' := by
  rcases pendingSwitch_cases hs with ⟨rfl, -⟩ | ⟨t, k1, -, -, hrestore, rfl⟩
  · exact h.of_same ⟨fun _ => ⟨rfl, rfl, rfl, rfl⟩, rfl, rfl, fun _ => ⟨rfl, rfl, rfl⟩⟩
      (keepsLast_of_paging rfl)
  · have hf := frame_restoreTerminal hrestore
    have h1 := h.of_same hf.sameForest hf.keepsLast
    exact h1.of_same ⟨fun _ => ⟨rfl, rfl, rfl, rfl⟩, rfl, rfl,
      sameRoot_update k1.terminals t ⟨rfl, rfl, rfl⟩⟩ (keepsLast_of_paging rfl)

/-- The saved stack position is no link. -/
theorem scheduledState_links (k : Kernel) (next : Fin 3) (esp ebp : Nat) :
    ∀ s, SameLinks (k.pcbs s) ((scheduledState k next esp ebp).pcbs s) :=
  sameLinks_update k.pcbs k.runningPid ⟨rfl, rfl, rfl, rfl⟩

theorem Settled.scheduled (h : Settled owner k) (next : Fin 3) (esp ebp : Nat) :
    Settled owner (scheduledState k next esp ebp) :=
  h.of_same ⟨scheduledState_links k next esp ebp, rfl, rfl, fun _ => ⟨rfl, rfl, rfl⟩⟩
    (keepsLast_of_paging rfl)

/-! ## Launches -/

/-- The displayed terminal runs: the new process is a child of the running one. -/
theorem Settled.launchedChild {pid : Nat} {t : Fin 3} (h : Settled owner k)
    (hl : Launched k k' pid t) (hcur : (k.terminals k.currentTerminal).running = true) :
    Settled (Function.update owner pid (owner k.runningPid)) k' ∧
      (k'.pcbs k.runningPid).childPcb = some pid ∧ k'.terminals = k.terminals ∧
      ∀ s, s ≠ pid → s ≠ k.runningPid → k'.pcbs s = k.pcbs s := by
  obtain ⟨hlt, hfree, -⟩ := allocPid_some hl.free
  obtain ⟨ht, hterms⟩ := hl.displayed hcur
  have hne : ∀ p, Taken k.procs p → p ≠ pid := fun p hp he => hfree (he ▸ hp)
  have hrp : k.runningPid ≠ pid := hne _ h.live
  have hroot : pid ≠ (k'.terminals t).pid := by
    rw [hterms]
    intro he
    subst ht
    exact hfree (h.wf.rooted _ pid (forestOf_root.mpr ⟨hcur, he.symm⟩)).1
  obtain ⟨pcb, hpcbs, h1, h2, h3, h4⟩ :=
    hl.child hroot (Taken.lt h.live) (h.consistent.pid _ h.live)
  have hnew : k'.pcbs pid = pcb := by
    rw [hpcbs, Function.update_of_ne hrp.symm, Function.update_self]
  have hrun : k'.pcbs k.runningPid = { k.pcbs k.runningPid with childPcb := some pid } := by
    rw [hpcbs, Function.update_self, Function.update_of_ne hrp]
  have hother : ∀ s, s ≠ pid → s ≠ k.runningPid → k'.pcbs s = k.pcbs s := by
    intro s hs hr
    rw [hpcbs, Function.update_of_ne hr, Function.update_of_ne hs]
  have hkept : ∀ s, s ≠ pid → (k'.pcbs s).pid = (k.pcbs s).pid ∧
      (k'.pcbs s).parentPid = (k.pcbs s).parentPid ∧
      (k'.pcbs s).parentPcb = (k.pcbs s).parentPcb := by
    intro s hs
    by_cases hr : s = k.runningPid
    · rw [hr, hrun]
      exact ⟨rfl, rfl, rfl⟩
    · rw [hother s hs hr]
      exact ⟨rfl, rfl, rfl⟩
  have hprocs : ∀ p, Taken k'.procs p ↔ Taken k.procs p ∨ p = pid := by
    intro p
    rw [hl.procs, pidBit_eq_slot, taken_or_slot hlt]
  have hforest : forestOf (Function.update owner pid (owner k.runningPid)) k' =
      (forestOf owner k).addChild k.runningPid pid := by
    unfold forestOf Forest.addChild
    rw [hterms]
    congr 1
    · funext p
      exact propext (hprocs p)
    · funext s
      by_cases hs : s = pid
      · rw [hs, hnew, h3, Function.update_self]
      · rw [(hkept s hs).2.2, Function.update_of_ne hs]
    · funext s
      by_cases hr : s = k.runningPid
      · rw [hr, hrun, Function.update_self]
      · rw [Function.update_of_ne hr]
        by_cases hs : s = pid
        · rw [hs, hnew, h4, Function.update_self]
        · rw [hother s hs hr, Function.update_of_ne hs]
  refine ⟨⟨hl.paging.programPageLast h.last, ⟨fun p hp => ?_, fun p hp => ?_, ?_, ?_, ?_⟩, ?_, ?_,
    ?_⟩, by rw [hrun], hterms, hother⟩
  · rcases (hprocs p).mp hp with hp | rfl
    · rw [(hkept p (hne p hp)).1]
      exact h.consistent.pid p hp
    · rw [hnew, h1]
  · rcases (hprocs p).mp hp with hp | rfl
    · rw [(hkept p (hne p hp)).2.1, (hkept p (hne p hp)).2.2]
      exact h.consistent.parentPid p hp
    · rw [hnew, h2, h3]
      rfl
  · rw [hterms]
    exact h.consistent.id
  · rw [hterms]
    exact h.consistent.stopped
  · rw [hterms]
    exact h.consistent.first
  · rw [hforest]
    exact h.wf.addChild hfree h.live h.leaf
  · rw [hl.runningPid]
    exact (hprocs pid).mpr (Or.inr rfl)
  · rw [hl.runningPid, hnew, h4]

/-- A new root process on terminal `t`, as far as it is the same in a tick and a relaunch:
    `f` is the forest it is added to. -/
structure RootLaunched (k k' : Kernel) (pid : Nat) (t : Fin 3) : Prop where
  pcbs : ∃ pcb, k'.pcbs = Function.update k.pcbs pid pcb ∧
    pcb.pid = pid ∧ pcb.parentPid = -1 ∧ pcb.parentPcb = none ∧ pcb.childPcb = none
  terminals : k'.terminals =
    Function.update k.terminals t { k.terminals t with pid := pid, running := true }
  procs : ∀ p, Taken k'.procs p ↔ Taken k.procs p ∨ p = pid
  runningPid : k'.runningPid = pid
  stopped : (k.terminals t).running = false
  lower : ∀ u, u < t → (k.terminals u).running = true

theorem Launched.rootLaunched {pid : Nat} {t : Fin 3} (hl : Launched k k' pid t)
    (hcur : (k.terminals k.currentTerminal).running = false) : RootLaunched k k' pid t := by
  obtain ⟨hstop, hlower, hterms⟩ := hl.stopped hcur
  refine ⟨hl.root ?_, hterms, fun p => ?_, hl.runningPid, hstop, hlower⟩
  · rw [hterms, Function.update_self]
  · rw [hl.procs, pidBit_eq_slot, taken_or_slot hl.pid_lt]

theorem RootLaunched.forestOf_eq {pid : Nat} {t : Fin 3} (h : RootLaunched k k' pid t)
    (owner : Nat → Fin 3) :
    forestOf (Function.update owner pid t) k' = (forestOf owner k).addRoot t pid := by
  obtain ⟨pcb, hpcbs, h1, h2, h3, h4⟩ := h.pcbs
  unfold forestOf Forest.addRoot
  rw [hpcbs, h.terminals]
  congr 1
  · funext p
    exact propext (h.procs p)
  · funext s
    by_cases hs : s = pid
    · rw [hs, Function.update_self, Function.update_self, h3]
    · rw [Function.update_of_ne hs, Function.update_of_ne hs]
  · funext s
    by_cases hs : s = pid
    · rw [hs, Function.update_self, Function.update_self, h4]
    · rw [Function.update_of_ne hs, Function.update_of_ne hs]
  · funext u
    by_cases hu : u = t
    · rw [hu, Function.update_self, Function.update_self]
      rfl
    · rw [Function.update_of_ne hu, Function.update_of_ne hu]

/-- The fields of the new root fit, if those of the other processes do and terminal 0 keeps
    pid 0. -/
theorem RootLaunched.consistent {pid : Nat} {t : Fin 3} (h : RootLaunched k k' pid t)
    (hpid : ∀ p, Taken k.procs p → (k.pcbs p).pid = p)
    (hparent : ∀ p, Taken k.procs p → (k.pcbs p).parentPid = parentNumber (k.pcbs p).parentPcb)
    (hid : ∀ u, (k.terminals u).id = u)
    (hstop : ∀ u, u ≠ t → (k.terminals u).running = false → (k.terminals u).pid = 0)
    (hfirst : t ≠ 0 → (k.terminals 0).pid = 0) (hzero : t = 0 → pid = 0) : Consistent k' := by
  obtain ⟨pcb, hpcbs, h1, h2, h3, -⟩ := h.pcbs
  have hterms : ∀ u, (k'.terminals u).id = u ∧
      ((k'.terminals u).running = false → (k'.terminals u).pid = 0) := by
    rw [h.terminals, Function.forall_update_iff k.terminals fun u (a : Terminal) => a.id = u ∧
      (a.running = false → a.pid = 0)]
    exact ⟨⟨hid t, fun hr => nomatch hr⟩, fun u hu => ⟨hid u, hstop u hu⟩⟩
  have hslot : ∀ p, Taken k'.procs p → p = pid ∨ (p ≠ pid ∧ Taken k.procs p) := by
    intro p hp
    by_cases he : p = pid
    · exact Or.inl he
    · exact Or.inr ⟨he, ((h.procs p).mp hp).resolve_right he⟩
  refine ⟨fun p hp => ?_, fun p hp => ?_, fun u => (hterms u).1, fun u => (hterms u).2, ?_⟩
  · rcases hslot p hp with rfl | ⟨hne, hp⟩
    · rw [hpcbs, Function.update_self, h1]
    · rw [hpcbs, Function.update_of_ne hne]
      exact hpid p hp
  · rcases hslot p hp with rfl | ⟨hne, hp⟩
    · rw [hpcbs, Function.update_self, h2, h3]
      rfl
    · rw [hpcbs, Function.update_of_ne hne]
      exact hparent p hp
  · rw [h.terminals]
    by_cases ht : t = 0
    · subst ht
      rw [Function.update_self]
      exact ⟨rfl, hzero rfl⟩
    · rw [Function.update_of_ne (Ne.symm ht)]
      exact ⟨h.lower 0 (Fin.pos_of_ne_zero ht), hfirst ht⟩

/-- The displayed terminal does not run: the new process is the root of the first terminal
    that does not. -/
theorem Settled.launchedRoot {pid : Nat} {t : Fin 3} (h : Settled owner k)
    (hl : Launched k k' pid t) (hcur : (k.terminals k.currentTerminal).running = false) :
    Settled (Function.update owner pid t) k' ∧ RootLaunched k k' pid t := by
  have hr := hl.rootLaunched hcur
  obtain ⟨-, hfree, -⟩ := allocPid_some hl.free
  have ht : t ≠ 0 := by
    intro he
    have hstop := hr.stopped
    rw [he, h.consistent.first.1] at hstop
    cases hstop
  obtain ⟨pcb, hpcbs, -, -, -, h4⟩ := hr.pcbs
  refine ⟨⟨hl.paging.programPageLast h.last, hr.consistent h.consistent.pid h.consistent.parentPid
    h.consistent.id (fun u _ => h.consistent.stopped u) (fun _ => h.consistent.first.2)
    (fun he => absurd he ht), ?_, ?_, ?_⟩, hr⟩
  · rw [hr.forestOf_eq]
    exact h.wf.addRoot hfree (forestOf_root_none hr.stopped)
  · rw [hr.runningPid]
    exact (hr.procs pid).mpr (Or.inr rfl)
  · rw [hr.runningPid, hpcbs, Function.update_self, h4]

/-! ## Resumption -/

/-- The walk from a terminal's root ends at the leaf of its stack. -/
theorem Settled.lowest {t : Fin 3} {e : Nat} (h : Settled owner k)
    (hrun : (k.terminals t).running = true)
    (he : lowestChild k ((k.terminals t).pid % 256) = some e) :
    Taken k.procs e ∧ owner e = t ∧ (k.pcbs e).childPcb = none := by
  have hroot : (forestOf owner k).root t = some (k.terminals t).pid :=
    forestOf_root.mpr ⟨hrun, rfl⟩
  have hlt : (k.terminals t).pid < 8 := Taken.lt (h.wf.rooted t _ hroot).1
  rw [Nat.mod_eq_of_lt (by omega)] at he
  exact h.wf.last_root hroot he

/-- The scheduler resumes that leaf. -/
theorem Settled.resumed {t : Fin 3} {e : Nat} (h : Settled owner k)
    (hrun : (k.terminals t).running = true)
    (he : lowestChild k ((k.terminals t).pid % 256) = some e) :
    Settled owner (resumeProcess k e) ∧ (resumeProcess k e).runningPid = e ∧ owner e = t ∧
      Resumed k (resumeProcess k e) e := by
  obtain ⟨hlive, hown, hleaf⟩ := h.lowest hrun he
  have helt : e < 8 := Taken.lt hlive
  have hres := resumeProcess_spec k e
  rw [h.consistent.pid e hlive] at hres
  have hrunning : (resumeProcess k e).runningPid = e := by
    rw [hres.runningPid, Nat.mod_eq_of_lt (by omega)]
  have hlast : KeepsLast k (resumeProcess k e) :=
    fun proc => hres.pgdir proc _ not_videoDirEntry_afterProgram
  have hforest : forestOf owner (resumeProcess k e) = forestOf owner k := by
    unfold forestOf
    rw [hres.procs, hres.pcbs, hres.terminals]
  refine ⟨⟨hlast.programPageLast h.last, ?_, by rw [hforest]; exact h.wf, ?_, ?_⟩, hrunning, hown,
    hres⟩
  · obtain ⟨h1, h2, h3, h4, h5⟩ := h.consistent
    refine ⟨fun p => ?_, fun p => ?_, ?_, ?_, ?_⟩
    · rw [hres.procs, hres.pcbs]
      exact h1 p
    · rw [hres.procs, hres.pcbs]
      exact h2 p
    · rw [hres.terminals]
      exact h3
    · rw [hres.terminals]
      exact h4
    · rw [hres.terminals]
      exact h5
  · rw [hres.procs, hrunning]
    exact hlive
  · rw [hres.pcbs, hrunning]
    exact hleaf

/-! ## halt -/

theorem Settled.haltedTerminal {pcbs : Nat → Pcb} (h : Settled owner k) (hp : HaltedPcbs k pcbs) :
    getRunningTerminal (haltedState k pcbs) = some (some (owner k.runningPid)) := by
  rw [← h.terminal]
  exact getRunningTerminal_congr rfl (fun _ => rfl) hp.pid hp.parentPid hp.parentPcb

/-- The child links `halt` leaves are those of the forest without the process. -/
theorem HaltedPcbs.child_eq {pcbs : Nat → Pcb} (hp : HaltedPcbs k pcbs) (owner : Nat → Fin 3) :
    (fun s => (pcbs s).childPcb) = ((forestOf owner k).remove k.runningPid).child := by
  funext s
  unfold forestOf Forest.remove
  dsimp only
  cases hpar : (k.pcbs k.runningPid).parentPcb with
  | none => exact hp.childOther s (by rw [hpar]; exact fun he => nomatch he)
  | some q =>
    dsimp only
    by_cases hs : s = q
    · subst hs
      rw [Function.update_self]
      exact hp.childOfParent s hpar
    · rw [Function.update_of_ne hs]
      exact hp.childOther s (by rw [hpar]; exact fun he => hs (Option.some.inj he).symm)

theorem freePid_procs (k : Kernel) {pid : Nat} (hlt : pid < 8) (p : Nat) :
    Taken (freePid k pid).procs p ↔ Taken k.procs p ∧ p ≠ pid := by
  show Taken (k.procs &&& ~~~(pidBit pid)) p ↔ _
  rw [pidBit_eq_slot, taken_andNot_slot hlt]

/-- A process with a parent is taken off its stack, and the parent runs. -/
theorem Settled.returned {pcbs : Nat → Pcb} {q : Nat} (h : Settled owner k)
    (hp : HaltedPcbs k pcbs) (hpar : (k.pcbs k.runningPid).parentPcb = some q)
    (hr : ReturnedTo (freePid (haltedState k pcbs) (k.pcbs k.runningPid).pid) k' k.runningPid
      (owner k.runningPid)) :
    Settled owner k' ∧ k'.runningPid = q ∧ owner q = owner k.runningPid := by
  have hlt : k.runningPid < 8 := Taken.lt h.live
  have hpid := h.consistent.pid _ h.live
  obtain ⟨hqlive, hqchild, hqown⟩ := h.wf.up _ q h.live hpar
  have hqlt : q < 8 := Taken.lt hqlive
  have hqr : q ≠ k.runningPid := by
    intro he
    have hleaf := h.leaf
    rw [← he] at hleaf
    exact nomatch hleaf.symm.trans hqchild
  have hnum : (pcbs k.runningPid).parentPid = (q : Int) := by
    rw [hp.parentPid, h.consistent.parentPid _ h.live, hpar]
    rfl
  have hrunning : k'.runningPid = q := by
    refine hr.runningPid.trans ((congrArg (fun i : Int => (i % 256).toNat) hnum).trans ?_)
    omega
  have hprocs : ∀ p, Taken k'.procs p ↔ Taken k.procs p ∧ p ≠ k.runningPid := by
    intro p
    rw [hr.procs, hpid]
    exact freePid_procs (haltedState k pcbs) hlt p
  obtain ⟨ret, hpcbs⟩ := hr.pcbs
  have hlinks : ∀ s, SameLinks (pcbs s) (k'.pcbs s) := by
    rw [hpcbs]
    exact sameLinks_update pcbs k.runningPid ⟨rfl, rfl, rfl, rfl⟩
  have hterms : ∀ u, SameRoot (k.terminals u) (k'.terminals u) := by
    rw [hr.terminals]
    exact sameRoot_update k.terminals (owner k.runningPid) ⟨rfl, rfl, rfl⟩
  have hforest : forestOf owner k' = (forestOf owner k).remove k.runningPid := by
    unfold forestOf Forest.remove
    dsimp only
    rw [hpar]
    dsimp only
    congr 1
    · funext p
      exact propext (hprocs p)
    · funext s
      rw [(hlinks s).parentPcb, hp.parentPcb]
    · funext s
      rw [(hlinks s).childPcb]
      have hchild := congrFun (hp.child_eq owner) s
      unfold forestOf Forest.remove at hchild
      dsimp only at hchild
      rw [hpar] at hchild
      exact hchild
    · funext u
      rw [(hterms u).pid, (hterms u).running]
  have hpaging : k'.paging = (removeTaskPgdir k.paging
      ((pcbs k.runningPid).pid % 256)).loadCr3 (getCurrentPcb k').pid := hr.paging
  refine ⟨⟨?_, ⟨fun p hlive => ?_, fun p hlive => ?_, fun u => ?_, fun u hu => ?_, ?_, ?_⟩, ?_, ?_,
    ?_⟩, hrunning, hqown⟩
  · intro proc hproc
    rw [hpaging, Paging.loadCr3_pgdir, removeTaskPgdir_afterProgram]
    exact h.last proc hproc
  · rw [(hlinks p).pid, hp.pid]
    exact h.consistent.pid p ((hprocs p).mp hlive).1
  · rw [(hlinks p).parentPid, (hlinks p).parentPcb, hp.parentPid, hp.parentPcb]
    exact h.consistent.parentPid p ((hprocs p).mp hlive).1
  · rw [(hterms u).id]
    exact h.consistent.id u
  · rw [(hterms u).pid]
    exact h.consistent.stopped u ((hterms u).running ▸ hu)
  · rw [(hterms 0).running]
    exact h.consistent.first.1
  · rw [(hterms 0).pid]
    exact h.consistent.first.2
  · rw [hforest]
    exact h.wf.remove h.live h.leaf
  · rw [hrunning]
    exact (hprocs q).mpr ⟨hqlive, hqr⟩
  · rw [hrunning, (hlinks q).childPcb]
    exact hp.childOfParent q hpar

/-- The displayed terminal's root gives its place to a new one, if no lower terminal has
    stopped. -/
theorem Settled.relaunched {pcbs : Nat → Pcb} {pid : Nat} {u : Fin 3} (h : Settled owner k)
    (hp : HaltedPcbs k pcbs) (hpar : (k.pcbs k.runningPid).parentPcb = none)
    (hown : owner k.runningPid = k.currentTerminal)
    (hlower : ∀ t, t < k.currentTerminal → (k.terminals t).running = true)
    (hl : Launched (stopTerminal (freePid (haltedState k pcbs) (k.pcbs k.runningPid).pid)
      (owner k.runningPid)) k' pid u) :
    Settled (Function.update owner pid k.currentTerminal) k' ∧ u = k.currentTerminal := by
  have hlt : k.runningPid < 8 := Taken.lt h.live
  have hpid := h.consistent.pid _ h.live
  obtain ⟨hrun, htpid⟩ := forestOf_root.mp (h.wf.top _ h.live hpar)
  rw [show (forestOf owner k).owner k.runningPid = k.currentTerminal from hown] at hrun htpid
  -- the state the shell is launched from
  obtain ⟨k1, hk1⟩ : ∃ k1, k1 = stopTerminal (freePid (haltedState k pcbs)
    (k.pcbs k.runningPid).pid) (owner k.runningPid) := ⟨_, rfl⟩
  rw [← hk1] at hl
  have hprocs : ∀ p, Taken k1.procs p ↔ Taken k.procs p ∧ p ≠ k.runningPid := by
    intro p
    rw [hk1, hpid]
    exact freePid_procs (haltedState k pcbs) hlt p
  have hpcbs1 : k1.pcbs = pcbs := by rw [hk1]; rfl
  have hcur1 : k1.currentTerminal = k.currentTerminal := by rw [hk1]; rfl
  have hterms1 : k1.terminals = Function.update k.terminals k.currentTerminal
      { k.terminals k.currentTerminal with running := false } := by rw [hk1]; rfl
  have hstop : (k1.terminals k1.currentTerminal).running = false := by
    rw [hcur1, hterms1, Function.update_self]
  have hr := hl.rootLaunched hstop
  obtain rfl : u = k.currentTerminal := by
    rw [← hcur1]
    refine hl.first hstop hstop fun v hv => ?_
    rw [hcur1] at hv
    rw [hterms1, Function.update_of_ne (ne_of_lt hv), hlower v hv]
  obtain ⟨-, hfree, hlow⟩ := allocPid_some hl.free
  have hzero : k.currentTerminal = 0 → pid = 0 := by
    intro h0
    have hr0 : k.runningPid = 0 := by
      rw [← htpid, h0]
      exact h.consistent.first.2
    rcases Nat.eq_zero_or_pos pid with hz | hpos
    · exact hz
    · exact absurd hr0.symm ((hprocs 0).mp (hlow 0 hpos)).2
  have hforest1 : forestOf owner k1 = (forestOf owner k).remove k.runningPid := by
    unfold forestOf Forest.remove
    dsimp only
    rw [hpar, hpcbs1, hterms1, hown]
    dsimp only
    congr 1
    · funext p
      exact propext (hprocs p)
    · funext s
      exact hp.parentPcb s
    · funext s
      exact hp.childOther s (by rw [hpar]; exact fun he => nomatch he)
    · funext t
      by_cases ht : t = k.currentTerminal
      · rw [ht, Function.update_self, Function.update_self]
        rfl
      · rw [Function.update_of_ne ht, Function.update_of_ne ht]
  obtain ⟨pcb, hpcbs, -, -, -, h4⟩ := hr.pcbs
  refine ⟨⟨hl.paging.programPageLast (by rw [hk1]; exact h.last), ?_, ?_, ?_, ?_⟩, rfl⟩
  · refine hr.consistent (fun p hlive => ?_) (fun p hlive => ?_) (fun t => ?_) (fun t ht hs => ?_)
      (fun h0 => ?_) hzero
    · rw [hpcbs1, hp.pid]
      exact h.consistent.pid p ((hprocs p).mp hlive).1
    · rw [hpcbs1, hp.parentPid, hp.parentPcb]
      exact h.consistent.parentPid p ((hprocs p).mp hlive).1
    · revert t
      rw [hterms1, Function.forall_update_iff k.terminals fun t (a : Terminal) => a.id = t]
      exact ⟨h.consistent.id _, fun t _ => h.consistent.id t⟩
    · rw [hterms1, Function.update_of_ne ht] at hs ⊢
      exact h.consistent.stopped t hs
    · rw [hterms1, Function.update_of_ne (Ne.symm h0)]
      exact h.consistent.first.2
  · rw [hr.forestOf_eq, hforest1]
    refine (h.wf.remove h.live h.leaf).addRoot (fun hlive => hfree ((hprocs pid).mpr hlive)) ?_
    rw [← hforest1]
    exact forestOf_root_none hr.stopped
  · rw [hr.runningPid]
    exact (hr.procs pid).mpr (Or.inr rfl)
  · rw [hr.runningPid, hpcbs, Function.update_self, h4]

end Mp3Kernel
