/-
  A shell on each of the first terminals.

  `ShellsOn owner n k`: terminals 0 … n run a shell each and nothing else, and terminal n is
  displayed. It holds right after booting for n = 0, and again after the displayed shell has
  called another one that has come back (`ShellsOn.called`); the key of the next terminal and
  a tick start the next shell (`ShellsOn.start`), and a further tick goes back to terminal 0
  (`ShellsOn.back`). The runs that show where the kernel goes wrong begin so.
-/
import Mp3Kernel.Proofs.Binding

namespace Mp3Kernel

open Base.Runs Base.Bitmap

variable {fs : Image} {k k' : Kernel} {owner : Nat → Fin 3} {n t : Fin 3}

structure ShellsOn (owner : Nat → Fin 3) (n : Fin 3) (k : Kernel) : Prop where
  settled : Settled owner k
  procs : ∀ p, Taken k.procs p ↔ p ≤ n
  running : ∀ t, (k.terminals t).running = decide (t ≤ n)
  pid : ∀ t, t ≤ n → (k.terminals t).pid = t
  status : ∀ t, (k.terminals t).status = .running ↔ t ≤ n
  leaf : ∀ p, Taken k.procs p → (k.pcbs p).childPcb = none
  displayed : k.currentTerminal = n
  schedule : k.currentSchedule = n
  counter : k.scheduleCounter = n
  buf : ∀ t, (k.terminals t).vidMemBuf = vidMemBufAddr t
  runningPid : k.runningPid = n
  window : Window k.paging k.runningPid video

theorem Booted.shellsOn (hk : Booted fs k) : ShellsOn (fun _ => 0) 0 k := by
  have hs := hk.spec
  have hzero : ∀ t : Fin 3, t ≤ 0 ↔ t = 0 := by decide
  refine ⟨hk.settled, fun p => (hs.procs p).trans Nat.le_zero.symm, fun t => ?_, fun t ht => ?_,
    fun t => ?_, fun p hp => ?_, hs.currentTerminal, hs.currentSchedule, hs.scheduleCounter,
    hs.terminals.vidMemBuf, hs.runningPid, ?_⟩
  · rw [hs.terminals.running]
    exact decide_eq_decide.mpr (hzero t).symm
  · rw [hs.terminals.pid, (hzero t).mp ht]
    rfl
  · rw [hs.terminals.started, hzero]
  · rw [(hs.procs p).mp hp]
    exact hs.childPcb
  · rw [hs.runningPid]
    exact hs.window

theorem ShellsOn.free (h : ShellsOn owner n k) : allocPid k.procs = some (n.val + 1) :=
  allocPid_eq (by omega) (fun hp => absurd ((h.procs _).mp hp) (by omega))
    fun q hq => (h.procs q).mpr (Nat.le_of_lt_succ hq)

theorem ShellsOn.owner_running (h : ShellsOn owner n k) : owner k.runningPid = n := by
  refine (h.settled.wf.rooted n _ (forestOf_root.mpr ⟨?_, ?_⟩)).2.2
  · rw [h.running]
    exact decide_eq_true (le_refl n)
  · rw [h.runningPid]
    exact h.pid n (le_refl n)

/-! ## A shell that calls another -/

structure SameShell (a b : Terminal) : Prop where
  running : b.running = a.running
  pid : b.pid = a.pid
  status : b.status = a.status
  vidMemBuf : b.vidMemBuf = a.vidMemBuf

theorem sameShell_update (terms : Fin 3 → Terminal) (t : Fin 3) {term : Terminal}
    (h : SameShell (terms t) term) :
    ∀ u, SameShell (terms u) (Function.update terms t term u) := by
  rw [Function.forall_update_iff terms fun u a => SameShell (terms u) a]
  exact ⟨h, fun u _ => ⟨rfl, rfl, rfl, rfl⟩⟩

/-- The fields that `ShellsOn` reads, links and pages apart. -/
structure SameShells (k k' : Kernel) : Prop where
  procs : ∀ p, Taken k'.procs p ↔ Taken k.procs p
  terminals : ∀ t, SameShell (k.terminals t) (k'.terminals t)
  runningPid : k'.runningPid = k.runningPid
  currentTerminal : k'.currentTerminal = k.currentTerminal
  currentSchedule : k'.currentSchedule = k.currentSchedule
  scheduleCounter : k'.scheduleCounter = k.scheduleCounter

theorem ShellsOn.of_same {owner' : Nat → Fin 3} (h : ShellsOn owner n k) (hs : SameShells k k')
    (hset : Settled owner' k') (hleaf : ∀ p, Taken k.procs p → (k'.pcbs p).childPcb = none)
    (hw : Window k'.paging k.runningPid video) : ShellsOn owner' n k' where
  settled := hset
  procs p := (hs.procs p).trans (h.procs p)
  running t := (hs.terminals t).running.trans (h.running t)
  pid t ht := (hs.terminals t).pid.trans (h.pid t ht)
  status t := by
    rw [(hs.terminals t).status]
    exact h.status t
  leaf p hp := hleaf p ((hs.procs p).mp hp)
  displayed := hs.currentTerminal.trans h.displayed
  schedule := hs.currentSchedule.trans h.schedule
  counter := hs.scheduleCounter.trans h.counter
  buf t := (hs.terminals t).vidMemBuf.trans (h.buf t)
  runningPid := hs.runningPid.trans h.runningPid
  window := by
    rw [hs.runningPid]
    exact hw

/-- A window stays while its page table and the entry above it do. -/
theorem Window.of_same {p q : Paging} {proc pa : Nat} (h : Window p proc pa)
    (hlayout : q.layout = p.layout) (hcr3 : q.cr3 = q.layout.pgdirAddr proc)
    (hdir : q.pgdir proc 0 = p.pgdir proc 0) (htbl : q.pgtblProc proc = p.pgtblProc proc) :
    Window q proc pa := by
  refine ⟨h.lt, hcr3, ?_, fun i hpos hi hne => ?_, ?_, h.aligned⟩
  · unfold OwnTable
    rw [hdir, hlayout]
    exact h.own
  · unfold MapsTo
    rw [htbl]
    exact h.low i hpos hi hne
  · unfold MapsTo
    rw [htbl]
    exact h.video

/-- The displayed shell calls another, which halts at once. What is left of it is that its
    terminal's `vidmap` flag is clear. -/
theorem ShellsOn.called (hshell : Launchable fs shellCmd) (h : ShellsOn owner n k)
    (status : UInt8) (esp ebp : Nat) : ∃ k1 k2 owner',
    (execute fs k (some shellCmd) esp ebp).state = some k1 ∧ k1.runningPid = n.val + 1 ∧
      halt fs k1 status esp ebp = some k2 ∧ ShellsOn owner' n k2 ∧
      (k2.terminals n).vidmap = false ∧
      ∀ proc a, proc ≠ n.val + 1 → VidmapAt k.paging proc a → VidmapAt k2.paging proc a := by
  have hlt : k.runningPid < 8 := Taken.lt h.settled.live
  obtain ⟨k1, entry, hexec⟩ := execute_of_launchable hshell h.settled.last h.free esp ebp
  obtain ⟨⟨pid, t, hl⟩, -⟩ := launched_of_execute hexec
  obtain rfl : pid = n.val + 1 := Option.some.inj (hl.free.symm.trans h.free)
  have hcur : (k.terminals k.currentTerminal).running = true := by
    rw [h.running, h.displayed]
    exact decide_eq_true (le_refl n)
  obtain ⟨hset1, hchild, hterms1, hother⟩ := h.settled.launchedChild hl hcur
  have hrun1 := hl.runningPid
  -- the child's parent is the caller
  have hne : k.runningPid ≠ n.val + 1 := by
    rw [h.runningPid]
    omega
  have hparent : (k1.pcbs k1.runningPid).parentPcb = some k.runningPid := by
    rw [hrun1]
    exact (hset1.wf.down _ _ (hl.taken h.settled.live).1 hchild).2
  obtain ⟨pcbs, k2, hp, hhalt, hr⟩ := hset1.halt_child fs hparent status esp ebp
  obtain ⟨hset2, hrun2, -⟩ := hset1.returned hp hparent hr
  rw [hset1.consistent.pid _ hset1.live, hrun1, Function.update_self] at hr
  have hterms : ∀ t, SameShell (k.terminals t) (k2.terminals t) := by
    rw [hr.terminals, ← hterms1]
    exact sameShell_update k1.terminals _ ⟨rfl, rfl, rfl, rfl⟩
  have hprocs : ∀ p, Taken k2.procs p ↔ Taken k.procs p := by
    intro p
    rw [hr.procs, freePid_procs (haltedState k1 pcbs) hl.pid_lt,
      show (haltedState k1 pcbs).procs = k1.procs from rfl, hl.procs, pidBit_eq_slot,
      taken_or_slot hl.pid_lt, h.procs]
    omega
  refine ⟨k1, k2, _, by rw [hexec]; rfl, hrun1, hhalt, h.of_same ⟨hprocs, hterms, hrun2,
    hr.currentTerminal.trans hl.currentTerminal, hr.currentSchedule.trans hl.currentSchedule,
    hr.scheduleCounter.trans hl.scheduleCounter⟩ hset2 (fun p hp' => ?_) ?_, ?_,
    fun proc a hproc hv => ?_⟩
  · obtain ⟨ret, hpcbs⟩ := hr.pcbs
    have hpne := (hl.taken hp').2
    rw [hpcbs, Function.update_of_ne hpne]
    show (pcbs p).childPcb = none
    by_cases hpr : p = k.runningPid
    · rw [hpr]
      exact hp.childOfParent _ hparent
    · rw [hp.childOther p fun he => hpr (Option.some.inj (he.symm.trans hparent)),
        hother p hpne hpr]
      exact h.leaf p hp'
  · rw [hr.paging]
    refine h.window.of_same hl.paging.layout ?_ ?_ (hl.paging.tblOther _ hne)
    · rw [getCurrentPcb, hset2.consistent.pid _ hset2.live, hrun2]
      rfl
    · rw [Paging.loadCr3_pgdir, removeTaskPgdir_pgdir _ _ _ (by decide)]
      exact congrFun (hl.paging.dirOther _ hne) 0
  · rw [hr.terminals, h.owner_running, Function.update_self]
  · rw [hr.paging]
    exact tablePage_removeTaskPgdir _ (by decide) (hl.paging.tablePage_ne hproc hv)

theorem ShellsOn.shown (h : ShellsOn owner n k) (ht : t.val = n.val + 1) (u : Fin 3) :
    Shown (requested k t) u ↔ u ≤ t := by
  unfold Shown requested
  dsimp only
  rw [h.status, h.displayed, Option.some.injEq]
  constructor
  · rintro (hu | ⟨rfl, -⟩)
    · exact hu.trans (by omega)
    · exact le_refl _
  · intro hu
    by_cases he : u = t
    · exact Or.inr ⟨he.symm, by omega⟩
    · exact Or.inl (by omega)

theorem ShellsOn.slotAfter (h : ShellsOn owner n k) (ht : t.val = n.val + 1) :
    slotAfter (requested k t) = some t := by
  have hadd : ∀ n t : Fin 3, t.val = n.val + 1 → n + 1 = t := by decide
  unfold Mp3Kernel.slotAfter
  dsimp only
  rw [show (requested k t).scheduleCounter = n from h.counter, hadd n t ht,
    if_pos ((h.shown ht t).mpr (le_refl t))]

/-- The key of the next terminal and a tick. -/
theorem ShellsOn.start (hshell : Launchable fs shellCmd) (h : ShellsOn owner n k)
    (ht : t.val = n.val + 1) (esp ebp : Nat) :
    ∃ k1 k' pid u, irqhPit fs (requested k t) esp ebp = some k' ∧
      pendingSwitch (requested k t) = some k1 ∧
      Launched (scheduledState k1 t esp ebp) k' pid u ∧
      ShellsOn (Function.update owner t t) t k' ∧ k'.terminalToSwitchTo = none := by
  have hstop : (k.terminals t).running = false := by
    rw [h.running]
    exact decide_eq_false (by omega)
  have hne : t ≠ k.currentSchedule := by
    rw [h.schedule]
    exact fun he => by omega
  obtain ⟨k1, k', u, htick, hswitch, hsw, h1, hl⟩ :=
    irqhPit_starts hshell h.settled h.window h.buf (h.slotAfter ht) hne hstop h.free esp ebp
  have hprocs : (scheduledState k1 t esp ebp).procs = k.procs := hsw.procs
  have hrunning : ∀ v, (k1.terminals v).running = decide (v ≤ n) := by
    intro v
    rw [hsw.running]
    exact h.running v
  have hcur : (k1.terminals k1.currentTerminal).running = false := by
    rw [hsw.currentTerminal, hrunning]
    exact decide_eq_false (show ¬ t ≤ n by omega)
  obtain ⟨hset', hr⟩ := (h1.scheduled t esp ebp).launchedRoot hl hcur
  -- the first terminal that does not run is the next one
  obtain rfl : u = t := by
    refine hl.first hcur ((hrunning t).trans (decide_eq_false (by omega))) fun v hv => ?_
    exact (hrunning v).trans (decide_eq_true (by omega))
  rw [← ht] at hl hset' hr
  refine ⟨k1, k', u, u, htick, hswitch, hl, ⟨hset', ?_, ?_, ?_, ?_, ?_, ?_, ?_, ?_, ?_, ?_, ?_⟩, ?_⟩
  · intro p
    rw [hr.procs, hprocs, h.procs]
    omega
  · rw [hr.terminals, Function.forall_update_iff _ fun v (a : Terminal) =>
      a.running = decide (v ≤ u)]
    refine ⟨(decide_eq_true (le_refl u)).symm, fun v hv => (hrunning v).trans ?_⟩
    exact decide_eq_decide.mpr (by omega)
  · rw [hr.terminals, Function.forall_update_iff _ fun v (a : Terminal) =>
      v ≤ u → a.pid = v]
    refine ⟨fun _ => rfl, fun v hv hle => ?_⟩
    exact (hsw.pid v).trans (h.pid v (by omega))
  · rw [hr.terminals, Function.forall_update_iff _ fun v (a : Terminal) =>
      a.status = .running ↔ v ≤ u]
    exact ⟨(hsw.status u).trans (h.shown ht u), fun v _ => (hsw.status v).trans (h.shown ht v)⟩
  · intro p hp
    obtain ⟨pcb, hpcbs, -, -, -, h4⟩ := hr.pcbs
    rw [hpcbs]
    by_cases hpu : p = u
    · rw [hpu, Function.update_self, h4]
    · rw [Function.update_of_ne hpu, (scheduledState_links k1 u esp ebp p).childPcb, hsw.pcbs]
      refine h.leaf p ?_
      rw [← hprocs]
      exact ((hr.procs p).mp hp).resolve_right hpu
  · exact hl.currentTerminal.trans hsw.currentTerminal
  · exact hl.currentSchedule
  · exact hl.scheduleCounter
  · rw [hr.terminals, Function.forall_update_iff _ fun (v : Fin 3) (a : Terminal) =>
      a.vidMemBuf = vidMemBufAddr v]
    exact ⟨(hsw.vidMemBuf u).trans (h.buf u), fun v _ => (hsw.vidMemBuf v).trans (h.buf v)⟩
  · exact hl.runningPid
  · rw [hl.runningPid]
    exact hl.paging.window hl.pid_lt
  · exact hl.terminalToSwitchTo.trans hsw.terminalToSwitchTo

/-- With more than one shell, the next tick goes back to the one of terminal 0. -/
theorem ShellsOn.back (h : ShellsOn owner n k) (hn : n ≠ 0) (hpending : k.terminalToSwitchTo = none)
    (esp ebp : Nat) :
    irqhPit fs k esp ebp = some (resumeProcess (scheduledState k 0 esp ebp) 0) ∧
      Settled owner (resumeProcess (scheduledState k 0 esp ebp) 0) ∧
      (resumeProcess (scheduledState k 0 esp ebp) 0).runningPid = 0 ∧ owner 0 = 0 ∧
      Resumed (scheduledState k 0 esp ebp) (resumeProcess (scheduledState k 0 esp ebp) 0) 0 := by
  have hswitch : pendingSwitch k = some k := by
    unfold pendingSwitch
    rw [hpending]
  have hnext : nextSchedule k = some 0 := by
    unfold nextSchedule
    dsimp only
    rw [h.counter]
    obtain rfl | rfl : n = 1 ∨ n = 2 := by omega
    · rw [if_neg fun h1 => absurd ((h.status (1 + 1)).mp h1) (by decide),
        if_pos ((h.status (1 + 2)).mpr (by decide))]
      rfl
    · rw [if_pos ((h.status (2 + 1)).mpr (by decide))]
      rfl
  have hrun : (k.terminals 0).running = true := h.settled.consistent.first.1
  have hne : (0 : Fin 3) ≠ k.currentSchedule := by
    rw [h.schedule]
    exact hn.symm
  have hchild : ((scheduledState k 0 esp ebp).pcbs 0).childPcb = none := by
    rw [(scheduledState_links k 0 esp ebp 0).childPcb]
    exact h.leaf 0 ((h.procs 0).mpr (Nat.zero_le _))
  have hleaf : lowestChild (scheduledState k 0 esp ebp) ((k.terminals 0).pid % 256) = some 0 := by
    rw [h.settled.consistent.first.2]
    exact Base.Chain.last_of_none hchild
  obtain ⟨hset, hrunning, hown, hres⟩ := (h.settled.scheduled 0 esp ebp).resumed (t := 0) hrun hleaf
  exact ⟨irqhPit_of_resume hswitch hnext hne hrun hleaf, hset, hrunning, hown, hres⟩

end Mp3Kernel
