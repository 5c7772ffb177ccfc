/-
  Does the page that `vidmap` hands out follow its terminal?

  The page should go to video memory while the process's terminal is displayed and to that
  terminal's buffer while it is not (`VidmapPage`). `vidmap` maps it so for the state it is
  called in; afterwards only the scheduler remaps it, for the process it resumes, and only if
  the `vidmap` flag of that process's terminal is set. There is one flag for all processes of
  a terminal, and a process that returns to its parent clears it.

  `vidmap_followed`: in every run whose steps meet `FlagsSafe`, every tick that switches to a
  process that has called `vidmap` leaves its page right. What carries it is `FlagsKept`: the
  owner of each such process has its flag set. `vidmap_left_behind`: the first shell calls
  `vidmap`, a child of it halts, and from then on the page stays on the display.
-/
import Mp3Kernel.Proofs.Relaunch
import Mp3Kernel.Proofs.VideoMap

namespace Mp3Kernel

open Base.Runs Base.Bitmap

variable {fs : Image} {k k' : Kernel} {owner : Nat → Fin 3}

structure Vidmapped where
  kernel : Kernel
  /-- The processes that have called `vidmap` successfully and have not ended. -/
  mapped : Nat → Bool

/-- Who these are after an operation. -/
def nextMapped (k : Kernel) (mapped : Nat → Bool) : Op → Nat → Bool
  | .vidmap screenStart =>
    match vidmap k screenStart with
    | some (ret, _) => if ret = 0 then Function.update mapped k.runningPid true else mapped
    | none => mapped
  | .halt _ _ _ => Function.update mapped k.runningPid false
  | .exception _ _ => Function.update mapped k.runningPid false
  | _ => mapped

def vidmapStep (fs : Image) (s : Vidmapped) (op : Op) : Option Vidmapped :=
  (step fs s.kernel op).map fun k => ⟨k, nextMapped s.kernel s.mapped op⟩

/-- A kernel that has just booted. -/
def bootVidmapped (k : Kernel) : Vidmapped := ⟨k, fun _ => false⟩

/-- In the running process's page table, the vidmap page goes to its terminal's screen. -/
def VidmapPage (k : Kernel) : Prop :=
  ∃ t, getRunningTerminal k = some (some t) ∧ ∀ j, j < 4096 →
    k.paging.translate k.runningPid (vidmapStart + j) = some ⟨screenOf k t + j, true⟩

/-- A tick has switched to a process of another terminal, which ran already. -/
def TurnedTo (k k' : Kernel) : Prop :=
  k'.currentSchedule ≠ k.currentSchedule ∧ (k.terminals k'.currentSchedule).running = true

/-- If the operation is a tick that switches to a process that has called `vidmap`, its page is
    right afterwards. -/
def VidmapFollows (fs : Image) (s : Vidmapped) (op : Op) : Prop :=
  ∀ esp ebp s', op = .tick esp ebp → vidmapStep fs s op = some s' →
    TurnedTo s.kernel s'.kernel → s'.mapped s'.kernel.runningPid = true →
      VidmapPage s'.kernel

/-- The terminal `get_running_terminal` would find for a process. -/
def terminalOf (k : Kernel) (p : Nat) : Option (Option (Fin 3)) :=
  getRunningTerminal { k with runningPid := p }

/-- A process with a parent ends when no other process of its terminal has called `vidmap`, a
    root when its terminal is displayed and every lower terminal runs. -/
structure EndsSafely (s : Vidmapped) : Prop where
  child : (getCurrentPcb s.kernel).parentPid ≠ -1 → ∀ p, p ≠ s.kernel.runningPid →
    s.mapped p = true → terminalOf s.kernel p ≠ getRunningTerminal s.kernel
  root : (getCurrentPcb s.kernel).parentPid = -1 →
    getRunningTerminal s.kernel = some (some s.kernel.currentTerminal) ∧
      ∀ t, t < s.kernel.currentTerminal → (s.kernel.terminals t).running = true

/-- `execute` does not fail with a PID taken, and processes end safely. -/
def FlagsSafe (fs : Image) (s : Vidmapped) (op : Op) : Prop :=
  CleanExecute fs s.kernel op ∧ (op.ends = true → EndsSafely s)

/-! ## The invariant -/

structure FlagsKept (owner : Nat → Fin 3) (k : Kernel) (mapped : Nat → Bool) : Prop where
  settled : Settled owner k
  buf : ∀ t, (k.terminals t).vidMemBuf = vidMemBufAddr t
  live : ∀ p, mapped p = true → Taken k.procs p
  flag : ∀ p, mapped p = true → (k.terminals (owner p)).vidmap = true

theorem Booted.flagsKept (hk : Booted fs k) : FlagsKept (fun _ => 0) k fun _ => false :=
  ⟨hk.settled, hk.spec.terminals.vidMemBuf, fun _ hp => (nomatch hp), fun _ hp => (nomatch hp)⟩

/-- The fields of a terminal that the vidmap pages depend on. -/
structure SameVidmap (a b : Terminal) : Prop where
  vidmap : b.vidmap = a.vidmap
  vidMemBuf : b.vidMemBuf = a.vidMemBuf

theorem sameVidmap_update (terms : Fin 3 → Terminal) (t : Fin 3) {term : Terminal}
    (h : SameVidmap (terms t) term) :
    ∀ u, SameVidmap (terms u) (Function.update terms t term u) := by
  rw [Function.forall_update_iff terms fun u a => SameVidmap (terms u) a]
  exact ⟨h, fun u _ => ⟨rfl, rfl⟩⟩

/-- While the terminals keep their flags, those who have called `vidmap` have only to live and
    to keep their owners. -/
theorem FlagsKept.of_sameVidmap {owner' : Nat → Fin 3} {mapped mapped' : Nat → Bool}
    (h : FlagsKept owner k mapped) (hset : Settled owner' k')
    (hterms : ∀ t, SameVidmap (k.terminals t) (k'.terminals t))
    (hmapped : ∀ p, mapped' p = true → mapped p = true ∧ Taken k'.procs p ∧ owner' p = owner p) :
    FlagsKept owner' k' mapped' := by
  refine ⟨hset, fun t => (hterms t).vidMemBuf.trans (h.buf t), fun p hp => (hmapped p hp).2.1,
    fun p hp => ?_⟩
  obtain ⟨hold, -, hown⟩ := hmapped p hp
  rw [(hterms _).vidmap, hown]
  exact h.flag p hold

variable {mapped : Nat → Bool}

theorem FlagsKept.of_frame (h : FlagsKept owner k mapped) (hf : Frame k k') :
    FlagsKept owner k' mapped :=
  h.of_sameVidmap (h.settled.of_same hf.sameForest hf.keepsLast)
    (fun t => ⟨(hf.terminals t).vidmap, (hf.terminals t).vidMemBuf⟩)
    fun p hp => ⟨hp, by rw [hf.procs]; exact h.live p hp, rfl⟩

/-! ## Launches -/

theorem Launched.sameVidmap {pid : Nat} {t : Fin 3} (hl : Launched k k' pid t) (u : Fin 3) :
    SameVidmap (k.terminals u) (k'.terminals u) := by
  rcases hl.bound u with hu | hu
  · rw [hu]
    exact ⟨rfl, rfl⟩
  · rw [hu]
    exact ⟨rfl, rfl⟩

theorem FlagsKept.launched {pid : Nat} {t : Fin 3} (h : FlagsKept owner k mapped)
    (hl : Launched k k' pid t) : ∃ owner', FlagsKept owner' k' mapped := by
  have hmapped : ∀ (u : Fin 3) p, mapped p = true →
      mapped p = true ∧ Taken k'.procs p ∧ Function.update owner pid u p = owner p := by
    intro u p hp
    obtain ⟨hlive, hne⟩ := hl.taken (h.live p hp)
    exact ⟨hp, hlive, Function.update_of_ne hne _ _⟩
  cases hcur : (k.terminals k.currentTerminal).running with
  | true =>
    exact ⟨_, h.of_sameVidmap (h.settled.launchedChild hl hcur).1 hl.sameVidmap (hmapped _)⟩
  | false =>
    exact ⟨_, h.of_sameVidmap (h.settled.launchedRoot hl hcur).1 hl.sameVidmap (hmapped _)⟩

theorem FlagsKept.execute {ucmd : Option CString} {esp ebp : Nat} (h : FlagsKept owner k mapped)
    (hclean : ¬ FailsWithPid fs k.procs ucmd)
    (hexec : (execute fs k ucmd esp ebp).state = some k') :
    ∃ owner', FlagsKept owner' k' mapped := by
  cases hres : Mp3Kernel.execute fs k ucmd esp ebp with
  | fault =>
    rw [hres] at hexec
    cases hexec
  | failed k1 =>
    rw [hres] at hexec
    obtain rfl := Option.some.inj hexec
    rw [execute_failed_eq h.settled.last hclean hres]
    exact ⟨owner, h⟩
  | launched k1 entry =>
    rw [hres] at hexec
    obtain rfl := Option.some.inj hexec
    obtain ⟨⟨pid, t, hl⟩, -⟩ := launched_of_execute hres
    exact h.launched hl

/-! ## Ends -/

theorem FlagsKept.halt {status : UInt8} {esp ebp : Nat} (h : FlagsKept owner k mapped)
    (hsafe : EndsSafely ⟨k, mapped⟩) (hhalt : halt fs k status esp ebp = some k') :
    ∃ owner', FlagsKept owner' k' (Function.update mapped k.runningPid false) := by
  have hlt : k.runningPid < 8 := Taken.lt h.settled.live
  have hpid := h.settled.consistent.pid _ h.settled.live
  have hnum : (getCurrentPcb k).parentPid = parentNumber (k.pcbs k.runningPid).parentPcb :=
    h.settled.consistent.parentPid _ h.settled.live
  -- who is left
  have hleft : ∀ p, Function.update mapped k.runningPid false p = true →
      p ≠ k.runningPid ∧ mapped p = true := by
    intro p hp
    by_cases hr : p = k.runningPid
    · rw [hr, Function.update_self] at hp
      cases hp
    · rw [Function.update_of_ne hr] at hp
      exact ⟨hr, hp⟩
  obtain ⟨pcbs, hp, ⟨q, hq, hr⟩ | ⟨hpar, pid, u, hl⟩⟩ := h.settled.halt_cases hhalt
  · have hparent : (getCurrentPcb k).parentPid ≠ -1 := by
      rw [hnum, ne_eq, parentNumber_eq_neg_one, hq]
      exact fun he => nomatch he
    have hterms : ∀ t, t ≠ owner k.runningPid → k'.terminals t = k.terminals t := by
      intro t ht
      rw [hr.terminals, Function.update_of_ne ht]
      rfl
    refine ⟨owner, (h.settled.returned hp hq hr).1, fun t => ?_, fun p hm => ?_, fun p hm => ?_⟩
    · revert t
      rw [hr.terminals, Function.forall_update_iff _ fun (t : Fin 3) (a : Terminal) =>
        a.vidMemBuf = vidMemBufAddr t]
      exact ⟨h.buf _, fun t _ => h.buf t⟩
    · obtain ⟨hne, hold⟩ := hleft p hm
      rw [hr.procs, hpid]
      exact (freePid_procs (haltedState k pcbs) hlt p).mpr ⟨h.live p hold, hne⟩
    · -- the flag that is cleared belongs to another terminal
      obtain ⟨hne, hold⟩ := hleft p hm
      have hother : owner p ≠ owner k.runningPid := by
        have hterm := hsafe.child hparent p hne hold
        intro he
        refine hterm ?_
        rw [h.settled.terminal, ← he]
        exact h.settled.terminalOf (h.live p hold)
      rw [hterms _ hother]
      exact h.flag p hold
  · have hroot : (getCurrentPcb k).parentPid = -1 := by
      rw [hnum, parentNumber_eq_neg_one]
      exact hpar
    obtain ⟨hdisp, hlower⟩ := hsafe.root hroot
    have hown : owner k.runningPid = k.currentTerminal :=
      Option.some.inj (Option.some.inj (h.settled.terminal.symm.trans hdisp))
    obtain ⟨hset, -⟩ := h.settled.relaunched hp hpar hown hlower hl
    have hstopped : ∀ t, SameVidmap (k.terminals t) ((stopTerminal (freePid (haltedState k pcbs)
        (k.pcbs k.runningPid).pid) (owner k.runningPid)).terminals t) :=
      sameVidmap_update k.terminals k.currentTerminal ⟨rfl, rfl⟩
    refine ⟨_, h.of_sameVidmap hset (fun t => ⟨?_, ?_⟩) fun p hm => ?_⟩
    · exact (hl.sameVidmap t).vidmap.trans (hstopped t).vidmap
    · exact (hl.sameVidmap t).vidMemBuf.trans (hstopped t).vidMemBuf
    · obtain ⟨hne, hold⟩ := hleft p hm
      have hlive : Taken (freePid (haltedState k pcbs) k.runningPid).procs p :=
        (freePid_procs (haltedState k pcbs) hlt p).mpr ⟨h.live p hold, hne⟩
      rw [← hpid] at hlive
      obtain ⟨hlive', hpne⟩ := hl.taken hlive
      exact ⟨hold, hlive', Function.update_of_ne hpne _ _⟩

/-! ## Calls of vidmap -/

/-- A call that finds the terminal sets its flag and maps the page; any other leaves the
    processes and terminals alone. -/
theorem vidmap_cases {screenStart : Nat} {ret : Int} (h : vidmap k screenStart = some (ret, k')) :
    (ret = -1 ∧ Frame k k') ∨ ∃ k1 t, Frame k k1 ∧ getRunningTerminal k1 = some (some t) ∧
      Frame (k1.setTerminal t { k1.terminals t with vidmap := true }) k' := by
  unfold vidmap at h
  split at h
  · obtain ⟨rfl, rfl⟩ := Prod.mk.inj (Option.some.inj h)
    exact Or.inl ⟨rfl, Frame.refl k⟩
  · obtain ⟨k1, hstores, h⟩ := Option.bind_eq_some_iff.mp h
    obtain ⟨term, hterm, h⟩ := Option.bind_eq_some_iff.mp h
    have hf := frame_storeBytes hstores
    split at h
    · obtain ⟨rfl, rfl⟩ := Prod.mk.inj (Option.some.inj h)
      exact Or.inl ⟨rfl, hf⟩
    · rename_i t
      obtain ⟨-, rfl⟩ := Prod.mk.inj (Option.some.inj h)
      exact Or.inr ⟨k1, t, hf, hterm, frame_remap _ _ (Or.inr rfl)⟩

/-- The flag that is set is the one of the caller's terminal. -/
theorem FlagsKept.vidmap {screenStart : Nat} {ret : Int} (h : FlagsKept owner k mapped)
    (hvid : vidmap k screenStart = some (ret, k')) :
    FlagsKept owner k' (nextMapped k mapped (.vidmap screenStart)) := by
  have hnext : nextMapped k mapped (.vidmap screenStart) =
      if ret = 0 then Function.update mapped k.runningPid true else mapped := by
    unfold nextMapped
    dsimp only
    rw [hvid]
  rw [hnext]
  rcases vidmap_cases hvid with ⟨rfl, hf⟩ | ⟨k1, t, hf, hterm, hf'⟩
  · exact h.of_frame hf
  · have h1 := h.of_frame hf
    have hown : owner k.runningPid = t := by
      rw [← hf.runningPid]
      exact Option.some.inj (Option.some.inj (h1.settled.terminal.symm.trans hterm))
    subst hown
    have hset : Settled owner (k1.setTerminal (owner k.runningPid)
        { k1.terminals (owner k.runningPid) with vidmap := true }) :=
      h1.settled.of_same ⟨fun _ => ⟨rfl, rfl, rfl, rfl⟩, rfl, rfl,
        sameRoot_update k1.terminals _ ⟨rfl, rfl, rfl⟩⟩ (keepsLast_of_paging rfl)
    refine FlagsKept.of_frame ⟨hset, fun u => ?_, fun p hp => ?_, fun p hp => ?_⟩ hf'
    · revert u
      rw [setTerminal_terminals, Function.forall_update_iff _ fun (u : Fin 3) (a : Terminal) =>
        a.vidMemBuf = vidMemBufAddr u]
      exact ⟨h1.buf _, fun u _ => h1.buf u⟩
    · show Taken k1.procs p
      by_cases hr : p = k.runningPid
      · rw [hr, ← hf.runningPid]
        exact h1.settled.live
      · refine h1.live p ?_
        split at hp
        · rwa [Function.update_of_ne hr] at hp
        · exact hp
    · rw [setTerminal_terminals]
      by_cases hown : owner p = owner k.runningPid
      · rw [hown, Function.update_self]
      · rw [Function.update_of_ne hown]
        refine h1.flag p ?_
        split at hp
        · rwa [Function.update_of_ne fun hr => hown (congrArg owner hr)] at hp
        · exact hp

/-! ## Ticks -/

theorem videoAddr_eq_screenOf {t : Fin 3} (hid : (k.terminals t).id = t) :
    videoAddr k t = screenOf k t := by
  unfold videoAddr screenOf
  rw [hid]

theorem FlagsKept.scheduled {k1 : Kernel} (h : FlagsKept owner k mapped)
    (hset : Settled owner k1) (hs : Switched k k1) (t : Fin 3) (esp ebp : Nat) :
    FlagsKept owner (scheduledState k1 t esp ebp) mapped :=
  h.of_sameVidmap (hset.scheduled t esp ebp) (fun u => ⟨hs.vidmap u, hs.vidMemBuf u⟩)
    fun p hp => ⟨hp, by rw [show (scheduledState k1 t esp ebp).procs = k.procs from hs.procs]
                        exact h.live p hp, rfl⟩

/-- The scheduler maps the page of the process it resumes. -/
theorem FlagsKept.resumed {e : Nat} (h : FlagsKept owner k mapped) (hset : Settled owner k')
    (hrunning : k'.runningPid = e) (hown : owner e = k.currentSchedule) (hres : Resumed k k' e) :
    FlagsKept owner k' mapped ∧ (mapped e = true → VidmapPage k') := by
  have hk' : FlagsKept owner k' mapped := h.of_sameVidmap hset
    (fun t => by rw [hres.terminals]; exact ⟨rfl, rfl⟩)
    fun p hp => ⟨hp, by rw [hres.procs]; exact h.live p hp, rfl⟩
  refine ⟨hk', fun hmap => ⟨k.currentSchedule, ?_, fun j hj => ?_⟩⟩
  · rw [hset.terminal, hrunning, hown]
  · have helt : e < 8 := by
      rw [← hrunning]
      exact Taken.lt hset.live
    have hflag := h.flag e hmap
    rw [hown] at hflag
    have hvid := hres.vidmapSelf helt hflag
    rw [videoAddr_eq_screenOf (h.settled.consistent.id _),
      ← screenOf_congr hres.currentTerminal (fun t => by rw [hres.terminals])] at hvid
    rw [hrunning]
    exact hvid.translate helt (screenOf_mod hk'.buf _) hj

theorem FlagsKept.tick {esp ebp : Nat} (hshell : Launchable fs shellCmd)
    (h : FlagsKept owner k mapped) (htick : irqhPit fs k esp ebp = some k') :
    (∃ owner', FlagsKept owner' k' mapped) ∧
      (TurnedTo k k' → mapped k'.runningPid = true → VidmapPage k') := by
  obtain ⟨k1, t, -, hs, h1, -, hcase⟩ := h.settled.tick_cases hshell htick
  have h2 := h.scheduled h1 hs t esp ebp
  rcases hcase with ⟨-, rfl⟩ | ⟨-, -, e, hown, hset, hrunning, hres⟩ | ⟨-, hstop, pid, u, hl⟩ |
    ⟨-, hstop, -, rfl⟩
  · refine ⟨⟨owner, h.of_sameVidmap (h1.of_same ⟨fun _ => ⟨rfl, rfl, rfl, rfl⟩, rfl, rfl,
      fun _ => ⟨rfl, rfl, rfl⟩⟩ (keepsLast_of_paging rfl)) (fun u => ⟨hs.vidmap u, hs.vidMemBuf u⟩)
      fun p hp => ⟨hp, ?_, rfl⟩⟩, fun hsw => absurd hs.currentSchedule hsw.1⟩
    show Taken k1.procs p
    rw [hs.procs]
    exact h.live p hp
  · obtain ⟨hk', hpage⟩ := h2.resumed hset hrunning hown hres
    refine ⟨⟨owner, hk'⟩, fun _ hmap => hpage ?_⟩
    rwa [hrunning] at hmap
  · refine ⟨h2.launched hl, fun hsw => ?_⟩
    have hrun := hsw.2
    rw [hl.currentSchedule] at hrun
    exact nomatch hstop.symm.trans hrun
  · exact ⟨⟨owner, h2⟩, fun hsw => nomatch hstop.symm.trans hsw.2⟩

/-! ## Every run -/

theorem FlagsKept.step {s s' : Vidmapped} {op : Op} (hshell : Launchable fs shellCmd)
    (h : FlagsKept owner s.kernel s.mapped) (hsafe : FlagsSafe fs s op)
    (hstep : vidmapStep fs s op = some s') :
    ∃ owner', FlagsKept owner' s'.kernel s'.mapped := by
  obtain ⟨k, hk, rfl⟩ := Option.map_eq_some_iff.mp hstep
  obtain ⟨hclean, hends⟩ := hsafe
  cases op with
  | execute ucmd esp ebp => exact h.execute hclean hk
  | halt status esp ebp => exact h.halt (hends rfl) hk
  | exception esp ebp =>
    have hexc : FlagsKept owner { s.kernel with programExceptionOccured := true } s.mapped :=
      ⟨h.settled.of_same ⟨fun _ => ⟨rfl, rfl, rfl, rfl⟩, rfl, rfl, fun _ => ⟨rfl, rfl, rfl⟩⟩
        (keepsLast_of_paging rfl), h.buf, h.live, h.flag⟩
    obtain ⟨hchild, hroot⟩ := hends rfl
    exact hexc.halt ⟨hchild, hroot⟩ hk
  | tick esp ebp => exact (h.tick hshell hk).1
  | request t =>
    obtain rfl := Option.some.inj hk
    exact ⟨owner, h.settled.requested t, h.buf, h.live, h.flag⟩
  | vidmap screenStart =>
    obtain ⟨⟨ret, k1⟩, hvid, rfl⟩ := Option.map_eq_some_iff.mp hk
    exact ⟨owner, h.vidmap hvid⟩
  | putc c => exact ⟨owner, h.of_frame (frame_putc hk)⟩
  | clear => exact ⟨owner, h.of_frame (frame_clear hk)⟩

theorem FlagsKept.follows {s : Vidmapped} (hshell : Launchable fs shellCmd)
    (h : FlagsKept owner s.kernel s.mapped) (op : Op) : VidmapFollows fs s op := by
  rintro esp ebp s' rfl hstep
  obtain ⟨k, hk, rfl⟩ := Option.map_eq_some_iff.mp hstep
  exact (h.tick hshell hk).2

/-- In every run from boot whose steps all meet the condition, every tick that switches to a
    process that has called `vidmap` leaves its page on its terminal's screen. -/
theorem vidmap_followed (fs : Image) (k : Kernel) (ops : List Op) (hk : Booted fs k)
    (hops : AllSteps (vidmapStep fs) (FlagsSafe fs) (bootVidmapped k) ops) :
    AllSteps (vidmapStep fs) (VidmapFollows fs) (bootVidmapped k) ops :=
  allSteps_of_allSteps (I := fun s => ∃ owner, FlagsKept owner s.kernel s.mapped)
    (fun _ _ _ ⟨_, h⟩ hG ht => h.step hk.launchable hG ht)
    (fun _ op ⟨_, h⟩ _ => h.follows hk.launchable op) ⟨_, hk.flagsKept⟩ hops

/-! ## The first shell's page -/

/-- The vidmap page is none of the window's. -/
theorem Window.remapped {p q : Paging} {proc pa a : Nat} (h : Window p proc pa)
    (hq : Remapped p q proc vidmapStart a) : Window q proc pa := by
  have hpage : ∀ i b, 0 < i → MapsTo p proc i b → TablePage q proc 0 i b := fun i b hpos hm =>
    hq.other proc 0 i b (fun _ => Nat.ne_of_gt hpos) ⟨h.own, hm⟩
  refine ⟨h.lt, ?_, (hpage _ _ (by decide) h.video).1, fun i hpos hi hne => ?_,
    (hpage _ _ (by decide) h.video).2, h.aligned⟩
  · rw [hq.cr3 h.lt, hq.layout]
  · exact (hpage i _ hpos (h.low i hpos hi hne)).2

/-- The first shell calls `vidmap`, with a pointer into its program page. -/
theorem Booted.vidmap (hk : Booted fs k) : ∃ k', vidmap k loadAddr = some (0, k') ∧
    ShellsOn (fun _ => 0) 0 k' ∧ VidmapAt k'.paging 0 video := by
  have hs := hk.spec
  have hpages : ∀ j, j < 4 → ∃ pa, k.paging.phys (loadAddr + j) = some pa := by
    intro j hj
    refine ⟨_, hs.program _ ?_⟩
    unfold Base.PageWalk.dirIndex loadAddr elfLoadPg
    omega
  obtain ⟨k1, hstores⟩ := storeBytes_some (fun i => UInt8.ofNat (vidmapStart / 256 ^ i)) hpages
  obtain ⟨mem, rfl⟩ := storeBytes_mem hstores
  have hterm : getRunningTerminal (k.setMem mem) = some (some 0) :=
    (getRunningTerminal_congr rfl (fun _ => rfl) (fun _ => rfl) (fun _ => rfl)
      fun _ => rfl).trans hk.settled.terminal
  have haddr : videoAddr (k.setMem mem) 0 = video := by
    refine if_pos ?_
    rw [show ((k.setMem mem).terminals 0).id = 0 from hs.terminals.id 0]
    exact hs.currentTerminal.symm
  obtain ⟨k1, hk1⟩ : ∃ k1, k1 = (k.setMem mem).setTerminal 0
    { (k.setMem mem).terminals 0 with vidmap := true } := ⟨_, rfl⟩
  obtain ⟨q, hremap, hq⟩ := remap_spec k1 0 vidmapStart video
  have hpid : (getCurrentPcb k1).pid = 0 := by
    rw [hk1, getCurrentPcb]
    show (k.pcbs k.runningPid).pid = 0
    rw [hs.runningPid, hs.pid]
  have hcall : Mp3Kernel.vidmap k loadAddr = some (0, k1.setPaging q) := by
    unfold Mp3Kernel.vidmap
    rw [if_neg (by decide), hstores, Option.bind_eq_bind, Option.bind_some, hterm,
      Option.bind_eq_bind, Option.bind_some]
    dsimp only
    rw [haddr, ← hk1, hpid, hremap]
    rfl
  subst hk1
  have hlast : ∀ proc, q.pgdir proc afterProgram = k.paging.pgdir proc afterProgram :=
    fun proc => hq.pgdir proc _ (by decide)
  have hset : Settled (fun _ => 0) (((k.setMem mem).setTerminal 0
      { (k.setMem mem).terminals 0 with vidmap := true }).setPaging q) :=
    hk.settled.of_same ⟨fun _ => ⟨rfl, rfl, rfl, rfl⟩, rfl, rfl,
      sameRoot_update k.terminals 0 ⟨rfl, rfl, rfl⟩⟩ hlast
  refine ⟨_, hcall, hk.shellsOn.of_same ⟨fun _ => Iff.rfl,
    sameShell_update k.terminals 0 ⟨rfl, rfl, rfl, rfl⟩, rfl, rfl, rfl, rfl⟩ hset
    hk.shellsOn.leaf ?_, hq.self (by decide)⟩
  rw [hs.runningPid]
  exact hs.window.remapped hq

theorem Booted.nextMapped {k0 : Kernel} (hk : Booted fs k)
    (hvid : Mp3Kernel.vidmap k loadAddr = some (0, k0)) :
    Mp3Kernel.nextMapped k (fun _ => false) (.vidmap loadAddr) 0 = true := by
  unfold Mp3Kernel.nextMapped
  dsimp only
  rw [hvid]
  dsimp only
  rw [if_pos rfl, hk.spec.runningPid, Function.update_self]

/-- A switch leaves the vidmap pages where they are. -/
theorem vidmapAt_pendingSwitch {proc a : Nat} (h : pendingSwitch k = some k')
    (hv : VidmapAt k.paging proc a) : VidmapAt k'.paging proc a := by
  rcases pendingSwitch_cases h with ⟨rfl, -⟩ | ⟨t, k1, -, -, hrestore, rfl⟩
  · exact hv
  · obtain ⟨p, hp, hq⟩ := restoreTerminal_remaps hrestore
    exact hq.vidmapKept (hp.vidmapKept hv)

/-- The first shell's terminal is hidden, and a tick comes back to it. -/
structure ComesBack (k k1 k2 : Kernel) : Prop where
  turned : TurnedTo k1 k2
  runningPid : k2.runningPid = 0
  terminal : getRunningTerminal k2 = some (some 0)
  displayed : k2.currentTerminal = 1
  buf : (k2.terminals 0).vidMemBuf = vidMemBufAddr 0
  /-- With the flag clear, its page is left alone. -/
  page : (k.terminals 0).vidmap = false → ∀ a, VidmapAt k.paging 0 a → VidmapAt k2.paging 0 a

/-- Alt+F2 and two ticks. -/
theorem ShellsOn.comesBack (hshell : Launchable fs shellCmd) (h : ShellsOn owner 0 k) :
    ∃ k1 k2, irqhPit fs (requested k 1) 0 0 = some k1 ∧ irqhPit fs k1 0 0 = some k2 ∧
      ComesBack k k1 k2 := by
  obtain ⟨k0, k1, pid, u, htick, hswitch, hl, h1, hpending⟩ := h.start hshell (t := 1) rfl 0 0
  obtain ⟨htick', hset, hrunning, hown, hres⟩ := h1.back (by decide) hpending 0 0
  have hterm := hset.terminal
  rw [hrunning, hown] at hterm
  refine ⟨k1, _, htick, htick', ⟨?_, ?_⟩, hrunning, hterm, hres.currentTerminal.trans h1.displayed,
    ?_, fun hflag a hv => ?_⟩
  · rw [hres.currentSchedule, h1.schedule]
    exact Fin.zero_ne_one
  · rw [hres.currentSchedule]
    exact h1.settled.consistent.first.1
  · rw [hres.terminals]
    exact h1.buf 0
  · have hpid : 0 ≠ pid := by
      rw [← hl.runningPid, h1.runningPid]
      exact Nat.zero_ne_one
    have hv0 : VidmapAt k0.paging 0 a := vidmapAt_pendingSwitch hswitch hv
    refine hres.vidmapKept ?_ 0 a (hl.paging.tablePage_ne hpid hv0)
    exact (hl.sameVidmap 0).vidmap.trans
      (((switched_of_pendingSwitch hswitch).vidmap 0).trans hflag)

theorem vidmapStep_of_step {s : Vidmapped} {op : Op} (h : step fs s.kernel op = some k') :
    vidmapStep fs s op = some ⟨k', nextMapped s.kernel s.mapped op⟩ := by
  unfold vidmapStep
  rw [h, Option.map_some]

theorem step_vidmap {screenStart : Nat} {ret : Int} (h : vidmap k screenStart = some (ret, k')) :
    step fs k (.vidmap screenStart) = some k' := by
  show (vidmap k screenStart).map _ = _
  rw [h, Option.map_some]

/-- Terminal 0 is hidden after the call: its shell's page follows to the buffer. -/
theorem vidmap_followed_hidden : ∃ k s, Booted smallImage k ∧
    run (vidmapStep smallImage) (bootVidmapped k)
      [.vidmap loadAddr, .request 1, .tick 0 0, .tick 0 0] = some s ∧
    s.kernel.currentTerminal = 1 ∧ getRunningTerminal s.kernel = some (some 0) ∧
    VidmapPage s.kernel := by
  obtain ⟨k, hk⟩ := booted_smallImage
  obtain ⟨k0, hvid, h0, -⟩ := hk.vidmap
  obtain ⟨k1, k2, htick1, htick2, hback⟩ := h0.comesBack hk.launchable
  obtain ⟨m, hm⟩ : ∃ m, m = nextMapped k (fun _ => false) (.vidmap loadAddr) := ⟨_, rfl⟩
  have hstep0 : vidmapStep smallImage (bootVidmapped k) (.vidmap loadAddr) = some ⟨k0, m⟩ := by
    rw [hm]
    exact vidmapStep_of_step (step_vidmap hvid)
  have hstep1 : vidmapStep smallImage ⟨k0, m⟩ (.request 1) = some ⟨requested k0 1, m⟩ := rfl
  have hstep2 : vidmapStep smallImage ⟨requested k0 1, m⟩ (.tick 0 0) = some ⟨k1, m⟩ :=
    vidmapStep_of_step htick1
  have hstep3 : vidmapStep smallImage ⟨k1, m⟩ (.tick 0 0) = some ⟨k2, m⟩ :=
    vidmapStep_of_step htick2
  have hmapped : m k2.runningPid = true := by
    rw [hback.runningPid, hm]
    exact hk.nextMapped hvid
  have hsafe : ∀ s op, (∃ a, op = .vidmap a) ∨ (∃ t, op = .request t) ∨ op = .tick 0 0 →
      FlagsSafe smallImage s op := by
    rintro s op (⟨a, rfl⟩ | ⟨t, rfl⟩ | rfl)
    all_goals exact ⟨trivial, fun he => nomatch he⟩
  have hall := vidmap_followed smallImage k [.vidmap loadAddr, .request 1, .tick 0 0, .tick 0 0] hk
    fun s1 _ => ⟨hsafe _ _ (Or.inl ⟨_, rfl⟩), fun s2 _ =>
      ⟨hsafe _ _ (Or.inr (Or.inl ⟨_, rfl⟩)), fun s3 _ => ⟨hsafe _ _ (Or.inr (Or.inr rfl)),
        fun s4 _ => ⟨hsafe _ _ (Or.inr (Or.inr rfl)), trivial⟩⟩⟩⟩
  have hlast := ((((hall _ hstep0).2 _ hstep1).2 _ hstep2).2 _ hstep3).1
  refine ⟨k, ⟨k2, m⟩, hk, ?_, hback.displayed, hback.terminal,
    hlast 0 0 _ rfl hstep3 hback.turned hmapped⟩
  rw [run_cons_of_some hstep0, run_cons_of_some hstep1, run_cons_of_some hstep2,
    run_cons_of_some hstep3, run_nil]

/-- A child that halts clears the flag, and then the page stays on the display. -/
theorem vidmap_left_behind : ∃ k, Booted smallImage k ∧
    ¬ AllSteps (vidmapStep smallImage) (VidmapFollows smallImage) (bootVidmapped k)
      [.vidmap loadAddr, .execute (some shellCmd) 0 0, .halt 0 0 0, .request 1, .tick 0 0,
        .tick 0 0] := by
  obtain ⟨k, hk⟩ := booted_smallImage
  refine ⟨k, hk, fun hall => ?_⟩
  obtain ⟨k0, hvid, h0, hv0⟩ := hk.vidmap
  obtain ⟨k1, k2, owner, hexec, hrun1, hhalt, h2, hflag, hv2⟩ := h0.called hk.launchable 0 0 0
  obtain ⟨k3, k4, htick3, htick4, hback⟩ := h2.comesBack hk.launchable
  obtain ⟨m, hm⟩ : ∃ m, m = nextMapped k (fun _ => false) (.vidmap loadAddr) := ⟨_, rfl⟩
  obtain ⟨m', hm'⟩ : ∃ m', m' = Function.update m k1.runningPid false := ⟨_, rfl⟩
  have hstep0 : vidmapStep smallImage (bootVidmapped k) (.vidmap loadAddr) = some ⟨k0, m⟩ := by
    rw [hm]
    exact vidmapStep_of_step (step_vidmap hvid)
  have hstep1 : vidmapStep smallImage ⟨k0, m⟩ (.execute (some shellCmd) 0 0) = some ⟨k1, m⟩ :=
    vidmapStep_of_step hexec
  have hstep2 : vidmapStep smallImage ⟨k1, m⟩ (.halt 0 0 0) = some ⟨k2, m'⟩ := by
    rw [hm']
    exact vidmapStep_of_step hhalt
  have hstep3 : vidmapStep smallImage ⟨k2, m'⟩ (.request 1) = some ⟨requested k2 1, m'⟩ := rfl
  have hstep4 : vidmapStep smallImage ⟨requested k2 1, m'⟩ (.tick 0 0) = some ⟨k3, m'⟩ :=
    vidmapStep_of_step htick3
  have hstep5 : vidmapStep smallImage ⟨k3, m'⟩ (.tick 0 0) = some ⟨k4, m'⟩ :=
    vidmapStep_of_step htick4
  have hmapped : m' k4.runningPid = true := by
    rw [hback.runningPid, hm', show k1.runningPid = 1 from hrun1,
      Function.update_of_ne Nat.zero_ne_one, hm]
    exact hk.nextMapped hvid
  have hlast := ((((((hall _ hstep0).2 _ hstep1).2 _ hstep2).2 _ hstep3).2 _ hstep4).2 _ hstep5).1
  obtain ⟨t, hterm, hpage⟩ := hlast 0 0 _ rfl hstep5 hback.turned hmapped
  obtain rfl : t = 0 := Option.some.inj (Option.some.inj (hterm.symm.trans hback.terminal))
  -- the page is still on video memory, the screen is the buffer
  have hvideo := (hback.page hflag video (hv2 0 video Nat.zero_ne_one hv0)).translate
    (by decide) (by decide) (j := 0) (by decide)
  have hbuf := hpage 0 (by decide)
  dsimp only at hbuf
  rw [hback.runningPid, hvideo, Option.some.injEq] at hbuf
  unfold screenOf at hbuf
  rw [hback.displayed, if_neg (by decide), hback.buf] at hbuf
  exact absurd (congrArg Base.PageWalk.Translation.phys hbuf) (by decide)

end Mp3Kernel
