/-
  What `halt` and a timer tick do.

  `halt_cases` and `irqhPit_cases` list the ways each can come back, guards included;
  `HaltedPcbs`, `Resumed` and `resumeParent_spec` say what changes on the way. The invariants
  over whole runs are derived from these and from `Launched`.
-/
import Mp3Kernel.Proofs.Launch

namespace Mp3Kernel

open Base.PageWalk

variable {fs : Image} {k k' : Kernel}

/-! ## Closing descriptors, unlinking -/

theorem setPcb_self (k : Kernel) (slot : Nat) : k.setPcb slot (k.pcbs slot) = k := by
  unfold Kernel.setPcb
  rw [Function.update_eq_self]

theorem setPcb_setPcb (k : Kernel) (slot : Nat) (a b : Pcb) :
    (k.setPcb slot a).setPcb slot b = k.setPcb slot b := by
  unfold Kernel.setPcb
  dsimp only
  rw [Function.update_idem]

theorem close_eq (k : Kernel) (fd : Nat) :
    ∃ fds, (close k fd).2 = k.setPcb k.runningPid { getCurrentPcb k with fds := fds } := by
  have hsame : k = k.setPcb k.runningPid
      { getCurrentPcb k with fds := (getCurrentPcb k).fds } := (setPcb_self k k.runningPid).symm
  unfold close
  dsimp only
  split
  · exact ⟨_, hsame⟩
  split
  · exact ⟨_, hsame⟩
  · exact ⟨_, rfl⟩

theorem closeAll_eq (k : Kernel) (i n : Nat) :
    ∃ fds, closeAll k i n = k.setPcb k.runningPid { getCurrentPcb k with fds := fds } := by
  induction n generalizing k i with
  | zero => exact ⟨(getCurrentPcb k).fds, (setPcb_self k k.runningPid).symm⟩
  | succ n ih =>
    obtain ⟨fds, hclose⟩ := close_eq k i
    obtain ⟨fds', hrest⟩ := ih (close k i).2 (i + 1)
    refine ⟨fds', ?_⟩
    unfold closeAll
    rw [hrest, hclose]
    unfold getCurrentPcb
    rw [setPcb_runningPid, setPcb_pcbs, Function.update_self, setPcb_setPcb]

/-- The PCBs once `halt` has unlinked and closed: the running process's parent has no child,
    and nothing but descriptors has changed otherwise. -/
structure HaltedPcbs (k : Kernel) (pcbs : Nat → Pcb) : Prop where
  pid : ∀ s, (pcbs s).pid = (k.pcbs s).pid
  parentPid : ∀ s, (pcbs s).parentPid = (k.pcbs s).parentPid
  parentPcb : ∀ s, (pcbs s).parentPcb = (k.pcbs s).parentPcb
  childOfParent : ∀ s, (k.pcbs k.runningPid).parentPcb = some s → (pcbs s).childPcb = none
  childOther : ∀ s, (k.pcbs k.runningPid).parentPcb ≠ some s →
    (pcbs s).childPcb = (k.pcbs s).childPcb

theorem unlinkParent_spec (k : Kernel) : ∃ pcbs, unlinkParent k k.runningPid =
    { k with pcbs := pcbs } ∧ HaltedPcbs k pcbs := by
  unfold unlinkParent
  cases hp : (k.pcbs k.runningPid).parentPcb with
  | none =>
    refine ⟨k.pcbs, rfl, fun _ => rfl, fun _ => rfl, fun _ => rfl, fun s hs => ?_, fun _ _ => rfl⟩
    rw [hp] at hs
    cases hs
  | some parent =>
    have hcases : ∀ s, Function.update k.pcbs parent { k.pcbs parent with childPcb := none } s =
        if s = parent then { k.pcbs s with childPcb := none } else k.pcbs s := by
      intro s
      by_cases hs : s = parent
      · subst hs
        rw [Function.update_self, if_pos rfl]
      · rw [Function.update_of_ne hs, if_neg hs]
    refine ⟨_, rfl, fun s => ?_, fun s => ?_, fun s => ?_, fun s hs => ?_, fun s hs => ?_⟩
    · rw [hcases]
      split <;> rfl
    · rw [hcases]
      split <;> rfl
    · rw [hcases]
      split <;> rfl
    · rw [hcases, if_pos (Option.some.inj (hs.symm.trans hp))]
    · rw [hcases, if_neg fun he => hs (by rw [hp, he])]

/-- The state in which `halt` looks for its terminal. -/
def haltedState (k : Kernel) (pcbs : Nat → Pcb) : Kernel := { k with pcbs := pcbs }

theorem closeUnlinked_spec (k : Kernel) : ∃ pcbs,
    closeAll (unlinkParent k k.runningPid) 0 fdCnt = haltedState k pcbs ∧
      HaltedPcbs k pcbs := by
  obtain ⟨pcbs, hunlink, h⟩ := unlinkParent_spec k
  obtain ⟨fds, hclose⟩ := closeAll_eq (unlinkParent k k.runningPid) 0 fdCnt
  rw [hclose, hunlink]
  have hcases : ∀ s, ∃ fds', Function.update pcbs k.runningPid
      { pcbs k.runningPid with fds := fds } s = { pcbs s with fds := fds' } := by
    intro s
    by_cases hs : s = k.runningPid
    · subst hs
      exact ⟨fds, Function.update_self _ _ _⟩
    · exact ⟨(pcbs s).fds, Function.update_of_ne hs _ _⟩
  refine ⟨_, rfl, fun s => ?_, fun s => ?_, fun s => ?_, fun s hs => ?_, fun s hs => ?_⟩
  · obtain ⟨fds', hs'⟩ := hcases s
    exact (congrArg Pcb.pid hs').trans (h.pid s)
  · obtain ⟨fds', hs'⟩ := hcases s
    exact (congrArg Pcb.parentPid hs').trans (h.parentPid s)
  · obtain ⟨fds', hs'⟩ := hcases s
    exact (congrArg Pcb.parentPcb hs').trans (h.parentPcb s)
  · obtain ⟨fds', hs'⟩ := hcases s
    exact (congrArg Pcb.childPcb hs').trans (h.childOfParent s hs)
  · obtain ⟨fds', hs'⟩ := hcases s
    exact (congrArg Pcb.childPcb hs').trans (h.childOther s hs)

/-! ## The search for the terminal -/

/-- It reads the terminals' PIDs and, in the PCBs, the pid and the parent. -/
theorem getRunningTerminal_congr (hrun : k'.runningPid = k.runningPid)
    (hterm : ∀ t, (k'.terminals t).pid = (k.terminals t).pid)
    (hpid : ∀ s, (k'.pcbs s).pid = (k.pcbs s).pid)
    (hparentPid : ∀ s, (k'.pcbs s).parentPid = (k.pcbs s).parentPid)
    (hparentPcb : ∀ s, (k'.pcbs s).parentPcb = (k.pcbs s).parentPcb) :
    getRunningTerminal k' = getRunningTerminal k := by
  have hfrom : getTerminalFromPid k' = getTerminalFromPid k := by
    funext pid
    unfold getTerminalFromPid
    simp only [hterm]
  have hsearch : searchParents k' = searchParents k := by
    funext slot
    unfold searchParents
    rw [hfrom]
    simp only [hparentPid, hparentPcb]
  unfold getRunningTerminal getCurrentPcb
  dsimp only
  rw [hrun, hfrom, hsearch, hpid, hparentPcb]

/-! ## halt -/

theorem halt_cases {status : UInt8} {esp ebp : Nat} (h : halt fs k status esp ebp = some k') :
    ∃ pcbs t, HaltedPcbs k pcbs ∧ getRunningTerminal (haltedState k pcbs) = some (some t) ∧
      (((k.pcbs k.runningPid).parentPid = -1 ∧ ∃ entry,
          execute fs (stopTerminal
            (freePid (haltedState k pcbs) (k.pcbs k.runningPid).pid) t) (some shellCmd) esp ebp =
              .launched k' entry) ∨
        ((k.pcbs k.runningPid).parentPid ≠ -1 ∧
          k' = resumeParent (freePid (haltedState k pcbs) (k.pcbs k.runningPid).pid)
            k.runningPid t status)) := by
  obtain ⟨pcbs, hstate, hp⟩ := closeUnlinked_spec k
  unfold halt at h
  dsimp only at h
  rw [hstate] at h
  obtain ⟨term, hterm, h1⟩ := Option.bind_eq_some_iff.mp h
  obtain ⟨t, ht, h⟩ := Option.bind_eq_some_iff.mp h1
  subst ht
  clear h1
  refine ⟨pcbs, t, hp, hterm, ?_⟩
  rw [show ((haltedState k pcbs).pcbs k.runningPid).pid = _ from hp.pid _] at h
  rw [show ((freePid (haltedState k pcbs) _).pcbs k.runningPid).parentPid = _ from
    hp.parentPid _] at h
  split at h
  · rename_i hroot
    refine Or.inl ⟨hroot, ?_⟩
    unfold relaunchShell at h
    split at h
    · rename_i k1 entry hexec
      obtain rfl := Option.some.inj h
      exact ⟨entry, hexec⟩
    · cases h
  · rename_i hroot
    obtain rfl := Option.some.inj h
    exact Or.inr ⟨hroot, rfl⟩

/-- The other direction, where the terminal is found: a process with a parent returns to it. -/
theorem halt_of_parent {status : UInt8} {esp ebp : Nat} {pcbs : Nat → Pcb} {t : Fin 3}
    (hstate : closeAll (unlinkParent k k.runningPid) 0 fdCnt = haltedState k pcbs)
    (hp : HaltedPcbs k pcbs) (hterm : getRunningTerminal (haltedState k pcbs) = some (some t))
    (hparent : (k.pcbs k.runningPid).parentPid ≠ -1) :
    halt fs k status esp ebp = some (resumeParent
      (freePid (haltedState k pcbs) (k.pcbs k.runningPid).pid) k.runningPid t status) := by
  unfold halt
  dsimp only
  rw [hstate, hterm]
  simp only [Option.bind_eq_bind, Option.bind_some]
  rw [show ((haltedState k pcbs).pcbs k.runningPid).pid = _ from hp.pid _,
    show ((freePid (haltedState k pcbs) _).pcbs k.runningPid).parentPid = _ from
      hp.parentPid _, if_neg hparent]

/-- The same for a root process, whose terminal gets a new shell. -/
theorem halt_of_root {status : UInt8} {esp ebp entry : Nat} {pcbs : Nat → Pcb} {t : Fin 3}
    (hstate : closeAll (unlinkParent k k.runningPid) 0 fdCnt = haltedState k pcbs)
    (hp : HaltedPcbs k pcbs) (hterm : getRunningTerminal (haltedState k pcbs) = some (some t))
    (hroot : (k.pcbs k.runningPid).parentPid = -1)
    (hexec : execute fs (stopTerminal (freePid (haltedState k pcbs)
      (k.pcbs k.runningPid).pid) t) (some shellCmd) esp ebp = .launched k' entry) :
    halt fs k status esp ebp = some k' := by
  unfold halt
  dsimp only
  rw [hstate, hterm]
  simp only [Option.bind_eq_bind, Option.bind_some]
  rw [show ((haltedState k pcbs).pcbs k.runningPid).pid = _ from hp.pid _,
    show ((freePid (haltedState k pcbs) _).pcbs k.runningPid).parentPid = _ from
      hp.parentPid _, if_pos hroot]
  unfold relaunchShell
  rw [hexec]

/-- The return to a parent. -/
structure ReturnedTo (k k' : Kernel) (slot : Nat) (term : Fin 3) : Prop where
  procs : k'.procs = k.procs
  runningPid : k'.runningPid = ((k.pcbs slot).parentPid % 256).toNat
  esp0 : k'.esp0 = kernelStackTop (k.pcbs slot).parentPid
  pcbs : ∃ ret, k'.pcbs = Function.update k.pcbs slot { k.pcbs slot with childReturn := ret }
  paging : k'.paging = (removeTaskPgdir k.paging ((k.pcbs slot).pid % 256)).loadCr3
    (getCurrentPcb k').pid
  terminals : k'.terminals =
    Function.update k.terminals term { k.terminals term with vidmap := false }
  currentTerminal : k'.currentTerminal = k.currentTerminal
  terminalToSwitchTo : k'.terminalToSwitchTo = k.terminalToSwitchTo
  currentSchedule : k'.currentSchedule = k.currentSchedule
  scheduleCounter : k'.scheduleCounter = k.scheduleCounter

theorem resumeParent_spec (k : Kernel) (slot : Nat) (term : Fin 3) (status : UInt8) :
    ReturnedTo k (resumeParent k slot term status) slot term := by
  unfold resumeParent
  dsimp only
  generalize (if k.programExceptionOccured = true then processKilledByException
    else status.toNat) = ret
  rw [setPcb_pcbs, Function.update_self]
  exact ⟨rfl, rfl, rfl, ⟨ret, rfl⟩, rfl, rfl, rfl, rfl, rfl, rfl⟩

/-! ## A tick -/

/-- The state in which a tick turns to terminal `next`. -/
def scheduledState (k : Kernel) (next : Fin 3) (esp ebp : Nat) : Kernel :=
  saveContext { k with scheduleCounter := next, currentSchedule := next } esp ebp

theorem irqhPit_cases {esp ebp : Nat} (h : irqhPit fs k esp ebp = some k') :
    ∃ k1 next, pendingSwitch k = some k1 ∧ nextSchedule k1 = some next ∧
      ((next = k1.currentSchedule ∧ k' = { k1 with scheduleCounter := next }) ∨
        (next ≠ k1.currentSchedule ∧ (k1.terminals next).running = true ∧
          ∃ e, lowestChild (scheduledState k1 next esp ebp) ((k1.terminals next).pid % 256) =
            some e ∧ k' = resumeProcess (scheduledState k1 next esp ebp) e) ∨
        (next ≠ k1.currentSchedule ∧ (k1.terminals next).running = false ∧
          (execute fs (scheduledState k1 next esp ebp) (some shellCmd) esp ebp).state =
            some k')) := by
  obtain ⟨k1, h1, h⟩ := Option.bind_eq_some_iff.mp h
  obtain ⟨next, hnext, h⟩ := Option.bind_eq_some_iff.mp h
  refine ⟨k1, next, h1, hnext, ?_⟩
  dsimp only at h
  split at h
  · rename_i hsame
    obtain rfl := Option.some.inj h
    exact Or.inl ⟨hsame, rfl⟩
  · rename_i hne
    unfold scheduleTerminal at h
    dsimp only at h
    split at h
    · rename_i hrun
      obtain ⟨e, he, rfl⟩ := Option.map_eq_some_iff.mp h
      exact Or.inr (Or.inl ⟨hne, hrun, e, he, rfl⟩)
    · rename_i hrun
      refine Or.inr (Or.inr ⟨hne, Bool.eq_false_iff.mpr hrun, ?_⟩)
      show (execute fs (scheduledState k1 next esp ebp) (some shellCmd) esp ebp).state = some k'
      unfold scheduledState
      split at h
      · rename_i hexec
        rw [hexec]
        exact h
      · rename_i hexec
        rw [hexec]
        exact h
      · cases h

/-- The other direction, for a tick that starts a shell. -/
theorem irqhPit_of_start {k1 : Kernel} {next : Fin 3} {esp ebp entry : Nat}
    (hswitch : pendingSwitch k = some k1) (hnext : nextSchedule k1 = some next)
    (hne : next ≠ k1.currentSchedule) (hstop : (k1.terminals next).running = false)
    (hexec : execute fs (scheduledState k1 next esp ebp) (some shellCmd) esp ebp =
      .launched k' entry) : irqhPit fs k esp ebp = some k' := by
  unfold irqhPit
  rw [hswitch, Option.bind_eq_bind, Option.bind_some, hnext, Option.bind_eq_bind, Option.bind_some]
  dsimp only
  rw [if_neg hne]
  unfold scheduleTerminal
  dsimp only
  rw [if_neg (by rw [hstop]; exact Bool.false_ne_true)]
  unfold scheduledState at hexec
  rw [hexec]

/-- The same for a tick that resumes a process. -/
theorem irqhPit_of_resume {k1 : Kernel} {next : Fin 3} {esp ebp e : Nat}
    (hswitch : pendingSwitch k = some k1) (hnext : nextSchedule k1 = some next)
    (hne : next ≠ k1.currentSchedule) (hrun : (k1.terminals next).running = true)
    (he : lowestChild (scheduledState k1 next esp ebp) ((k1.terminals next).pid % 256) = some e) :
    irqhPit fs k esp ebp = some (resumeProcess (scheduledState k1 next esp ebp) e) := by
  unfold irqhPit
  rw [hswitch, Option.bind_eq_bind, Option.bind_some, hnext, Option.bind_eq_bind, Option.bind_some]
  dsimp only
  rw [if_neg hne]
  unfold scheduleTerminal
  dsimp only
  rw [if_pos hrun]
  unfold scheduledState at he ⊢
  rw [he, Option.map_some]

/-- A process resumed by the scheduler. -/
structure Resumed (k k' : Kernel) (pid : Nat) : Prop where
  procs : k'.procs = k.procs
  pcbs : k'.pcbs = k.pcbs
  terminals : k'.terminals = k.terminals
  runningPid : k'.runningPid = pid % 256
  esp0 : k'.esp0 = kernelStackTop pid
  layout : k'.paging.layout = k.paging.layout
  cr3 : k'.paging.cr3 = k.paging.layout.pgdirAddr (k.pcbs (pid % 256)).pid
  exception : k'.programExceptionOccured = k.programExceptionOccured
  currentTerminal : k'.currentTerminal = k.currentTerminal
  terminalToSwitchTo : k'.terminalToSwitchTo = k.terminalToSwitchTo
  currentSchedule : k'.currentSchedule = k.currentSchedule
  scheduleCounter : k'.scheduleCounter = k.scheduleCounter
  pgdir : ∀ proc i, ¬ VideoDirEntry i → k'.paging.pgdir proc i = k.paging.pgdir proc i
  videoSelf : pid < 8 → VideoAt k'.paging pid
    (if k.currentSchedule = k.currentTerminal then video
      else (k.terminals k.currentSchedule).vidMemBuf)
  videoOther : ∀ proc a, proc ≠ pid % 256 → VideoAt k.paging proc a → VideoAt k'.paging proc a
  vidmapSelf : pid < 8 → (k.terminals k.currentSchedule).vidmap = true →
    VidmapAt k'.paging pid (videoAddr k k.currentSchedule)
  vidmapKept : (k.terminals k.currentSchedule).vidmap = false →
    ∀ proc a, VidmapAt k.paging proc a → VidmapAt k'.paging proc a

/-- What a remap of `va` writes: a page of one process's table, and the directory entry above
    it. -/
structure Remapped (p q : Paging) (proc va pa : Nat) : Prop where
  layout : q.layout = p.layout
  pgdir : ∀ proc' i, i ≠ va / mb4 → q.pgdir proc' i = p.pgdir proc' i
  cr3 : proc < 8 → q.cr3 = p.layout.pgdirAddr proc
  self : proc < 8 → TablePage q proc (va / mb4) (va % mb4 / kb4) pa
  other : ∀ proc' i n a, (proc' = proc → n ≠ va % mb4 / kb4) →
    TablePage p proc' i n a → TablePage q proc' i n a

theorem remap_spec (k : Kernel) (proc va pa : Nat) : ∃ p, remap k proc va pa = k.setPaging p ∧
    Remapped k.paging p (proc % 256) va pa := by
  unfold remap
  cases hm : mapVidMem k.paging (proc % 256) va pa with
  | none =>
    have hge : ¬ proc % 256 < 8 := by
      intro hlt
      rw [mapVidMem_eq hlt] at hm
      cases hm
    exact ⟨k.paging, rfl, rfl, fun _ _ _ => rfl, fun hlt => absurd hlt hge,
      fun hlt => absurd hlt hge, fun _ _ _ _ _ h => h⟩
  | some q =>
    obtain ⟨hl, hc, hd⟩ := mapVidMem_pgdir hm
    exact ⟨q, rfl, hl, hd, fun _ => hc, fun _ => tablePage_mapVidMem_self hm,
      fun proc' i n a hn h => tablePage_mapVidMem hn h hm⟩

section Remapped

variable {p q : Paging} {proc pa : Nat}

theorem Remapped.videoSelf (h : Remapped p q proc video pa) (hproc : proc < 8) :
    VideoAt q proc pa := h.self hproc

theorem Remapped.videoOther {va : Nat} (h : Remapped p q proc va pa) {proc' a : Nat}
    (hne : proc' ≠ proc) (hv : VideoAt p proc' a) : VideoAt q proc' a :=
  h.other proc' _ _ a (fun he => absurd he hne) hv.tablePage

/-- The vidmap page is another one of the same table. -/
theorem Remapped.videoKept (h : Remapped p q proc vidmapStart pa) {proc' a : Nat}
    (hv : VideoAt p proc' a) : VideoAt q proc' a :=
  h.other proc' _ _ a (fun _ => by decide) hv.tablePage

theorem Remapped.vidmapSelf (h : Remapped p q proc vidmapStart pa) (hproc : proc < 8) :
    VidmapAt q proc pa := h.self hproc

theorem Remapped.vidmapKept (h : Remapped p q proc video pa) {proc' a : Nat}
    (hv : VidmapAt p proc' a) : VidmapAt q proc' a :=
  h.other proc' _ _ a (fun _ => by decide) hv

end Remapped

/-- The scheduler's remap of the vidmap page, if its terminal asks for it. -/
theorem mapVidmap_spec (k : Kernel) (pid : Nat) : ∃ p, mapVidmap k pid = k.setPaging p ∧
    ((k.terminals k.currentSchedule).vidmap = true ∧
        Remapped k.paging p (pid % 256) vidmapStart (videoAddr k k.currentSchedule) ∨
      (k.terminals k.currentSchedule).vidmap = false ∧ p = k.paging) := by
  unfold mapVidmap schedulerVidmap
  cases hflag : (k.terminals k.currentSchedule).vidmap with
  | true =>
    obtain ⟨p, hp, hr⟩ := remap_spec k pid vidmapStart (videoAddr k k.currentSchedule)
    exact ⟨p, hp, Or.inl ⟨rfl, hr⟩⟩
  | false => exact ⟨k.paging, rfl, Or.inr ⟨rfl, rfl⟩⟩

theorem mapScreen_eq (k : Kernel) (pid : Nat) : mapScreen k pid =
    remap k pid video (if k.currentSchedule = k.currentTerminal then video
      else (k.terminals k.currentSchedule).vidMemBuf) := by
  unfold mapScreen
  split
  · rfl
  · rfl

theorem resumeProcess_spec (k : Kernel) (next : Nat) :
    Resumed k (resumeProcess k next) (k.pcbs next).pid := by
  unfold resumeProcess
  dsimp only
  generalize (k.pcbs next).pid = pid
  -- the vidmap page, then the screen
  obtain ⟨p, h1, hvid⟩ := mapVidmap_spec (enterProcess k pid) pid
  have hscreen : mapScreen ((enterProcess k pid).setPaging p) pid =
      remap ((enterProcess k pid).setPaging p) pid video
        (if k.currentSchedule = k.currentTerminal then video
          else (k.terminals k.currentSchedule).vidMemBuf) := mapScreen_eq _ pid
  obtain ⟨q, h2, hscr⟩ := remap_spec ((enterProcess k pid).setPaging p) pid video
    (if k.currentSchedule = k.currentTerminal then video
      else (k.terminals k.currentSchedule).vidMemBuf)
  rw [h1, hscreen, h2]
  have hlayout : p.layout = k.paging.layout := by
    rcases hvid with ⟨-, hr⟩ | ⟨-, rfl⟩
    · exact hr.layout
    · rfl
  have hpgdir : ∀ proc i, ¬ VideoDirEntry i → p.pgdir proc i = k.paging.pgdir proc i := by
    intro proc i hi
    rcases hvid with ⟨-, hr⟩ | ⟨-, rfl⟩
    · exact hr.pgdir proc i fun he => hi (Or.inr he)
    · rfl
  have hvideo : ∀ proc a, VideoAt k.paging proc a → VideoAt p proc a := by
    intro proc a hv
    rcases hvid with ⟨-, hr⟩ | ⟨-, rfl⟩
    · exact hr.videoKept hv
    · exact hv
  refine ⟨rfl, rfl, rfl, rfl, rfl, hscr.layout.trans hlayout, ?_, rfl, rfl, rfl, rfl, rfl,
    fun proc i hi => ?_, fun hlt => ?_, fun proc a hne hv => hscr.videoOther hne (hvideo proc a hv),
    fun hlt hflag => ?_, fun hflag proc a hv => ?_⟩
  · show q.layout.pgdirAddr _ = _
    rw [hscr.layout, setPaging_paging, hlayout]
    rfl
  · exact (hscr.pgdir proc i fun he => hi (Or.inl he)).trans (hpgdir proc i hi)
  · have hv := hscr.videoSelf (by omega)
    rw [Nat.mod_eq_of_lt (by omega)] at hv
    exact hv
  · refine hscr.vidmapKept ?_
    rcases hvid with ⟨-, hr⟩ | ⟨hclear, -⟩
    · have hv := hr.vidmapSelf (by omega)
      rw [Nat.mod_eq_of_lt (by omega)] at hv
      exact hv
    · exact nomatch hclear.symm.trans hflag
  · refine hscr.vidmapKept ?_
    rcases hvid with ⟨hset, -⟩ | ⟨-, rfl⟩
    · exact nomatch hset.symm.trans hflag
    · exact hv

end Mp3Kernel
