/-
  Where VIDEO goes for the running process.

  It should go to video memory when the process's terminal is displayed, and to that
  terminal's buffer when it is not (`VideoMapped`). The scheduler maps it so; `execute` maps
  it to video memory whoever calls, and `halt` leaves the parent's entry as it was when the
  parent called `execute`.

  `video_mapped`: the mapping is right in every run whose steps meet `OnDisplayed`, which says
  that processes are created and end on the displayed terminal. What carries it is that a
  process with a child still has VIDEO on video memory (`Screens.parents`).
  `background_execute_mismapped`: a shell called from a hidden terminal writes to the display.
-/
import Mp3Kernel.Proofs.Shells

namespace Mp3Kernel

open Base.Runs Base.Bitmap Base.PageWalk

variable {fs : Image} {k k' : Kernel} {owner : Nat → Fin 3}

/-- Where VIDEO is to go for a process of terminal `t`. -/
def screenOf (k : Kernel) (t : Fin 3) : Nat :=
  if t = k.currentTerminal then video else (k.terminals t).vidMemBuf

/-- In the running process's page table, the page at VIDEO goes to its terminal's screen. -/
def VideoMapped (k : Kernel) : Prop :=
  ∃ t, getRunningTerminal k = some (some t) ∧
    ∀ j, j < 4096 → k.paging.translate k.runningPid (video + j) = some ⟨screenOf k t + j, true⟩

/-- A process started with `cur` displayed is one of `cur`: the child of a process of `cur`, or
    its root. -/
def StartsOn (k : Kernel) (cur : Fin 3) : Prop :=
  ((k.terminals cur).running = true → getRunningTerminal k = some (some cur)) ∧
    ((k.terminals cur).running = false → ∀ t, t < cur → (k.terminals t).running = true)

/-- `execute` starts a process on the displayed terminal. A process of the displayed terminal
    halts, and if it is a root every lower terminal runs. A tick that turns to a terminal that
    does not run starts its shell on the displayed terminal, and not as a child right after a
    switch; with no PID free it does not switch away from another terminal than that of the
    process it returns to. -/
def OnDisplayed (k : Kernel) : Event → Prop
  | .execute _ _ _ => StartsOn k k.currentTerminal
  | .halt _ _ _ => getRunningTerminal k = some (some k.currentTerminal) ∧
      ((getCurrentPcb k).parentPid = -1 →
        ∀ t, t < k.currentTerminal → (k.terminals t).running = true)
  | .tick _ _ => ∀ t, slotAfter k = some t → t ≠ k.currentSchedule →
      (k.terminals t).running = false →
        (allocPid k.procs ≠ none → StartsOn k (displayedAfter k) ∧
          ((k.terminals (displayedAfter k)).running = true →
            displayedAfter k = k.currentTerminal)) ∧
        (allocPid k.procs = none → displayedAfter k ≠ k.currentTerminal →
          getRunningTerminal k = some (some k.currentTerminal))
  | .request _ => True

/-! ## The invariant -/

structure Screens (owner : Nat → Fin 3) (k : Kernel) : Prop where
  settled : Settled owner k
  running : VideoAt k.paging k.runningPid (screenOf k (owner k.runningPid))
  parents : ∀ p, Taken k.procs p → (k.pcbs p).childPcb ≠ none → VideoAt k.paging p video
  buf : ∀ t, (k.terminals t).vidMemBuf = vidMemBufAddr t
  schedule : k.scheduleCounter = k.currentSchedule
  started : (k.terminals k.currentTerminal).status = .running

theorem VideoAt.translate_page {p : Paging} {proc pa : Nat} (h : VideoAt p proc pa)
    (hproc : proc < 8) (hpa : pa % 4096 = 0) {j : Nat} (hj : j < 4096) :
    p.translate proc (video + j) = some ⟨pa + j, true⟩ := by
  have hv : video = 753664 := rfl
  have hdiv : (video + j) / 4096 = video / 4096 := by omega
  have hmod : (video + j) % 4096 = j := by omega
  have hlow : video + j < mb4 := by
    unfold mb4
    omega
  have ht := translate_of_mapsTo hproc h.1 hlow hpa (by rw [hdiv]; exact h.2)
  rwa [hmod] at ht

theorem screenOf_mod (hbuf : ∀ t, (k.terminals t).vidMemBuf = vidMemBufAddr t) (t : Fin 3) :
    screenOf k t % 4096 = 0 := by
  unfold screenOf
  split
  · rfl
  · rw [hbuf]
    exact vidMemBufAddr_aligned t

theorem Screens.videoMapped (h : Screens owner k) : VideoMapped k :=
  ⟨_, h.settled.terminal, fun _ hj => h.running.translate_page (Taken.lt h.settled.live)
    (screenOf_mod h.buf _) hj⟩

theorem screenOf_displayed {t : Fin 3} (h : t = k.currentTerminal) : screenOf k t = video :=
  if_pos h

theorem Booted.screens (hk : Booted fs k) : Screens (fun _ => 0) k := by
  have hs := hk.spec
  refine ⟨hk.settled, ?_, fun p hp hc => ?_, hs.terminals.vidMemBuf, ?_, ?_⟩
  · rw [screenOf_displayed hs.currentTerminal.symm, hs.runningPid]
    exact ⟨hs.window.own, hs.window.video⟩
  · rw [(hs.procs p).mp hp] at hc
    exact absurd hs.childPcb hc
  · rw [hs.scheduleCounter, hs.currentSchedule]
  · rw [hs.terminals.started]
    exact hs.currentTerminal

structure SameScreen (a b : Terminal) : Prop where
  vidMemBuf : b.vidMemBuf = a.vidMemBuf
  status : b.status = a.status

theorem sameScreen_update (terms : Fin 3 → Terminal) (t : Fin 3) {term : Terminal}
    (h : SameScreen (terms t) term) :
    ∀ u, SameScreen (terms u) (Function.update terms t term u) := by
  rw [Function.forall_update_iff terms fun u a => SameScreen (terms u) a]
  exact ⟨h, fun u _ => ⟨rfl, rfl⟩⟩

/-! ## Launches -/

/-- Everything but where the running process's VIDEO goes, which a launch does not need. -/
structure Parents (owner : Nat → Fin 3) (k : Kernel) : Prop where
  settled : Settled owner k
  parents : ∀ p, Taken k.procs p → (k.pcbs p).childPcb ≠ none → VideoAt k.paging p video
  buf : ∀ t, (k.terminals t).vidMemBuf = vidMemBufAddr t
  schedule : k.scheduleCounter = k.currentSchedule
  started : (k.terminals k.currentTerminal).status = .running

theorem Screens.toParents (h : Screens owner k) : Parents owner k :=
  ⟨h.settled, h.parents, h.buf, h.schedule, h.started⟩

/-- The child of a process of the displayed terminal. -/
theorem Parents.launchedChild {pid : Nat} {t : Fin 3} (h : Parents owner k)
    (hcur : (k.terminals k.currentTerminal).running = true)
    (hown : owner k.runningPid = k.currentTerminal) (hvideo : VideoAt k.paging k.runningPid video)
    (hl : Launched k k' pid t) :
    Screens (Function.update owner pid (owner k.runningPid)) k' := by
  obtain ⟨hset, hchild, hterms, hother⟩ := h.settled.launchedChild hl hcur
  obtain ⟨hlt, -, -⟩ := allocPid_some hl.free
  refine ⟨hset, ?_, fun p hp hc => ?_, ?_, ?_, ?_⟩
  · rw [hl.runningPid, Function.update_self,
      screenOf_displayed (hown.trans hl.currentTerminal.symm)]
    exact hl.paging.videoAt
  · by_cases hpid : p = pid
    · subst hpid
      have hleaf := hset.leaf
      rw [hl.runningPid] at hleaf
      exact absurd hleaf hc
    · rw [hl.procs, pidBit_eq_slot, taken_or_slot hlt] at hp
      refine hl.paging.videoAt_ne hpid ?_
      by_cases hr : p = k.runningPid
      · rw [hr]
        exact hvideo
      · rw [hother p hpid hr] at hc
        exact h.parents p (hp.resolve_right hpid) hc
  · rw [hterms]
    exact h.buf
  · rw [hl.scheduleCounter, hl.currentSchedule]
    exact h.schedule
  · rw [hterms, hl.currentTerminal]
    exact h.started

/-- A root on the displayed terminal, as far as it is the same in a launch and a relaunch: the
    other mappings stay. -/
theorem Launched.screens {pid : Nat} {t : Fin 3} (hl : Launched k k' pid t)
    (hcur : (k.terminals k.currentTerminal).running = false) (hset : Settled owner k')
    (hown : owner pid = k.currentTerminal)
    (hparents : ∀ p, Taken k.procs p → (k.pcbs p).childPcb ≠ none → VideoAt k.paging p video)
    (hbuf : ∀ u, (k.terminals u).vidMemBuf = vidMemBufAddr u)
    (hschedule : k.scheduleCounter = k.currentSchedule)
    (hstarted : (k.terminals k.currentTerminal).status = .running) : Screens owner k' := by
  have hr := hl.rootLaunched hcur
  have hterms : ∀ u, SameScreen (k.terminals u) (k'.terminals u) := by
    rw [hr.terminals]
    exact sameScreen_update k.terminals t ⟨rfl, rfl⟩
  obtain ⟨pcb, hpcbs, -, -, -, h4⟩ := hr.pcbs
  refine ⟨hset, ?_, fun p hp hc => ?_, fun u => (hterms u).vidMemBuf.trans (hbuf u), ?_, ?_⟩
  · rw [hl.runningPid, screenOf_displayed (hown.trans hl.currentTerminal.symm)]
    exact hl.paging.videoAt
  · by_cases hpid : p = pid
    · subst hpid
      rw [hpcbs, Function.update_self] at hc
      exact absurd h4 hc
    · rw [hpcbs, Function.update_of_ne hpid] at hc
      exact hl.paging.videoAt_ne hpid
        (hparents p (((hr.procs p).mp hp).resolve_right hpid) hc)
  · rw [hl.scheduleCounter, hl.currentSchedule]
    exact hschedule
  · rw [(hterms _).status, hl.currentTerminal]
    exact hstarted

/-- The root of the displayed terminal. -/
theorem Parents.launchedRoot {pid : Nat} {t : Fin 3} (h : Parents owner k)
    (hcur : (k.terminals k.currentTerminal).running = false)
    (hlower : ∀ t, t < k.currentTerminal → (k.terminals t).running = true)
    (hl : Launched k k' pid t) : Screens (Function.update owner pid t) k' := by
  obtain ⟨hset, -⟩ := h.settled.launchedRoot hl hcur
  refine hl.screens hcur hset ?_ h.parents h.buf h.schedule h.started
  rw [Function.update_self]
  exact hl.first hcur hcur hlower

theorem Screens.execute {pid : Nat} {t : Fin 3} (h : Screens owner k)
    (hon : StartsOn k k.currentTerminal) (hl : Launched k k' pid t) :
    ∃ owner', Screens owner' k' := by
  cases hcur : (k.terminals k.currentTerminal).running with
  | true =>
    have hown : owner k.runningPid = k.currentTerminal :=
      Option.some.inj (Option.some.inj (h.settled.terminal.symm.trans (hon.1 hcur)))
    have hvideo := h.running
    rw [screenOf_displayed hown] at hvideo
    exact ⟨_, h.toParents.launchedChild hcur hown hvideo hl⟩
  | false => exact ⟨_, h.toParents.launchedRoot hcur (hon.2 hcur) hl⟩

/-! ## halt -/

/-- A process that has a child after the halt had one before. -/
theorem HaltedPcbs.childKept {pcbs : Nat → Pcb} {s : Nat} (hp : HaltedPcbs k pcbs)
    (hs : (pcbs s).childPcb ≠ none) : (k.pcbs s).childPcb ≠ none := by
  intro hn
  by_cases hpar : (k.pcbs k.runningPid).parentPcb = some s
  · exact hs (hp.childOfParent s hpar)
  · exact hs ((hp.childOther s hpar).trans hn)

/-- The parent's VIDEO is on video memory, and so it should be. -/
theorem Screens.returned {pcbs : Nat → Pcb} {q : Nat} (h : Screens owner k)
    (hown : owner k.runningPid = k.currentTerminal) (hp : HaltedPcbs k pcbs)
    (hpar : (k.pcbs k.runningPid).parentPcb = some q)
    (hr : ReturnedTo (freePid (haltedState k pcbs) (k.pcbs k.runningPid).pid) k' k.runningPid
      (owner k.runningPid)) : Screens owner k' := by
  obtain ⟨hset, hrunning, hqown⟩ := h.settled.returned hp hpar hr
  obtain ⟨hqlive, hqchild, -⟩ := h.settled.wf.up _ q h.settled.live hpar
  have hpaging : ∀ p a, VideoAt k.paging p a → VideoAt k'.paging p a := by
    intro p a hv
    rw [hr.paging]
    exact videoAt_loadCr3 _ (videoAt_removeTaskPgdir _ hv)
  have hcur' : k'.currentTerminal = k.currentTerminal := hr.currentTerminal
  have hterms : ∀ v, SameScreen (k.terminals v) (k'.terminals v) := by
    rw [hr.terminals]
    exact sameScreen_update k.terminals (owner k.runningPid) ⟨rfl, rfl⟩
  obtain ⟨ret, hpcbs⟩ := hr.pcbs
  have hlinks : ∀ s, SameLinks (pcbs s) (k'.pcbs s) := by
    rw [hpcbs]
    exact sameLinks_update pcbs k.runningPid ⟨rfl, rfl, rfl, rfl⟩
  have hprocs : ∀ p, Taken k'.procs p → Taken k.procs p := by
    intro p hlive
    rw [hr.procs, h.settled.consistent.pid _ h.settled.live] at hlive
    exact ((freePid_procs (haltedState k pcbs) (Taken.lt h.settled.live) p).mp hlive).1
  refine ⟨hset, ?_, fun p hlive hc => ?_, fun v => (hterms v).vidMemBuf.trans (h.buf v), ?_, ?_⟩
  · rw [hrunning, screenOf_displayed (hqown.trans (hown.trans hcur'.symm))]
    refine hpaging q video (h.parents q hqlive ?_)
    intro hn
    exact nomatch hn.symm.trans hqchild
  · rw [(hlinks p).childPcb] at hc
    exact hpaging p video (h.parents p (hprocs p hlive) (hp.childKept hc))
  · exact hr.scheduleCounter.trans (h.schedule.trans hr.currentSchedule.symm)
  · rw [(hterms _).status, hcur']
    exact h.started

/-- The new root's VIDEO goes to video memory as well. -/
theorem Screens.relaunched {pcbs : Nat → Pcb} {pid : Nat} {u : Fin 3} (h : Screens owner k)
    (hown : owner k.runningPid = k.currentTerminal) (hp : HaltedPcbs k pcbs)
    (hpar : (k.pcbs k.runningPid).parentPcb = none)
    (hlower : ∀ t, t < k.currentTerminal → (k.terminals t).running = true)
    (hl : Launched (stopTerminal (freePid (haltedState k pcbs) (k.pcbs k.runningPid).pid)
      (owner k.runningPid)) k' pid u) :
    Screens (Function.update owner pid k.currentTerminal) k' := by
  obtain ⟨hset, -⟩ := h.settled.relaunched hp hpar hown hlower hl
  have hpid := h.settled.consistent.pid _ h.settled.live
  obtain ⟨k1, hk1⟩ : ∃ k1, k1 = stopTerminal (freePid (haltedState k pcbs)
    (k.pcbs k.runningPid).pid) (owner k.runningPid) := ⟨_, rfl⟩
  rw [← hk1] at hl
  have hterms : ∀ v, SameScreen (k.terminals v) (k1.terminals v) := by
    rw [hk1]
    exact sameScreen_update k.terminals k.currentTerminal ⟨rfl, rfl⟩
  have hcur : k1.currentTerminal = k.currentTerminal := by
    rw [hk1]
    rfl
  refine hl.screens ?_ hset ?_ (fun p hlive hc => ?_)
    (fun v => (hterms v).vidMemBuf.trans (h.buf v)) ?_ ?_
  · rw [hk1]
    show (Function.update k.terminals k.currentTerminal _ k.currentTerminal).running = false
    rw [Function.update_self]
  · rw [Function.update_self, hcur]
  · rw [hk1, hpid] at hlive
    rw [hk1] at hc ⊢
    have htaken := (freePid_procs (haltedState k pcbs) (Taken.lt h.settled.live) p).mp hlive
    exact h.parents p htaken.1 (hp.childKept hc)
  · rw [hk1]
    exact h.schedule
  · rw [(hterms _).status, hcur]
    exact h.started

theorem Screens.halt {status : UInt8} {esp ebp : Nat} (h : Screens owner k)
    (hcur : getRunningTerminal k = some (some k.currentTerminal))
    (hlower : (getCurrentPcb k).parentPid = -1 →
      ∀ t, t < k.currentTerminal → (k.terminals t).running = true)
    (hhalt : halt fs k status esp ebp = some k') : ∃ owner', Screens owner' k' := by
  have hown : owner k.runningPid = k.currentTerminal :=
    Option.some.inj (Option.some.inj (h.settled.terminal.symm.trans hcur))
  obtain ⟨pcbs, hp, ⟨q, hq, hr⟩ | ⟨hpar, pid, u, hl⟩⟩ := h.settled.halt_cases hhalt
  · exact ⟨owner, h.returned hown hp hq hr⟩
  · have hroot : (getCurrentPcb k).parentPid = -1 := by
      unfold getCurrentPcb
      rw [h.settled.consistent.parentPid _ h.settled.live, parentNumber_eq_neg_one]
      exact hpar
    exact ⟨_, h.relaunched hown hp hpar (hlower hroot) hl⟩

/-! ## A tick -/

/-- A switch remaps VIDEO twice: to video memory, and then to the buffer of the terminal it
    hides. -/
theorem restoreTerminal_remaps {t : Fin 3} (h : restoreTerminal k t = some k') :
    ∃ p, Remapped k.paging p ((getCurrentPcb k).pid % 256) video video ∧
      Remapped p k'.paging ((getCurrentPcb k).pid % 256) video
        (k.terminals k.currentTerminal).vidMemBuf := by
  have hswap : (swapPosition k t).paging = k.paging := by
    unfold swapPosition setScreenXY
    dsimp only
    split <;> rfl
  have hpcb := (frame_swapPosition k t).currentPcb
  obtain ⟨k1, h1, h⟩ := Option.bind_eq_some_iff.mp h
  obtain ⟨k2, h2, h3⟩ := Option.bind_eq_some_iff.mp h
  obtain rfl := Option.some.inj h3
  rw [hpcb] at h1 ⊢
  obtain ⟨p, hp, hpmap⟩ := remap_spec (swapPosition k t) (getCurrentPcb k).pid video video
  obtain ⟨q, hq, hqmap⟩ := remap_spec k2 (getCurrentPcb k).pid video
    (k.terminals k.currentTerminal).vidMemBuf
  have hpaging : k2.paging = p := by
    rw [hp] at h1
    obtain ⟨d, -, h1⟩ := Option.bind_eq_some_iff.mp h1
    obtain ⟨e, -, h1⟩ := Option.bind_eq_some_iff.mp h1
    obtain ⟨d', -, h2⟩ := Option.bind_eq_some_iff.mp h2
    obtain ⟨e', -, h2⟩ := Option.bind_eq_some_iff.mp h2
    rw [← Option.some.inj h2, ← Option.some.inj h1]
    rfl
  rw [hswap] at hpmap
  rw [hpaging] at hqmap
  rw [hq]
  exact ⟨p, hpmap, hqmap⟩

/-- The switch leaves the running process on the buffer of the terminal it hides. -/
theorem restoreTerminal_video {t : Fin 3} (h : restoreTerminal k t = some k')
    (hlt : (getCurrentPcb k).pid < 8) :
    VideoAt k'.paging (getCurrentPcb k).pid (k.terminals k.currentTerminal).vidMemBuf ∧
      ∀ proc a, proc ≠ (getCurrentPcb k).pid → VideoAt k.paging proc a →
        VideoAt k'.paging proc a := by
  obtain ⟨p, hp, hq⟩ := restoreTerminal_remaps h
  rw [Nat.mod_eq_of_lt (by omega)] at hp hq
  exact ⟨hq.videoSelf hlt, fun proc a hne hv => hq.videoOther hne (hp.videoOther hne hv)⟩

/-- Either the display stays and the mappings with it, or the running process is left behind
    on the old terminal's buffer. -/
theorem Screens.switched {k1 : Kernel} (h : Screens owner k) (hs : pendingSwitch k = some k1) :
    (∀ p, Taken k1.procs p → (k1.pcbs p).childPcb ≠ none → VideoAt k1.paging p video) ∧
      ((displayedAfter k = k.currentTerminal ∧ k1.paging = k.paging) ∨
        (displayedAfter k ≠ k.currentTerminal ∧
          VideoAt k1.paging k.runningPid (vidMemBufAddr k.currentTerminal))) := by
  have hpid : (getCurrentPcb k).pid = k.runningPid := h.settled.consistent.pid _ h.settled.live
  have hlt : k.runningPid < 8 := Taken.lt h.settled.live
  rcases pendingSwitch_cases hs with ⟨rfl, hsame⟩ | ⟨t, k2, hreq, hne, hrestore, rfl⟩
  · refine ⟨h.parents, Or.inl ⟨?_, rfl⟩⟩
    unfold displayedAfter
    cases hreq : k.terminalToSwitchTo with
    | none => rfl
    | some t => exact hsame t hreq
  · obtain ⟨hself, hother⟩ := restoreTerminal_video hrestore (by rw [hpid]; exact hlt)
    rw [hpid] at hself hother
    rw [h.buf] at hself
    have hf := frame_restoreTerminal hrestore
    refine ⟨fun p hp hc => ?_, Or.inr ⟨?_, hself⟩⟩
    · have hc' : (k.pcbs p).childPcb ≠ none := by
        rw [← hf.pcbs]
        exact hc
      have hp' : Taken k.procs p := by
        rw [← hf.procs]
        exact hp
      refine hother p video ?_ (h.parents p hp' hc')
      rintro rfl
      exact hc' h.settled.leaf
    · unfold displayedAfter
      rw [hreq]
      exact hne

/-- The counter comes round to itself only if no other terminal is shown. -/
theorem slotAfter_counter (h : slotAfter k = some k.scheduleCounter) (t : Fin 3)
    (ht : Shown k t) : t = k.scheduleCounter := by
  have hadd1 : ∀ c : Fin 3, c + 1 ≠ c := by decide
  have hadd2 : ∀ c : Fin 3, c + 2 ≠ c := by decide
  have hall : ∀ c t : Fin 3, t = c ∨ t = c + 1 ∨ t = c + 2 := by decide
  unfold slotAfter at h
  dsimp only at h
  split at h
  · exact absurd (Option.some.inj h) (hadd1 _)
  rename_i h1
  split at h
  · exact absurd (Option.some.inj h) (hadd2 _)
  rename_i h2
  rcases hall k.scheduleCounter t with he | he | he
  · exact he
  · exact absurd (he ▸ ht) h1
  · exact absurd (he ▸ ht) h2

/-- The displayed terminal is one of those shown, before a switch and after it. -/
theorem shown_displayedAfter (h : (k.terminals k.currentTerminal).status = .running) :
    Shown k (displayedAfter k) := by
  unfold displayedAfter
  cases hreq : k.terminalToSwitchTo with
  | none => exact Or.inl h
  | some t =>
    by_cases ht : t = k.currentTerminal
    · exact Or.inl (ht ▸ h)
    · exact Or.inr ⟨hreq, ht⟩

theorem screenOf_congr {k1 : Kernel} (hcur : k1.currentTerminal = k.currentTerminal)
    (hbuf : ∀ t, (k1.terminals t).vidMemBuf = (k.terminals t).vidMemBuf) (t : Fin 3) :
    screenOf k1 t = screenOf k t := by
  unfold screenOf
  rw [hcur, hbuf]

/-- The scheduler maps VIDEO by the terminal it resumes. -/
theorem Parents.resumed {e : Nat} (h : Parents owner k) (hset : Settled owner k')
    (hown : owner e = k.currentSchedule) (hrunning : k'.runningPid = e)
    (hres : Resumed k k' e) : Screens owner k' := by
  have helt : e < 8 := by
    rw [← hrunning]
    exact Taken.lt hset.live
  have hleaf := hset.leaf
  rw [hrunning, hres.pcbs] at hleaf
  refine ⟨hset, ?_, fun p hp hc => ?_, ?_, ?_, ?_⟩
  · rw [hrunning, hown]
    unfold screenOf
    rw [hres.currentTerminal, hres.terminals]
    exact hres.videoSelf helt
  · rw [hres.procs] at hp
    rw [hres.pcbs] at hc
    refine hres.videoOther p video ?_ (h.parents p hp hc)
    rintro rfl
    rw [Nat.mod_eq_of_lt (by omega)] at hc
    exact hc hleaf
  · rw [hres.terminals]
    exact h.buf
  · rw [hres.scheduleCounter, hres.currentSchedule]
    exact h.schedule
  · rw [hres.terminals, hres.currentTerminal]
    exact h.started

/-- After a pending switch the scheduler finds the invariant, except for what VIDEO shows the
    running process: that is its screen of before. -/
structure SwitchDone (owner : Nat → Fin 3) (k k1 : Kernel) : Prop where
  switched : Switched k k1
  parents : Parents owner k1
  running : (displayedAfter k = k.currentTerminal ∧ k1.paging = k.paging) ∨
    (displayedAfter k ≠ k.currentTerminal ∧
      VideoAt k1.paging k.runningPid (vidMemBufAddr k.currentTerminal))

variable {k1 : Kernel} {t : Fin 3} {esp ebp : Nat}

theorem Screens.switchDone (h : Screens owner k) (hswitch : pendingSwitch k = some k1)
    (hs : Switched k k1) (h1 : Settled owner k1) : SwitchDone owner k k1 := by
  obtain ⟨hparents, hrunning⟩ := h.switched hswitch
  refine ⟨hs, ⟨h1, hparents, fun u => (hs.vidMemBuf u).trans (h.buf u), ?_, ?_⟩, hrunning⟩
  · rw [hs.scheduleCounter, hs.currentSchedule]
    exact h.schedule
  · rw [hs.currentTerminal, hs.status]
    exact shown_displayedAfter h.started

theorem Parents.scheduled (h : Parents owner k) (t : Fin 3) (esp ebp : Nat) :
    Parents owner (scheduledState k t esp ebp) := by
  have hlinks := scheduledState_links k t esp ebp
  refine ⟨h.settled.scheduled t esp ebp, fun p hp hc => ?_, h.buf, rfl, h.started⟩
  rw [(hlinks p).childPcb] at hc
  exact h.parents p hp hc

/-- The counter has come round: only the displayed terminal is shown, so there was no switch. -/
theorem Screens.tick_same (h : Screens owner k) (hd : SwitchDone owner k k1)
    (hslot : slotAfter k = some k.currentSchedule) :
    Screens owner { k1 with scheduleCounter := k.currentSchedule } := by
  have hs := hd.switched
  rw [← h.schedule] at hslot
  have hcur := slotAfter_counter hslot _ (Or.inl h.started)
  have hdisp := slotAfter_counter hslot _ (shown_displayedAfter h.started)
  have hkeep : displayedAfter k = k.currentTerminal := hdisp.trans hcur.symm
  obtain ⟨-, hpaging⟩ := hd.running.resolve_right fun hr => hr.1 hkeep
  refine ⟨hd.parents.settled.of_same ⟨fun _ => ⟨rfl, rfl, rfl, rfl⟩, rfl, rfl,
    fun _ => ⟨rfl, rfl, rfl⟩⟩ (keepsLast_of_paging rfl), ?_, hd.parents.parents, hd.parents.buf,
    ?_, hd.parents.started⟩
  · show VideoAt k1.paging k1.runningPid (screenOf k1 (owner k1.runningPid))
    rw [screenOf_congr (hs.currentTerminal.trans hkeep) hs.vidMemBuf, hs.runningPid, hpaging]
    exact h.running
  · exact hs.currentSchedule.symm

/-- The terminal's shell is started, on the displayed terminal. -/
theorem Screens.tick_launched {pid : Nat} {u : Fin 3} (h : Screens owner k)
    (hd : SwitchDone owner k k1) (hstart : StartsOn k (displayedAfter k))
    (hkeep : (k.terminals (displayedAfter k)).running = true →
      displayedAfter k = k.currentTerminal)
    (hl : Launched (scheduledState k1 t esp ebp) k' pid u) : ∃ owner', Screens owner' k' := by
  have hs := hd.switched
  have hparents := hd.parents.scheduled t esp ebp
  have hdisplayed : (scheduledState k1 t esp ebp).currentTerminal = displayedAfter k :=
    hs.currentTerminal
  have hrun : ∀ u, ((scheduledState k1 t esp ebp).terminals u).running =
      (k.terminals u).running := hs.running
  cases hcur : (k.terminals (displayedAfter k)).running with
  | true =>
    have hdisp := hkeep hcur
    obtain ⟨-, hpaging⟩ := hd.running.resolve_right fun hr => hr.1 hdisp
    have hown : owner k.runningPid = displayedAfter k :=
      Option.some.inj (Option.some.inj (h.settled.terminal.symm.trans (hstart.1 hcur)))
    have hvideo := h.running
    rw [screenOf_displayed (hown.trans hdisp)] at hvideo
    refine ⟨_, hparents.launchedChild ?_ ?_ ?_ hl⟩
    · rw [hdisplayed, hrun]
      exact hcur
    · rw [hdisplayed]
      exact (congrArg owner hs.runningPid).trans hown
    · show VideoAt k1.paging k1.runningPid video
      rw [hs.runningPid, hpaging]
      exact hvideo
  | false =>
    refine ⟨_, hparents.launchedRoot ?_ (fun v hv => ?_) hl⟩
    · rw [hdisplayed, hrun]
      exact hcur
    · rw [hdisplayed] at hv
      rw [hrun]
      exact hstart.2 hcur v hv

/-- No process is free for the shell: back to the interrupted process. -/
theorem Screens.tick_full (h : Screens owner k) (hd : SwitchDone owner k k1)
    (hterm : displayedAfter k ≠ k.currentTerminal →
      getRunningTerminal k = some (some k.currentTerminal)) :
    Screens owner (scheduledState k1 t esp ebp) := by
  have hs := hd.switched
  have hparents := hd.parents.scheduled t esp ebp
  refine ⟨hparents.settled, ?_, hparents.parents, hparents.buf, rfl, hparents.started⟩
  show VideoAt k1.paging k1.runningPid (screenOf k1 (owner k1.runningPid))
  rw [hs.runningPid]
  rcases hd.running with ⟨hkeep, hpaging⟩ | ⟨hmoved, hvideo⟩
  · rw [screenOf_congr (hs.currentTerminal.trans hkeep) hs.vidMemBuf, hpaging]
    exact h.running
  · have hown : owner k.runningPid = k.currentTerminal :=
      Option.some.inj (Option.some.inj (h.settled.terminal.symm.trans (hterm hmoved)))
    have hhidden : k.currentTerminal ≠ k1.currentTerminal := by
      rw [hs.currentTerminal]
      exact Ne.symm hmoved
    unfold screenOf
    rw [hown, if_neg hhidden, hd.parents.buf]
    exact hvideo

theorem Screens.tick (hshell : Launchable fs shellCmd) (h : Screens owner k)
    (hon : OnDisplayed k (.tick esp ebp)) (htick : irqhPit fs k esp ebp = some k') :
    ∃ owner', Screens owner' k' := by
  obtain ⟨k1, t, hswitch, hs, h1, hslot, hcase⟩ := h.settled.tick_cases hshell htick
  have hd := h.switchDone hswitch hs h1
  rcases hcase with ⟨rfl, rfl⟩ | ⟨-, -, e, hown, hset, hrunning, hres⟩ |
    ⟨hne, hstop, pid, u, hl⟩ | ⟨hne, hstop, hfull, rfl⟩
  · exact ⟨owner, h.tick_same hd hslot⟩
  · exact ⟨owner, (hd.parents.scheduled t esp ebp).resumed hset hown hrunning hres⟩
  · have hfree : allocPid k.procs ≠ none := by
      have hf := hl.free
      rw [show (scheduledState k1 t esp ebp).procs = k.procs from hs.procs] at hf
      rw [hf]
      exact fun he => nomatch he
    obtain ⟨hstart, hkeep⟩ := (hon t hslot hne hstop).1 hfree
    exact h.tick_launched hd hstart hkeep hl
  · exact ⟨owner, h.tick_full hd ((hon t hslot hne hstop).2 hfull)⟩

/-! ## Every run -/

theorem screens_step {e : Event} (hshell : Launchable fs shellCmd) (h : Screens owner k)
    (hon : OnDisplayed k e) (hstep : eventStep fs k e = some k') :
    ∃ owner', Screens owner' k' := by
  cases e with
  | execute ucmd esp ebp =>
    obtain ⟨pid, t, hl⟩ := eventStep_execute hstep
    exact h.execute hon hl
  | halt status esp ebp => exact h.halt hon.1 hon.2 hstep
  | tick esp ebp => exact h.tick hshell hon hstep
  | request t =>
    have hreq : Option.some { k with terminalToSwitchTo := some t } = some k' := hstep
    obtain rfl := Option.some.inj hreq
    exact ⟨owner, h.settled.of_same ⟨fun _ => ⟨rfl, rfl, rfl, rfl⟩, rfl, rfl,
      fun _ => ⟨rfl, rfl, rfl⟩⟩ (keepsLast_of_paging rfl), h.running, h.parents, h.buf,
      h.schedule, h.started⟩

/-- In every state of every run of events from boot whose steps all meet the condition. -/
theorem video_mapped (fs : Image) (k : Kernel) (events : List Event) (hk : Booted fs k)
    (hevents : AllSteps (eventStep fs) OnDisplayed k events) :
    AllStates (eventStep fs) VideoMapped k events := by
  have hinv : AllStates (eventStep fs) (fun k => ∃ owner, Screens owner k) k events := by
    refine allStates_of_allSteps (fun s e t hs hG ht => ?_) ⟨_, hk.screens⟩ hevents
    obtain ⟨owner, hs⟩ := hs
    exact screens_step hk.launchable hs hG ht
  exact hinv.imp fun t ⟨owner, ht⟩ => ht.videoMapped

/-- Alt+F2 and a tick: the new shell runs on the terminal that is displayed. -/
theorem video_mapped_altF2 : ∃ k, Booted smallImage k ∧
    AllStates (eventStep smallImage) VideoMapped k [.request 1, .tick 0 0] := by
  obtain ⟨k, hk⟩ := booted_smallImage
  have hs := hk.spec
  refine ⟨k, hk, video_mapped smallImage k _ hk fun k1 hk1 => ⟨trivial, fun k2 _ =>
    ⟨fun t hslot hne hstop => ?_, trivial⟩⟩⟩
  obtain rfl := Option.some.inj hk1
  obtain rfl := Option.some.inj ((hk.slotAfter (by decide)).symm.trans hslot)
  refine ⟨fun _ => ⟨⟨fun hrun => (nomatch hstop.symm.trans hrun), fun _ u hu => ?_⟩,
    fun hrun => (nomatch hstop.symm.trans hrun)⟩, fun hnone => ?_⟩
  · have hu1 : u < 1 := hu
    obtain rfl : u = 0 := by omega
    exact hs.terminals.running 0
  · have htaken := allocPid_none hnone 1 (by decide)
    exact absurd ((hs.procs 1).mp htaken) (by decide)

/-! ## The condition is necessary -/

/-- After an `execute` the new process's VIDEO is on video memory, so its terminal has to be the
    displayed one. -/
theorem startsOn_of_videoMapped {pid : Nat} {t : Fin 3} (h : Settled owner k)
    (hbuf : ∀ t, (k.terminals t).vidMemBuf = vidMemBufAddr t) (hl : Launched k k' pid t)
    (hmap : VideoMapped k') : StartsOn k k.currentTerminal := by
  obtain ⟨u, hterm, htrans⟩ := hmap
  have hlt := hl.pid_lt
  have hvideo : screenOf k' u = video := by
    have h0 := htrans 0 (by decide)
    rw [hl.runningPid, hl.paging.videoAt.translate_page hlt rfl (by decide), Option.some.injEq,
      Base.PageWalk.Translation.mk.injEq] at h0
    omega
  have hne : ∀ v : Fin 3, vidMemBufAddr v ≠ video := by decide
  have hbuf' : ∀ v, (k'.terminals v).vidMemBuf = vidMemBufAddr v := by
    intro v
    rcases hl.bound v with hv | hv
    · rw [hv, hbuf v]
    · rw [hv, hbuf v]
  have hu : u = k.currentTerminal := by
    unfold screenOf at hvideo
    split at hvideo
    · rename_i hu
      exact hu.trans hl.currentTerminal
    · exact absurd ((hbuf' u).symm.trans hvideo) (hne u)
  constructor
  · intro hcur
    have hset := (h.launchedChild hl hcur).1.terminal
    rw [hl.runningPid, Function.update_self] at hset
    rw [h.terminal, ← hu]
    exact hset.symm.trans hterm
  · intro hcur
    obtain ⟨hset, hr⟩ := h.launchedRoot hl hcur
    have hown := hset.terminal
    rw [hl.runningPid, Function.update_self] at hown
    have htu : t = u := Option.some.inj (Option.some.inj (hown.symm.trans hterm))
    rw [← hu, ← htu]
    exact hr.lower

/-! ## An execute in the background -/

/-- Two ticks after Alt+F2, PID 0 runs on terminal 0 again, with terminal 1 displayed and
    running. -/
theorem Booted.background (hk : Booted fs k) : ∃ k1 k2 owner,
    irqhPit fs (requested k 1) 0 0 = some k1 ∧ irqhPit fs k1 0 0 = some k2 ∧
      Settled owner k2 ∧ owner k2.runningPid = 0 ∧ k2.currentTerminal = 1 ∧
      (k2.terminals 1).running = true ∧ (∀ t, (k2.terminals t).vidMemBuf = vidMemBufAddr t) ∧
      ∃ pid, allocPid k2.procs = some pid := by
  obtain ⟨-, k1, -, -, htick, -, -, hon, hpending⟩ :=
    hk.shellsOn.start hk.launchable (t := 1) rfl 0 0
  obtain ⟨hback, hset, hrunning, hown, hres⟩ := hon.back (by decide) hpending 0 0
  refine ⟨k1, _, _, htick, hback, hset, ?_, ?_, ?_, ?_, ?_⟩
  · rw [hrunning]
    exact hown
  · exact hres.currentTerminal.trans hon.displayed
  · rw [hres.terminals]
    exact hon.running 1
  · rw [hres.terminals]
    exact hon.buf
  · rw [hres.procs]
    exact ⟨_, hon.free⟩

/-- A shell called from there is mapped to the display. -/
theorem background_execute_mismapped : ∃ k, Booted smallImage k ∧
    ¬ AllStates (eventStep smallImage) VideoMapped k
      [.request 1, .tick 0 0, .tick 0 0, .execute (some shellCmd) 0 0] := by
  obtain ⟨k, hk⟩ := booted_smallImage
  refine ⟨k, hk, fun hall => ?_⟩
  obtain ⟨k1, k2, owner, h1, h2, hset, hown, hcur, hrun, hbuf, pid, hpid⟩ := hk.background
  obtain ⟨k3, entry, hexec⟩ := execute_of_launchable launchable_smallImage hset.last hpid 0 0
  obtain ⟨⟨pid', t, hl⟩, -⟩ := launched_of_execute hexec
  have hstep := eventStep_of_launched hexec
  have hmap := ((((hall.2 _ rfl).2 _ h1).2 _ h2).2 _ hstep).start
  have hon := startsOn_of_videoMapped hset hbuf hl hmap
  rw [hcur] at hon
  have hterm := (hon.1 hrun)
  rw [hset.terminal, hown] at hterm
  exact absurd (Option.some.inj (Option.some.inj hterm)) (by decide)

end Mp3Kernel
