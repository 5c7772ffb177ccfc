/-
  The running process is coherent at every operation boundary.

  Its PCB names it, CR3 holds its directory and the TSS its kernel stack. `halt` and the tick
  load a PCB through links, so the invariant is about every slot that has been executed in:
  its PCB names its own slot, and its links lead to such slots again (`Executed`).

  `running_process_coherent`: no run leaves the invariant, as long as no `execute` fails with
  a PID taken (`CleanExecute`); such a call leaves a running process whose PCB is not its own.
-/
import Mp3Kernel.Proofs.Atomicity

namespace Mp3Kernel

open Base.Runs Base.Bitmap

variable {fs : Image} {k k' : Kernel} {E : Nat → Prop}

structure RunningCoherent (k : Kernel) : Prop where
  pid : (getCurrentPcb k).pid = k.runningPid
  cr3 : k.paging.cr3 = k.paging.layout.pgdirAddr k.runningPid
  esp0 : k.esp0 = mb8 - kb8 * (k.runningPid + 1) - 4

/-- `execute` does not fail with a PID taken. -/
def CleanExecute (fs : Image) (k : Kernel) : Op → Prop
  | .execute ucmd _ _ => ¬ FailsWithPid fs k.procs ucmd
  | _ => True

theorem kernelStackTop_of_lt {pid : Nat} (h : pid < 8) :
    kernelStackTop pid = mb8 - kb8 * (pid + 1) - 4 := by
  unfold kernelStackTop mb8 kb8 u32
  omega

/-! ## The slots executed so far -/

/-- `E` is a set of executed slots that the links of its PCBs, the running process and the
    running terminals stay within. -/
structure Executed (E : Nat → Prop) (k : Kernel) : Prop where
  lt : ∀ s, E s → s < 8
  pid : ∀ s, E s → (k.pcbs s).pid = s
  parent : ∀ s, E s → (k.pcbs s).parentPid = -1 ∨ ∃ q, E q ∧ (k.pcbs s).parentPid = (q : Int)
  child : ∀ s c, E s → (k.pcbs s).childPcb = some c → E c
  running : E k.runningPid
  terminal : ∀ t, (k.terminals t).running = true → E (k.terminals t).pid

/-- `b` has the pid and parent of `a`, and its child if any. -/
structure LinksWithin (a b : Pcb) : Prop where
  pid : b.pid = a.pid
  parentPid : b.parentPid = a.parentPid
  child : ∀ c, b.childPcb = some c → a.childPcb = some c

theorem LinksWithin.refl (a : Pcb) : LinksWithin a a := ⟨rfl, rfl, fun _ h => h⟩

theorem Executed.of_links (h : Executed E k) (hpcbs : ∀ s, LinksWithin (k.pcbs s) (k'.pcbs s))
    (hrun : E k'.runningPid)
    (hterm : ∀ t, (k'.terminals t).running = true → E (k'.terminals t).pid) : Executed E k' where
  lt := h.lt
  pid := by
    intro s hs
    rw [(hpcbs s).pid]
    exact h.pid s hs
  parent := by
    intro s hs
    rw [(hpcbs s).parentPid]
    exact h.parent s hs
  child := by
    intro s c hs hc
    exact h.child s c hs ((hpcbs s).child c hc)
  running := hrun
  terminal := hterm

/-- The terminals' part, for one terminal changed. -/
theorem Executed.terminal_update (h : Executed E k) (t : Fin 3) {term : Terminal}
    (hterm : term.running = true → E term.pid) (u : Fin 3)
    (hu : (Function.update k.terminals t term u).running = true) :
    E (Function.update k.terminals t term u).pid := by
  revert u
  rw [Function.forall_update_iff k.terminals fun _ a => a.running = true → E a.pid]
  exact ⟨hterm, fun u _ => h.terminal u⟩

theorem Executed.of_frame (h : Executed E k) (hf : Frame k k') : Executed E k' := by
  refine h.of_links (fun s => ?_) ?_ (fun t ht => ?_)
  · rw [hf.pcbs]
    exact LinksWithin.refl _
  · rw [hf.runningPid]
    exact h.running
  · rw [(hf.terminals t).running] at ht
    rw [(hf.terminals t).pid]
    exact h.terminal t ht

theorem LinksWithin.update {pcbs : Nat → Pcb} {slot : Nat} {pcb : Pcb}
    (h : LinksWithin (pcbs slot) pcb) : ∀ s, LinksWithin (pcbs s) (Function.update pcbs slot pcb s) := by
  rw [Function.forall_update_iff pcbs fun s a => LinksWithin (pcbs s) a]
  exact ⟨h, fun s _ => LinksWithin.refl _⟩

theorem Executed.saveContext (h : Executed E k) (esp ebp : Nat) :
    Executed E (saveContext k esp ebp) :=
  h.of_links (LinksWithin.update ⟨rfl, rfl, fun _ hc => hc⟩) h.running h.terminal

/-- A launched process joins the set; its links lead to its creator and itself. -/
theorem Executed.launched {pid : Nat} {t : Fin 3} (h : Executed E k)
    (hl : Launched k k' pid t) : Executed (fun s => E s ∨ s = pid) k' := by
  have hrlt := h.lt _ h.running
  have hrpid := h.pid _ h.running
  -- what becomes of the PCBs, whether or not the process has a parent
  have hnew : (k'.pcbs pid).pid = pid ∧
      ((k'.pcbs pid).parentPid = -1 ∨ (k'.pcbs pid).parentPid = (k.runningPid : Int)) ∧
      ∀ c, (k'.pcbs pid).childPcb = some c → c = pid := by
    by_cases hroot : pid = (k'.terminals t).pid
    · obtain ⟨pcb, hpcbs, h1, h2, -, h4⟩ := hl.root hroot
      rw [hpcbs, Function.update_self]
      refine ⟨h1, Or.inl h2, fun c hc => ?_⟩
      rw [h4] at hc
      cases hc
    · obtain ⟨pcb, hpcbs, h1, h2, -, h4⟩ := hl.child hroot hrlt hrpid
      by_cases halias : pid = k.runningPid
      · rw [hpcbs, ← halias, Function.update_self, Function.update_self]
        exact ⟨h1, Or.inr (by rw [h2, halias]), fun c hc => (Option.some.inj hc).symm⟩
      · rw [hpcbs, Function.update_of_ne halias, Function.update_self]
        refine ⟨h1, Or.inr h2, fun c hc => ?_⟩
        rw [h4] at hc
        cases hc
  have hold : ∀ s, s ≠ pid → (k'.pcbs s).pid = (k.pcbs s).pid ∧
      (k'.pcbs s).parentPid = (k.pcbs s).parentPid ∧
      ∀ c, (k'.pcbs s).childPcb = some c → c = pid ∨ (k.pcbs s).childPcb = some c := by
    intro s hs
    by_cases hroot : pid = (k'.terminals t).pid
    · obtain ⟨pcb, hpcbs, -⟩ := hl.root hroot
      rw [hpcbs, Function.update_of_ne hs]
      exact ⟨rfl, rfl, fun c hc => Or.inr hc⟩
    · obtain ⟨pcb, hpcbs, -⟩ := hl.child hroot hrlt hrpid
      by_cases hsrun : s = k.runningPid
      · subst hsrun
        rw [hpcbs, Function.update_self, Function.update_of_ne hs]
        exact ⟨rfl, rfl, fun c hc => Or.inl (Option.some.inj hc).symm⟩
      · rw [hpcbs, Function.update_of_ne hsrun, Function.update_of_ne hs]
        exact ⟨rfl, rfl, fun c hc => Or.inr hc⟩
  have hmem : ∀ s, E s ∨ s = pid → s = pid ∨ (s ≠ pid ∧ E s) := by
    intro s hs
    by_cases he : s = pid
    · exact Or.inl he
    · exact Or.inr ⟨he, hs.resolve_right he⟩
  refine ⟨fun s hs => ?_, fun s hs => ?_, fun s hs => ?_, fun s c hs hc => ?_, ?_, fun u hu => ?_⟩
  · rcases hs with hs | rfl
    · exact h.lt s hs
    · exact hl.pid_lt
  · rcases hmem s hs with rfl | ⟨hne, hs⟩
    · exact hnew.1
    · rw [(hold s hne).1]
      exact h.pid s hs
  · rcases hmem s hs with rfl | ⟨hne, hs⟩
    · rcases hnew.2.1 with hp | hp
      · exact Or.inl hp
      · exact Or.inr ⟨k.runningPid, Or.inl h.running, hp⟩
    · rw [(hold s hne).2.1]
      rcases h.parent s hs with hp | ⟨q, hq, hp⟩
      · exact Or.inl hp
      · exact Or.inr ⟨q, Or.inl hq, hp⟩
  · rcases hmem s hs with rfl | ⟨hne, hs⟩
    · exact Or.inr (hnew.2.2 c hc)
    · rcases (hold s hne).2.2 c hc with hcp | hck
      · exact Or.inr hcp
      · exact Or.inl (h.child s c hs hck)
  · rw [hl.runningPid]
    exact Or.inr rfl
  · rcases hl.bound u with hkept | hbound
    · rw [hkept] at hu ⊢
      exact Or.inl (h.terminal u hu)
    · rw [hbound]
      exact Or.inr rfl

/-! ## The invariant -/

/-- The running process is coherent, and so is every process it can lead to. -/
structure Coherent (k : Kernel) : Prop where
  last : ProgramPageLast k.paging
  executed : ∃ E, Executed E k
  cr3 : k.paging.cr3 = k.paging.layout.pgdirAddr k.runningPid
  esp0 : k.esp0 = kernelStackTop k.runningPid

theorem Coherent.running (h : Coherent k) : RunningCoherent k := by
  obtain ⟨E, hE⟩ := h.executed
  refine ⟨hE.pid _ hE.running, h.cr3, ?_⟩
  rw [h.esp0, kernelStackTop_of_lt (hE.lt _ hE.running)]

theorem Booted.coherent (h : Booted fs k) : Coherent k := by
  have hs := h.spec
  refine ⟨hs.last, ⟨fun s => s = 0, ?_⟩, ?_, ?_⟩
  · refine ⟨fun s h0 => ?_, fun s h0 => ?_, fun s h0 => ?_, fun s c h0 hc => ?_, hs.runningPid,
      fun t _ => hs.terminals.pid t⟩
    · subst h0
      decide
    · subst h0
      exact hs.pid
    · subst h0
      exact Or.inl hs.parentPid
    · subst h0
      rw [hs.childPcb] at hc
      cases hc
  · rw [hs.runningPid]
    exact hs.cr3
  · rw [hs.runningPid]
    exact hs.esp0

/-- CR3 is only ever reloaded with the directory of the running process. -/
theorem Coherent.of_frame (h : Coherent k) (hf : Frame k k') : Coherent k' := by
  obtain ⟨E, hE⟩ := h.executed
  refine ⟨hf.keepsLast.programPageLast h.last, ⟨E, hE.of_frame hf⟩, ?_, ?_⟩
  · rw [hf.runningPid, hf.layout]
    rcases hf.cr3 with hc | hc
    · rw [hc, h.cr3]
    · have hlt := hE.lt _ hE.running
      rw [hc, show (getCurrentPcb k).pid = k.runningPid from hE.pid _ hE.running,
        Nat.mod_eq_of_lt (by omega)]
  · rw [hf.esp0, hf.runningPid]
    exact h.esp0

/-- A process is launched from any state whose executed slots are closed under links. -/
theorem coherent_launched {pid : Nat} {t : Fin 3} (hlast : ProgramPageLast k.paging)
    (hE : Executed E k) (hl : Launched k k' pid t) : Coherent k' := by
  refine ⟨hl.paging.programPageLast hlast, ⟨_, hE.launched hl⟩, ?_, ?_⟩
  · rw [hl.paging.cr3, hl.paging.layout, hl.runningPid]
  · rw [hl.esp0, hl.runningPid]

theorem Coherent.execute {ucmd : Option CString} {esp ebp : Nat} (h : Coherent k)
    (hclean : ¬ FailsWithPid fs k.procs ucmd)
    (hexec : (execute fs k ucmd esp ebp).state = some k') : Coherent k' := by
  cases hres : Mp3Kernel.execute fs k ucmd esp ebp with
  | fault =>
    rw [hres] at hexec
    cases hexec
  | failed k1 =>
    rw [hres] at hexec
    obtain rfl := Option.some.inj hexec
    rw [execute_failed_eq h.last hclean hres]
    exact h
  | launched k1 entry =>
    rw [hres] at hexec
    obtain rfl := Option.some.inj hexec
    obtain ⟨⟨pid, t, hl⟩, -⟩ := launched_of_execute hres
    obtain ⟨E, hE⟩ := h.executed
    exact coherent_launched h.last hE hl

/-! ## halt -/

theorem HaltedPcbs.linksWithin {pcbs : Nat → Pcb} (h : HaltedPcbs k pcbs) (s : Nat) :
    LinksWithin (k.pcbs s) (pcbs s) := by
  refine ⟨h.pid s, h.parentPid s, fun c hc => ?_⟩
  by_cases hs : (k.pcbs k.runningPid).parentPcb = some s
  · rw [h.childOfParent s hs] at hc
    cases hc
  · rw [h.childOther s hs] at hc
    exact hc

theorem Coherent.halt {status : UInt8} {esp ebp : Nat} (h : Coherent k)
    (hhalt : halt fs k status esp ebp = some k') : Coherent k' := by
  have hlast := (keepsLast_halt hhalt).programPageLast h.last
  obtain ⟨E, hE⟩ := h.executed
  obtain ⟨pcbs, t, hp, -, hcase⟩ := halt_cases hhalt
  have hhalted : Executed E (haltedState k pcbs) :=
    hE.of_links hp.linksWithin hE.running hE.terminal
  rcases hcase with ⟨-, entry, hexec⟩ | ⟨hparent, rfl⟩
  · -- a root process: the shell is launched from what is left of its terminal
    obtain ⟨⟨pid, u, hl⟩, -⟩ := launched_of_execute hexec
    have hstopped : Executed E (stopTerminal (freePid (haltedState k pcbs)
        (k.pcbs k.runningPid).pid) t) := by
      refine hE.of_links hp.linksWithin hE.running (hE.terminal_update k.currentTerminal ?_)
      intro hrun
      cases hrun
    have hlast' : ProgramPageLast (stopTerminal (freePid (haltedState k pcbs)
        (k.pcbs k.runningPid).pid) t).paging := h.last
    exact coherent_launched hlast' hstopped hl
  · -- the parent's PCB names the slot that `running_pid` becomes
    have hr := resumeParent_spec (freePid (haltedState k pcbs) (k.pcbs k.runningPid).pid)
      k.runningPid t status
    obtain ⟨q, hq, hpid⟩ := (hE.parent _ hE.running).resolve_left hparent
    have hqlt := hE.lt q hq
    have hpp : ((freePid (haltedState k pcbs) (k.pcbs k.runningPid).pid).pcbs
        k.runningPid).parentPid = (q : Int) := (hp.parentPid _).trans hpid
    have hrun := hr.runningPid
    have hesp := hr.esp0
    rw [hpp] at hrun hesp
    have hq' : ((q : Int) % 256).toNat = q := by omega
    rw [hq'] at hrun
    have hex : Executed E (resumeParent (freePid (haltedState k pcbs)
        (k.pcbs k.runningPid).pid) k.runningPid t status) := by
      refine hhalted.of_links (fun s => ?_) (by rw [hrun]; exact hq) ?_
      · obtain ⟨ret, hpcbs⟩ := hr.pcbs
        rw [hpcbs]
        have hsame : LinksWithin (pcbs k.runningPid)
            { pcbs k.runningPid with childReturn := ret } := ⟨rfl, rfl, fun _ hc => hc⟩
        exact hsame.update s
      · rw [hr.terminals]
        exact hhalted.terminal_update t (hE.terminal t)
    refine ⟨hlast, ⟨E, hex⟩, ?_, by rw [hesp, hrun]⟩
    rw [hr.paging]
    unfold getCurrentPcb
    rw [hrun, hex.pid q hq]
    rfl

/-! ## A tick -/

theorem Coherent.pendingSwitch (h : Coherent k) (hs : pendingSwitch k = some k') :
    Coherent k' := by
  rcases pendingSwitch_cases hs with ⟨rfl, -⟩ | ⟨t, k1, -, -, hrestore, rfl⟩
  · obtain ⟨E, hE⟩ := h.executed
    exact ⟨h.last, ⟨E, hE.of_links (fun s => LinksWithin.refl _) hE.running hE.terminal⟩, h.cr3,
      h.esp0⟩
  · have h1 := h.of_frame (frame_restoreTerminal hrestore)
    obtain ⟨E, hE⟩ := h1.executed
    exact ⟨h1.last, ⟨E, hE.of_links (fun s => LinksWithin.refl _) hE.running
      (hE.terminal_update t (hE.terminal t))⟩, h1.cr3, h1.esp0⟩

theorem Coherent.scheduled (h : Coherent k) (next : Fin 3) (esp ebp : Nat) :
    Coherent (scheduledState k next esp ebp) := by
  obtain ⟨E, hE⟩ := h.executed
  have hnext : Executed E { k with scheduleCounter := next, currentSchedule := next } :=
    hE.of_links (fun s => LinksWithin.refl _) hE.running hE.terminal
  exact ⟨h.last, ⟨E, hnext.saveContext esp ebp⟩, h.cr3, h.esp0⟩

theorem Coherent.tick {esp ebp : Nat} (hshell : Launchable fs shellCmd) (h : Coherent k)
    (htick : irqhPit fs k esp ebp = some k') : Coherent k' := by
  have hlast := (keepsLast_irqhPit htick).programPageLast h.last
  obtain ⟨k1, next, hs, -, hcase⟩ := irqhPit_cases htick
  have h1 := h.pendingSwitch hs
  have h2 := h1.scheduled next esp ebp
  rcases hcase with ⟨-, rfl⟩ | ⟨-, hrun, e, he, rfl⟩ | ⟨-, -, hexec⟩
  · obtain ⟨E, hE⟩ := h1.executed
    exact ⟨h1.last, ⟨E, hE.of_links (fun s => LinksWithin.refl _) hE.running hE.terminal⟩, h1.cr3,
      h1.esp0⟩
  · -- the innermost process of the terminal is an executed slot
    obtain ⟨E, hE⟩ := h2.executed
    have hroot : E (k1.terminals next).pid := hE.terminal next hrun
    have hrlt := hE.lt _ hroot
    rw [Nat.mod_eq_of_lt (by omega)] at he
    obtain ⟨heE, -⟩ := Base.Chain.last_spec hE.child hroot he
    have helt := hE.lt e heE
    have hres := resumeProcess_spec (scheduledState k1 next esp ebp) e
    rw [hE.pid e heE] at hres
    have hrunning : (resumeProcess (scheduledState k1 next esp ebp) e).runningPid = e := by
      rw [hres.runningPid, Nat.mod_eq_of_lt (by omega)]
    refine ⟨hlast, ⟨E, hE.of_links (fun s => ?_) (by rw [hrunning]; exact heE) ?_⟩, ?_, ?_⟩
    · rw [hres.pcbs]
      exact LinksWithin.refl _
    · rw [hres.terminals]
      exact hE.terminal
    · rw [hres.cr3, hres.layout, Nat.mod_eq_of_lt (by omega), hE.pid e heE, hrunning]
    · rw [hres.esp0, hrunning]
  · exact h2.execute (hshell.not_failsWithPid _) hexec

/-! ## vidmap -/

theorem Coherent.vidmap {screenStart : Nat} {ret : Int} (h : Coherent k)
    (hvid : vidmap k screenStart = some (ret, k')) : Coherent k' := by
  unfold Mp3Kernel.vidmap at hvid
  split at hvid
  · obtain ⟨-, rfl⟩ := Prod.mk.inj (Option.some.inj hvid)
    exact h
  · obtain ⟨k1, h1, hvid⟩ := Option.bind_eq_some_iff.mp hvid
    obtain ⟨term, -, hvid⟩ := Option.bind_eq_some_iff.mp hvid
    have hk1 := h.of_frame (frame_storeBytes h1)
    split at hvid
    · obtain ⟨-, rfl⟩ := Prod.mk.inj (Option.some.inj hvid)
      exact hk1
    · rename_i t
      obtain ⟨-, rfl⟩ := Prod.mk.inj (Option.some.inj hvid)
      obtain ⟨E, hE⟩ := hk1.executed
      have hflag : Coherent (k1.setTerminal t { k1.terminals t with vidmap := true }) := by
        exact ⟨hk1.last, ⟨E, hE.of_links (fun s => LinksWithin.refl _) hE.running
          (hE.terminal_update t (hE.terminal t))⟩, hk1.cr3, hk1.esp0⟩
      exact hflag.of_frame (frame_remap _ _ (Or.inr rfl))

/-! ## Every run -/

theorem coherent_step {op : Op} (hshell : Launchable fs shellCmd) (h : Coherent k)
    (hclean : CleanExecute fs k op) (hstep : step fs k op = some k') : Coherent k' := by
  cases op with
  | execute ucmd esp ebp => exact h.execute hclean hstep
  | halt status esp ebp => exact h.halt hstep
  | exception esp ebp =>
    have hexc : Coherent { k with programExceptionOccured := true } := by
      obtain ⟨E, hE⟩ := h.executed
      exact ⟨h.last, ⟨E, hE.of_links (fun s => LinksWithin.refl _) hE.running hE.terminal⟩,
        h.cr3, h.esp0⟩
    exact hexc.halt hstep
  | tick esp ebp => exact h.tick hshell hstep
  | request t =>
    obtain rfl := Option.some.inj hstep
    obtain ⟨E, hE⟩ := h.executed
    exact ⟨h.last, ⟨E, hE.of_links (fun s => LinksWithin.refl _) hE.running hE.terminal⟩, h.cr3,
      h.esp0⟩
  | vidmap screenStart =>
    obtain ⟨⟨ret, k1⟩, hvid, rfl⟩ := Option.map_eq_some_iff.mp hstep
    exact h.vidmap hvid
  | putc c => exact h.of_frame (frame_putc hstep)
  | clear => exact h.of_frame (frame_clear hstep)

/-- In every state of every run from boot whose executes launch or fail before a PID is taken.
    That the shell can be launched is part of `Booted`. -/
theorem running_process_coherent (fs : Image) (k : Kernel) (ops : List Op) (hk : Booted fs k)
    (hops : AllSteps (step fs) (CleanExecute fs) k ops) :
    AllStates (step fs) RunningCoherent k ops := by
  have hinv : AllStates (step fs) Coherent k ops :=
    allStates_of_allSteps (fun s a t hs hG ht => coherent_step hk.launchable hs hG ht)
      hk.coherent hops
  exact hinv.imp fun t ht => ht.running

/-- A tick, then "b", which names no file. -/
theorem running_process_coherent_tick : ∃ k, Booted smallImage k ∧
    AllStates (step smallImage) RunningCoherent k
      [.tick 0 0, .execute (some (singleLetter 0x62 (by decide))) 0 0] := by
  obtain ⟨k, hk⟩ := booted_smallImage
  refine ⟨k, hk, running_process_coherent smallImage k _ hk fun k1 _ => ⟨trivial, fun k2 _ =>
    ⟨?_, trivial⟩⟩⟩
  rintro ⟨cmd, dentry, hcmd, -, hexec, -⟩
  obtain rfl := Option.some.inj hcmd
  exact absurd hexec (by decide)

end Mp3Kernel
