/-
  What a successful `execute` does.

  `Launched k k' pid t` is everything: the lowest free PID is taken, the process is bound to
  the displayed terminal if that one is running and else to the first that is not, and it is
  linked to its creator unless it is the first process of its terminal. `launched_of_execute`
  derives it from a run of `execute`; `execute_of_launchable` is the converse, for a program
  that fits (`Launchable`).
-/
import Mp3Kernel.Base.Bitmap
import Mp3Kernel.Proofs.Mapping

namespace Mp3Kernel

open Base.PageWalk Base.Bitmap

/-! ## PIDs -/

theorem pidBit_eq_slot (pid : Nat) : pidBit pid = slot 8 pid := rfl

theorem findPid_some {procs : BitVec 8} {i n pid : Nat} (hn : i + n ≤ 8)
    (h : findPid procs i n = some pid) :
    i ≤ pid ∧ pid < i + n ∧ ¬ Taken procs pid ∧ ∀ q, i ≤ q → q < pid → Taken procs q := by
  induction n generalizing i with
  | zero => cases h
  | succ n ih =>
    have hi : i < 8 := by omega
    unfold findPid at h
    split at h
    · rename_i hfree
      rw [pidBit_eq_slot, slot_and_eq_zero hi] at hfree
      obtain rfl := Option.some.inj h
      exact ⟨by omega, by omega, hfree, fun q h1 h2 => absurd h2 (by omega)⟩
    · rename_i htaken
      rw [pidBit_eq_slot, slot_and_eq_zero hi] at htaken
      obtain ⟨h1, h2, h3, h4⟩ := ih (by omega) h
      refine ⟨by omega, by omega, h3, fun q hq hqp => ?_⟩
      rcases Nat.eq_or_lt_of_le hq with rfl | hlt
      · exact not_not.mp htaken
      · exact h4 q hlt hqp

theorem findPid_none {procs : BitVec 8} {i n : Nat} (hn : i + n ≤ 8)
    (h : findPid procs i n = none) : ∀ q, i ≤ q → q < i + n → Taken procs q := by
  induction n generalizing i with
  | zero => intro q h1 h2; omega
  | succ n ih =>
    have hi : i < 8 := by omega
    unfold findPid at h
    split at h
    · cases h
    · rename_i htaken
      rw [pidBit_eq_slot, slot_and_eq_zero hi] at htaken
      intro q hq hqn
      rcases Nat.eq_or_lt_of_le hq with rfl | hlt
      · exact not_not.mp htaken
      · exact ih (by omega) h q hlt (by omega)

theorem allocPid_some {procs : BitVec 8} {pid : Nat} (h : allocPid procs = some pid) :
    pid < 8 ∧ ¬ Taken procs pid ∧ ∀ q, q < pid → Taken procs q := by
  obtain ⟨-, h2, h3, h4⟩ := findPid_some (by decide) h
  exact ⟨h2, h3, fun q hq => h4 q (Nat.zero_le q) hq⟩

theorem allocPid_none {procs : BitVec 8} (h : allocPid procs = none) :
    ∀ q, q < 8 → Taken procs q :=
  fun q hq => findPid_none (by decide) h q (Nat.zero_le q) hq

/-- The lowest free PID is the one allocated. -/
theorem allocPid_eq {procs : BitVec 8} {pid : Nat} (hlt : pid < 8) (hfree : ¬ Taken procs pid)
    (hlow : ∀ q, q < pid → Taken procs q) : allocPid procs = some pid := by
  cases h : allocPid procs with
  | none => exact absurd (allocPid_none h pid hlt) hfree
  | some q =>
    obtain ⟨-, h2, h3⟩ := allocPid_some h
    have hq : q = pid := by
      rcases Nat.lt_trichotomy q pid with h' | h' | h'
      · exact absurd (hlow q h') h2
      · exact h'
      · exact absurd (h3 pid h') hfree
    rw [hq]

/-! ## Programs that fit -/

/-- The command names an executable file that can be read and fits the program page. -/
structure Launchable (fs : Image) (ucmd : CString) : Prop where
  short : (parseCmd ucmd).overrun = false
  executable : isExecutable fs (parseCmd ucmd).name = true
  entry : (readEntry fs (parseCmd ucmd).name).ret = 4
  program : (readProgram fs (parseCmd ucmd).name).ret ≠ -1
  page : loadAddr % mb4 + (readProgram fs (parseCmd ucmd).name).reads ≤ mb4

theorem storeBytes_mem {k k' : Kernel} {va n : Nat} {buf : Nat → UInt8}
    (h : storeBytes k va buf n = some k') : ∃ mem, k' = k.setMem mem := by
  induction n generalizing k' with
  | zero =>
    obtain rfl := Option.some.inj h
    exact ⟨k.mem, rfl⟩
  | succ n ih =>
    obtain ⟨k1, h1, h2⟩ := Option.bind_eq_some_iff.mp h
    obtain ⟨mem, rfl⟩ := ih h1
    obtain ⟨pa, -, rfl⟩ := Option.map_eq_some_iff.mp h2
    exact ⟨_, rfl⟩

theorem storeBytes_some {k : Kernel} {va n : Nat} (buf : Nat → UInt8)
    (h : ∀ j, j < n → ∃ pa, k.paging.phys (va + j) = some pa) :
    ∃ k', storeBytes k va buf n = some k' := by
  induction n with
  | zero => exact ⟨k, rfl⟩
  | succ n ih =>
    obtain ⟨k1, h1⟩ := ih fun j hj => h j (Nat.lt_succ_of_lt hj)
    obtain ⟨pa, hpa⟩ := h n (Nat.lt_succ_self n)
    have hstore : ∃ k', store k1 (va + n) (buf n) = some k' := by
      obtain ⟨mem, rfl⟩ := storeBytes_mem h1
      unfold store
      rw [setMem_paging, hpa]
      exact ⟨_, rfl⟩
    obtain ⟨k', h2⟩ := hstore
    exact ⟨k', Option.bind_eq_some_iff.mpr ⟨k1, h1, h2⟩⟩

/-- Loading succeeds exactly as far as the program page reaches. -/
theorem storeBytes_program {p : Paging} {proc : Nat} (k : Kernel) (buf : Nat → UInt8)
    (hb : TaskBuilt p k.paging proc) (hproc : proc < 8) (hlast : ProgramPageLast p) (n : Nat) :
    (∃ k', storeBytes k loadAddr buf n = some k') ↔ loadAddr % mb4 + n ≤ mb4 := by
  constructor
  · intro h
    induction n with
    | zero => decide
    | succ n ih =>
      obtain ⟨k', h⟩ := h
      obtain ⟨k1, h1, h2⟩ := Option.bind_eq_some_iff.mp h
      have hn := ih ⟨k1, h1⟩
      by_contra hover
      -- byte `n` is the first one past the page
      have hidx : dirIndex (loadAddr + n) = afterProgram := by
        unfold loadAddr mb4 at hn hover
        unfold dirIndex loadAddr afterProgram elfLoadPg
        omega
      obtain ⟨mem, rfl⟩ := storeBytes_mem h1
      obtain ⟨pa, hpa, -⟩ := Option.map_eq_some_iff.mp h2
      have hnone := hb.phys_afterProgram hproc hlast hidx
      rw [setMem_paging, hnone] at hpa
      cases hpa
  · intro hn
    refine storeBytes_some buf fun j hj => ⟨_, hb.phys_program ?_⟩
    unfold loadAddr mb4 at hn
    unfold dirIndex loadAddr elfLoadPg
    omega

/-! ## The terminal -/

theorem firstTerminal_some {test : Fin 3 → Bool} {t : Fin 3} (h : firstTerminal test = some t) :
    test t = true ∧ ∀ u, u < t → test u = false := by
  unfold firstTerminal at h
  split at h
  · rename_i h0
    obtain rfl := Option.some.inj h
    exact ⟨h0, fun u hu => absurd hu (by omega)⟩
  split at h
  · rename_i h0 h1
    obtain rfl := Option.some.inj h
    refine ⟨h1, fun u hu => ?_⟩
    have hu0 : u = 0 := by omega
    rw [hu0]
    exact Bool.eq_false_iff.mpr h0
  split at h
  · rename_i h0 h1 h2
    obtain rfl := Option.some.inj h
    refine ⟨h2, fun u hu => ?_⟩
    have hu01 : u = 0 ∨ u = 1 := by omega
    rcases hu01 with hu0 | hu1
    · rw [hu0]
      exact Bool.eq_false_iff.mpr h0
    · rw [hu1]
      exact Bool.eq_false_iff.mpr h1
  · cases h

theorem firstTerminal_none {test : Fin 3 → Bool} (h : firstTerminal test = none) (t : Fin 3) :
    test t = false := by
  unfold firstTerminal at h
  split at h
  · cases h
  split at h
  · cases h
  split at h
  · cases h
  · rename_i h0 h1 h2
    have ht : t = 0 ∨ t = 1 ∨ t = 2 := by omega
    rcases ht with rfl | rfl | rfl
    · exact Bool.eq_false_iff.mpr h0
    · exact Bool.eq_false_iff.mpr h1
    · exact Bool.eq_false_iff.mpr h2

/-- The first that passes, where the ones before it do not. -/
theorem firstTerminal_eq {test : Fin 3 → Bool} {t : Fin 3} (ht : test t = true)
    (hlow : ∀ u, u < t → test u = false) : firstTerminal test = some t := by
  cases h : firstTerminal test with
  | none => rw [firstTerminal_none h t] at ht; cases ht
  | some u =>
    obtain ⟨hu, hbelow⟩ := firstTerminal_some h
    rcases Nat.lt_trichotomy u.val t.val with h' | h' | h'
    · rw [hlow u h'] at hu; cases hu
    · rw [Fin.ext h']
    · rw [hbelow t h'] at ht; cases ht

/-- The terminal `execute` binds a process to. -/
def boundTerminal (k : Kernel) : Option (Fin 3) :=
  if (k.terminals k.currentTerminal).running then some k.currentTerminal
  else firstTerminal fun i => !(k.terminals i).running

def boundTerminals (k : Kernel) (pid : Nat) (t : Fin 3) : Fin 3 → Terminal :=
  if (k.terminals k.currentTerminal).running then k.terminals
  else Function.update k.terminals t { k.terminals t with pid := pid, running := true }

theorem bindTerminal_some {k : Kernel} {t : Fin 3} (h : boundTerminal k = some t) :
    bindTerminal k = (some t, { k with terminals := boundTerminals k k.runningPid t }) := by
  unfold boundTerminal at h
  unfold bindTerminal boundTerminals newTerminal
  split at h
  · rename_i hcur
    obtain rfl := Option.some.inj h
    rw [if_pos hcur, if_pos hcur]
  · rename_i hcur
    rw [if_neg hcur, if_neg hcur, h]
    rfl

/-- While a terminal is not running, one can be bound. -/
theorem boundTerminal_isSome (k : Kernel) : ∃ t, boundTerminal k = some t := by
  unfold boundTerminal
  split
  · exact ⟨_, rfl⟩
  · rename_i hcur
    cases h : firstTerminal fun i => !(k.terminals i).running with
    | none =>
      have hrun := firstTerminal_none h k.currentTerminal
      rw [Bool.not_eq_false'] at hrun
      exact absurd hrun hcur
    | some t => exact ⟨t, rfl⟩

/-! ## The links -/

theorem linkParent_root {k : Kernel} {parent : Nat} {t : Fin 3}
    (h : k.runningPid = (k.terminals t).pid) : linkParent k parent t =
      k.setPcb k.runningPid { k.pcbs k.runningPid with
        childPcb := none, parentPid := -1, parentPcb := none } := by
  unfold linkParent
  simp only [if_pos h, ne_eq, not_true_eq_false, if_false, setPcb_pcbs, Function.update_self]
  unfold Kernel.setPcb
  simp only [Function.update_idem]

theorem linkParent_child {k : Kernel} {parent : Nat} {t : Fin 3}
    (h : k.runningPid ≠ (k.terminals t).pid) (hp : i32 (k.pcbs parent).pid ≠ -1) :
    (linkParent k parent t).pcbs =
      Function.update
        (Function.update k.pcbs k.runningPid { k.pcbs k.runningPid with
          childPcb := none, parentPid := i32 (k.pcbs parent).pid, parentPcb := some parent })
        parent
        { (Function.update k.pcbs k.runningPid { k.pcbs k.runningPid with
            childPcb := none, parentPid := i32 (k.pcbs parent).pid, parentPcb := some parent })
              parent with childPcb := some k.runningPid } := by
  unfold linkParent
  simp only [if_neg h, if_pos hp, ne_eq, setPcb_pcbs]

/-- The links change PCBs only. -/
theorem linkParent_eq (k : Kernel) (parent : Nat) (t : Fin 3) :
    ∃ pcbs, linkParent k parent t = { k with pcbs := pcbs } := by
  unfold linkParent
  dsimp only
  repeat' split
  all_goals exact ⟨_, rfl⟩

theorem i32_of_lt {n : Nat} (h : n < 8) : i32 n = n := by
  unfold i32
  rw [if_pos (by omega)]

/-! ## A successful execute -/

/-- The descriptor table of a new process. -/
structure FreshTable (fds : Nat → FileDesc) : Prop where
  stdin : fds 0 = stdinFd
  stdout : fds 1 = stdoutFd
  closed : ∀ fd, fdStart ≤ fd → fd < fdCnt → fds fd = closedFd

theorem freshTable_initPcb (old : Pcb) (cmd : CmdBuf) (pid esp ebp : Nat) :
    FreshTable (initPcb old cmd pid esp ebp).fds := by
  refine ⟨rfl, rfl, fun fd hge hlt => ?_⟩
  have hne : fd ≠ 0 := by
    rintro rfl
    cases hge
  unfold initPcb
  dsimp only
  rw [if_neg hne, if_neg (Nat.not_lt_of_le hge), if_pos hlt]

/-- The PCBs are the same but for the links to other processes. -/
def SameButLinks (pcb pcb' : Pcb) : Prop :=
  ∃ child pid parent, pcb' = { pcb with childPcb := child, parentPid := pid, parentPcb := parent }

theorem SameButLinks.refl (pcb : Pcb) : SameButLinks pcb pcb := ⟨_, _, _, rfl⟩

theorem SameButLinks.trans {a b c : Pcb} (h : SameButLinks a b) (h' : SameButLinks b c) :
    SameButLinks a c := by
  obtain ⟨_, _, _, rfl⟩ := h
  obtain ⟨_, _, _, rfl⟩ := h'
  exact ⟨_, _, _, rfl⟩

theorem SameButLinks.fds {a b : Pcb} (h : SameButLinks a b) : b.fds = a.fds := by
  obtain ⟨_, _, _, rfl⟩ := h
  rfl

theorem setPcb_sameButLinks {k : Kernel} {slot : Nat} {pcb : Pcb}
    (h : SameButLinks (k.pcbs slot) pcb) (s : Nat) :
    SameButLinks (k.pcbs s) ((k.setPcb slot pcb).pcbs s) := by
  rw [setPcb_pcbs]
  by_cases hs : s = slot
  · rw [hs, Function.update_self]
    exact h
  · rw [Function.update_of_ne hs]
    exact .refl _

theorem linkParent_sameButLinks (k : Kernel) (parent : Nat) (t : Fin 3) (s : Nat) :
    SameButLinks (k.pcbs s) ((linkParent k parent t).pcbs s) := by
  unfold linkParent
  dsimp only
  generalize (if k.runningPid = (k.terminals t).pid then (-1 : Int)
    else i32 (k.pcbs parent).pid) = parentPid
  have hlinks : SameButLinks (k.pcbs k.runningPid) { k.pcbs k.runningPid with
      childPcb := none, parentPid := parentPid, parentPcb := some parent } := ⟨_, _, _, rfl⟩
  have hfirst := setPcb_sameButLinks hlinks s
  split
  · exact hfirst.trans (setPcb_sameButLinks ⟨_, _, _, rfl⟩ s)
  · exact hfirst.trans (setPcb_sameButLinks ⟨_, _, _, rfl⟩ s)

structure Launched (k k' : Kernel) (pid : Nat) (t : Fin 3) : Prop where
  free : allocPid k.procs = some pid
  terminal : boundTerminal k = some t
  terminals : k'.terminals = boundTerminals k pid t
  procs : k'.procs = k.procs ||| pidBit pid
  runningPid : k'.runningPid = pid
  esp0 : k'.esp0 = kernelStackTop pid
  paging : TaskBuilt k.paging k'.paging pid
  exception : k'.programExceptionOccured = k.programExceptionOccured
  currentTerminal : k'.currentTerminal = k.currentTerminal
  terminalToSwitchTo : k'.terminalToSwitchTo = k.terminalToSwitchTo
  currentSchedule : k'.currentSchedule = k.currentSchedule
  scheduleCounter : k'.scheduleCounter = k.scheduleCounter
  screenX : k'.screenX = k.screenX
  screenY : k'.screenY = k.screenY
  table : FreshTable (k'.pcbs pid).fds
  /-- The first process of its terminal. -/
  root : pid = (k'.terminals t).pid → ∃ pcb, k'.pcbs = Function.update k.pcbs pid pcb ∧
    pcb.pid = pid ∧ pcb.parentPid = -1 ∧ pcb.parentPcb = none ∧ pcb.childPcb = none
  /-- The child of the running process. -/
  child : pid ≠ (k'.terminals t).pid → k.runningPid < 8 →
    (k.pcbs k.runningPid).pid = k.runningPid → ∃ pcb, k'.pcbs =
      Function.update (Function.update k.pcbs pid pcb) k.runningPid
        { (Function.update k.pcbs pid pcb) k.runningPid with childPcb := some pid } ∧
    pcb.pid = pid ∧ pcb.parentPid = k.runningPid ∧ pcb.parentPcb = some k.runningPid ∧
    pcb.childPcb = none

theorem Launched.pid_lt {k k' : Kernel} {pid : Nat} {t : Fin 3} (h : Launched k k' pid t) :
    pid < 8 := (allocPid_some h.free).1

theorem Launched.procs_ne {k k' : Kernel} {pid : Nat} {t : Fin 3} (h : Launched k k' pid t) :
    k'.procs ≠ k.procs := by
  obtain ⟨hlt, hfree, -⟩ := allocPid_some h.free
  intro heq
  refine hfree ?_
  rw [← heq, h.procs, pidBit_eq_slot, taken_or_slot hlt]
  exact Or.inr rfl

/-- The processes that live go on, with PIDs other than the new one. -/
theorem Launched.taken {k k' : Kernel} {pid p : Nat} {t : Fin 3} (h : Launched k k' pid t)
    (hp : Taken k.procs p) : Taken k'.procs p ∧ p ≠ pid := by
  obtain ⟨hlt, hfree, -⟩ := allocPid_some h.free
  rw [h.procs, pidBit_eq_slot, taken_or_slot hlt]
  exact ⟨Or.inl hp, fun he => hfree (he ▸ hp)⟩

/-- A running displayed terminal is the new process's, and no terminal changes. -/
theorem Launched.displayed {k k' : Kernel} {pid : Nat} {t : Fin 3} (h : Launched k k' pid t)
    (hcur : (k.terminals k.currentTerminal).running = true) :
    t = k.currentTerminal ∧ k'.terminals = k.terminals := by
  have hterm := h.terminal
  have hterms := h.terminals
  unfold boundTerminal at hterm
  unfold boundTerminals at hterms
  rw [if_pos hcur] at hterm hterms
  exact ⟨(Option.some.inj hterm).symm, hterms⟩

/-- Otherwise the first stopped terminal starts running it. -/
theorem Launched.stopped {k k' : Kernel} {pid : Nat} {t : Fin 3} (h : Launched k k' pid t)
    (hcur : (k.terminals k.currentTerminal).running = false) :
    (k.terminals t).running = false ∧ (∀ u, u < t → (k.terminals u).running = true) ∧
      k'.terminals =
        Function.update k.terminals t { k.terminals t with pid := pid, running := true } := by
  have hterm := h.terminal
  have hterms := h.terminals
  unfold boundTerminal at hterm
  unfold boundTerminals at hterms
  rw [hcur, if_neg Bool.false_ne_true] at hterm hterms
  obtain ⟨hstop, hlow⟩ := firstTerminal_some hterm
  refine ⟨?_, fun u hu => ?_, hterms⟩
  · rwa [Bool.not_eq_true'] at hstop
  · have hrun := hlow u hu
    rwa [Bool.not_eq_false'] at hrun

/-- The first stopped terminal is the only one with every terminal below it running. -/
theorem Launched.first {k k' : Kernel} {pid : Nat} {t u : Fin 3} (h : Launched k k' pid t)
    (hcur : (k.terminals k.currentTerminal).running = false)
    (hstop : (k.terminals u).running = false)
    (hlower : ∀ v, v < u → (k.terminals v).running = true) : t = u := by
  have hfirst : firstTerminal (fun i => !(k.terminals i).running) = some u := by
    refine firstTerminal_eq ?_ fun v hv => ?_
    · rw [hstop]
      rfl
    · rw [hlower v hv]
      rfl
  have hterm := h.terminal
  unfold boundTerminal at hterm
  rw [hcur, if_neg Bool.false_ne_true, hfirst] at hterm
  exact (Option.some.inj hterm).symm

/-- All that a launch changes of a terminal is its root and that it runs. -/
theorem Launched.bound {k k' : Kernel} {pid : Nat} {t : Fin 3} (h : Launched k k' pid t)
    (u : Fin 3) : k'.terminals u = k.terminals u ∨
      k'.terminals u = { k.terminals u with pid := pid, running := true } := by
  cases hcur : (k.terminals k.currentTerminal).running with
  | true =>
    rw [(h.displayed hcur).2]
    exact Or.inl rfl
  | false =>
    rw [(h.stopped hcur).2.2]
    by_cases hut : u = t
    · rw [hut, Function.update_self]
      exact Or.inr rfl
    · rw [Function.update_of_ne hut]
      exact Or.inl rfl

theorem takePid_runningPid (k : Kernel) (pid : Nat) : (takePid k pid).runningPid = pid := rfl

/-- The state in which the new process is linked to its parent. -/
def preparedState (k : Kernel) (cmd : CmdBuf) (esp ebp : Nat) (t : Fin 3) : Kernel :=
  { k with
    pcbs := Function.update k.pcbs k.runningPid
      (initPcb (k.pcbs k.runningPid) cmd k.runningPid esp ebp)
    terminals := boundTerminals k k.runningPid t }

theorem startProcess_some {k k' : Kernel} {parent : Nat} {cmd : CmdBuf} {esp ebp : Nat}
    (h : startProcess k parent cmd esp ebp = some k') :
    ∃ t pcbs, boundTerminal k = some t ∧
      (linkParent (preparedState k cmd esp ebp t) parent t).pcbs = pcbs ∧
      k' = { preparedState k cmd esp ebp t with
        pcbs := pcbs, esp0 := kernelStackTop k.runningPid } := by
  obtain ⟨t, ht⟩ := boundTerminal_isSome k
  unfold startProcess at h
  dsimp only at h
  rw [bindTerminal_some (k := k.setPcb _ _) ht, Option.map_some, Option.some.injEq] at h
  subst h
  obtain ⟨pcbs, hlink⟩ := linkParent_eq (preparedState k cmd esp ebp t) parent t
  refine ⟨t, pcbs, ht, by rw [hlink], ?_⟩
  show ({ linkParent (preparedState k cmd esp ebp t) parent t with
    esp0 := kernelStackTop k.runningPid } : Kernel) = _
  rw [hlink]

theorem launched_of_startProcess {k k' : Kernel} {pid : Nat} {cmd : CmdBuf} {esp ebp : Nat}
    {p : Paging} {mem : Nat → UInt8} (hfree : allocPid k.procs = some pid)
    (hp : TaskBuilt k.paging p pid)
    (h : startProcess (((takePid k pid).setPaging p).setMem mem) k.runningPid cmd esp ebp =
      some k') : ∃ t, Launched k k' pid t := by
  obtain ⟨t, pcbs, ht, hpcbs, rfl⟩ := startProcess_some h
  refine ⟨t, ⟨hfree, ht, rfl, rfl, rfl, ?_, hp, rfl, rfl, rfl, rfl, rfl, rfl, rfl, ?_,
    fun hroot => ?_, fun hchild hrlt hrpid => ?_⟩⟩
  · dsimp only
    rw [setMem_runningPid, setPaging_runningPid, takePid_runningPid]
  · show FreshTable (pcbs pid).fds
    rw [← hpcbs, (linkParent_sameButLinks _ _ _ _).fds]
    show FreshTable (Function.update k.pcbs pid _ pid).fds
    rw [Function.update_self]
    exact freshTable_initPcb _ _ _ _ _
  · rw [linkParent_root hroot] at hpcbs
    refine ⟨_, (hpcbs.symm.trans (Function.update_idem _ _ _)), ?_, rfl, rfl, rfl⟩
    show (Function.update k.pcbs pid _ pid).pid = pid
    rw [Function.update_self]
    rfl
  · have hppid : (Function.update k.pcbs pid (initPcb (k.pcbs pid) cmd pid esp ebp)
        k.runningPid).pid = k.runningPid := by
      by_cases hsame : k.runningPid = pid
      · rw [hsame, Function.update_self]
        rfl
      · rw [Function.update_of_ne hsame]
        exact hrpid
    have hi32 : i32 (Function.update k.pcbs pid (initPcb (k.pcbs pid) cmd pid esp ebp)
        k.runningPid).pid = k.runningPid := by
      rw [hppid]
      exact i32_of_lt hrlt
    have hne : i32 (Function.update k.pcbs pid (initPcb (k.pcbs pid) cmd pid esp ebp)
        k.runningPid).pid ≠ -1 := by
      rw [hi32]
      omega
    have hlink := hpcbs.symm.trans (linkParent_child hchild hne)
    have hprep : (preparedState (((takePid k pid).setPaging p).setMem mem) cmd esp ebp t).pcbs =
      Function.update k.pcbs pid (initPcb (k.pcbs pid) cmd pid esp ebp) := rfl
    have hrun : (preparedState (((takePid k pid).setPaging p).setMem mem) cmd esp ebp t).runningPid =
      pid := rfl
    rw [hprep, hrun, hi32, Function.update_idem] at hlink
    refine ⟨_, hlink, ?_, rfl, rfl, rfl⟩
    rw [Function.update_self]
    rfl

/-- The command passes the checks of `execute`, and there is a PID for it. -/
structure Checked (fs : Image) (k : Kernel) (cmd : CString) (pid : Nat) : Prop where
  short : (parseCmd cmd).overrun = false
  executable : isExecutable fs (parseCmd cmd).name = true
  free : allocPid k.procs = some pid

/-- The entry point can be read, the process has a directory, and its program is in memory as
    far as it could be read. -/
structure Loaded (fs : Image) (k : Kernel) (cmd : CString) (pid : Nat) (p : Paging)
    (loaded : Kernel) : Prop where
  header : (readEntry fs (parseCmd cmd).name).ret = 4
  pgdir : makeTaskPgdir k.paging pid = some p
  load : storeBytes ((takePid k pid).setPaging p) loadAddr
    ((readProgram fs (parseCmd cmd).name).buf.getD fun _ => 0)
    (readProgram fs (parseCmd cmd).name).reads = some loaded

/-- An `execute` that enters user space. -/
structure Execution (fs : Image) (k : Kernel) (cmd : CString) (esp ebp pid : Nat) (p : Paging)
    (loaded k' : Kernel) (entry : Nat) : Prop extends Checked fs k cmd pid,
    Loaded fs k cmd pid p loaded where
  program : (readProgram fs (parseCmd cmd).name).ret ≠ -1
  start : startProcess loaded k.runningPid (parseCmd cmd) esp ebp = some k'
  entry : entry = le32 ((readEntry fs (parseCmd cmd).name).buf.getD fun _ => 0)

section Execute

variable {fs : Image} {k : Kernel} {cmd : CString} {pid esp ebp : Nat}

/-- Past the checks `execute` is `launch`. -/
theorem Checked.execute (h : Checked fs k cmd pid) (esp ebp : Nat) :
    execute fs k (some cmd) esp ebp =
      launch fs (takePid k pid) k.runningPid (parseCmd cmd) esp ebp := by
  unfold Mp3Kernel.execute
  simp only [h.short, Bool.false_eq_true, if_false, h.executable, if_true, h.free]

theorem execute_checked (fs : Image) (k : Kernel) (ucmd : Option CString) (esp ebp : Nat) :
    execute fs k ucmd esp ebp = .failed k ∨ execute fs k ucmd esp ebp = .fault ∨
      ∃ cmd pid, ucmd = some cmd ∧ Checked fs k cmd pid := by
  cases ucmd with
  | none => exact Or.inl rfl
  | some cmd =>
    unfold execute
    dsimp only
    split
    · exact Or.inr (Or.inl rfl)
    rename_i hshort
    split
    swap
    · exact Or.inl rfl
    rename_i hexec
    cases hpid : allocPid k.procs with
    | none => exact Or.inl rfl
    | some pid => exact Or.inr (Or.inr ⟨cmd, pid, rfl, by simpa using hshort, hexec, hpid⟩)

/-- With its program in memory a process starts unless that is incomplete. -/
theorem Loaded.launch {p : Paging} {loaded : Kernel} (h : Loaded fs k cmd pid p loaded)
    (esp ebp : Nat) : launch fs (takePid k pid) k.runningPid (parseCmd cmd) esp ebp =
      if (readProgram fs (parseCmd cmd).name).ret = -1 then .failed loaded
      else (startProcess loaded k.runningPid (parseCmd cmd) esp ebp).elim .fault fun k' =>
        .launched k' (le32 ((readEntry fs (parseCmd cmd).name).buf.getD fun _ => 0)) := by
  have hload : loadProgram fs ((takePid k pid).setPaging p) (parseCmd cmd).name =
      some ((readProgram fs (parseCmd cmd).name).ret, loaded) := by
    unfold loadProgram
    dsimp only
    rw [h.load, Option.map_some]
  unfold Mp3Kernel.launch
  dsimp only
  rw [if_neg (not_not.mpr h.header),
    show makeTaskPgdir (takePid k pid).paging (takePid k pid).runningPid = some p from h.pgdir]
  simp only [hload]
  cases startProcess loaded k.runningPid (parseCmd cmd) esp ebp <;> rfl

/-- Everything `execute` can do. Before a PID is taken it returns with nothing changed or
    faults; then the entry point cannot be read, the program cannot be loaded, or it starts. -/
theorem execute_cases (fs : Image) (k : Kernel) (ucmd : Option CString) (esp ebp : Nat) :
    execute fs k ucmd esp ebp = .failed k ∨ execute fs k ucmd esp ebp = .fault ∨
    ∃ cmd pid, ucmd = some cmd ∧ Checked fs k cmd pid ∧
      (((readEntry fs (parseCmd cmd).name).ret ≠ 4 ∧
          execute fs k ucmd esp ebp = .failed (takePid k pid)) ∨
        ∃ p loaded, Loaded fs k cmd pid p loaded ∧
          (((readProgram fs (parseCmd cmd).name).ret = -1 ∧
              execute fs k ucmd esp ebp = .failed loaded) ∨
            ∃ k' entry, execute fs k ucmd esp ebp = .launched k' entry ∧
              Execution fs k cmd esp ebp pid p loaded k' entry)) := by
  rcases execute_checked fs k ucmd esp ebp with h | h | ⟨cmd, pid, rfl, hc⟩
  · exact Or.inl h
  · exact Or.inr (Or.inl h)
  rw [hc.execute]
  by_cases hentry : (readEntry fs (parseCmd cmd).name).ret = 4
  swap
  · exact Or.inr (Or.inr ⟨cmd, pid, rfl, hc, Or.inl ⟨hentry, if_pos hentry⟩⟩)
  obtain ⟨p, hp⟩ := makeTaskPgdir_some (p := k.paging) (allocPid_some hc.free).1
  cases hload : storeBytes ((takePid k pid).setPaging p) loadAddr
      ((readProgram fs (parseCmd cmd).name).buf.getD fun _ => 0)
      (readProgram fs (parseCmd cmd).name).reads with
  | none =>
    refine Or.inr (Or.inl ?_)
    have hnone : loadProgram fs ((takePid k pid).setPaging p) (parseCmd cmd).name = none := by
      unfold loadProgram
      dsimp only
      rw [hload, Option.map_none]
    unfold launch
    dsimp only
    rw [if_neg (not_not.mpr hentry),
      show makeTaskPgdir (takePid k pid).paging (takePid k pid).runningPid = some p from hp]
    simp only [hnone]
  | some loaded =>
    have hl : Loaded fs k cmd pid p loaded := ⟨hentry, hp, hload⟩
    rw [hl.launch]
    by_cases hret : (readProgram fs (parseCmd cmd).name).ret = -1
    · rw [if_pos hret]
      exact Or.inr (Or.inr ⟨cmd, pid, rfl, hc, Or.inr ⟨p, loaded, hl, Or.inl ⟨hret, rfl⟩⟩⟩)
    rw [if_neg hret]
    cases hstart : startProcess loaded k.runningPid (parseCmd cmd) esp ebp with
    | none => exact Or.inr (Or.inl rfl)
    | some k' =>
      exact Or.inr (Or.inr ⟨cmd, pid, rfl, hc, Or.inr ⟨p, loaded, hl, Or.inr ⟨k', _, rfl,
        ⟨hc, hl, hret, hstart, rfl⟩⟩⟩⟩)

theorem execution_of_execute {ucmd : Option CString} {k' : Kernel} {entry : Nat}
    (h : execute fs k ucmd esp ebp = .launched k' entry) :
    ∃ cmd pid p loaded, ucmd = some cmd ∧ Execution fs k cmd esp ebp pid p loaded k' entry := by
  rcases execute_cases fs k ucmd esp ebp with h' | h' | ⟨cmd, pid, rfl, -, ⟨-, h'⟩ |
    ⟨p, loaded, -, ⟨-, h'⟩ | ⟨k1, e, h', hx⟩⟩⟩
  · cases h'.symm.trans h
  · cases h'.symm.trans h
  · cases h'.symm.trans h
  · cases h'.symm.trans h
  · obtain ⟨rfl, rfl⟩ := ExecResult.launched.inj (h'.symm.trans h)
    exact ⟨cmd, pid, p, loaded, rfl, hx⟩

end Execute

theorem launched_of_execute {fs : Image} {k k' : Kernel} {ucmd : Option CString}
    {esp ebp entry : Nat} (h : execute fs k ucmd esp ebp = .launched k' entry) :
    (∃ pid t, Launched k k' pid t) ∧
      (ProgramPageLast k.paging → ∃ cmd, ucmd = some cmd ∧ Launchable fs cmd) := by
  obtain ⟨cmd, pid, p, loaded, rfl, hx⟩ := execution_of_execute h
  have hbuilt := taskBuilt_of_makeTaskPgdir hx.pgdir
  have hstart := hx.start
  obtain ⟨mem, hmem⟩ := storeBytes_mem hx.load
  rw [hmem] at hstart
  obtain ⟨t, ht⟩ := launched_of_startProcess hx.free hbuilt hstart
  refine ⟨⟨pid, t, ht⟩, fun hlast => ⟨cmd, rfl, hx.short, hx.executable, hx.header, hx.program, ?_⟩⟩
  exact (storeBytes_program ((takePid k pid).setPaging p) _ hbuilt ht.pid_lt hlast _).mp
    ⟨_, hx.load⟩

/-- With no PID free, `execute` fails and changes nothing. -/
theorem execute_no_pid {fs : Image} {k : Kernel} {cmd : CString} {esp ebp : Nat}
    (hshort : (parseCmd cmd).overrun = false) (hpid : allocPid k.procs = none) :
    execute fs k (some cmd) esp ebp = .failed k := by
  unfold execute
  simp only [hshort, hpid]
  split
  · rename_i h
    cases h
  · split <;> rfl

/-- With a PID free, a program that fits is launched. -/
theorem execute_of_launchable {fs : Image} {k : Kernel} {cmd : CString} {pid : Nat}
    (hl : Launchable fs cmd) (hlast : ProgramPageLast k.paging)
    (hpid : allocPid k.procs = some pid) (esp ebp : Nat) :
    ∃ k' entry, execute fs k (some cmd) esp ebp = .launched k' entry := by
  have hlt : pid < 8 := (allocPid_some hpid).1
  obtain ⟨p, hp⟩ := makeTaskPgdir_some (p := k.paging) hlt
  obtain ⟨k1, hstores⟩ := (storeBytes_program ((takePid k pid).setPaging p)
    ((readProgram fs (parseCmd cmd).name).buf.getD fun _ => 0)
    (taskBuilt_of_makeTaskPgdir hp) hlt hlast _).mpr hl.page
  obtain ⟨t, ht⟩ := boundTerminal_isSome k1
  have hstart : ∃ k', startProcess k1 k.runningPid (parseCmd cmd) esp ebp = some k' := by
    unfold startProcess
    dsimp only
    rw [bindTerminal_some (k := k1.setPcb _ _) ht]
    exact ⟨_, rfl⟩
  obtain ⟨k', hk'⟩ := hstart
  have hchecked : Checked fs k cmd pid := ⟨hl.short, hl.executable, hpid⟩
  have hloaded : Loaded fs k cmd pid p k1 := ⟨hl.entry, hp, hstores⟩
  refine ⟨k', le32 ((readEntry fs (parseCmd cmd).name).buf.getD fun _ => 0), ?_⟩
  rw [hchecked.execute, hloaded.launch, if_neg hl.program, hk']
  rfl

end Mp3Kernel
