/-
  Process stack discipline on one terminal.

  As long as the running process only calls `execute` and `halt` and no key asks for another
  terminal, the processes form one stack. `Callers` is that stack as a caller sees it: the
  process that made each `execute` still open, innermost first. It is kept beside the kernel,
  pushed by a launch and popped by a halt (`callStep`), and nothing in it is read from a PCB.

  `stack_discipline`: with `cs` open calls the live PIDs are 0 … cs.length, allocated bottom
  up because `execute` takes the lowest free PID and only the top process halts; the links are
  the chain itself; a halt goes back to the caller on top.
-/
import Mp3Kernel.Proofs.Coherence
import Mathlib.Order.Interval.Finset.Nat

namespace Mp3Kernel

open Base.Runs Base.Bitmap

variable {fs : Image} {k k' : Kernel} {n : Nat}

/-! ## The calls and their stack -/

/-- A call of the running process that starts or ends a process. -/
inductive Call where
  | execute (ucmd : Option CString) (esp ebp : Nat)
  | halt (status : UInt8) (esp ebp : Nat)

def Call.op : Call → Op
  | .execute ucmd esp ebp => .execute ucmd esp ebp
  | .halt status esp ebp => .halt status esp ebp

abbrev Callers := List Nat

/-- A successful `execute` pushes its caller; a halt pops one. At the bottom, the root shell
    halts and is relaunched with nothing to pop. -/
def nextCallers (fs : Image) (k : Kernel) (cs : Callers) : Call → Callers
  | .execute ucmd esp ebp =>
    match execute fs k ucmd esp ebp with
    | .launched _ _ => k.runningPid :: cs
    | _ => cs
  | .halt _ _ _ => cs.tail

def callStep (fs : Image) (s : Kernel × Callers) (c : Call) : Option (Kernel × Callers) :=
  (step fs s.1 c.op).map fun k => (k, nextCallers fs s.1 s.2 c)

/-- No `execute` fails with a PID taken. -/
def CleanCall (fs : Image) (s : Kernel × Callers) (c : Call) : Prop := CleanExecute fs s.1 c.op

/-! ## The discipline -/

/-- `k` runs process `pid`, on its directory and kernel stack. -/
structure Runs (k : Kernel) (pid : Nat) : Prop where
  runningPid : k.runningPid = pid
  cr3 : k.paging.cr3 = k.paging.layout.pgdirAddr pid
  esp0 : k.esp0 = mb8 - kb8 * (pid + 1) - 4

structure StackDiscipline (fs : Image) (s : Kernel × Callers) : Prop where
  depth : s.2.length + 1 ≤ 8
  procs : ∀ p, Taken s.1.procs p ↔ p < s.2.length + 1
  running : Runs s.1 s.2.length
  chain : ∀ p, p < s.2.length → (s.1.pcbs (p + 1)).parentPcb = some p
  inverse : ∀ p q, p < s.2.length + 1 → q < s.2.length + 1 →
    ((s.1.pcbs p).parentPcb = some q ↔ (s.1.pcbs q).childPcb = some p)
  root : ∀ p, p < s.2.length + 1 → ((s.1.pcbs p).parentPid = -1 ↔ p = 0)
  terminal : getRunningTerminal s.1 = some (some 0)
  /-- At depth 8 a call that does not overrun its buffer returns -1 and changes nothing. -/
  full : s.2.length + 1 = 8 → ∀ ucmd esp ebp, execute fs s.1 ucmd esp ebp ≠ .fault →
    execute fs s.1 ucmd esp ebp = .failed s.1
  /-- A halt returns to the caller of the `execute` that made the process. -/
  resumes : ∀ c cs, s.2 = c :: cs → ∀ status esp ebp,
    ∃ k', halt fs s.1 status esp ebp = some k' ∧ Runs k' c
  /-- The root shell's halt starts a shell in its place. -/
  relaunches : s.2 = [] → ∀ status esp ebp,
    ∃ k', halt fs s.1 status esp ebp = some k' ∧ Runs k' 0

/-! ## The chain of processes -/

/-- The live processes are 0 … n - 1, each the parent of the next, on terminal 0. -/
structure Chained (n : Nat) (k : Kernel) : Prop where
  pos : 0 < n
  depth : n ≤ 8
  last : ProgramPageLast k.paging
  procs : ∀ p, Taken k.procs p ↔ p < n
  running : k.runningPid + 1 = n
  cr3 : k.paging.cr3 = k.paging.layout.pgdirAddr k.runningPid
  esp0 : k.esp0 = kernelStackTop k.runningPid
  pid : ∀ p, p < n → (k.pcbs p).pid = p
  rootPid : (k.pcbs 0).parentPid = -1
  rootPcb : (k.pcbs 0).parentPcb = none
  parentPid : ∀ p, p + 1 < n → (k.pcbs (p + 1)).parentPid = (p : Int)
  parentPcb : ∀ p, p + 1 < n → (k.pcbs (p + 1)).parentPcb = some p
  child : ∀ p, p + 1 < n → (k.pcbs p).childPcb = some (p + 1)
  top : (k.pcbs k.runningPid).childPcb = none
  currentTerminal : k.currentTerminal = 0
  terminalPid : ∀ t, (k.terminals t).pid = 0
  terminalRunning : ∀ t, (k.terminals t).running = decide (t = 0)

theorem Booted.chained (h : Booted fs k) : Chained 1 k := by
  have hs := h.spec
  refine ⟨by decide, by decide, hs.last, fun p => (hs.procs p).trans Nat.lt_one_iff.symm, ?_, ?_,
    ?_, fun p hp => ?_, hs.parentPid, hs.parentPcb, fun p hp => absurd hp (by omega),
    fun p hp => absurd hp (by omega), fun p hp => absurd hp (by omega), ?_, hs.currentTerminal,
    hs.terminals.pid, hs.terminals.running⟩
  · rw [hs.runningPid]
  · rw [hs.runningPid]
    exact hs.cr3
  · rw [hs.runningPid]
    exact hs.esp0
  · rw [Nat.lt_one_iff.mp hp]
    exact hs.pid
  · rw [hs.runningPid]
    exact hs.childPcb

theorem Chained.runs (h : Chained n k) : Runs k (n - 1) := by
  have hrun : k.runningPid = n - 1 := by
    have := h.running
    omega
  have hlt : n - 1 < 8 := by
    have := h.depth
    have := h.pos
    omega
  refine ⟨hrun, ?_, ?_⟩
  · rw [h.cr3, hrun]
  · rw [h.esp0, hrun, kernelStackTop_of_lt hlt]

/-- Every terminal has pid 0, so terminal 0 is the one found, for pid 0 only. -/
theorem Chained.terminalFromPid (h : Chained n k) (pid : Nat) :
    getTerminalFromPid k pid = if pid = 0 then some 0 else none := by
  unfold getTerminalFromPid
  simp only [h.terminalPid]
  by_cases hp : pid = 0
  · subst hp
    rfl
  · have hbeq : ((0 : Nat) == pid) = false := beq_eq_false_iff_ne.mpr fun he => hp he.symm
    rw [if_neg hp]
    unfold firstTerminal
    simp only [hbeq, Bool.false_eq_true, if_false]

/-- The walk up the parents decreases, and ends at process 1 with the root's terminal. -/
theorem Chained.terminal (h : Chained n k) : getRunningTerminal k = some (some 0) := by
  have hn := h.running
  have hd := h.depth
  unfold getRunningTerminal getCurrentPcb
  dsimp only
  rw [h.pid _ (by omega), h.terminalFromPid]
  by_cases hroot : k.runningPid = 0
  · rw [if_pos hroot]
  · rw [if_neg hroot]
    obtain ⟨r, hr⟩ : ∃ r, k.runningPid = r + 1 := ⟨k.runningPid - 1, by omega⟩
    dsimp only
    rw [hr, h.parentPcb r (by omega)]
    have hsearch : searchParents k (r + 1) = some 0 := by
      unfold searchParents
      refine Base.Chain.search_of_decreasing (R := fun a b => a < b) (fun a => Nat.lt_irrefl a)
        (fun a b c => Nat.lt_trans) (fun _ => 0) (Finset.Ioo 0 n) (fun a ha => ?_) ?_ ?_
      · obtain ⟨ha0, han⟩ := Finset.mem_Ioo.mp ha
        obtain ⟨p, rfl⟩ : ∃ p, a = p + 1 := ⟨a - 1, by omega⟩
        refine ⟨p, h.parentPcb p han, ?_⟩
        rw [h.parentPid p han, h.terminalFromPid]
        have hpid : (((p : Int) % (u32 : Int)).toNat = 0) ↔ p = 0 := by
          unfold u32
          omega
        by_cases hp : p = 0
        · exact Or.inl (if_pos (hpid.mpr hp))
        · exact Or.inr ⟨if_neg fun he => hp (hpid.mp he), Finset.mem_Ioo.mpr (by omega),
            Nat.lt_succ_self p, rfl⟩
      · rw [Nat.card_Ioo]
        omega
      · exact Finset.mem_Ioo.mpr (by omega)
    rw [hsearch]
    rfl

/-- A link leads to the neighbour, in both directions. -/
theorem Chained.inverse (h : Chained n k) {p q : Nat} (hp : p < n) (hq : q < n) :
    (k.pcbs p).parentPcb = some q ↔ (k.pcbs q).childPcb = some p := by
  have hn := h.running
  constructor
  · intro hparent
    obtain ⟨r, rfl⟩ : ∃ r, p = r + 1 := by
      rcases Nat.eq_zero_or_pos p with hp0 | hp0
      · rw [hp0, h.rootPcb] at hparent
        cases hparent
      · exact ⟨p - 1, by omega⟩
    rw [h.parentPcb r hp, Option.some.injEq] at hparent
    rw [← hparent]
    exact h.child r hp
  · intro hchild
    have hlow : q + 1 < n := by
      by_contra htop
      have hqtop : q = k.runningPid := by omega
      rw [hqtop, h.top] at hchild
      cases hchild
    rw [h.child q hlow, Option.some.injEq] at hchild
    rw [← hchild]
    exact h.parentPcb q hlow

/-! ## execute -/

/-- The lowest free PID is the next one. -/
theorem Chained.allocPid (h : Chained n k) (hn : n < 8) : allocPid k.procs = some n :=
  allocPid_eq hn (fun ht => Nat.lt_irrefl n ((h.procs n).mp ht)) fun q hq => (h.procs q).mpr hq

theorem Chained.allocPid_full (h : Chained 8 k) : Mp3Kernel.allocPid k.procs = none := by
  cases hpid : Mp3Kernel.allocPid k.procs with
  | none => rfl
  | some pid =>
    obtain ⟨hlt, hfree, -⟩ := allocPid_some hpid
    exact absurd ((h.procs pid).mpr hlt) hfree

/-- The new process goes on top of the chain. -/
theorem Chained.launched {pid : Nat} {t : Fin 3} (h : Chained n k) (hl : Launched k k' pid t) :
    Chained (n + 1) k' := by
  have hrun := h.running
  have hpidlt := hl.pid_lt
  have hpid : pid = n := by
    obtain ⟨-, hfree, hlow⟩ := allocPid_some hl.free
    rw [h.procs] at hfree
    rcases Nat.lt_trichotomy pid n with hlt | he | hgt
    · exact absurd hlt hfree
    · exact he
    · exact absurd ((h.procs n).mp (hlow n hgt)) (Nat.lt_irrefl n)
  have hcur : (k.terminals k.currentTerminal).running = true := by
    rw [h.currentTerminal, h.terminalRunning]
    rfl
  have hterms : k'.terminals = k.terminals := (hl.displayed hcur).2
  have hchild : pid ≠ (k'.terminals t).pid := by
    rw [hterms, h.terminalPid, hpid]
    have := h.pos
    omega
  obtain ⟨pcb, hpcbs, h1, h2, h3, h4⟩ := hl.child hchild (by omega) (h.pid _ (by omega))
  subst hpid
  -- three kinds of slot: the new process, its parent, the others
  have hnew : k'.pcbs pid = pcb := by
    rw [hpcbs, Function.update_of_ne (by omega), Function.update_self]
  have hparent : k'.pcbs k.runningPid =
      { k.pcbs k.runningPid with childPcb := some pid } := by
    rw [hpcbs, Function.update_self, Function.update_of_ne (by omega)]
  have hother : ∀ s, s ≠ pid → s ≠ k.runningPid → k'.pcbs s = k.pcbs s := by
    intro s hs hr
    rw [hpcbs, Function.update_of_ne hr, Function.update_of_ne hs]
  have hkept : ∀ s, s < pid → (k'.pcbs s).pid = (k.pcbs s).pid ∧
      (k'.pcbs s).parentPid = (k.pcbs s).parentPid ∧
      (k'.pcbs s).parentPcb = (k.pcbs s).parentPcb := by
    intro s hs
    by_cases hr : s = k.runningPid
    · rw [hr, hparent]
      exact ⟨rfl, rfl, rfl⟩
    · rw [hother s (by omega) hr]
      exact ⟨rfl, rfl, rfl⟩
  refine ⟨by omega, by omega, hl.paging.programPageLast h.last, fun p => ?_, by rw [hl.runningPid],
    ?_, ?_, fun p hp => ?_, ?_, ?_, fun p hp => ?_, fun p hp => ?_, fun p hp => ?_, ?_, ?_, ?_, ?_⟩
  · rw [hl.procs, pidBit_eq_slot, taken_or_slot hpidlt, h.procs]
    omega
  · rw [hl.paging.cr3, hl.paging.layout, hl.runningPid]
  · rw [hl.esp0, hl.runningPid]
  · rcases Nat.lt_or_eq_of_le (Nat.le_of_lt_succ hp) with hlt | rfl
    · rw [(hkept p hlt).1]
      exact h.pid p hlt
    · rw [hnew, h1]
  · rw [(hkept 0 h.pos).2.1]
    exact h.rootPid
  · rw [(hkept 0 h.pos).2.2]
    exact h.rootPcb
  · by_cases htop : p + 1 = pid
    · rw [htop, hnew, h2]
      omega
    · rw [(hkept (p + 1) (by omega)).2.1]
      exact h.parentPid p (by omega)
  · by_cases htop : p + 1 = pid
    · rw [htop, hnew, h3]
      exact congrArg some (by omega)
    · rw [(hkept (p + 1) (by omega)).2.2]
      exact h.parentPcb p (by omega)
  · by_cases htop : p = k.runningPid
    · rw [htop, hparent, hrun]
    · rw [hother p (by omega) htop]
      exact h.child p (by omega)
  · rw [hl.runningPid, hnew, h4]
  · rw [hl.currentTerminal]
    exact h.currentTerminal
  · rw [hterms]
    exact h.terminalPid
  · rw [hterms]
    exact h.terminalRunning

/-! ## halt -/

/-- The links and terminals `halt` finds its terminal by are still those of the chain. -/
theorem Chained.haltedTerminal {pcbs : Nat → Pcb} (h : Chained n k) (hp : HaltedPcbs k pcbs) :
    getRunningTerminal (haltedState k pcbs) = some (some 0) := by
  rw [← h.terminal]
  exact getRunningTerminal_congr rfl (fun _ => rfl) hp.pid hp.parentPid hp.parentPcb

/-- The top process is taken off the chain. -/
theorem Chained.halted {pcbs : Nat → Pcb} (h : Chained (n + 1) k) (hpos : 0 < n)
    (hp : HaltedPcbs k pcbs)
    (hr : ReturnedTo (freePid (haltedState k pcbs) (k.pcbs k.runningPid).pid) k' k.runningPid 0) :
    Chained n k' := by
  have hrun : k.runningPid = n := Nat.succ.inj h.running
  have hdepth := h.depth
  obtain ⟨m, rfl⟩ : ∃ m, n = m + 1 := ⟨n - 1, by omega⟩
  have hparent : (k.pcbs k.runningPid).parentPcb = some m := by
    rw [hrun]
    exact h.parentPcb m (by omega)
  have hpid : (k.pcbs k.runningPid).pid = m + 1 := by
    rw [hrun]
    exact h.pid _ (by omega)
  have hpp : (pcbs k.runningPid).parentPid = (m : Int) := by
    rw [hp.parentPid, hrun]
    exact h.parentPid m (by omega)
  have hesp : k'.esp0 = kernelStackTop (m : Int) := hr.esp0.trans (congrArg kernelStackTop hpp)
  have hrunning : k'.runningPid = m := by
    refine hr.runningPid.trans ((congrArg (fun i : Int => (i % 256).toNat) hpp).trans ?_)
    omega
  obtain ⟨ret, hpcbs⟩ := hr.pcbs
  have hkept : ∀ s, s < m + 1 → k'.pcbs s = pcbs s := by
    intro s hs
    rw [hpcbs, Function.update_of_ne (by omega)]
    rfl
  have hterms : ∀ t, (k'.terminals t).pid = 0 ∧ (k'.terminals t).running = decide (t = 0) := by
    rw [hr.terminals]
    rw [Function.forall_update_iff _ fun t (a : Terminal) => a.pid = 0 ∧ a.running = decide (t = 0)]
    exact ⟨⟨h.terminalPid 0, h.terminalRunning 0⟩,
      fun t _ => ⟨h.terminalPid t, h.terminalRunning t⟩⟩
  have hpaging : k'.paging = (removeTaskPgdir k.paging
      ((pcbs k.runningPid).pid % 256)).loadCr3 (getCurrentPcb k').pid := hr.paging
  have hprocs : k'.procs = k.procs &&& ~~~(pidBit (k.pcbs k.runningPid).pid) := hr.procs
  refine ⟨by omega, by omega, ?_, fun p => ?_, by rw [hrunning], ?_, ?_, fun p hlt => ?_, ?_, ?_,
    fun p hlt => ?_, fun p hlt => ?_, fun p hlt => ?_, ?_, hr.currentTerminal.trans h.currentTerminal,
    fun t => (hterms t).1, fun t => (hterms t).2⟩
  · intro proc hlt
    rw [hpaging, Paging.loadCr3_pgdir, removeTaskPgdir_afterProgram]
    exact h.last proc hlt
  · rw [hprocs, pidBit_eq_slot, hpid, taken_andNot_slot (by omega), h.procs]
    omega
  · rw [hpaging]
    unfold getCurrentPcb
    have hm : (pcbs m).pid = m := (hp.pid m).trans (h.pid m (by omega))
    rw [hrunning, hkept m (by omega), hm]
    rfl
  · rw [hesp, hrunning]
  · rw [hkept p hlt, hp.pid]
    exact h.pid p (by omega)
  · rw [hkept 0 (by omega), hp.parentPid]
    exact h.rootPid
  · rw [hkept 0 (by omega), hp.parentPcb]
    exact h.rootPcb
  · rw [hkept (p + 1) hlt, hp.parentPid]
    exact h.parentPid p (by omega)
  · rw [hkept (p + 1) hlt, hp.parentPcb]
    exact h.parentPcb p (by omega)
  · have hne : (k.pcbs k.runningPid).parentPcb ≠ some p := by
      rw [hparent]
      intro he
      have := Option.some.inj he
      omega
    rw [hkept p (by omega), hp.childOther p hne]
    exact h.child p (by omega)
  · rw [hrunning, hkept m (by omega)]
    exact hp.childOfParent m hparent

/-- What a root shell's halt leaves for the next shell. -/
def bareState (k : Kernel) (pcbs : Nat → Pcb) : Kernel :=
  stopTerminal (freePid (haltedState k pcbs) 0) 0

theorem Chained.bare_procs (h : Chained 1 k) (pcbs : Nat → Pcb) (p : Nat) :
    ¬ Taken (bareState k pcbs).procs p := by
  show ¬ Taken (k.procs &&& ~~~(pidBit 0)) p
  rw [pidBit_eq_slot, taken_andNot_slot (by decide), h.procs]
  omega

theorem Chained.bare_terminals (h : Chained 1 k) (pcbs : Nat → Pcb) (t : Fin 3) :
    ((bareState k pcbs).terminals t).pid = 0 ∧ ((bareState k pcbs).terminals t).running = false := by
  revert t
  show ∀ t, (Function.update k.terminals k.currentTerminal _ t).pid = 0 ∧
    (Function.update k.terminals k.currentTerminal _ t).running = false
  rw [Function.forall_update_iff _ fun t (a : Terminal) => a.pid = 0 ∧ a.running = false]
  refine ⟨⟨h.terminalPid _, rfl⟩, fun t ht => ⟨h.terminalPid t, ?_⟩⟩
  rw [h.currentTerminal] at ht
  rw [h.terminalRunning, decide_eq_false ht]

/-- The root shell gives its place to another shell: PID 0 on terminal 0 again. -/
theorem Chained.relaunched {pcbs : Nat → Pcb} {pid : Nat} {t : Fin 3} (h : Chained 1 k)
    (hl : Launched (bareState k pcbs) k' pid t) : Chained 1 k' := by
  have hpid : pid = 0 := by
    obtain ⟨-, -, hlow⟩ := allocPid_some hl.free
    rcases Nat.eq_zero_or_pos pid with h0 | hpos
    · exact h0
    · exact absurd (hlow 0 hpos) (h.bare_procs pcbs 0)
  subst hpid
  have hstopped : ∀ t, ((bareState k pcbs).terminals t).running = false :=
    fun t => (h.bare_terminals pcbs t).2
  obtain rfl : t = 0 :=
    hl.first (hstopped _) (hstopped 0) fun v hv => absurd hv (Nat.not_lt_zero v)
  have hterms : ∀ t, (k'.terminals t).pid = 0 ∧ (k'.terminals t).running = decide (t = 0) := by
    rw [(hl.stopped (hstopped _)).2.2,
      Function.forall_update_iff _ fun t (a : Terminal) => a.pid = 0 ∧ a.running = decide (t = 0)]
    refine ⟨⟨rfl, rfl⟩, fun t hne => ⟨(h.bare_terminals pcbs t).1, ?_⟩⟩
    rw [(h.bare_terminals pcbs t).2, decide_eq_false hne]
  obtain ⟨pcb, hpcbs, h1, h2, h3, h4⟩ := hl.root (hterms 0).1.symm
  have hpcb : k'.pcbs 0 = pcb := by
    rw [hpcbs, Function.update_self]
  have hbare : ProgramPageLast (bareState k pcbs).paging := h.last
  refine ⟨by decide, by decide, hl.paging.programPageLast hbare, fun p => ?_, ?_, ?_, ?_,
    fun p hp => ?_, ?_, ?_, fun p hp => absurd hp (by omega), fun p hp => absurd hp (by omega),
    fun p hp => absurd hp (by omega), ?_, hl.currentTerminal.trans h.currentTerminal,
    fun t => (hterms t).1, fun t => (hterms t).2⟩
  · rw [hl.procs, pidBit_eq_slot, taken_or_slot (by decide)]
    have hbits := h.bare_procs pcbs p
    exact ⟨fun hp => Nat.lt_one_iff.mpr (hp.resolve_left hbits), fun hp =>
      Or.inr (Nat.lt_one_iff.mp hp)⟩
  · rw [hl.runningPid]
  · rw [hl.paging.cr3, hl.paging.layout, hl.runningPid]
  · rw [hl.esp0, hl.runningPid]
  · rw [Nat.lt_one_iff.mp hp, hpcb, h1]
  · rw [hpcb, h2]
  · rw [hpcb, h3]
  · rw [hl.runningPid, hpcb, h4]

/-- A halt above the root always comes back, to the process below. -/
theorem Chained.halt_top (fs : Image) (h : Chained (n + 1) k) (hpos : 0 < n) (status : UInt8)
    (esp ebp : Nat) :
    ∃ k', halt fs k status esp ebp = some k' ∧ Chained n k' := by
  obtain ⟨pcbs, hstate, hp⟩ := closeUnlinked_spec k
  have hrun : k.runningPid = n := Nat.succ.inj h.running
  have hparent : (k.pcbs k.runningPid).parentPid ≠ -1 := by
    obtain ⟨m, rfl⟩ : ∃ m, n = m + 1 := ⟨n - 1, by omega⟩
    rw [hrun, h.parentPid m (by omega)]
    omega
  refine ⟨_, halt_of_parent hstate hp (h.haltedTerminal hp) hparent, ?_⟩
  exact h.halted hpos hp (resumeParent_spec _ _ _ _)

/-- At the root it starts another shell. -/
theorem Chained.halt_root (hshell : Launchable fs shellCmd) (h : Chained 1 k) (status : UInt8)
    (esp ebp : Nat) : ∃ k', halt fs k status esp ebp = some k' ∧ Chained 1 k' := by
  obtain ⟨pcbs, hstate, hp⟩ := closeUnlinked_spec k
  have hrun : k.runningPid = 0 := Nat.succ.inj h.running
  have hpid : (k.pcbs k.runningPid).pid = 0 := by
    rw [hrun]
    exact h.pid 0 (by decide)
  have hroot : (k.pcbs k.runningPid).parentPid = -1 := by
    rw [hrun]
    exact h.rootPid
  have hfree : Mp3Kernel.allocPid (bareState k pcbs).procs = some 0 :=
    allocPid_eq (by decide) (h.bare_procs pcbs 0) fun q hq => absurd hq (Nat.not_lt_zero q)
  have hlast : ProgramPageLast (bareState k pcbs).paging := h.last
  obtain ⟨k', entry, hexec⟩ := execute_of_launchable hshell hlast hfree esp ebp
  obtain ⟨⟨pid, t, hl⟩, -⟩ := launched_of_execute hexec
  refine ⟨k', ?_, h.relaunched hl⟩
  refine halt_of_root hstate hp (h.haltedTerminal hp) hroot (?_ : _ = ExecResult.launched k' entry)
  rw [hpid]
  exact hexec

/-! ## Every run -/

/-- The callers are the processes below the running one. -/
structure Stacked (s : Kernel × Callers) : Prop where
  chained : Chained (s.2.length + 1) s.1
  callers : s.2 = (List.range s.2.length).reverse

theorem Stacked.caller {c : Nat} {cs : Callers} (h : Stacked (k, c :: cs)) : c = cs.length := by
  have hcallers := h.callers
  rw [List.length_cons, List.range_succ, List.reverse_concat] at hcallers
  exact (List.cons.inj hcallers).1

theorem Stacked.discipline {s : Kernel × Callers} (hshell : Launchable fs shellCmd)
    (h : Stacked s) : StackDiscipline fs s := by
  obtain ⟨k, cs⟩ := s
  have hc := h.chained
  refine ⟨hc.depth, hc.procs, hc.runs, fun p hp => hc.parentPcb p (by omega),
    fun p q hp hq => hc.inverse hp hq, fun p hp => ?_, hc.terminal, fun hfull ucmd esp ebp hne => ?_,
    fun c cs' hcs status esp ebp => ?_, fun hnil status esp ebp => ?_⟩
  · constructor
    · intro hroot
      by_contra hpos
      obtain ⟨q, rfl⟩ : ∃ q, p = q + 1 := ⟨p - 1, by omega⟩
      rw [hc.parentPid q hp] at hroot
      omega
    · intro h0
      rw [h0]
      exact hc.rootPid
  · cases ucmd with
    | none => rfl
    | some cmd =>
      have hshort : (parseCmd cmd).overrun = false := by
        by_contra hover
        rw [Bool.not_eq_false] at hover
        refine hne ?_
        unfold execute
        dsimp only
        rw [if_pos hover]
      dsimp only at hc hfull
      rw [hfull] at hc
      exact execute_no_pid hshort hc.allocPid_full
  · dsimp only at hcs
    subst hcs
    have hcaller := h.caller
    obtain ⟨k', hhalt, hk'⟩ := hc.halt_top fs (Nat.succ_pos cs'.length) status esp ebp
    refine ⟨k', hhalt, ?_⟩
    rw [hcaller]
    exact hk'.runs
  · dsimp only at hnil
    subst hnil
    obtain ⟨k', hhalt, hk'⟩ := hc.halt_root hshell status esp ebp
    exact ⟨k', hhalt, hk'.runs⟩

theorem stacked_step {s s' : Kernel × Callers} {c : Call} (hshell : Launchable fs shellCmd)
    (h : Stacked s) (hclean : CleanCall fs s c) (hstep : callStep fs s c = some s') :
    Stacked s' := by
  obtain ⟨k, cs⟩ := s
  have hc := h.chained
  have hcallers := h.callers
  dsimp only at hc hcallers
  obtain ⟨k', hk', rfl⟩ := Option.map_eq_some_iff.mp hstep
  cases c with
  | execute ucmd esp ebp =>
    cases hexec : execute fs k ucmd esp ebp with
    | fault =>
      rw [show step fs k _ = (execute fs k ucmd esp ebp).state from rfl, hexec] at hk'
      cases hk'
    | failed k1 =>
      rw [show step fs k _ = (execute fs k ucmd esp ebp).state from rfl, hexec] at hk'
      obtain rfl := Option.some.inj hk'
      have hsame : k1 = k := execute_failed_eq hc.last hclean hexec
      unfold nextCallers
      dsimp only
      rw [hexec, hsame]
      exact h
    | launched k1 entry =>
      rw [show step fs k _ = (execute fs k ucmd esp ebp).state from rfl, hexec] at hk'
      obtain rfl := Option.some.inj hk'
      obtain ⟨⟨pid, t, hl⟩, -⟩ := launched_of_execute hexec
      have hrun : k.runningPid = cs.length := Nat.succ.inj hc.running
      unfold nextCallers
      dsimp only
      rw [hexec]
      refine ⟨hc.launched hl, ?_⟩
      dsimp only
      rw [List.length_cons, List.range_succ, List.reverse_concat, hrun, ← hcallers]
  | halt status esp ebp =>
    cases cs with
    | nil =>
      obtain ⟨k1, hhalt, hk1⟩ := hc.halt_root hshell status esp ebp
      obtain rfl := Option.some.inj (hhalt.symm.trans hk')
      exact ⟨hk1, rfl⟩
    | cons c cs =>
      obtain ⟨k1, hhalt, hk1⟩ := hc.halt_top fs (Nat.succ_pos cs.length) status esp ebp
      obtain rfl := Option.some.inj (hhalt.symm.trans hk')
      rw [List.length_cons, List.range_succ, List.reverse_concat] at hcallers
      exact ⟨hk1, (List.cons.inj hcallers).2⟩

/-- In every state of every run of calls from boot whose executes launch or fail before a PID
    is taken. That the shell can be launched is part of `Booted`. -/
theorem stack_discipline (fs : Image) (k : Kernel) (calls : List Call) (hk : Booted fs k)
    (hcalls : AllSteps (callStep fs) (CleanCall fs) (k, []) calls) :
    AllStates (callStep fs) (StackDiscipline fs) (k, []) calls := by
  have hinv : AllStates (callStep fs) Stacked (k, []) calls :=
    allStates_of_allSteps (fun s c t hs hG ht => stacked_step hk.launchable hs hG ht)
      ⟨hk.chained, rfl⟩ hcalls
  exact hinv.imp fun t ht => ht.discipline hk.launchable

/-- "shell" three times, so that three processes nest, and two halts. -/
theorem stack_discipline_shells : ∃ k, Booted smallImage k ∧
    AllStates (callStep smallImage) (StackDiscipline smallImage) (k, [])
      [.execute (some shellCmd) 0 0, .execute (some shellCmd) 0 0, .halt 0 0 0, .halt 0 0 0] := by
  obtain ⟨k, hk⟩ := booted_smallImage
  have hclean : ∀ (s : Kernel × Callers), CleanCall smallImage s (.execute (some shellCmd) 0 0) :=
    fun s => launchable_smallImage.not_failsWithPid s.1.procs
  exact ⟨k, hk, stack_discipline smallImage k _ hk fun s1 _ => ⟨hclean _, fun s2 _ => ⟨hclean _,
    fun s3 _ => ⟨trivial, fun s4 _ => ⟨trivial, trivial⟩⟩⟩⟩⟩

end Mp3Kernel
