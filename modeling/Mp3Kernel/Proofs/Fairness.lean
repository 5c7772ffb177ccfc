/-
  The scheduler starves no terminal.

  Its counter goes round the terminals that have been displayed once; nothing but a tick moves
  it, and no operation takes a terminal out again (`SameTurn`). So the terminals the ticks of a
  run turn to are the turns of a round-robin choice, and `scheduler_fair` is what that gives:
  three ticks reach each of them, and before a terminal gets its turn no other has two.
-/
import Mp3Kernel.Base.RoundRobin
import Mp3Kernel.Proofs.Events
import Mp3Kernel.Proofs.Relaunch
import Mp3Kernel.Proofs.Vidmap

namespace Mp3Kernel

open Base.Runs Base.RoundRobin

variable {fs : Image} {k k' : Kernel}

def Op.isTick : Op → Bool
  | .tick _ _ => true
  | _ => false

/-- The terminals the ticks of a run turn to. -/
def turns (fs : Image) : Kernel → List Op → List (Fin 3)
  | _, [] => []
  | k, op :: ops =>
    match step fs k op with
    | none => []
    | some k' =>
      if op.isTick then k'.currentSchedule :: turns fs k' ops else turns fs k' ops

/-- The terminals the scheduler goes round. -/
def InTurn (k : Kernel) (t : Fin 3) : Prop := (k.terminals t).status = .running

/-- What decides whose turn is next. -/
structure SameTurn (k k' : Kernel) : Prop where
  scheduleCounter : k'.scheduleCounter = k.scheduleCounter
  currentSchedule : k'.currentSchedule = k.currentSchedule
  currentTerminal : k'.currentTerminal = k.currentTerminal
  status : ∀ t, (k'.terminals t).status = (k.terminals t).status

theorem SameTurn.refl (k : Kernel) : SameTurn k k := ⟨rfl, rfl, rfl, fun _ => rfl⟩

theorem SameTurn.trans {k'' : Kernel} (h : SameTurn k k') (h' : SameTurn k' k'') :
    SameTurn k k'' :=
  ⟨h'.scheduleCounter.trans h.scheduleCounter,
    h'.currentSchedule.trans h.currentSchedule, h'.currentTerminal.trans h.currentTerminal,
    fun t => (h'.status t).trans (h.status t)⟩

theorem Frame.sameTurn (h : Frame k k') : SameTurn k k' :=
  ⟨h.scheduleCounter, h.currentSchedule, h.currentTerminal, fun t => (h.terminals t).status⟩

theorem status_update (terms : Fin 3 → Terminal) (t : Fin 3) {term : Terminal}
    (h : term.status = (terms t).status) (u : Fin 3) :
    (Function.update terms t term u).status = (terms u).status := by
  revert u
  rw [Function.forall_update_iff terms fun u a => a.status = (terms u).status]
  exact ⟨h, fun _ _ => rfl⟩

/-! ## Everything but a tick -/

theorem Launched.sameTurn {pid : Nat} {t : Fin 3} (h : Launched k k' pid t) : SameTurn k k' := by
  refine ⟨h.scheduleCounter, h.currentSchedule, h.currentTerminal, fun u => ?_⟩
  rw [h.terminals]
  unfold boundTerminals
  split
  · rfl
  · apply status_update
    rfl

theorem ReturnedTo.sameTurn {slot : Nat} {t : Fin 3} (h : ReturnedTo k k' slot t) :
    SameTurn k k' := by
  refine ⟨h.scheduleCounter, h.currentSchedule, h.currentTerminal, fun u => ?_⟩
  rw [h.terminals]
  apply status_update
  rfl

theorem sameTurn_execute {ucmd : Option CString} {esp ebp : Nat}
    (h : (execute fs k ucmd esp ebp).state = some k') : SameTurn k k' := by
  cases hres : execute fs k ucmd esp ebp with
  | fault =>
    rw [hres] at h
    cases h
  | launched k2 entry =>
    rw [hres] at h
    obtain rfl := Option.some.inj h
    obtain ⟨⟨pid, t, hl⟩, -⟩ := launched_of_execute hres
    exact hl.sameTurn
  | failed k2 =>
    rw [hres] at h
    obtain rfl := Option.some.inj h
    rcases execute_failed hres with rfl | ⟨cmd, pid, -, -, -, -, ⟨rfl, -⟩ | ⟨p, mem, -, rfl, -⟩⟩
    · exact SameTurn.refl _
    · exact ⟨rfl, rfl, rfl, fun _ => rfl⟩
    · exact ⟨rfl, rfl, rfl, fun _ => rfl⟩

theorem sameTurn_stopTerminal (k : Kernel) (t : Fin 3) : SameTurn k (stopTerminal k t) := by
  refine ⟨rfl, rfl, rfl, fun u => ?_⟩
  unfold stopTerminal
  dsimp only [setTerminal_terminals]
  apply status_update
  rfl

theorem sameTurn_halt {status : UInt8} {esp ebp : Nat} (h : halt fs k status esp ebp = some k') :
    SameTurn k k' := by
  obtain ⟨pcbs, t, -, -, hcase⟩ := halt_cases h
  have hfree : SameTurn k (freePid (haltedState k pcbs) (k.pcbs k.runningPid).pid) :=
    ⟨rfl, rfl, rfl, fun _ => rfl⟩
  rcases hcase with ⟨-, entry, hexec⟩ | ⟨-, rfl⟩
  · obtain ⟨⟨pid, u, hl⟩, -⟩ := launched_of_execute hexec
    exact hfree.trans ((sameTurn_stopTerminal _ t).trans hl.sameTurn)
  · exact hfree.trans (resumeParent_spec _ _ _ _).sameTurn

theorem sameTurn_vidmap {screenStart : Nat} {ret : Int}
    (h : vidmap k screenStart = some (ret, k')) : SameTurn k k' := by
  obtain ⟨-, hf⟩ | ⟨k1, t, hf, -, hf'⟩ := vidmap_cases h
  · exact hf.sameTurn
  · have hset : SameTurn k1 (k1.setTerminal t { k1.terminals t with vidmap := true }) :=
      ⟨rfl, rfl, rfl, status_update k1.terminals t rfl⟩
    exact hf.sameTurn.trans (hset.trans hf'.sameTurn)

theorem sameTurn_step {op : Op} (hop : op.isTick = false) (h : step fs k op = some k') :
    SameTurn k k' := by
  cases op with
  | execute ucmd esp ebp => exact sameTurn_execute h
  | halt status esp ebp => exact sameTurn_halt h
  | exception esp ebp =>
    have hmark : SameTurn k { k with programExceptionOccured := true } :=
      ⟨rfl, rfl, rfl, fun _ => rfl⟩
    exact hmark.trans (sameTurn_halt h)
  | tick esp ebp => cases hop
  | request t =>
    obtain rfl := Option.some.inj h
    exact ⟨rfl, rfl, rfl, fun _ => rfl⟩
  | vidmap screenStart =>
    obtain ⟨⟨ret, k2⟩, hvid, rfl⟩ := Option.map_eq_some_iff.mp h
    exact sameTurn_vidmap hvid
  | putc c => exact (frame_putc h).sameTurn
  | clear => exact (frame_clear h).sameTurn

/-! ## A tick -/

/-- Its loop stops at the first such terminal after the counter. -/
theorem next_of_nextSchedule {t : Fin 3} (h : nextSchedule k = some t) :
    Next (InTurn k) k.scheduleCounter t := by
  have hahead : ∀ c : Fin 3, ahead c (c + 1) = 1 ∧ ahead c (c + 2) = 2 ∧ ahead c c = 3 := by
    decide
  have hall : ∀ c u : Fin 3, u = c + 1 ∨ u = c + 2 ∨ u = c := by decide
  obtain ⟨h1, h2, h3⟩ := hahead k.scheduleCounter
  unfold nextSchedule at h
  dsimp only at h
  split at h
  · rename_i hs1
    obtain rfl := Option.some.inj h
    exact ⟨hs1, fun u _ => by rw [h1]; exact ahead_pos _ _⟩
  split at h
  · rename_i hs1 hs2
    obtain rfl := Option.some.inj h
    refine ⟨hs2, fun u hu => ?_⟩
    rcases hall k.scheduleCounter u with rfl | rfl | rfl
    · exact absurd hu hs1
    · exact Nat.le_refl _
    · rw [h2, h3]
      exact Nat.le_succ 2
  split at h
  · rename_i hs1 hs2 hs3
    obtain rfl := Option.some.inj h
    refine ⟨hs3, fun u hu => ?_⟩
    rcases hall k.scheduleCounter u with rfl | rfl | rfl
    · exact absurd hu hs1
    · exact absurd hu hs2
    · exact Nat.le_refl _
  · cases h

theorem nextSchedule_isSome {t : Fin 3} (h : InTurn k t) : ∃ u, nextSchedule k = some u := by
  have hall : ∀ c u : Fin 3, u = c + 1 ∨ u = c + 2 ∨ u = c := by decide
  unfold nextSchedule
  dsimp only
  split
  · exact ⟨_, rfl⟩
  split
  · exact ⟨_, rfl⟩
  · rename_i h1 h2
    rcases hall k.scheduleCounter t with rfl | rfl | rfl
    · exact absurd h h1
    · exact absurd h h2
    · exact ⟨_, if_pos h⟩

/-- What a tick does to the turns. -/
structure TurnTaken (k k' : Kernel) : Prop where
  counter : k'.scheduleCounter = k'.currentSchedule
  displayed : k'.currentTerminal = displayedAfter k
  inTurn : ∀ t, InTurn k' t ↔ Shown k t
  next : Next (InTurn k') k.scheduleCounter k'.currentSchedule

theorem turnTaken_of_tick {esp ebp : Nat} (h : irqhPit fs k esp ebp = some k') : TurnTaken k k' := by
  obtain ⟨k1, t, hswitch, hnext, hcase⟩ := irqhPit_cases h
  have hs := switched_of_pendingSwitch hswitch
  have hfirst := next_of_nextSchedule hnext
  rw [hs.scheduleCounter] at hfirst
  have htaken : k'.scheduleCounter = t ∧ k'.currentSchedule = t ∧
      k'.currentTerminal = k1.currentTerminal ∧ ∀ u, InTurn k' u ↔ InTurn k1 u := by
    rcases hcase with ⟨hsame, rfl⟩ | ⟨-, -, e, -, rfl⟩ | ⟨-, -, hexec⟩
    · exact ⟨rfl, hsame.symm, rfl, fun _ => Iff.rfl⟩
    · have hr := resumeProcess_spec (scheduledState k1 t esp ebp) e
      refine ⟨hr.scheduleCounter, hr.currentSchedule, hr.currentTerminal, fun u => ?_⟩
      unfold InTurn
      rw [hr.terminals]
      rfl
    · have hsame := sameTurn_execute hexec
      refine ⟨hsame.scheduleCounter, hsame.currentSchedule, hsame.currentTerminal, fun u => ?_⟩
      unfold InTurn
      rw [hsame.status]
      rfl
  obtain ⟨hcounter, hschedule, hdisplayed, hstarted⟩ := htaken
  have hready : InTurn k' = InTurn k1 := funext fun u => propext (hstarted u)
  refine ⟨hcounter.trans hschedule.symm, hdisplayed.trans hs.currentTerminal,
    fun u => (hstarted u).trans (hs.status u), ?_⟩
  rw [hschedule, hready]
  exact hfirst

/-! ## Runs -/

theorem turns_tick {esp ebp : Nat} (h : irqhPit fs k esp ebp = some k') (ops : List Op) :
    turns fs k (.tick esp ebp :: ops) = k'.currentSchedule :: turns fs k' ops := by
  have hstep : step fs k (.tick esp ebp) = some k' := h
  simp only [turns, hstep, Op.isTick, if_true]

theorem turns_other {op : Op} (hop : op.isTick = false) (h : step fs k op = some k')
    (ops : List Op) : turns fs k (op :: ops) = turns fs k' ops := by
  simp only [turns, h, hop, Bool.false_eq_true, if_false]

theorem turns_none {op : Op} (h : step fs k op = none) (ops : List Op) :
    turns fs k (op :: ops) = [] := by
  simp only [turns, h]

/-- The ticks of a run are the turns of a round-robin choice. -/
theorem turns_roundRobin (fs : Image) (k : Kernel) (ops : List Op) :
    Turns (InTurn k) k.scheduleCounter (turns fs k ops) := by
  induction ops generalizing k with
  | nil => trivial
  | cons op ops ih =>
    cases hstep : step fs k op with
    | none =>
      rw [turns_none hstep]
      trivial
    | some k' =>
      cases htick : op.isTick with
      | false =>
        have hsame := sameTurn_step htick hstep
        rw [turns_other htick hstep, ← hsame.scheduleCounter]
        refine (ih k').weaken fun t ht => ?_
        exact (hsame.status t).trans ht
      | true =>
        cases op with
        | tick esp ebp =>
          have htaken := turnTaken_of_tick hstep
          have hrest := ih k'
          rw [htaken.counter] at hrest
          rw [turns_tick hstep]
          exact ⟨InTurn k', fun t ht => (htaken.inTurn t).mpr (Or.inl ht), htaken.next, hrest⟩
        | _ => cases htick

/-- The displayed terminal is one of those the scheduler goes round. -/
theorem inTurn_step {op : Op} (hk : InTurn k k.currentTerminal) (h : step fs k op = some k') :
    InTurn k' k'.currentTerminal := by
  cases htick : op.isTick with
  | false =>
    have hsame := sameTurn_step htick h
    rw [hsame.currentTerminal]
    exact (hsame.status _).trans hk
  | true =>
    cases op with
    | tick esp ebp =>
      have htaken := turnTaken_of_tick h
      rw [htaken.displayed, htaken.inTurn]
      exact shown_displayedAfter hk
    | _ => cases htick

theorem Reachable.inTurn (hk : Reachable fs k) : InTurn k k.currentTerminal := by
  obtain ⟨k0, ops, hboot, hrun⟩ := hk
  have h0 : InTurn k0 k0.currentTerminal := hboot.screens.started
  have hall : AllStates (step fs) (fun k => InTurn k k.currentTerminal) k0 ops :=
    allStates_of_invariant (fun _ _ _ hs ht => inTurn_step hs ht) h0 ops
  exact (allStates_iff_reached k0 ops).mp hall ops k (List.prefix_refl ops) hrun

/-- In every state the system reaches, the loop that looks for the next terminal ends. From
    there on, three ticks reach every terminal that has been displayed, whatever else happens
    between them, and while one waits for its turn no other gets two. -/
theorem scheduler_fair (fs : Image) (k : Kernel) (ops : List Op) (hk : Reachable fs k) :
    (∀ k1, pendingSwitch k = some k1 → ∃ t, nextSchedule k1 = some t) ∧
      ∀ t, (k.terminals t).status = .running →
        (3 ≤ (turns fs k ops).length → t ∈ turns fs k ops) ∧
          (t ∉ turns fs k ops → (turns fs k ops).Nodup) := by
  have hturns := turns_roundRobin fs k ops
  refine ⟨fun k1 hswitch => ?_, fun t ht => ⟨fun hlen => ?_, fun hnot => ?_⟩⟩
  · have hs := switched_of_pendingSwitch hswitch
    have hshown : InTurn k1 k1.currentTerminal := by
      rw [hs.currentTerminal]
      exact (hs.status _).mpr (shown_displayedAfter hk.inTurn)
    exact nextSchedule_isSome hshown
  · exact hturns.reaches ht ((ahead_le k.scheduleCounter t).trans hlen)
  · exact hturns.nodup ht hnot

theorem scheduler_fair_boot : ∃ k, Reachable smallImage k ∧
    (∀ k1, pendingSwitch k = some k1 → ∃ t, nextSchedule k1 = some t) ∧
      ∀ t, (k.terminals t).status = .running →
        (3 ≤ (turns smallImage k threeShells).length → t ∈ turns smallImage k threeShells) ∧
          (t ∉ turns smallImage k threeShells → (turns smallImage k threeShells).Nodup) := by
  obtain ⟨k, hk⟩ := booted_smallImage
  have hreach : Reachable smallImage k := ⟨k, [], hk, rfl⟩
  exact ⟨k, hreach, scheduler_fair smallImage k threeShells hreach⟩

end Mp3Kernel
