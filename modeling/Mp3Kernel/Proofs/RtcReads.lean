/-
  An `rtc_read` waits for a whole virtual period, unless an interrupt comes while it starts.

  `rtc_read` clears its flag and then its count, and an interrupt computes the flag anew from
  the count: one that comes between the two stores can set the flag from an old count
  (`rtc_read_early`), and one before the second store is not counted. The product of frequency
  and count is a u32 and wraps.

  `rtc_waits_period`: in a run in which no interrupt comes before the second store and no
  product wraps, the loop can exit in exactly the states in which the interrupts of a virtual
  period have been delivered since the call.
-/
import Mp3Kernel.Proofs.Rates

namespace Mp3Kernel

open Base.Runs

variable {k k' : Kernel} {c c' : Clock} {t u : Fin 3}

/-! ## The property -/

/-- The read is one of terminal `t`. -/
def RtcReader.On (t : Fin 3) : RtcReader → Prop
  | .idle => False
  | .clearFlag u => u = t
  | .clearCount u => u = t
  | .spin u => u = t

/-- Of a terminal with a real frequency of 1024 and a valid rate, a loop can exit exactly if
    the interrupts of one virtual period have been delivered. -/
def WaitsPeriod (c : Clock) : Prop :=
  ∀ pid t, c.readers pid = .spin t → (c.kernel.terminals t).rtc.realFreq = 1024 →
    ValidRate (c.kernel.terminals t).rtc (c.kernel.terminals t).rtc.virtFreq →
      ((c.kernel.terminals t).rtc.flag = true ↔
        1024 / (c.kernel.terminals t).rtc.virtFreq ≤ c.delivered pid)

/-- While a process of a terminal is in `rtc_read`, no other process of the terminal uses its
    clock. -/
def ClockAlone (c : Clock) : ClockOp → Prop
  | .rtcOpen | .rtcWrite _ _ | .rtcRead =>
    ∀ t, getRunningTerminal c.kernel = some (some t) → ∀ pid, ¬ (c.readers pid).On t
  | _ => True

/-- No interrupt comes while an `rtc_read` has still to clear its count, and the product of no
    waiting one wraps. -/
def Undisturbed (c : Clock) : ClockOp → Prop
  | .irq => ∀ pid t, c.readers pid ≠ .clearFlag t ∧ c.readers pid ≠ .clearCount t ∧
      (c.readers pid = .spin t →
        (c.kernel.terminals t).rtc.virtFreq * (c.delivered pid + 1) < u32)
  | _ => True

/-! ## The invariant -/

/-- What holds of a clock while a process waits for it. -/
def WaitOk (rtc : VirtualRtc) (delivered : Nat) : RtcReader → Prop
  | .idle => True
  | .clearFlag _ => delivered = 0
  | .clearCount _ => delivered = 0 ∧ rtc.flag = false
  | .spin _ => rtc.intCount = delivered % u32 ∧
      (rtc.flag = true ↔ 0 < delivered ∧ rtc.realFreq ≤ rtc.virtFreq * delivered)

structure Waits (c : Clock) : Prop where
  pids : ∀ t, (c.kernel.terminals t).pid < pidCount
  one : ∀ p q t, (c.readers p).On t → (c.readers q).On t → p = q
  ok : ∀ pid t, (c.readers pid).On t → Clocked c.kernel t ∧
    WaitOk (c.kernel.terminals t).rtc (c.delivered pid) (c.readers pid)

theorem RtcReader.on_unique {reader : RtcReader} (h : reader.On t) (h' : reader.On u) : u = t := by
  cases reader with
  | idle => exact h.elim
  | clearFlag v => exact h'.symm.trans h
  | clearCount v => exact h'.symm.trans h
  | spin v => exact h'.symm.trans h

theorem SameChains.clocked (h : SameChains k k') (hc : Clocked k t) : Clocked k' t := by
  unfold Clocked
  rw [h.pid, h.terminalFromPid]
  exact hc

/-- The search only finds terminals an interrupt gets to. -/
theorem clocked_of_runningTerminal (hpids : ∀ t, (k.terminals t).pid < pidCount)
    (h : getRunningTerminal k = some (some t)) : Clocked k t := by
  have hfound : ∃ pid, getTerminalFromPid k pid = some t := by
    unfold getRunningTerminal at h
    dsimp only at h
    split at h
    · rename_i term hterm
      exact ⟨_, hterm.trans (Option.some.inj h)⟩
    · split at h
      · cases h
      · obtain ⟨u, hsearch, hu⟩ := Option.map_eq_some_iff.mp h
        obtain rfl := Option.some.inj hu
        obtain ⟨s, hs⟩ := Base.Chain.search_found hsearch
        exact ⟨_, hs⟩
  obtain ⟨pid, hpid⟩ := hfound
  refine ⟨hpids t, ?_⟩
  rw [getTerminalFromPid_pid hpid]
  exact hpid

/-- A step that changes no clock a process waits for. -/
theorem Waits.of_same (h : Waits c) (hsame : SameChains c.kernel c'.kernel)
    (hreaders : c'.readers = c.readers) (hdelivered : c'.delivered = c.delivered)
    (hrtc : ∀ pid t, (c.readers pid).On t →
      (c'.kernel.terminals t).rtc = (c.kernel.terminals t).rtc) : Waits c' := by
  refine ⟨fun t => by rw [hsame.pid]; exact h.pids t, by rw [hreaders]; exact h.one,
    fun pid t hon => ?_⟩
  rw [hreaders] at hon
  obtain ⟨hclocked, hok⟩ := h.ok pid t hon
  rw [hreaders, hdelivered, hrtc pid t hon]
  exact ⟨hsame.clocked hclocked, hok⟩

/-- The running process goes on with its call, on its own clock. -/
theorem Waits.advance (h : Waits c) (hon : c.reader.On t)
    (hsame : SameChains c.kernel c'.kernel) {reader : RtcReader}
    (hreaders : c'.readers = Function.update c.readers c.kernel.runningPid reader)
    (hdelivered : c'.delivered = c.delivered)
    (hrtc : ∀ u, u ≠ t → (c'.kernel.terminals u).rtc = (c.kernel.terminals u).rtc)
    (hstays : ∀ u, reader.On u → u = t)
    (hok : WaitOk (c'.kernel.terminals t).rtc (c.delivered c.kernel.runningPid) reader) :
    Waits c' := by
  have hself : c'.readers c.kernel.runningPid = reader := by
    rw [hreaders, Function.update_self]
  have hother : ∀ pid, pid ≠ c.kernel.runningPid → c'.readers pid = c.readers pid :=
    fun pid hp => by rw [hreaders, Function.update_of_ne hp]
  have hback : ∀ pid u, (c'.readers pid).On u → (c.readers pid).On u := by
    intro pid u hu
    by_cases hp : pid = c.kernel.runningPid
    · rw [hp, hself] at hu
      rw [hp, hstays u hu]
      exact hon
    · rw [hother pid hp] at hu
      exact hu
  refine ⟨fun u => by rw [hsame.pid]; exact h.pids u,
    fun p q u hp hq => h.one p q u (hback p u hp) (hback q u hq), fun pid u hu => ?_⟩
  obtain ⟨hclocked, hold⟩ := h.ok pid u (hback pid u hu)
  refine ⟨hsame.clocked hclocked, ?_⟩
  rw [hdelivered]
  by_cases hp : pid = c.kernel.runningPid
  · rw [hp, hself] at hu ⊢
    rw [hstays u hu]
    exact hok
  · -- another process waits for another terminal
    have hne : u ≠ t := fun he => hp (h.one pid _ t (he ▸ hback pid u hu) hon)
    rw [hother pid hp, hrtc u hne]
    exact hold

/-! ## One operation -/

theorem WaitOk.interrupt {rtc : VirtualRtc} {delivered : Nat}
    (h : WaitOk rtc delivered (.spin t)) (hwrap : rtc.virtFreq * (delivered + 1) < u32) :
    WaitOk rtc.interrupt (delivered + 1) (.spin t) := by
  obtain ⟨hcount, -⟩ := h
  have hnext : (rtc.intCount + 1) % u32 = (delivered + 1) % u32 := by
    rw [hcount, Nat.mod_add_mod]
  refine ⟨hnext, ?_⟩
  have hprod : rtc.virtFreq * ((delivered + 1) % u32) % u32 = rtc.virtFreq * (delivered + 1) := by
    rw [Nat.mul_mod_mod, Nat.mod_eq_of_lt hwrap]
  show decide (rtc.realFreq ≤ rtc.virtFreq * ((rtc.intCount + 1) % u32) % u32) = true ↔
    0 < delivered + 1 ∧ rtc.realFreq ≤ rtc.virtFreq * (delivered + 1)
  rw [decide_eq_true_iff, hnext, hprod]
  exact ⟨fun h => ⟨Nat.succ_pos _, h⟩, fun h => h.2⟩

theorem Waits.irq (h : Waits c) (hop : Undisturbed c .irq) : Waits c.irq := by
  have hsame := sameChains_irqhRtc c.kernel
  refine ⟨fun t => (hsame.pid t) ▸ h.pids t, h.one,
    fun pid t (hon : (c.readers pid).On t) => ?_⟩
  obtain ⟨hclocked, hok⟩ := h.ok pid t hon
  obtain ⟨hflag, hcount, hwrap⟩ := hop pid t
  refine ⟨hsame.clocked hclocked, ?_⟩
  show WaitOk ((irqhRtc c.kernel).terminals t).rtc (c.delivered pid + 1) (c.readers pid)
  rw [(irqhRtc_rtc c.kernel t).1 hclocked]
  cases hr : c.readers pid with
  | idle => trivial
  | clearFlag v =>
    rw [hr] at hon hflag
    exact absurd (congrArg RtcReader.clearFlag hon) hflag
  | clearCount v =>
    rw [hr] at hon hcount
    exact absurd (congrArg RtcReader.clearCount hon) hcount
  | spin v =>
    rw [hr] at hok hon
    exact hok.interrupt (hwrap (by rw [hr, show v = t from hon]))

/-- Setting a frequency changes the clock of the running process's terminal, if any. -/
theorem setVirtualFreqRtc_some {freq : Nat} {ret : Int}
    (h : setVirtualFreqRtc k freq = some (ret, k')) : k' = k ∨
      ∃ t rtc, getRunningTerminal k = some (some t) ∧
        k' = k.setTerminal t { k.terminals t with rtc := rtc } := by
  obtain ⟨term, hterm, h⟩ := Option.bind_eq_some_iff.mp h
  cases term with
  | none => exact Or.inl (Prod.mk.inj (Option.some.inj h)).2.symm
  | some t =>
    dsimp only at h
    split at h
    · exact Or.inl (Prod.mk.inj (Option.some.inj h)).2.symm
    · exact Or.inr ⟨t, _, hterm, (Prod.mk.inj (Option.some.inj h)).2.symm⟩

theorem Waits.set (h : Waits c) {freq : Nat} {ret : Int} {accepted : List (Nat × Nat)}
    (halone : ∀ t, getRunningTerminal c.kernel = some (some t) → ∀ pid, ¬ (c.readers pid).On t)
    (hset : setVirtualFreqRtc c.kernel freq = some (ret, k')) :
    Waits { c with kernel := k', accepted := accepted } := by
  rcases setVirtualFreqRtc_some hset with rfl | ⟨t, rtc, hterm, rfl⟩
  · exact h.of_same (SameChains.refl _) rfl rfl fun _ _ _ => rfl
  · refine h.of_same (sameChains_setRtc _ _ _) rfl rfl fun pid u hu => ?_
    have hne : u ≠ t := fun he => halone t hterm pid (he ▸ hu)
    show (Function.update c.kernel.terminals t _ u).rtc = _
    rw [Function.update_of_ne hne]

theorem Waits.open (h : Waits c) (hop : ClockAlone c .rtcOpen) (hstep : c.open = some c') :
    Waits c' := by
  obtain ⟨⟨ret, k⟩, hopen, rfl⟩ := Option.map_eq_some_iff.mp hstep
  obtain ⟨⟨ret', k1⟩, hset, hret⟩ := Option.map_eq_some_iff.mp hopen
  obtain ⟨-, rfl⟩ := Prod.mk.inj hret
  exact h.set hop hset

theorem Waits.write (h : Waits c) {buf : Option (Nat → UInt8)} {nbytes : Int}
    (hop : ClockAlone c (.rtcWrite buf nbytes)) (hstep : c.write buf nbytes = some c') :
    Waits c' := by
  obtain ⟨⟨ret, k⟩, hwrite, rfl⟩ := Option.map_eq_some_iff.mp hstep
  have hkept : Waits { c with kernel := c.kernel, accepted := if ret = 4 then
      (c.kernel.runningPid, le32 (buf.getD fun _ => 0)) :: c.accepted else c.accepted } :=
    h.of_same (SameChains.refl _) rfl rfl fun _ _ _ => rfl
  unfold rtcWrite at hwrite
  split at hwrite
  · obtain ⟨-, rfl⟩ := Prod.mk.inj (Option.some.inj hwrite)
    exact hkept
  · split at hwrite
    · obtain ⟨-, rfl⟩ := Prod.mk.inj (Option.some.inj hwrite)
      exact hkept
    · obtain ⟨⟨ret', k1⟩, hset, hret⟩ := Option.map_eq_some_iff.mp hwrite
      obtain ⟨-, rfl⟩ := Prod.mk.inj hret
      exact h.set hop hset

theorem Waits.read (h : Waits c) (hop : ClockAlone c .rtcRead) (hstep : c.read = some c') :
    Waits c' := by
  obtain ⟨term, hterm, hstep⟩ := Option.bind_eq_some_iff.mp hstep
  cases term with
  | none =>
    obtain rfl := Option.some.inj hstep
    exact h
  | some t =>
    obtain rfl := Option.some.inj hstep
    have hself : Function.update c.readers c.kernel.runningPid (.clearFlag t)
        c.kernel.runningPid = .clearFlag t := Function.update_self _ _ _
    have hnew : ∀ pid u, (Function.update c.readers c.kernel.runningPid (.clearFlag t) pid).On u →
        (pid = c.kernel.runningPid ∧ u = t) ∨ (pid ≠ c.kernel.runningPid ∧ (c.readers pid).On u) := by
      intro pid u hu
      by_cases hp : pid = c.kernel.runningPid
      · rw [hp, hself] at hu
        exact Or.inl ⟨hp, hu.symm⟩
      · rw [Function.update_of_ne hp] at hu
        exact Or.inr ⟨hp, hu⟩
    refine ⟨h.pids, fun p q u hp hq => ?_, fun pid u hu => ?_⟩
    · rcases hnew p u hp with ⟨hprun, rfl⟩ | ⟨-, hp'⟩
      · rcases hnew q u hq with ⟨hqrun, -⟩ | ⟨-, hq'⟩
        · rw [hprun, hqrun]
        · exact absurd hq' (hop u hterm q)
      · rcases hnew q u hq with ⟨-, rfl⟩ | ⟨-, hq'⟩
        · exact absurd hp' (hop u hterm p)
        · exact h.one p q u hp' hq'
    · show Clocked c.kernel u ∧ WaitOk (c.kernel.terminals u).rtc
        (Function.update c.delivered c.kernel.runningPid 0 pid)
        (Function.update c.readers c.kernel.runningPid (.clearFlag t) pid)
      rcases hnew pid u hu with ⟨rfl, rfl⟩ | ⟨hp, hu'⟩
      · rw [hself, Function.update_self]
        exact ⟨clocked_of_runningTerminal h.pids hterm, rfl⟩
      · rw [Function.update_of_ne hp, Function.update_of_ne hp]
        exact h.ok pid u hu'

theorem setRtc_other (c : Clock) (rtc : VirtualRtc) (hne : u ≠ t) :
    ((c.setRtc t rtc).kernel.terminals u).rtc = (c.kernel.terminals u).rtc := by
  show (Function.update c.kernel.terminals t _ u).rtc = _
  rw [Function.update_of_ne hne]

theorem setRtc_self (c : Clock) (rtc : VirtualRtc) :
    ((c.setRtc t rtc).kernel.terminals t).rtc = rtc := by
  show (Function.update c.kernel.terminals t _ t).rtc = _
  rw [Function.update_self]

theorem Waits.readerStep (h : Waits c) (hstep : c.readerStep = some c') : Waits c' := by
  unfold Clock.readerStep at hstep
  cases hr : c.reader with
  | idle =>
    rw [hr] at hstep
    cases hstep
  | clearFlag t =>
    rw [hr] at hstep
    obtain rfl := Option.some.inj hstep
    have hon : c.reader.On t := by rw [hr]; exact rfl
    have hok := (h.ok _ t hon).2
    rw [show c.readers c.kernel.runningPid = .clearFlag t from hr] at hok
    refine h.advance hon (sameChains_setRtc _ _ _) rfl rfl (fun u hu => setRtc_other c _ hu)
      (fun u hu => hu.symm) ?_
    exact ⟨hok, congrArg VirtualRtc.flag (setRtc_self c _)⟩
  | clearCount t =>
    rw [hr] at hstep
    obtain rfl := Option.some.inj hstep
    have hon : c.reader.On t := by rw [hr]; exact rfl
    obtain ⟨hzero, hflag⟩ : c.delivered c.kernel.runningPid = 0 ∧ _ := by
      have hok := (h.ok _ t hon).2
      rwa [show c.readers c.kernel.runningPid = .clearCount t from hr] at hok
    refine h.advance hon (sameChains_setRtc _ _ _) rfl rfl (fun u hu => setRtc_other c _ hu)
      (fun u hu => hu.symm) ?_
    rw [hzero]
    show WaitOk ((c.setRtc t { (c.kernel.terminals t).rtc with intCount := 0 }).kernel.terminals t).rtc
      0 (.spin t)
    rw [setRtc_self]
    exact ⟨rfl, fun htrue => absurd (hflag.symm.trans htrue) Bool.false_ne_true,
      fun hpos => absurd hpos.1 (Nat.lt_irrefl 0)⟩
  | spin t =>
    rw [hr] at hstep
    dsimp only at hstep
    split at hstep
    · obtain rfl := Option.some.inj hstep
      have hon : c.reader.On t := by rw [hr]; exact rfl
      exact h.advance hon (SameChains.refl _) rfl rfl (fun _ _ => rfl) (fun _ hu => hu.elim) trivial
    · obtain rfl := Option.some.inj hstep
      exact h

theorem Waits.step (h : Waits c) {op : ClockOp} (halone : ClockAlone c op)
    (hun : Undisturbed c op) (hstep : clockStep c op = some c') : Waits c' := by
  cases op with
  | irq =>
    obtain rfl := Option.some.inj hstep
    exact h.irq hun
  | run pid =>
    obtain rfl := Option.some.inj hstep
    exact h.of_same ⟨rfl, fun _ => rfl⟩ rfl rfl fun _ _ _ => rfl
  | rtcOpen => exact h.open halone (Clock.call_some hstep).2
  | rtcWrite buf nbytes => exact h.write halone (Clock.call_some hstep).2
  | rtcRead => exact h.read halone (Clock.call_some hstep).2
  | step => exact h.readerStep hstep

/-! ## Runs -/

/-- For a rate that divides 1024, one period is the interrupts it takes the product to get
    there. -/
theorem period_le_iff {rtc : VirtualRtc} {freq delivered : Nat} (hreal : rtc.realFreq = 1024)
    (hvalid : ValidRate rtc freq) :
    1024 / freq ≤ delivered ↔ 0 < delivered ∧ rtc.realFreq ≤ freq * delivered := by
  obtain ⟨⟨n, rfl⟩, hpos, hle⟩ := hvalid
  rw [hreal] at hle ⊢
  have hn : n ≤ 10 := (Nat.pow_le_pow_iff_right (show 1 < 2 by decide)).mp
    (show 2 ^ n ≤ 2 ^ 10 from hle)
  obtain ⟨m, hm⟩ : 2 ^ n ∣ 1024 := Nat.pow_dvd_pow 2 hn
  rw [hm, Nat.mul_div_cancel_left _ hpos]
  constructor
  · intro h
    have hmpos : 0 < m := Nat.pos_of_ne_zero fun h0 => by
      rw [h0, Nat.mul_zero] at hm
      cases hm
    exact ⟨Nat.lt_of_lt_of_le hmpos h, Nat.mul_le_mul_left _ h⟩
  · rintro ⟨-, h⟩
    exact Nat.le_of_mul_le_mul_left h hpos

theorem Waits.waitsPeriod (h : Waits c) : WaitsPeriod c := by
  intro pid t hr hreal hvalid
  have hok := (h.ok pid t (by rw [hr]; exact rfl)).2
  rw [hr] at hok
  rw [hok.2, period_le_iff hreal hvalid]

/-- In a run of interrupts and clock operations in which no interrupt comes too early and no
    product wraps, every `rtc_read` waits exactly one period. The clocks start in any state. -/
theorem rtc_waits_period (hpids : ∀ t, (c.kernel.terminals t).pid < pidCount)
    (hidle : ∀ pid, c.readers pid = .idle) {ops : List ClockOp}
    (halone : AllSteps clockStep ClockAlone c ops)
    (hundisturbed : AllSteps clockStep Undisturbed c ops) :
    AllStates clockStep WaitsPeriod c ops := by
  have hstart : Waits c := ⟨hpids, fun p q t hp _ => by rw [hidle] at hp; exact hp.elim,
    fun pid t hon => by rw [hidle] at hon; exact hon.elim⟩
  have hstep : ∀ c op c', Waits c → ClockAlone c op ∧ Undisturbed c op →
      clockStep c op = some c' → Waits c' := fun _ _ _ h hop hstep => h.step hop.1 hop.2 hstep
  exact (allStates_of_allSteps hstep hstart (halone.and hundisturbed)).imp fun _ h => h.waitsPeriod

/-! ## The first shell's clock -/

variable {fs : Image} {rtc : VirtualRtc} {reader : RtcReader} {n : Nat}

/-- The shell of terminal 0 is the only process; what its clock holds, how far its read has
    come and how many interrupts there were since. -/
structure ShellClock (c : Clock) (rtc : VirtualRtc) (reader : RtcReader) (n : Nat) : Prop where
  runningPid : c.kernel.runningPid = 0
  belongs : BelongsTo c.kernel 0 0
  clocked : Clocked c.kernel 0
  rtc : (c.kernel.terminals 0).rtc = rtc
  reader : c.readers 0 = reader
  idle : ∀ pid, pid ≠ 0 → c.readers pid = .idle
  delivered : c.delivered 0 = n

theorem Booted.shellClock (h : Booted fs k) :
    ShellClock k.clock ⟨rtcDefaultVirtFreq, 1024, 0, false⟩ .idle 0 := by
  have hterm : (k.terminals 0).pid < pidCount ∧ getTerminalFromPid k (k.terminals 0).pid = some 0 := by
    rw [h.spec.terminals.pid]
    obtain ⟨n, -, hchain⟩ := h.belongsTo
    cases hchain with
    | root hroot =>
      rw [h.spec.pid] at hroot
      exact ⟨by decide, hroot⟩
    | child _ hparent _ _ _ =>
      rw [h.spec.parentPcb] at hparent
      cases hparent
  exact ⟨h.spec.runningPid, h.belongsTo, hterm, h.spec.terminals.rtc 0, rfl, fun _ _ => rfl, rfl⟩

theorem ShellClock.terminal (h : ShellClock c rtc reader n) :
    getRunningTerminal c.kernel = some (some 0) :=
  BelongsTo.runningTerminal (h.runningPid ▸ h.belongs)

theorem ShellClock.readers_eq (h : ShellClock c rtc reader n) (pid : Nat) :
    c.readers pid = reader ∨ c.readers pid = .idle := by
  by_cases hp : pid = 0
  · exact Or.inl (hp ▸ h.reader)
  · exact Or.inr (h.idle pid hp)

theorem ShellClock.irq (h : ShellClock c rtc reader n) :
    ShellClock c.irq rtc.interrupt reader (n + 1) := by
  have hsame := sameChains_irqhRtc c.kernel
  refine ⟨(irqhRtc_runningPid c.kernel).trans h.runningPid, hsame.belongsTo h.belongs,
    hsame.clocked h.clocked, ?_, h.reader, h.idle, congrArg (· + 1) h.delivered⟩
  show ((irqhRtc c.kernel).terminals 0).rtc = _
  rw [(irqhRtc_rtc c.kernel 0).1 h.clocked, h.rtc]

theorem ShellClock.setRtc (h : ShellClock c rtc reader n) (rtc' : VirtualRtc)
    (accepted : List (Nat × Nat)) :
    ShellClock { c with
      kernel := c.kernel.setTerminal 0 { c.kernel.terminals 0 with rtc := rtc' }
      accepted := accepted } rtc' reader n := by
  have hsame := sameChains_setRtc c.kernel 0 rtc'
  exact ⟨h.runningPid, hsame.belongsTo h.belongs, hsame.clocked h.clocked, setRtc_self c rtc',
    h.reader, h.idle, h.delivered⟩

theorem ShellClock.setReader (h : ShellClock c rtc reader n) (reader' : RtcReader) :
    ShellClock (c.setReader reader') rtc reader' n := by
  refine ⟨h.runningPid, h.belongs, h.clocked, h.rtc, ?_, fun pid hp => ?_, h.delivered⟩
  · show Function.update c.readers c.kernel.runningPid reader' 0 = _
    rw [h.runningPid, Function.update_self]
  · show Function.update c.readers c.kernel.runningPid reader' pid = _
    rw [h.runningPid, Function.update_of_ne hp]
    exact h.idle pid hp

theorem ShellClock.currentReader (h : ShellClock c rtc reader n) : c.reader = reader := by
  unfold Clock.reader
  rw [h.runningPid, h.reader]

theorem ShellClock.write (h : ShellClock c rtc .idle n) {b : Nat → UInt8}
    (hvalid : ValidRate rtc (le32 b)) :
    ∃ c', clockStep c (.rtcWrite (some b) 4) = some c' ∧
      ShellClock c' { rtc with intCount := 0, virtFreq := le32 b } .idle n := by
  have hcall : clockStep c (.rtcWrite (some b) 4) = c.write (some b) 4 := if_pos h.currentReader
  rw [hcall]
  rcases rtcWrite_cases h.terminal (some b) 4 with ⟨b', hb, -, heq⟩ | ⟨hno, -⟩
  · obtain rfl := Option.some.inj hb
    unfold Clock.write
    rw [heq, h.rtc]
    exact ⟨_, rfl, h.setRtc _ _⟩
  · exact absurd ⟨b, rfl, rfl, by rw [h.rtc]; exact hvalid⟩ hno

theorem ShellClock.read (h : ShellClock c rtc .idle n) :
    ∃ c', clockStep c .rtcRead = some c' ∧ ShellClock c' rtc (.clearFlag 0) 0 := by
  have hcall : clockStep c .rtcRead = c.read := if_pos h.currentReader
  rw [hcall]
  unfold Clock.read
  rw [h.terminal]
  obtain ⟨h1, h2, h3, h4, h5, h6, -⟩ := h.setReader (.clearFlag 0)
  refine ⟨_, rfl, h1, h2, h3, h4, h5, h6, ?_⟩
  show Function.update c.delivered c.kernel.runningPid 0 0 = 0
  rw [h.runningPid, Function.update_self]

theorem ShellClock.clearFlag (h : ShellClock c rtc (.clearFlag 0) n) :
    ∃ c', clockStep c .step = some c' ∧
      ShellClock c' { rtc with flag := false } (.clearCount 0) n := by
  show ∃ c', c.readerStep = some c' ∧ _
  unfold Clock.readerStep
  rw [h.currentReader]
  dsimp only
  rw [h.rtc]
  exact ⟨_, rfl, (h.setRtc _ c.accepted).setReader _⟩

theorem ShellClock.clearCount (h : ShellClock c rtc (.clearCount 0) n) :
    ∃ c', clockStep c .step = some c' ∧
      ShellClock c' { rtc with intCount := 0 } (.spin 0) n := by
  show ∃ c', c.readerStep = some c' ∧ _
  unfold Clock.readerStep
  rw [h.currentReader]
  dsimp only
  rw [h.rtc]
  exact ⟨_, rfl, (h.setRtc _ c.accepted).setReader _⟩

/-- An interrupt between the two stores finds an old count and sets the flag. -/
def earlyInterrupt : List ClockOp := [.rtcWrite (some word512) 4, .irq, .rtcRead, .step, .irq, .step]

theorem validRate_512 : ValidRate ⟨rtcDefaultVirtFreq, 1024, 0, false⟩ (le32 word512) :=
  ⟨⟨9, rfl⟩, by decide, by decide⟩

/-- At 512 Hz the loop can exit after one interrupt; a period is two. -/
theorem rtc_read_early : ∃ k, Booted smallImage k ∧
    ¬ AllStates clockStep WaitsPeriod k.clock earlyInterrupt := by
  obtain ⟨k, hk⟩ := booted_smallImage
  obtain ⟨c1, h1, hs1⟩ := hk.shellClock.write validRate_512
  have hs2 := hs1.irq
  obtain ⟨c3, h3, hs3⟩ := hs2.read
  obtain ⟨c4, h4, hs4⟩ := hs3.clearFlag
  have hs5 := hs4.irq
  obtain ⟨c6, h6, hs6⟩ := hs5.clearCount
  refine ⟨k, hk, fun hall => ?_⟩
  have hlast : WaitsPeriod c6 := (hall.2 c1 h1).2 _ rfl |>.2 c3 h3 |>.2 c4 h4 |>.2 _ rfl |>.2 c6 h6
  have hvalid : ValidRate (c6.kernel.terminals 0).rtc (c6.kernel.terminals 0).rtc.virtFreq := by
    rw [hs6.rtc]
    exact ⟨⟨9, rfl⟩, by decide, by decide⟩
  have hexit := (hlast 0 0 hs6.reader (by rw [hs6.rtc]; rfl) hvalid).mp (by rw [hs6.rtc]; decide)
  rw [hs6.rtc, hs6.delivered] at hexit
  exact absurd hexit (by decide)

/-- A read at the 2 Hz a clock starts with, from the call to the first interrupt. -/
def quietWait : List ClockOp := [.irq, .rtcRead, .step, .step, .irq]

theorem ShellClock.alone (h : ShellClock c rtc .idle n) (t : Fin 3) (pid : Nat) :
    ¬ (c.readers pid).On t := by
  rcases h.readers_eq pid with hr | hr <;> rw [hr] <;> exact id

theorem rtc_waits_period_smallImage : ∃ k, Booted smallImage k ∧
    AllStates clockStep WaitsPeriod k.clock quietWait := by
  obtain ⟨k, hk⟩ := booted_smallImage
  have hs0 := hk.shellClock
  have hs1 := hs0.irq
  obtain ⟨c2, h2, hs2⟩ := hs1.read
  obtain ⟨c3, h3, hs3⟩ := hs2.clearFlag
  obtain ⟨c4, h4, hs4⟩ := hs3.clearCount
  refine ⟨k, hk, rtc_waits_period (fun t => ?_) (fun _ => rfl) ?_ ?_⟩
  · show (k.terminals t).pid < pidCount
    rw [hk.spec.terminals.pid]
    decide
  · intro c1' h1'
    obtain rfl := Option.some.inj h1'
    refine ⟨trivial, fun c2' _ => ⟨fun t _ pid => hs1.alone t pid, fun c3' _ => ⟨trivial,
      fun c4' _ => ⟨trivial, fun _ _ => ⟨trivial, trivial⟩⟩⟩⟩⟩
  · intro c1' h1'
    obtain rfl := Option.some.inj h1'
    refine ⟨fun pid t => ⟨(nomatch ·), (nomatch ·), (nomatch ·)⟩, fun c2' h2' => ⟨trivial,
      fun c3' h3' => ⟨trivial, fun c4' h4' => ⟨trivial, fun _ _ => ⟨fun pid t => ?_, trivial⟩⟩⟩⟩⟩
    obtain rfl := Option.some.inj (h2.symm.trans h2')
    obtain rfl := Option.some.inj (h3.symm.trans h3')
    obtain rfl := Option.some.inj (h4.symm.trans h4')
    rcases hs4.readers_eq pid with hr | hr <;> rw [hr]
    · refine ⟨(nomatch ·), (nomatch ·), fun ht => ?_⟩
      obtain rfl := RtcReader.spin.inj ht
      have hp : pid = 0 := by
        by_contra hne
        exact nomatch (hs4.idle pid hne).symm.trans hr
      rw [hp, hs4.rtc, hs4.delivered]
      decide
    · exact ⟨(nomatch ·), (nomatch ·), (nomatch ·)⟩

end Mp3Kernel
