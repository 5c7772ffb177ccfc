/-
  Every terminal keeps a valid clock rate of its own.

  The processes of a terminal are those whose chain of ancestors ends at its root process
  (`ChainTo`); from any of them the search finds that terminal (`ChainTo.runningTerminal`). No
  clock operation changes a chain. An interrupt advances the clock of each terminal once
  (`irqhRtc_rtc`) and no rate.

  `rates_valid`: after any sequence of clock operations of such processes each rate is a power
  of two, at most the real frequency, and the last one accepted from a process of the terminal;
  a write is accepted exactly if it is such a frequency in four bytes.
-/
import Mp3Kernel.Model.Clock
import Mp3Kernel.Base.Runs
import Mp3Kernel.Proofs.Boot
import Mp3Kernel.Proofs.Steps

namespace Mp3Kernel

open Base.Runs

variable {k k' : Kernel} {c c' : Clock} {t : Fin 3} {owner : Nat → Fin 3} {procs : Nat → Prop}

/-! ## Chains of ancestors -/

/-- The chain from a process goes up to the root process of terminal `t` in `n` steps. -/
inductive ChainTo (k : Kernel) (t : Fin 3) : Nat → Nat → Prop where
  | root {s : Nat} (h : getTerminalFromPid k (k.pcbs s).pid = some t) : ChainTo k t 0 s
  | child {n s parent : Nat} (hnone : getTerminalFromPid k (k.pcbs s).pid = none)
    (hparent : (k.pcbs s).parentPcb = some parent)
    (hpid : (k.pcbs s).parentPid = ((k.pcbs parent).pid : Int)) (hlt : (k.pcbs parent).pid < 256)
    (h : ChainTo k t n parent) : ChainTo k t (n + 1) s

/-- A chain that can occur: there are `maxPidCount` PIDs. -/
def BelongsTo (k : Kernel) (t : Fin 3) (s : Nat) : Prop := ∃ n, n < maxPidCount ∧ ChainTo k t n s

theorem toNat_emod_u32 {n : Nat} (h : n < 256) : ((n : Int) % u32).toNat = n := by
  unfold u32
  omega

theorem ChainTo.search {n s : Nat} (h : ChainTo k t (n + 1) s) (fuel : Nat) (hfuel : n < fuel) :
    Base.Chain.search (fun s => (k.pcbs s).parentPcb)
      (fun s => getTerminalFromPid k ((k.pcbs s).parentPid % u32).toNat) fuel s = some t := by
  induction n generalizing s fuel with
  | zero =>
    obtain ⟨fuel, rfl⟩ : ∃ f, fuel = f + 1 := ⟨fuel - 1, by omega⟩
    cases h with
    | @child _ _ parent hnone hparent hpid hlt hup =>
      refine Base.Chain.search_of_hit hparent ?_
      rw [hpid, toNat_emod_u32 hlt]
      cases hup with
      | root h => exact h
  | succ n ih =>
    obtain ⟨fuel, rfl⟩ : ∃ f, fuel = f + 1 := ⟨fuel - 1, by omega⟩
    cases h with
    | @child _ _ parent hnone hparent hpid hlt hup =>
      have hup' := ih hup fuel (by omega)
      cases hup with
      | child hnone' _ _ _ _ =>
        rw [Base.Chain.search_of_miss hparent (by rw [hpid, toNat_emod_u32 hlt]; exact hnone')]
        exact hup'

/-- From a process the search finds the terminal it belongs to. -/
theorem BelongsTo.runningTerminal (h : BelongsTo k t k.runningPid) :
    getRunningTerminal k = some (some t) := by
  obtain ⟨n, hn, hchain⟩ := h
  unfold maxPidCount at hn
  unfold getRunningTerminal getCurrentPcb
  dsimp only
  cases n with
  | zero =>
    cases hchain with
    | root h => rw [h]
  | succ n =>
    have hsearch := hchain.search 256 (by omega)
    cases hchain with
    | child hnone hparent _ _ _ =>
      rw [hnone, hparent]
      show (searchParents k k.runningPid).map some = _
      unfold searchParents
      rw [hsearch]
      rfl

/-! ## What a clock operation leaves as it is -/

/-- Nothing a search for a terminal reads differs, the running process apart. -/
structure SameChains (k k' : Kernel) : Prop where
  pcbs : k'.pcbs = k.pcbs
  pid : ∀ t, (k'.terminals t).pid = (k.terminals t).pid

theorem SameChains.refl (k : Kernel) : SameChains k k := ⟨rfl, fun _ => rfl⟩

theorem SameChains.trans {k'' : Kernel} (h : SameChains k k') (h' : SameChains k' k'') :
    SameChains k k'' :=
  ⟨h'.pcbs.trans h.pcbs, fun t => (h'.pid t).trans (h.pid t)⟩

theorem sameChains_setRtc (k : Kernel) (t : Fin 3) (rtc : VirtualRtc) :
    SameChains k (k.setTerminal t { k.terminals t with rtc := rtc }) := by
  refine ⟨rfl, fun u => ?_⟩
  rw [setTerminal_terminals]
  by_cases hu : u = t
  · rw [hu, Function.update_self]
  · rw [Function.update_of_ne hu]

theorem SameChains.terminalFromPid (h : SameChains k k') (pid : Nat) :
    getTerminalFromPid k' pid = getTerminalFromPid k pid := by
  unfold getTerminalFromPid
  simp only [h.pid]

theorem SameChains.chainTo (h : SameChains k k') {n s : Nat} (hc : ChainTo k t n s) :
    ChainTo k' t n s := by
  induction hc with
  | root hroot => exact .root (by rw [h.terminalFromPid, h.pcbs]; exact hroot)
  | child hnone hparent hpid hlt _ ih =>
    refine .child ?_ (by rw [h.pcbs]; exact hparent) (by rw [h.pcbs]; exact hpid)
      (by rw [h.pcbs]; exact hlt) ih
    rw [h.terminalFromPid, h.pcbs]
    exact hnone

theorem SameChains.belongsTo (h : SameChains k k') {s : Nat} (hb : BelongsTo k t s) :
    BelongsTo k' t s := by
  obtain ⟨n, hn, hc⟩ := hb
  exact ⟨n, hn, h.chainTo hc⟩

/-! ## An interrupt -/

/-- The interrupt gets to the clock of `t`: `t` is the first terminal with its PID. -/
def Clocked (k : Kernel) (t : Fin 3) : Prop :=
  (k.terminals t).pid < pidCount ∧ getTerminalFromPid k (k.terminals t).pid = some t

theorem getTerminalFromPid_pid {pid : Nat} (h : getTerminalFromPid k pid = some t) :
    (k.terminals t).pid = pid := by
  have htest := (firstTerminal_some h).1
  simpa using htest

theorem interruptPid_spec (k : Kernel) (i : Nat) :
    SameChains k (interruptPid k i) ∧ (interruptPid k i).runningPid = k.runningPid ∧
      ∀ t, (getTerminalFromPid k i = some t →
          ((interruptPid k i).terminals t).rtc = (k.terminals t).rtc.interrupt) ∧
        (getTerminalFromPid k i ≠ some t →
          ((interruptPid k i).terminals t).rtc = (k.terminals t).rtc) := by
  unfold interruptPid
  cases hterm : getTerminalFromPid k i with
  | none => exact ⟨SameChains.refl k, rfl, fun t => ⟨fun h => (nomatch h), fun _ => rfl⟩⟩
  | some u =>
    refine ⟨sameChains_setRtc k u _, rfl, fun t => ⟨fun h => ?_, fun h => ?_⟩⟩
    · obtain rfl := Option.some.inj h
      show (Function.update k.terminals u _ u).rtc = _
      rw [Function.update_self]
    · have hne : t ≠ u := fun he => h (he ▸ rfl)
      show (Function.update k.terminals u _ t).rtc = _
      rw [Function.update_of_ne hne]

theorem interruptFrom_spec (n : Nat) (k : Kernel) (i : Nat) :
    SameChains k (interruptFrom k i n) ∧ (interruptFrom k i n).runningPid = k.runningPid ∧
      ∀ t, (i ≤ (k.terminals t).pid ∧ (k.terminals t).pid < i + n ∧
            getTerminalFromPid k (k.terminals t).pid = some t →
          ((interruptFrom k i n).terminals t).rtc = (k.terminals t).rtc.interrupt) ∧
        (¬ (i ≤ (k.terminals t).pid ∧ (k.terminals t).pid < i + n ∧
            getTerminalFromPid k (k.terminals t).pid = some t) →
          ((interruptFrom k i n).terminals t).rtc = (k.terminals t).rtc) := by
  induction n generalizing k i with
  | zero =>
    refine ⟨SameChains.refl k, rfl, fun t => ⟨fun h => ?_, fun _ => rfl⟩⟩
    omega
  | succ n ih =>
    obtain ⟨hsame1, hrun1, hrtc1⟩ := interruptPid_spec k i
    obtain ⟨hsame, hrun, hrtc⟩ := ih (interruptPid k i) (i + 1)
    refine ⟨hsame1.trans hsame, hrun.trans hrun1, fun t => ?_⟩
    obtain ⟨hin, hout⟩ := hrtc t
    rw [hsame1.pid, hsame1.terminalFromPid] at hin hout
    show (_ → ((interruptFrom (interruptPid k i) (i + 1) n).terminals t).rtc = _) ∧
      (_ → ((interruptFrom (interruptPid k i) (i + 1) n).terminals t).rtc = _)
    by_cases hi : getTerminalFromPid k i = some t
    · -- the terminal is served here, and at no later PID
      have hpid := getTerminalFromPid_pid hi
      refine ⟨fun _ => ?_, fun h => absurd ⟨by omega, by omega, by rw [hpid]; exact hi⟩ h⟩
      rw [hout (by omega), (hrtc1 t).1 hi]
    · have hne : (k.terminals t).pid = i → ¬ getTerminalFromPid k (k.terminals t).pid = some t :=
        fun he => by rw [he]; exact hi
      refine ⟨fun ⟨h1, h2, h3⟩ => ?_, fun h => ?_⟩
      · have hlt : i ≠ (k.terminals t).pid := fun he => hne he.symm h3
        rw [hin ⟨by omega, by omega, h3⟩, (hrtc1 t).2 hi]
      · rw [hout (fun ⟨h1, h2, h3⟩ => h ⟨by omega, by omega, h3⟩), (hrtc1 t).2 hi]

theorem sameChains_irqhRtc (k : Kernel) : SameChains k (irqhRtc k) := by
  unfold irqhRtc
  exact (interruptFrom_spec pidCount k 0).1

theorem irqhRtc_runningPid (k : Kernel) : (irqhRtc k).runningPid = k.runningPid := by
  unfold irqhRtc
  exact (interruptFrom_spec pidCount k 0).2.1

/-- An interrupt advances a clock by one, or does not reach it. -/
theorem irqhRtc_rtc (k : Kernel) (t : Fin 3) :
    (Clocked k t → ((irqhRtc k).terminals t).rtc = (k.terminals t).rtc.interrupt) ∧
      (¬ Clocked k t → ((irqhRtc k).terminals t).rtc = (k.terminals t).rtc) := by
  obtain ⟨hin, hout⟩ := (interruptFrom_spec pidCount k 0).2.2 t
  rw [Nat.zero_add] at hin hout
  unfold irqhRtc
  exact ⟨fun h => hin ⟨Nat.zero_le _, h.1, h.2⟩, fun h => hout fun h' => h ⟨h'.2.1, h'.2.2⟩⟩

theorem irqhRtc_rates (k : Kernel) (t : Fin 3) :
    ((irqhRtc k).terminals t).rtc.virtFreq = (k.terminals t).rtc.virtFreq ∧
      ((irqhRtc k).terminals t).rtc.realFreq = (k.terminals t).rtc.realFreq := by
  obtain ⟨hin, hout⟩ := irqhRtc_rtc k t
  by_cases h : Clocked k t
  · rw [hin h]
    exact ⟨rfl, rfl⟩
  · rw [hout h]
    exact ⟨rfl, rfl⟩

/-! ## The property -/

/-- The frequencies a clock takes. -/
structure ValidRate (rtc : VirtualRtc) (freq : Nat) : Prop where
  power : freq.isPowerOfTwo
  pos : 1 ≤ freq
  le : freq ≤ rtc.realFreq

/-- The last frequency accepted from a process of terminal `t`; the one it starts with if
    there is none. -/
def lastRate (owner : Nat → Fin 3) (t : Fin 3) (accepted : List (Nat × Nat)) : Nat :=
  ((accepted.find? fun a => owner a.1 == t).map (·.2)).getD rtcDefaultVirtFreq

structure RatesOk (owner : Nat → Fin 3) (c : Clock) : Prop where
  valid : ∀ t, ValidRate (c.kernel.terminals t).rtc (c.kernel.terminals t).rtc.virtFreq
  last : ∀ t, (c.kernel.terminals t).rtc.virtFreq = lastRate owner t c.accepted

/-- What `rtc_write` accepts. -/
def Accepts (rtc : VirtualRtc) (buf : Option (Nat → UInt8)) (nbytes : Int) : Prop :=
  ∃ b, buf = some b ∧ nbytes = 4 ∧ ValidRate rtc (le32 b)

/-- A write returns 4 or -1, and what is refused changes no clock. -/
def WriteExact (owner : Nat → Fin 3) (c : Clock) : ClockOp → Prop
  | .rtcWrite buf nbytes => ∃ ret k', rtcWrite c.kernel buf nbytes = some (ret, k') ∧
      (Accepts (c.kernel.terminals (owner c.kernel.runningPid)).rtc buf nbytes → ret = 4) ∧
      (¬ Accepts (c.kernel.terminals (owner c.kernel.runningPid)).rtc buf nbytes →
        ret = -1 ∧ ∀ t, (k'.terminals t).rtc = (c.kernel.terminals t).rtc)
  | _ => True

/-- Only processes among `procs` run. -/
def ClockOp.By (procs : Nat → Prop) : ClockOp → Prop
  | .run pid => procs (pid % 256)
  | _ => True

/-! ## One operation -/

theorem setVirtualFreqRtc_cases (hterm : getRunningTerminal k = some (some t)) (freq : Nat) :
    (ValidRate (k.terminals t).rtc freq ∧ setVirtualFreqRtc k freq = some (0, k.setTerminal t
        { k.terminals t with rtc :=
          { (k.terminals t).rtc with intCount := 0, virtFreq := freq } })) ∨
      (¬ ValidRate (k.terminals t).rtc freq ∧ setVirtualFreqRtc k freq = some (-1, k)) := by
  unfold setVirtualFreqRtc
  rw [hterm, Option.bind_eq_bind, Option.bind_some]
  dsimp only
  by_cases hbad : freq = 0 ∨ (k.terminals t).rtc.realFreq < freq ∨ freq &&& (freq - 1) ≠ 0
  · rw [if_pos hbad]
    refine Or.inr ⟨fun hv => ?_, rfl⟩
    have hand := (Nat.and_sub_one_eq_zero_iff_isPowerOfTwo (Nat.ne_of_gt hv.pos)).mpr hv.power
    rcases hbad with h | h | h
    · exact Nat.ne_of_gt hv.pos h
    · exact absurd hv.le (Nat.not_le_of_lt h)
    · exact h hand
  · rw [if_neg hbad]
    obtain ⟨h0, hbad⟩ := not_or.mp hbad
    obtain ⟨hle, hand⟩ := not_or.mp hbad
    exact Or.inl ⟨⟨(Nat.and_sub_one_eq_zero_iff_isPowerOfTwo h0).mp (not_not.mp hand),
      Nat.pos_of_ne_zero h0, Nat.le_of_not_lt hle⟩, rfl⟩

theorem rtcWrite_cases (hterm : getRunningTerminal k = some (some t))
    (buf : Option (Nat → UInt8)) (nbytes : Int) :
    (∃ b, buf = some b ∧ Accepts (k.terminals t).rtc buf nbytes ∧
      rtcWrite k buf nbytes = some (4, k.setTerminal t { k.terminals t with rtc :=
        { (k.terminals t).rtc with intCount := 0, virtFreq := le32 b } })) ∨
      (¬ Accepts (k.terminals t).rtc buf nbytes ∧ rtcWrite k buf nbytes = some (-1, k)) := by
  cases buf with
  | none => exact Or.inr ⟨fun ⟨_, h, _⟩ => (nomatch h), rfl⟩
  | some b =>
    unfold rtcWrite
    dsimp only
    by_cases hn : nbytes = 4
    · rw [if_neg (not_not.mpr hn)]
      rcases setVirtualFreqRtc_cases hterm (le32 b) with ⟨hv, heq⟩ | ⟨hv, heq⟩
      · exact Or.inl ⟨b, rfl, ⟨b, rfl, hn, hv⟩, by rw [heq]; rfl⟩
      · refine Or.inr ⟨fun ⟨b', hb', _, hv'⟩ => ?_, by rw [heq]; rfl⟩
        obtain rfl := Option.some.inj hb'
        exact hv hv'
    · rw [if_pos hn]
      refine Or.inr ⟨?_, rfl⟩
      rintro ⟨b', -, hn', -⟩
      exact hn hn'

/-- What every run keeps. -/
structure RatesKept (owner : Nat → Fin 3) (procs : Nat → Prop) (c : Clock) : Prop where
  running : procs c.kernel.runningPid
  belongs : ∀ p, procs p → BelongsTo c.kernel (owner p) p
  real : ∀ t, rtcDefaultVirtFreq ≤ (c.kernel.terminals t).rtc.realFreq
  rates : RatesOk owner c

theorem RatesKept.runningTerminal (h : RatesKept owner procs c) :
    getRunningTerminal c.kernel = some (some (owner c.kernel.runningPid)) :=
  (h.belongs _ h.running).runningTerminal

/-- An operation that sets no rate. -/
theorem RatesKept.of_same (h : RatesKept owner procs c) (hsame : SameChains c.kernel c'.kernel)
    (hrun : procs c'.kernel.runningPid) (haccepted : c'.accepted = c.accepted)
    (hrates : ∀ t, (c'.kernel.terminals t).rtc.virtFreq = (c.kernel.terminals t).rtc.virtFreq ∧
      (c'.kernel.terminals t).rtc.realFreq = (c.kernel.terminals t).rtc.realFreq) :
    RatesKept owner procs c' := by
  refine ⟨hrun, fun p hp => hsame.belongsTo (h.belongs p hp), fun t => ?_, fun t => ?_, fun t => ?_⟩
  · rw [(hrates t).2]
    exact h.real t
  · obtain ⟨hpower, hpos, hle⟩ := h.rates.valid t
    rw [(hrates t).1]
    exact ⟨hpower, hpos, by rw [(hrates t).2]; exact hle⟩
  · rw [(hrates t).1, haccepted]
    exact h.rates.last t

theorem lastRate_cons_self {p : Nat} (hp : owner p = t) (freq : Nat) (l : List (Nat × Nat)) :
    lastRate owner t ((p, freq) :: l) = freq := by
  unfold lastRate
  rw [List.find?_cons_of_pos (by simpa using hp)]
  rfl

theorem lastRate_cons_ne {p : Nat} (hp : owner p ≠ t) (freq : Nat) (l : List (Nat × Nat)) :
    lastRate owner t ((p, freq) :: l) = lastRate owner t l := by
  unfold lastRate
  rw [List.find?_cons_of_neg (by simpa using hp)]

/-- The running process sets the rate of its terminal, and this is recorded. -/
theorem RatesKept.set (h : RatesKept owner procs c) {freq : Nat}
    (hvalid : ValidRate (c.kernel.terminals (owner c.kernel.runningPid)).rtc freq) :
    RatesKept owner procs { c with
      kernel := c.kernel.setTerminal (owner c.kernel.runningPid)
        { c.kernel.terminals (owner c.kernel.runningPid) with
          rtc := { (c.kernel.terminals (owner c.kernel.runningPid)).rtc with
            intCount := 0, virtFreq := freq } }
      accepted := (c.kernel.runningPid, freq) :: c.accepted } := by
  have hsame := sameChains_setRtc c.kernel (owner c.kernel.runningPid)
    { (c.kernel.terminals (owner c.kernel.runningPid)).rtc with intCount := 0, virtFreq := freq }
  refine ⟨h.running, fun p hp => hsame.belongsTo (h.belongs p hp), fun t => ?_, fun t => ?_,
    fun t => ?_⟩
  · show _ ≤ (Function.update c.kernel.terminals (owner c.kernel.runningPid) _ t).rtc.realFreq
    by_cases ht : t = owner c.kernel.runningPid
    · rw [ht, Function.update_self]
      exact h.real _
    · rw [Function.update_of_ne ht]
      exact h.real t
  · show ValidRate (Function.update c.kernel.terminals (owner c.kernel.runningPid) _ t).rtc
      (Function.update c.kernel.terminals (owner c.kernel.runningPid) _ t).rtc.virtFreq
    by_cases ht : t = owner c.kernel.runningPid
    · rw [ht, Function.update_self]
      exact ⟨hvalid.power, hvalid.pos, hvalid.le⟩
    · rw [Function.update_of_ne ht]
      exact h.rates.valid t
  · show (Function.update c.kernel.terminals (owner c.kernel.runningPid) _ t).rtc.virtFreq = _
    by_cases ht : t = owner c.kernel.runningPid
    · rw [ht, Function.update_self, lastRate_cons_self rfl]
    · rw [Function.update_of_ne ht, lastRate_cons_ne (fun he => ht he.symm)]
      exact h.rates.last t

theorem sameRates_setRtc (k : Kernel) (u : Fin 3) (rtc : VirtualRtc)
    (h : rtc.virtFreq = (k.terminals u).rtc.virtFreq ∧ rtc.realFreq = (k.terminals u).rtc.realFreq)
    (t : Fin 3) :
    ((k.setTerminal u { k.terminals u with rtc := rtc }).terminals t).rtc.virtFreq =
        (k.terminals t).rtc.virtFreq ∧
      ((k.setTerminal u { k.terminals u with rtc := rtc }).terminals t).rtc.realFreq =
        (k.terminals t).rtc.realFreq := by
  rw [setTerminal_terminals]
  by_cases ht : t = u
  · rw [ht, Function.update_self]
    exact h
  · rw [Function.update_of_ne ht]
    exact ⟨rfl, rfl⟩

theorem RatesKept.readerStep (h : RatesKept owner procs c) (hstep : c.readerStep = some c') :
    RatesKept owner procs c' := by
  unfold Clock.readerStep at hstep
  cases hr : c.reader with
  | idle =>
    rw [hr] at hstep
    cases hstep
  | clearFlag t =>
    rw [hr] at hstep
    obtain rfl := Option.some.inj hstep
    exact h.of_same (sameChains_setRtc _ _ _) h.running rfl
      (sameRates_setRtc _ _ _ ⟨rfl, rfl⟩)
  | clearCount t =>
    rw [hr] at hstep
    obtain rfl := Option.some.inj hstep
    exact h.of_same (sameChains_setRtc _ _ _) h.running rfl
      (sameRates_setRtc _ _ _ ⟨rfl, rfl⟩)
  | spin t =>
    rw [hr] at hstep
    dsimp only at hstep
    split at hstep
    · obtain rfl := Option.some.inj hstep
      exact h.of_same (SameChains.refl _) h.running rfl fun _ => ⟨rfl, rfl⟩
    · obtain rfl := Option.some.inj hstep
      exact h

theorem Clock.call_some {result : Option Clock} (h : c.call result = some c') :
    c.reader = .idle ∧ result = some c' := by
  unfold Clock.call at h
  split at h
  · rename_i hidle
    exact ⟨hidle, h⟩
  · cases h

theorem RatesKept.open (h : RatesKept owner procs c) (hstep : c.open = some c') :
    RatesKept owner procs c' := by
  obtain ⟨⟨ret, k⟩, hopen, rfl⟩ := Option.map_eq_some_iff.mp hstep
  obtain ⟨⟨ret', k1⟩, hset, hret⟩ := Option.map_eq_some_iff.mp hopen
  obtain ⟨-, rfl⟩ := Prod.mk.inj hret
  have hdefault : ValidRate (c.kernel.terminals (owner c.kernel.runningPid)).rtc
      rtcDefaultVirtFreq := ⟨⟨1, rfl⟩, by decide, h.real _⟩
  rcases setVirtualFreqRtc_cases h.runningTerminal rtcDefaultVirtFreq with ⟨-, heq⟩ | ⟨hno, -⟩
  · obtain ⟨-, rfl⟩ := Prod.mk.inj (Option.some.inj (heq.symm.trans hset))
    exact h.set hdefault
  · exact absurd hdefault hno

theorem RatesKept.write (h : RatesKept owner procs c) {buf : Option (Nat → UInt8)} {nbytes : Int}
    (hstep : c.write buf nbytes = some c') : RatesKept owner procs c' := by
  obtain ⟨⟨ret, k⟩, hwrite, rfl⟩ := Option.map_eq_some_iff.mp hstep
  rcases rtcWrite_cases h.runningTerminal buf nbytes with ⟨b, rfl, hacc, heq⟩ | ⟨-, heq⟩
  · obtain ⟨rfl, rfl⟩ := Prod.mk.inj (Option.some.inj (heq.symm.trans hwrite))
    obtain ⟨b', hb, -, hvalid⟩ := hacc
    obtain rfl := Option.some.inj hb
    exact h.set hvalid
  · obtain ⟨rfl, rfl⟩ := Prod.mk.inj (Option.some.inj (heq.symm.trans hwrite))
    exact h

theorem RatesKept.read (h : RatesKept owner procs c) (hstep : c.read = some c') :
    RatesKept owner procs c' := by
  unfold Clock.read at hstep
  rw [h.runningTerminal, Option.bind_eq_bind, Option.bind_some] at hstep
  obtain rfl := Option.some.inj hstep
  exact h.of_same (SameChains.refl _) h.running rfl fun _ => ⟨rfl, rfl⟩

theorem RatesKept.step (h : RatesKept owner procs c) {op : ClockOp} (hop : op.By procs)
    (hstep : clockStep c op = some c') : RatesKept owner procs c' := by
  cases op with
  | irq =>
    obtain rfl := Option.some.inj hstep
    refine h.of_same (sameChains_irqhRtc c.kernel) ?_ rfl (irqhRtc_rates c.kernel)
    show procs (irqhRtc c.kernel).runningPid
    rw [irqhRtc_runningPid]
    exact h.running
  | run pid =>
    obtain rfl := Option.some.inj hstep
    exact h.of_same ⟨rfl, fun _ => rfl⟩ hop rfl fun _ => ⟨rfl, rfl⟩
  | rtcOpen => exact h.open (Clock.call_some hstep).2
  | rtcWrite buf nbytes => exact h.write (Clock.call_some hstep).2
  | rtcRead => exact h.read (Clock.call_some hstep).2
  | step => exact h.readerStep hstep

theorem RatesKept.writeExact (h : RatesKept owner procs c) (op : ClockOp) :
    WriteExact owner c op := by
  cases op with
  | rtcWrite buf nbytes =>
    rcases rtcWrite_cases h.runningTerminal buf nbytes with ⟨b, -, hacc, heq⟩ | ⟨hacc, heq⟩
    · exact ⟨_, _, heq, fun _ => rfl, fun hno => absurd hacc hno⟩
    · exact ⟨_, _, heq, fun hyes => absurd hyes hacc, fun _ => ⟨rfl, fun _ => rfl⟩⟩
  | irq => trivial
  | run pid => trivial
  | rtcOpen => trivial
  | rtcRead => trivial
  | step => trivial

/-! ## Runs -/

/-- The clocks as `init_terminals` leaves them, no frequency set yet. -/
structure ClocksReset (c : Clock) : Prop where
  rtc : ∀ t, (c.kernel.terminals t).rtc = ⟨rtcDefaultVirtFreq, 1024, 0, false⟩
  accepted : c.accepted = []

theorem ClocksReset.ratesOk (h : ClocksReset c) (owner : Nat → Fin 3) : RatesOk owner c := by
  refine ⟨fun t => ?_, fun t => ?_⟩
  · rw [h.rtc]
    exact ⟨⟨1, rfl⟩, by decide, by decide⟩
  · rw [h.rtc, h.accepted]
    rfl

/-- Through any run of clock operations of processes that each belong to a terminal, the rates
    are valid and the last ones accepted, and every write is answered exactly. -/
theorem rates_valid (hreset : ClocksReset c) (hrun : procs c.kernel.runningPid)
    (hprocs : ∀ p, procs p → BelongsTo c.kernel (owner p) p) {ops : List ClockOp}
    (hops : ∀ op ∈ ops, op.By procs) :
    AllStates clockStep (RatesOk owner) c ops ∧ AllMeet clockStep (WriteExact owner) c ops := by
  have hkept : RatesKept owner procs c :=
    ⟨hrun, hprocs, fun t => by rw [hreset.rtc]; decide, hreset.ratesOk owner⟩
  have hstep : ∀ c op c', RatesKept owner procs c → op.By procs → clockStep c op = some c' →
      RatesKept owner procs c' := fun _ _ _ h hop hstep => h.step hop hstep
  have hmeet : AllMeet clockStep (fun _ op => op.By procs) c ops := allMeet_of_forall hops c
  exact ⟨(allStates_of_allSteps hstep hkept hmeet.allSteps).imp fun _ h => h.rates,
    allMeet_of_allMeet hstep (fun _ op h _ => h.writeExact op) hkept hmeet⟩

/-! ## The clocks of a booted kernel -/

variable {fs : Image}

def Kernel.clock (k : Kernel) : Clock := ⟨k, fun _ => .idle, fun _ => 0, []⟩

theorem Booted.clocksReset (h : Booted fs k) : ClocksReset k.clock :=
  ⟨h.spec.terminals.rtc, rfl⟩

theorem Booted.belongsTo (h : Booted fs k) : BelongsTo k 0 0 := by
  refine ⟨0, by decide, .root ?_⟩
  unfold getTerminalFromPid
  rw [h.spec.pid]
  exact firstTerminal_eq (by rw [h.spec.terminals.pid]; rfl) fun u hu =>
    absurd hu (Nat.not_lt_zero _)

/-- The word 512, little-endian. -/
def word512 (i : Nat) : UInt8 := if i = 1 then 2 else 0

/-- The first shell opens the clock, sets 512 Hz and starts to wait for a period. -/
def waitAt512 : List ClockOp := [.rtcOpen, .rtcWrite (some word512) 4, .irq, .rtcRead, .step]

theorem rates_valid_smallImage : ∃ k, Booted smallImage k ∧
    AllStates clockStep (RatesOk fun _ => 0) k.clock waitAt512 ∧
    AllMeet clockStep (WriteExact fun _ => 0) k.clock waitAt512 := by
  obtain ⟨k, hk⟩ := booted_smallImage
  have hops : ∀ op ∈ waitAt512, op.By fun p => p = 0 := by
    intro op hop
    unfold waitAt512 at hop
    simp only [List.mem_cons, List.not_mem_nil, or_false] at hop
    rcases hop with rfl | rfl | rfl | rfl | rfl <;> trivial
  exact ⟨k, hk, rates_valid hk.clocksReset hk.spec.runningPid
    (fun p hp => hp ▸ hk.belongsTo) hops⟩

end Mp3Kernel
