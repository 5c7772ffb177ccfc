/-
  The 8259A interrupt controller, and a pair of them with the output of the second at an input of
  the first.

  A `Chip` is written at two ports: `command` takes ICW1 and the specific end of interrupt, `data`
  the other initialization words and from then on the mask. `none` is for what is left out:
  requests by level, rotating priorities, polling, and the end of interrupt without a number.

  `Controller` is what the pair is for: sources with priorities that are enabled, requested and in
  service. `Mirrors` says that a pair of chips is in the state of a controller;
  `Mirrors.acknowledge_iff` that it then hands out the interrupts the controller has next.
-/
import Mathlib.Data.Fin.Tuple.Basic
import Mathlib.Data.Finset.Basic

namespace Base.Pic

/-! ## One chip -/

/-- The initialization words behind the first. -/
inductive Icw where
  | icw2
  | icw3
  | icw4

structure Chip where
  /-- What `data` takes its next byte for: the mask if there is none. -/
  next : Option Icw
  cascaded : Bool
  icw4 : Bool
  base : BitVec 8
  wiring : BitVec 8
  mode : BitVec 8
  imr : BitVec 8
  irr : Fin 8 → Bool
  isr : Fin 8 → Bool

def Chip.start (b : BitVec 8) (c : Chip) : Chip :=
  { c with
    next := some .icw2
    cascaded := !b.getLsbD 1
    icw4 := b.getLsbD 0
    mode := 0
    imr := 0
    irr := fun _ => false
    isr := fun _ => false }

def Chip.finish (i : Fin 8) (c : Chip) : Chip := { c with isr := Function.update c.isr i false }

def Chip.command (b : BitVec 8) (c : Chip) : Option Chip :=
  if b.getLsbD 4 then if b.getLsbD 3 then none else some (c.start b)
  else if b.extractLsb' 3 5 = 0b01100 then some (c.finish (b.setWidth 3).toFin)
  else none

def Chip.data (b : BitVec 8) (c : Chip) : Chip :=
  let last := if c.icw4 then some .icw4 else none
  match c.next with
  | none => { c with imr := b }
  | some .icw2 => { c with base := b &&& 0xF8, next := if c.cascaded then some .icw3 else last }
  | some .icw3 => { c with wiring := b, next := last }
  | some .icw4 => { c with mode := b, next := none }

/-- A request at input `i`. -/
def Chip.raise (i : Fin 8) (c : Chip) : Chip := { c with irr := Function.update c.irr i true }

/-- The request at `i` is passed on: it is not masked, and nothing as urgent is in service. -/
def Chip.Asks (c : Chip) (i : Fin 8) : Prop :=
  c.irr i = true ∧ c.imr.getLsbD i = false ∧ ∀ k ≤ i, c.isr k = false

instance (c : Chip) : DecidablePred c.Asks := fun _ => inferInstanceAs (Decidable (_ ∧ _))

def Chip.request (c : Chip) : Option (Fin 8) := Fin.find? fun i => decide (c.Asks i)

/-- The request at `i` has been acknowledged. -/
def Chip.serve (i : Fin 8) (c : Chip) : Chip :=
  { c with irr := Function.update c.irr i false, isr := Function.update c.isr i true }

/-- Initialized, for this kind of processor, with no end of interrupt of its own and fully nested. -/
def Chip.Plain (c : Chip) : Prop := c.next = none ∧ c.mode = 1

instance (c : Chip) : Decidable c.Plain :=
  match h : c.next with
  | none => decidable_of_iff (c.mode = 1) ⟨fun hm => ⟨h, hm⟩, And.right⟩
  | some _ => isFalse fun hp => by cases h.symm.trans hp.1

theorem Chip.request_eq_some_iff {c : Chip} {i : Fin 8} :
    c.request = some i ↔ c.Asks i ∧ ∀ k < i, ¬ c.Asks k := by
  unfold request
  rw [Fin.find?_eq_some_iff]
  simp only [decide_eq_true_eq, decide_eq_false_iff_not]

theorem Chip.request_isSome {c : Chip} : c.request.isSome = true ↔ ∃ i, c.Asks i := by
  unfold request
  rw [Fin.isSome_find?_iff]
  simp only [decide_eq_true_eq]

/-! ## Two chips -/

inductive Source where
  | master (i : Fin 8)
  | slave (j : Fin 8)
deriving DecidableEq

structure Pair where
  master : Chip
  slave : Chip

def Pair.raise : Source → Pair → Pair
  | .master i, p => { p with master := p.master.raise i }
  | .slave j, p => { p with slave := p.slave.raise j }

def Pair.imr (p : Pair) : Source → Bool
  | .master i => p.master.imr.getLsbD i
  | .slave j => p.slave.imr.getLsbD j

def Pair.irr (p : Pair) : Source → Bool
  | .master i => p.master.irr i
  | .slave j => p.slave.irr j

def Pair.isr (p : Pair) : Source → Bool
  | .master i => p.master.isr i
  | .slave j => p.slave.isr j

/-- The master with what the slave passes on at `line`. -/
def Pair.wired (line : Fin 8) (p : Pair) : Chip :=
  { p.master with irr := Function.update p.master.irr line p.slave.request.isSome }

/-- The vector the processor is given, and the chips after that. `none`: there is no request, or
    nobody answers. -/
def Pair.acknowledge (line : Fin 8) (p : Pair) : Option (BitVec 8 × Pair) :=
  if p.master.Plain ∧ p.slave.Plain then do
    let i ← (p.wired line).request
    if p.master.wiring.getLsbD i then
      let j ← if (p.slave.wiring.setWidth 3).toFin = i then p.slave.request else none
      some (p.slave.base ||| BitVec.ofNat 8 j, ⟨p.master.serve i, p.slave.serve j⟩)
    else some (p.master.base ||| BitVec.ofNat 8 i, { p with master := p.master.serve i })
  else none

/-! ## What they are for -/

structure Controller where
  enabled : Finset Source
  requested : Finset Source
  active : Finset Source

/-- The input of the master by which a source comes. -/
def Source.input (line : Fin 8) : Source → Fin 8
  | .master i => i
  | .slave _ => line

def Source.pin : Source → Fin 8
  | .master i => i
  | .slave j => j

def Controller.Due (line : Fin 8) (c : Controller) (s : Source) : Prop :=
  s ∈ c.requested ∧ s ∈ c.enabled ∧ .master (s.input line) ∈ c.enabled ∧
    ∀ t ∈ c.active, s.input line < t.input line

/-- The most urgent one that is due. -/
def Controller.First (line : Fin 8) (c : Controller) (s : Source) : Prop :=
  c.Due line s ∧ ∀ t, c.Due line t →
    s.input line < t.input line ∨ s.input line = t.input line ∧ s.pin ≤ t.pin

def Controller.raise (s : Source) (c : Controller) : Controller :=
  { c with requested := insert s c.requested }

def Controller.take (s : Source) (c : Controller) : Controller :=
  { c with requested := c.requested.erase s, active := insert s c.active }

def Controller.finish (s : Source) (c : Controller) : Controller :=
  { c with active := c.active.erase s }

/-! ## The chips as a controller -/

variable {line : Fin 8} {vector : Source → BitVec 8} {p : Pair} {c : Controller} {s : Source}

/-- The slave is wired to `line`, and both know it. -/
structure Configured (line : Fin 8) (vector : Source → BitVec 8) (p : Pair) : Prop where
  plain : p.master.Plain ∧ p.slave.Plain
  wiring : ∀ i : Fin 8, p.master.wiring.getLsbD i = decide (i = line)
  id : (p.slave.wiring.setWidth 3).toFin = line
  master : ∀ i : Fin 8, p.master.base ||| BitVec.ofNat 8 i = vector (.master i)
  slave : ∀ j : Fin 8, p.slave.base ||| BitVec.ofNat 8 j = vector (.slave j)

structure Mirrors (line : Fin 8) (p : Pair) (c : Controller) : Prop where
  enabled : ∀ s, s ∈ c.enabled ↔ p.imr s = false
  requested : ∀ s, s ≠ .master line → (s ∈ c.requested ↔ p.irr s = true)
  active : ∀ s, s ≠ .master line → (s ∈ c.active ↔ p.isr s = true)
  /-- The master takes the slave for one source. -/
  cascade : p.master.isr line = true ↔ ∃ j, .slave j ∈ c.active
  single : ∀ j k, .slave j ∈ c.active → .slave k ∈ c.active → j = k
  line : .master line ∉ c.requested ∧ .master line ∉ c.active

/-- Nothing as urgent as input `i` of the master is in service. -/
theorem Mirrors.clear_iff (hm : Mirrors line p c) {i : Fin 8} :
    (∀ k ≤ i, p.master.isr k = false) ↔ ∀ t ∈ c.active, i < t.input line := by
  constructor
  · intro hclear t ht
    by_contra hge
    have hfalse := hclear _ (not_lt.mp hge)
    cases t with
    | master k =>
      have hk : Source.master k ≠ .master line := fun he => hm.line.2 (he ▸ ht)
      exact absurd ((hm.active _ hk).mp ht) (Bool.not_eq_true _ ▸ hfalse)
    | slave j => exact absurd (hm.cascade.mpr ⟨j, ht⟩) (Bool.not_eq_true _ ▸ hfalse)
  · intro hlt k hk
    by_contra htrue
    rw [Bool.not_eq_false] at htrue
    by_cases hline : k = line
    · obtain ⟨j, hj⟩ := hm.cascade.mp (hline ▸ htrue)
      exact absurd (hlt _ hj) (not_lt.mpr (hline ▸ hk))
    · have hmem := (hm.active (.master k) (fun he => hline (Source.master.inj he))).mpr htrue
      exact absurd (hlt _ hmem) (not_lt.mpr hk)

theorem wired_asks_of_ne {i : Fin 8} (hi : i ≠ line) : (p.wired line).Asks i ↔ p.master.Asks i := by
  unfold Chip.Asks Pair.wired
  dsimp only
  rw [Function.update_of_ne hi]

theorem wired_asks_line : (p.wired line).Asks line ↔ p.slave.request.isSome = true ∧
    p.master.imr.getLsbD line = false ∧ ∀ k ≤ line, p.master.isr k = false := by
  unfold Chip.Asks Pair.wired
  dsimp only
  rw [Function.update_self]

/-- While the master has nothing in service for the slave, the slave has nothing in service. -/
theorem Mirrors.slave_clear (hm : Mirrors line p c) (h : p.master.isr line = false) (j : Fin 8) :
    p.slave.isr j = false := by
  by_contra htrue
  rw [Bool.not_eq_false] at htrue
  have hmem := (hm.active (.slave j) (by rintro ⟨⟩)).mpr htrue
  exact absurd (hm.cascade.mpr ⟨j, hmem⟩) (Bool.not_eq_true _ ▸ h)

theorem Mirrors.due_master (hm : Mirrors line p c) {i : Fin 8} (hi : i ≠ line) :
    c.Due line (.master i) ↔ (p.wired line).Asks i := by
  have hne : Source.master i ≠ .master line := fun he => hi (Source.master.inj he)
  rw [wired_asks_of_ne hi]
  unfold Controller.Due Chip.Asks
  rw [hm.requested _ hne, hm.enabled, hm.clear_iff]
  exact ⟨fun ⟨hr, he, _, ha⟩ => ⟨hr, he, ha⟩, fun ⟨hr, he, ha⟩ => ⟨hr, he, (hm.enabled _).mpr he, ha⟩⟩

theorem Mirrors.due_slave (hm : Mirrors line p c) {j : Fin 8} :
    c.Due line (.slave j) ↔ (p.wired line).Asks line ∧ p.slave.Asks j := by
  have hne : Source.slave j ≠ .master line := by rintro ⟨⟩
  rw [wired_asks_line]
  constructor
  · rintro ⟨hr, he, hl, ha⟩
    have hclear := hm.clear_iff.mpr ha
    have hasks : p.slave.Asks j := ⟨(hm.requested _ hne).mp hr, (hm.enabled _).mp he,
      fun k _ => hm.slave_clear (hclear line (le_refl _)) k⟩
    exact ⟨⟨Chip.request_isSome.mpr ⟨j, hasks⟩, (hm.enabled _).mp hl, hclear⟩, hasks⟩
  · rintro ⟨⟨-, hl, hclear⟩, hr, he, -⟩
    exact ⟨(hm.requested _ hne).mpr hr, (hm.enabled _).mpr he, (hm.enabled _).mpr hl,
      hm.clear_iff.mp hclear⟩

theorem Mirrors.due_ne_line (hm : Mirrors line p c) (hs : c.Due line s) : s ≠ .master line :=
  fun he => hm.line.1 (he ▸ hs.1)

/-- The master passes a request on exactly if a source that comes by that input is due. -/
theorem Mirrors.asks_iff (hm : Mirrors line p c) {i : Fin 8} :
    (p.wired line).Asks i ↔ ∃ s, c.Due line s ∧ s.input line = i := by
  constructor
  · intro ha
    by_cases hi : i = line
    · subst hi
      obtain ⟨j, hj⟩ := Chip.request_isSome.mp (wired_asks_line.mp ha).1
      exact ⟨.slave j, hm.due_slave.mpr ⟨ha, hj⟩, rfl⟩
    · exact ⟨.master i, (hm.due_master hi).mpr ha, rfl⟩
  · rintro ⟨s, hdue, rfl⟩
    cases s with
    | master i => exact (hm.due_master fun hi => hm.due_ne_line hdue (congrArg _ hi)).mp hdue
    | slave j => exact (hm.due_slave.mp hdue).1

theorem Mirrors.request_iff (hm : Mirrors line p c) {i : Fin 8} :
    (p.wired line).request = some i ↔
      (∃ s, c.Due line s ∧ s.input line = i) ∧ ∀ t, c.Due line t → i ≤ t.input line := by
  rw [Chip.request_eq_some_iff, hm.asks_iff]
  refine and_congr_right fun _ => ⟨fun hlow t ht => ?_, fun hlow k hk hasks => ?_⟩
  · by_contra hlt
    exact hlow _ (not_le.mp hlt) (hm.asks_iff.mpr ⟨t, ht, rfl⟩)
  · obtain ⟨t, ht, rfl⟩ := hm.asks_iff.mp hasks
    exact absurd (hlow t ht) (not_le.mpr hk)

theorem Mirrors.first_master (hm : Mirrors line p c) {i : Fin 8} (hi : i ≠ line) :
    c.First line (.master i) ↔ (p.wired line).request = some i := by
  rw [hm.request_iff]
  constructor
  · rintro ⟨hdue, hfirst⟩
    exact ⟨⟨_, hdue, rfl⟩, fun t ht => (hfirst t ht).elim le_of_lt fun h => le_of_eq h.1⟩
  · rintro ⟨⟨s, hdue, hs⟩, hlow⟩
    have hsi : s = .master i := by
      cases s with
      | master k => exact congrArg _ hs
      | slave j => exact absurd hs.symm hi
    subst hsi
    refine ⟨hdue, fun t ht => (lt_or_eq_of_le (hlow t ht)).imp id fun heq => ⟨heq, ?_⟩⟩
    cases t with
    | master k => exact le_of_eq heq
    | slave j => exact absurd heq hi

theorem Mirrors.first_slave (hm : Mirrors line p c) {j : Fin 8} :
    c.First line (.slave j) ↔ (p.wired line).request = some line ∧ p.slave.request = some j := by
  rw [hm.request_iff, Chip.request_eq_some_iff]
  constructor
  · rintro ⟨hdue, hfirst⟩
    refine ⟨⟨⟨_, hdue, rfl⟩, fun t ht => (hfirst t ht).elim le_of_lt fun h => le_of_eq h.1⟩,
      (hm.due_slave.mp hdue).2, fun k hk hasks => ?_⟩
    rcases hfirst _ (hm.due_slave.mpr ⟨(hm.due_slave.mp hdue).1, hasks⟩) with hlt | ⟨-, hle⟩
    · exact lt_irrefl _ hlt
    · exact absurd hle (not_le.mpr hk)
  · rintro ⟨⟨hsome, hlow⟩, hasks, hmin⟩
    have hline : (p.wired line).Asks line := hm.asks_iff.mpr hsome
    refine ⟨hm.due_slave.mpr ⟨hline, hasks⟩, fun t ht => (lt_or_eq_of_le (hlow t ht)).imp id
      fun heq => ⟨heq, ?_⟩⟩
    cases t with
    | master k => exact absurd (congrArg Source.master heq.symm) (hm.due_ne_line ht)
    | slave k => exact not_lt.mp fun hk => hmin k hk (hm.due_slave.mp ht).2

/-! ## What the operations do -/

def Pair.serve (line : Fin 8) : Source → Pair → Pair
  | .master i, p => { p with master := p.master.serve i }
  | .slave j, p => ⟨p.master.serve line, p.slave.serve j⟩

/-- The chips hand out the interrupt of `s`. -/
def Pair.Passes (line : Fin 8) (p : Pair) : Source → Prop
  | .master i => i ≠ line ∧ (p.wired line).request = some i
  | .slave j => (p.wired line).request = some line ∧ p.slave.request = some j

theorem Configured.acknowledge_iff (hc : Configured line vector p) {v : BitVec 8} {p' : Pair} :
    p.acknowledge line = some (v, p') ↔
      ∃ s, p.Passes line s ∧ v = vector s ∧ p' = p.serve line s := by
  unfold Pair.acknowledge
  rw [if_pos hc.plain]
  constructor
  · intro h
    obtain ⟨i, hi, h⟩ := Option.bind_eq_some_iff.mp h
    rw [hc.wiring] at h
    by_cases hline : i = line
    · subst hline
      rw [decide_eq_true rfl, if_pos rfl, if_pos hc.id] at h
      obtain ⟨j, hj, h⟩ := Option.bind_eq_some_iff.mp h
      obtain ⟨rfl, rfl⟩ := Prod.mk.inj (Option.some.inj h)
      exact ⟨.slave j, ⟨hi, hj⟩, hc.slave j, rfl⟩
    · rw [decide_eq_false hline, if_neg Bool.false_ne_true] at h
      obtain ⟨rfl, rfl⟩ := Prod.mk.inj (Option.some.inj h)
      exact ⟨.master i, ⟨hline, hi⟩, hc.master i, rfl⟩
  · rintro ⟨s, hpasses, rfl, rfl⟩
    cases s with
    | master i =>
      rw [hpasses.2]
      refine Option.bind_eq_some_iff.mpr ⟨i, rfl, ?_⟩
      rw [hc.wiring, decide_eq_false hpasses.1, if_neg Bool.false_ne_true, hc.master]
      rfl
    | slave j =>
      rw [hpasses.1]
      refine Option.bind_eq_some_iff.mpr ⟨line, rfl, ?_⟩
      rw [hc.wiring, decide_eq_true rfl, if_pos rfl, if_pos hc.id, hpasses.2]
      exact Option.bind_eq_some_iff.mpr ⟨j, rfl, by rw [← hc.slave]; rfl⟩

/-- What is handed out is not masked, whatever was requested. -/
theorem Pair.Passes.enabled (h : p.Passes line s) : s ≠ .master line ∧ p.imr s = false := by
  cases s with
  | master i =>
    have hasks := (Chip.request_eq_some_iff.mp h.2).1
    exact ⟨fun hi => h.1 (Source.master.inj hi), hasks.2.1⟩
  | slave j => exact ⟨Source.noConfusion, (Chip.request_eq_some_iff.mp h.2).1.2.1⟩

theorem Mirrors.first_iff (hm : Mirrors line p c) : c.First line s ↔ p.Passes line s := by
  cases s with
  | master i =>
    constructor
    · intro hfirst
      have hi : i ≠ line := fun hi => hm.due_ne_line hfirst.1 (congrArg _ hi)
      exact ⟨hi, (hm.first_master hi).mp hfirst⟩
    · exact fun h => (hm.first_master h.1).mpr h.2
  | slave j => exact hm.first_slave

/-- They hand out what the controller has next. -/
theorem Mirrors.acknowledge_iff (hc : Configured line vector p) (hm : Mirrors line p c)
    {v : BitVec 8} {p' : Pair} : p.acknowledge line = some (v, p') ↔
      ∃ s, c.First line s ∧ v = vector s ∧ p' = p.serve line s := by
  simp only [hc.acknowledge_iff, hm.first_iff]

/-- The end of interrupt of a source: that of the slave, and then that of the master for it. -/
def Pair.finish (line : Fin 8) : Source → Pair → Pair
  | .master i, p => { p with master := p.master.finish i }
  | .slave j, p => ⟨p.master.finish line, p.slave.finish j⟩

section

variable {t : Source}

theorem Pair.irr_raise : (p.raise s).irr t = if t = s then true else p.irr t := by
  cases s <;> cases t <;> simp [raise, irr, Chip.raise, Function.update]

theorem Pair.irr_serve (ht : t ≠ .master line) :
    (p.serve line s).irr t = if t = s then false else p.irr t := by
  cases s <;> cases t <;> simp_all [serve, irr, Chip.serve, Function.update]

theorem Pair.isr_serve (ht : t ≠ .master line) :
    (p.serve line s).isr t = if t = s then true else p.isr t := by
  cases s <;> cases t <;> simp_all [serve, isr, Chip.serve, Function.update]

theorem Pair.isr_finish (ht : t ≠ .master line) :
    (p.finish line s).isr t = if t = s then false else p.isr t := by
  cases s <;> cases t <;> simp_all [finish, isr, Chip.finish, Function.update]

theorem Pair.imr_serve : (p.serve line s).imr t = p.imr t := by
  cases s <;> cases t <;> rfl

theorem Pair.imr_raise : (p.raise s).imr t = p.imr t := by
  cases s <;> cases t <;> rfl

theorem Pair.imr_finish : (p.finish line s).imr t = p.imr t := by
  cases s <;> cases t <;> rfl

theorem Pair.isr_raise : (p.raise s).isr t = p.isr t := by
  cases s <;> cases t <;> rfl

theorem Pair.irr_finish : (p.finish line s).irr t = p.irr t := by
  cases s <;> cases t <;> rfl

end

theorem Configured.raise (hc : Configured line vector p) : Configured line vector (p.raise s) := by
  cases s <;> exact ⟨hc.plain, hc.wiring, hc.id, hc.master, hc.slave⟩

theorem Configured.serve (hc : Configured line vector p) :
    Configured line vector (p.serve line s) := by
  cases s <;> exact ⟨hc.plain, hc.wiring, hc.id, hc.master, hc.slave⟩

theorem Configured.finish (hc : Configured line vector p) :
    Configured line vector (p.finish line s) := by
  cases s <;> exact ⟨hc.plain, hc.wiring, hc.id, hc.master, hc.slave⟩

theorem Mirrors.raise (hm : Mirrors line p c) (hs : s ≠ .master line) :
    Mirrors line (p.raise s) (c.raise s) where
  enabled t := by rw [Pair.imr_raise]; exact hm.enabled t
  requested t ht := by
    rw [Pair.irr_raise]
    refine Finset.mem_insert.trans ?_
    split_ifs with hts
    · simp [hts]
    · simp [hts, hm.requested t ht]
  active t ht := by rw [Pair.isr_raise]; exact hm.active t ht
  cascade := by
    have h : (p.raise s).master.isr line = p.master.isr line := by cases s <;> rfl
    rw [h]
    exact hm.cascade
  single := hm.single
  line := ⟨fun hl => (Finset.mem_insert.mp hl).elim (fun he => hs he.symm) hm.line.1, hm.line.2⟩

theorem Mirrors.serve (hm : Mirrors line p c) (hs : c.Due line s) :
    Mirrors line (p.serve line s) (c.take s) where
  enabled t := by rw [Pair.imr_serve]; exact hm.enabled t
  requested t ht := by
    rw [Pair.irr_serve ht]
    refine Finset.mem_erase.trans ?_
    split_ifs with hts
    · simp [hts]
    · simp [hts, hm.requested t ht]
  active t ht := by
    rw [Pair.isr_serve ht]
    refine Finset.mem_insert.trans ?_
    split_ifs with hts
    · simp [hts]
    · simp [hts, hm.active t ht]
  cascade := by
    unfold Controller.take
    dsimp only
    cases s with
    | master i =>
      have hi : line ≠ i := fun hi => hm.due_ne_line hs (congrArg Source.master hi.symm)
      have hisr : (p.serve line (.master i)).master.isr line = p.master.isr line :=
        Function.update_of_ne hi ..
      rw [hisr, hm.cascade]
      simp
    | slave j =>
      have hisr : (p.serve line (.slave j)).master.isr line = true := Function.update_self ..
      exact ⟨fun _ => ⟨j, Finset.mem_insert_self ..⟩, fun _ => hisr⟩
  single j k hj hk := by
    have hnone : ∀ j, Source.slave j ∈ c.active → ∀ k, s ≠ .slave k := fun j hj k hk =>
      lt_irrefl line (by have := hs.2.2.2 _ hj; rwa [hk] at this)
    rcases Finset.mem_insert.mp hj with hj | hj <;> rcases Finset.mem_insert.mp hk with hk | hk
    · exact Source.slave.inj (hj.trans hk.symm)
    · exact absurd hj.symm (hnone k hk j)
    · exact absurd hk.symm (hnone j hj k)
    · exact hm.single j k hj hk
  line := ⟨fun hl => hm.line.1 (Finset.mem_of_mem_erase hl),
    fun hl => (Finset.mem_insert.mp hl).elim (fun he => hm.due_ne_line hs he.symm) hm.line.2⟩

/-- A source of the slave has to be in service: the master would take its end for that of another. -/
theorem Mirrors.finish (hm : Mirrors line p c) (hs : s ≠ .master line)
    (hactive : ∀ j, s = .slave j → s ∈ c.active) : Mirrors line (p.finish line s) (c.finish s) where
  enabled t := by rw [Pair.imr_finish]; exact hm.enabled t
  requested t ht := by rw [Pair.irr_finish]; exact hm.requested t ht
  active t ht := by
    rw [Pair.isr_finish ht]
    refine Finset.mem_erase.trans ?_
    split_ifs with hts
    · simp [hts]
    · simp [hts, hm.active t ht]
  cascade := by
    unfold Controller.finish
    dsimp only
    cases s with
    | master i =>
      have hi : line ≠ i := fun hi => hs (congrArg Source.master hi.symm)
      have hisr : (p.finish line (.master i)).master.isr line = p.master.isr line :=
        Function.update_of_ne hi ..
      rw [hisr, hm.cascade]
      simp
    | slave j =>
      have hisr : (p.finish line (.slave j)).master.isr line = false := Function.update_self ..
      rw [hisr]
      refine ⟨fun h => (Bool.false_ne_true h).elim, fun ⟨k, hk⟩ => ?_⟩
      obtain ⟨hne, hk⟩ := Finset.mem_erase.mp hk
      exact absurd (congrArg _ (hm.single k j hk (hactive j rfl))) hne
  single j k hj hk := hm.single j k (Finset.mem_of_mem_erase hj) (Finset.mem_of_mem_erase hk)
  line := ⟨hm.line.1, fun hl => hm.line.2 (Finset.mem_of_mem_erase hl)⟩

theorem Chip.Plain.data {k : Chip} (h : k.Plain) (m : BitVec 8) : k.data m = { k with imr := m } := by
  unfold Chip.data
  rw [h.1]

theorem Configured.mask (hc : Configured line vector p) (m m' : BitVec 8) :
    Configured line vector ⟨{ p.master with imr := m }, { p.slave with imr := m' }⟩ :=
  ⟨hc.plain, hc.wiring, hc.id, hc.master, hc.slave⟩

/-- Nothing but the masks has changed. -/
theorem Mirrors.mask (hm : Mirrors line p c) {m m' : BitVec 8} {enabled : Finset Source}
    (h : ∀ s, s ∈ enabled ↔
      Pair.imr ⟨{ p.master with imr := m }, { p.slave with imr := m' }⟩ s = false) :
    Mirrors line ⟨{ p.master with imr := m }, { p.slave with imr := m' }⟩
      { c with enabled := enabled } where
  enabled := h
  requested s hs := (hm.requested s hs).trans (by cases s <;> rfl)
  active s hs := (hm.active s hs).trans (by cases s <;> rfl)
  cascade := hm.cascade
  single := hm.single
  line := hm.line

end Base.Pic
