/-
  The interrupt controllers as the driver sets them up.

  * `i8259_refines`: from `init_i8259` on, through any run of its calls, of requests by the devices
    and of interrupts taken, the two chips are in the state of one controller that has done the
    same, and they interrupt exactly if it has something due, with the vector of the most urgent.
  * `interrupts_have_handlers`: with the interrupts that the kernel enables, every vector handed out
    leads through its gate to the entry code of the handler for it.
-/
import Mp3Kernel.Base.Runs
import Mp3Kernel.Model.Pic
import Mp3Kernel.Proofs.Entry

namespace Mp3Kernel

open Base.Pic Base.Runs

variable {d d' : I8259} {c : Controller} {n : Fin 16}

/-! ## Writes -/

theorem outb_master (d : I8259) (b : BitVec 8) : d.outb b master8259Port =
    (d.pics.master.command b).map fun c => { d with pics := { d.pics with master := c } } := rfl

theorem outb_slave (d : I8259) (b : BitVec 8) : d.outb b slave8259Port =
    (d.pics.slave.command b).map fun c => { d with pics := { d.pics with slave := c } } := rfl

theorem outb_masterData (d : I8259) (b : BitVec 8) : d.outb b master8259DataPort =
    some { d with pics := { d.pics with master := d.pics.master.data b } } := rfl

theorem outb_slaveData (d : I8259) (b : BitVec 8) : d.outb b slave8259DataPort =
    some { d with pics := { d.pics with slave := d.pics.slave.data b } } := rfl

theorem command_icw1 (c : Chip) : c.command icw1 = some (c.start icw1) := rfl

/-- What `init_i8259` leaves. -/
def started : I8259 where
  masterMask := 0xFB
  slaveMask := 0xFF
  pics := ⟨⟨none, true, true, 0x20, 0x04, 0x01, 0xFB, fun _ => false, fun _ => false⟩,
    ⟨none, true, true, 0x28, 0x02, 0x01, 0xFF, fun _ => false, fun _ => false⟩⟩

theorem enableIrq_master (h : n < 8) : enableIrq n d =
    { d with masterMask := d.masterMask &&& (~~~ (1#32 <<< n.val)).setWidth 8 }.outb
      (d.masterMask &&& (~~~ (1#32 <<< n.val)).setWidth 8) master8259DataPort := if_pos h

theorem initI8259_eq (pics : Pair) : initI8259 ⟨0xFF, 0xFF, pics⟩ = some started := by
  have hmaster : ∀ c : Chip, (((c.start icw1).data icw2Master).data icw3Master).data icw4 =
      ⟨none, true, true, 0x20, 0x04, 0x01, 0, fun _ => false, fun _ => false⟩ := fun _ => rfl
  have hslave : ∀ c : Chip, (((c.start icw1).data icw2Slave).data icw3Slave).data icw4 =
      ⟨none, true, true, 0x28, 0x02, 0x01, 0, fun _ => false, fun _ => false⟩ := fun _ => rfl
  unfold initI8259
  simp only [outb_master, outb_slave, outb_masterData, outb_slaveData, command_icw1,
    Option.map_some, Option.bind_eq_bind, Option.bind_some, hmaster, hslave]
  rw [enableIrq_master (show slaveIrq < 8 by decide)]
  rfl

/-! ## The property -/

/-- The vector of a source. -/
def vector : Source → BitVec 8
  | .master i => icw2Master + BitVec.ofNat 8 i.val
  | .slave j => icw2Slave + BitVec.ofNat 8 j.val

/-- Before anything is requested: only the input of the slave is enabled. -/
def idle : Controller := ⟨{.master slaveLine}, ∅, ∅⟩

/-- What an event does to a controller. -/
def Follows (c : Controller) : PicEvent → Controller → Prop
  | .enable n, c' => c' = { c with enabled := insert (source n) c.enabled }
  | .disable n, c' => c' = { c with enabled := c.enabled.erase (source n) }
  | .eoi n, c' => c' = c.finish (source n)
  | .request n, c' => c' = c.raise (source n)
  | .interrupt v, c' => ∃ s, c.First slaveLine s ∧ v = vector s ∧ c' = c.take s

def Leads : Controller → List PicEvent → Controller → Prop
  | c, [], c' => c' = c
  | c, e :: es, c' => ∃ c1, Follows c e c1 ∧ Leads c1 es c'

/-- No device is at the input of the slave. A handler of the slave's ends its own interrupt, and
    once. -/
def Proper (d : I8259) : PicEvent → Prop
  | .request n => n ≠ slaveIrq
  | .eoi n => n ≠ slaveIrq ∧ (¬ n.val < 8 → d.pics.isr (source n) = true)
  | _ => True

instance (d : I8259) : DecidablePred (Proper d)
  | .enable _ => isTrue trivial
  | .disable _ => isTrue trivial
  | .eoi _ => inferInstanceAs (Decidable (_ ∧ _))
  | .request _ => inferInstanceAs (Decidable (_ ≠ _))
  | .interrupt _ => isTrue trivial

structure InStep (d : I8259) (c : Controller) : Prop where
  master : d.masterMask = d.pics.master.imr
  slave : d.slaveMask = d.pics.slave.imr
  configured : Configured slaveLine vector d.pics
  mirrors : Mirrors slaveLine d.pics c

theorem started_inStep : InStep started idle where
  master := rfl
  slave := rfl
  configured := ⟨⟨⟨rfl, rfl⟩, rfl, rfl⟩, by decide, rfl, by decide, by decide⟩
  mirrors := by
    refine ⟨fun s => ?_, fun s _ => ?_, fun s _ => ?_, ?_, ?_, ?_⟩
    · cases s with
      | master i => revert i; decide
      | slave j => revert j; decide
    · cases s <;> simp [idle, started, Pair.irr]
    · cases s <;> simp [idle, started, Pair.isr]
    · simp [idle, started]
    · simp [idle]
    · simp [idle]

/-! ## One event -/

theorem source_low (h : n < 8) : source n = .master ⟨n.val, h⟩ := dif_pos h

theorem source_high (h : ¬ n < 8) : source n = .slave ⟨n.val - 8, by omega⟩ := dif_neg h

theorem source_ne_line (h : n ≠ slaveIrq) : source n ≠ .master slaveLine := by
  revert h
  revert n
  decide

theorem cleared_iff (m : BitVec 8) (i k : Fin 8) :
    (m &&& (~~~ (1#32 <<< i.val)).setWidth 8).getLsbD k = false ↔ k = i ∨ m.getLsbD k = false := by
  have hbit : ∀ i k : Fin 8, ((~~~ (1#32 <<< i.val)).setWidth 8 : BitVec 8).getLsbD k =
      !decide (k = i) := by decide
  rw [BitVec.getLsbD_and, hbit]
  by_cases hk : k = i <;> simp [hk]

theorem set_iff (m : BitVec 8) (i k : Fin 8) :
    (m ||| (1#32 <<< i.val).setWidth 8).getLsbD k = false ↔ k ≠ i ∧ m.getLsbD k = false := by
  have hbit : ∀ i k : Fin 8, ((1#32 <<< i.val).setWidth 8 : BitVec 8).getLsbD k =
      decide (k = i) := by decide
  rw [BitVec.getLsbD_or, hbit]
  by_cases hk : k = i <;> simp [hk]

/-- The driver's masks are those of the chips, which are as it set them up; `on` is what is
    enabled. -/
structure Masked (d : I8259) (on : Finset Source) : Prop where
  master : d.masterMask = d.pics.master.imr
  slave : d.slaveMask = d.pics.slave.imr
  configured : Configured slaveLine vector d.pics
  enabled : ∀ s, s ∈ on ↔ d.pics.imr s = false

theorem InStep.masked (hi : InStep d c) : Masked d c.enabled :=
  ⟨hi.master, hi.slave, hi.configured, hi.mirrors.enabled⟩

/-- With other masks. -/
def I8259.masks (d : I8259) (m m' : BitVec 8) : I8259 :=
  ⟨m, m', ⟨{ d.pics.master with imr := m }, { d.pics.slave with imr := m' }⟩⟩

variable {on on' : Finset Source}

theorem Masked.masks (hi : Masked d on) {m m' : BitVec 8}
    (hmaster : ∀ k : Fin 8, .master k ∈ on' ↔ m.getLsbD k = false)
    (hslave : ∀ k : Fin 8, .slave k ∈ on' ↔ m'.getLsbD k = false) : Masked (d.masks m m') on' :=
  ⟨rfl, rfl, hi.configured.mask m m', fun s => match s with
    | .master k => hmaster k
    | .slave k => hslave k⟩

theorem Masked.master_mem (hi : Masked d on) (k : Fin 8) :
    .master k ∈ on ↔ d.masterMask.getLsbD k = false := by
  rw [hi.master]
  exact hi.enabled _

theorem Masked.slave_mem (hi : Masked d on) (k : Fin 8) :
    .slave k ∈ on ↔ d.slaveMask.getLsbD k = false := by
  rw [hi.slave]
  exact hi.enabled _

/-- A write of the master's mask. -/
theorem Masked.masterData (hi : Masked d on) (m : BitVec 8)
    (hmaster : ∀ k : Fin 8, .master k ∈ on' ↔ m.getLsbD k = false)
    (hslave : ∀ k : Fin 8, Source.slave k ∈ on' ↔ .slave k ∈ on) :
    ∃ m', { d with masterMask := m }.outb m master8259DataPort = some (d.masks m m') ∧
      Masked (d.masks m m') on' := by
  refine ⟨d.slaveMask, ?_, hi.masks hmaster fun k => (hslave k).trans (hi.slave_mem k)⟩
  rw [outb_masterData, hi.configured.plain.1.data, I8259.masks, hi.slave]

theorem Masked.slaveData (hi : Masked d on) (on' : Finset Source) (m : BitVec 8)
    (hmaster : ∀ k : Fin 8, Source.master k ∈ on' ↔ .master k ∈ on)
    (hslave : ∀ k : Fin 8, .slave k ∈ on' ↔ m.getLsbD k = false) :
    ∃ m', { d with slaveMask := m }.outb m slave8259DataPort = some (d.masks m' m) ∧
      Masked (d.masks m' m) on' := by
  refine ⟨d.masterMask, ?_, hi.masks (fun k => (hmaster k).trans (hi.master_mem k)) hslave⟩
  rw [outb_slaveData, hi.configured.plain.2.data, I8259.masks, hi.master]

theorem Masked.enable (hi : Masked d on) (n : Fin 16) : ∃ m m',
    enableIrq n d = some (d.masks m m') ∧ Masked (d.masks m m') (insert (source n) on) := by
  unfold enableIrq
  split
  · rename_i h
    refine ⟨_, hi.masterData _ (fun k => ?_) fun k => ?_⟩
    · rw [cleared_iff _ ⟨n.val, h⟩ k, source_low h, Finset.mem_insert, hi.master_mem,
        Source.master.injEq]
    · rw [source_low h]
      simp
  · rename_i h
    obtain ⟨m, hm⟩ := hi.slaveData (insert (source n) on)
      (d.slaveMask &&& (~~~ (1#32 <<< (n.val - 8))).setWidth 8)
      (fun k => by rw [source_high h]; simp) fun k => by
        rw [cleared_iff _ ⟨n.val - 8, by omega⟩ k, source_high h, Finset.mem_insert, hi.slave_mem,
          Source.slave.injEq]
    exact ⟨m, _, hm⟩

theorem Masked.disable (hi : Masked d on) (n : Fin 16) : ∃ m m',
    disableIrq n d = some (d.masks m m') ∧ Masked (d.masks m m') (on.erase (source n)) := by
  unfold disableIrq
  split
  · rename_i h
    refine ⟨_, hi.masterData _ (fun k => ?_) fun k => ?_⟩
    · rw [set_iff _ ⟨n.val, h⟩ k, source_low h, Finset.mem_erase, hi.master_mem, ne_eq,
        Source.master.injEq]
    · rw [source_low h]
      simp
  · rename_i h
    obtain ⟨m, hm⟩ := hi.slaveData (on.erase (source n))
      (d.slaveMask ||| (1#32 <<< (n.val - 8)).setWidth 8)
      (fun k => by rw [source_high h]; simp) fun k => by
        rw [set_iff _ ⟨n.val - 8, by omega⟩ k, source_high h, Finset.mem_erase, hi.slave_mem, ne_eq,
          Source.slave.injEq]
    exact ⟨m, _, hm⟩

/-- Only the masks are new. -/
theorem InStep.masks (hi : InStep d c) {m m' : BitVec 8} (hm : Masked (d.masks m m') on) :
    InStep (d.masks m m') { c with enabled := on } :=
  ⟨rfl, rfl, hm.configured, hi.mirrors.mask hm.enabled⟩

theorem InStep.enable (hi : InStep d c) (n : Fin 16) : ∃ d', enableIrq n d = some d' ∧
    InStep d' { c with enabled := insert (source n) c.enabled } := by
  obtain ⟨m, m', henable, hm⟩ := hi.masked.enable n
  exact ⟨_, henable, hi.masks hm⟩

theorem InStep.disable (hi : InStep d c) (n : Fin 16) : ∃ d', disableIrq n d = some d' ∧
    InStep d' { c with enabled := c.enabled.erase (source n) } := by
  obtain ⟨m, m', hdisable, hm⟩ := hi.masked.disable n
  exact ⟨_, hdisable, hi.masks hm⟩

/-- The end of interrupt as a chip takes it. -/
theorem command_eoi (c : Chip) (i : Fin 8) :
    c.command (BitVec.ofNat 8 i.val ||| eoi) = some (c.finish i) := by
  have hbits : ∀ i : Fin 8, (BitVec.ofNat 8 i.val ||| eoi).getLsbD 4 = false ∧
      (BitVec.ofNat 8 i.val ||| eoi).extractLsb' 3 5 = 0b01100 ∧
      ((BitVec.ofNat 8 i.val ||| eoi).setWidth 3).toFin = i := by decide
  obtain ⟨h4, hkind, hlevel⟩ := hbits i
  unfold Chip.command
  rw [h4, if_neg Bool.false_ne_true, if_pos hkind, hlevel]

theorem sendEoi_eq (n : Fin 16) (d : I8259) :
    sendEoi n d = some { d with pics := d.pics.finish slaveLine (source n) } := by
  unfold sendEoi
  split
  · rename_i h
    rw [outb_master, command_eoi _ ⟨n.val, h⟩, source_low h]
    rfl
  · rename_i h
    rw [outb_slave, command_eoi _ ⟨n.val - 8, by omega⟩, source_high h, BitVec.or_comm eoi,
      Option.map_some, Option.bind_eq_bind, Option.bind_some, outb_master,
      show slaveIrq.val = slaveLine.val from rfl, command_eoi]
    rfl

theorem Masked.finish (hi : Masked d on) (s : Source) :
    Masked { d with pics := d.pics.finish slaveLine s } on := by
  refine ⟨hi.master.trans ?_, hi.slave.trans ?_, hi.configured.finish, fun t => ?_⟩
  · cases s <;> rfl
  · cases s <;> rfl
  · exact (hi.enabled t).trans (by rw [Pair.imr_finish])

theorem Masked.raise (hi : Masked d on) (s : Source) :
    Masked { d with pics := d.pics.raise s } on := by
  refine ⟨hi.master.trans ?_, hi.slave.trans ?_, hi.configured.raise, fun t => ?_⟩
  · cases s <;> rfl
  · cases s <;> rfl
  · exact (hi.enabled t).trans (by rw [Pair.imr_raise])

theorem Masked.serve (hi : Masked d on) (s : Source) :
    Masked { d with pics := d.pics.serve slaveLine s } on := by
  refine ⟨hi.master.trans ?_, hi.slave.trans ?_, hi.configured.serve, fun t => ?_⟩
  · cases s <;> rfl
  · cases s <;> rfl
  · exact (hi.enabled t).trans (by rw [Pair.imr_serve])

/-- The processor is given the vector of what the chips pass on. -/
theorem Masked.interrupt_iff (hi : Masked d on) (v : BitVec 8) :
    d.step (.interrupt v) = some d' ↔ ∃ s, d.pics.Passes slaveLine s ∧ v = vector s ∧
      d' = { d with pics := d.pics.serve slaveLine s } := by
  unfold I8259.step
  dsimp only
  rw [Option.bind_eq_some_iff]
  constructor
  · rintro ⟨⟨v', pics⟩, hack, hv⟩
    obtain ⟨s, hpasses, rfl, rfl⟩ := hi.configured.acknowledge_iff.mp hack
    dsimp only at hv
    split at hv
    · rename_i hvv
      exact ⟨s, hpasses, hvv.symm, (Option.some.inj hv).symm⟩
    · cases hv
  · rintro ⟨s, hpasses, rfl, rfl⟩
    exact ⟨_, hi.configured.acknowledge_iff.mpr ⟨s, hpasses, rfl, rfl⟩, if_pos rfl⟩

/-- What one event enables. -/
theorem Masked.step (hi : Masked d on) {e : PicEvent} (hstep : d.step e = some d') :
    ∃ on', Masked d' on' ∧ ∀ s ∈ on', s ∈ on ∨ ∃ n, e = .enable n ∧ s = source n := by
  cases e with
  | enable n =>
    obtain ⟨m, m', henable, hm⟩ := hi.enable n
    obtain rfl := Option.some.inj (henable.symm.trans hstep)
    exact ⟨_, hm, fun s hs => (Finset.mem_insert.mp hs).symm.imp id fun hsn => ⟨n, rfl, hsn⟩⟩
  | disable n =>
    obtain ⟨m, m', hdisable, hm⟩ := hi.disable n
    obtain rfl := Option.some.inj (hdisable.symm.trans hstep)
    exact ⟨_, hm, fun s hs => .inl (Finset.mem_of_mem_erase hs)⟩
  | eoi n =>
    obtain rfl := Option.some.inj ((sendEoi_eq n d).symm.trans hstep)
    exact ⟨on, hi.finish _, fun s hs => .inl hs⟩
  | request n =>
    obtain rfl := Option.some.inj hstep
    exact ⟨on, hi.raise _, fun s hs => .inl hs⟩
  | interrupt v =>
    obtain ⟨s, -, -, rfl⟩ := (hi.interrupt_iff v).mp hstep
    exact ⟨on, hi.serve s, fun s hs => .inl hs⟩

theorem InStep.sendEoi (hi : InStep d c) (hn : n ≠ slaveIrq)
    (hactive : ¬ n < 8 → d.pics.isr (source n) = true) : ∃ d', Mp3Kernel.sendEoi n d = some d' ∧
      InStep d' (c.finish (source n)) := by
  have hne := source_ne_line hn
  have hslave : ∀ j, source n = .slave j → source n ∈ c.active := by
    intro j hj
    refine (hi.mirrors.active _ hne).mpr (hactive fun h => ?_)
    rw [source_low h] at hj
    cases hj
  have hm := hi.masked.finish (source n)
  exact ⟨_, sendEoi_eq n d, hm.master, hm.slave, hm.configured, hi.mirrors.finish hne hslave⟩

theorem InStep.request (hi : InStep d c) (hn : n ≠ slaveIrq) :
    InStep { d with pics := d.pics.raise (source n) } (c.raise (source n)) := by
  have hm := hi.masked.raise (source n)
  exact ⟨hm.master, hm.slave, hm.configured, hi.mirrors.raise (source_ne_line hn)⟩

theorem InStep.serve (hi : InStep d c) {s : Source} (hs : c.First slaveLine s) :
    InStep { d with pics := d.pics.serve slaveLine s } (c.take s) := by
  have hm := hi.masked.serve s
  exact ⟨hm.master, hm.slave, hm.configured, hi.mirrors.serve hs.1⟩

/-- The processor is given the vector of what comes first. -/
theorem InStep.interrupt_iff (hi : InStep d c) (v : BitVec 8) : d.step (.interrupt v) = some d' ↔
    ∃ s, c.First slaveLine s ∧ v = vector s ∧ d' = { d with pics := d.pics.serve slaveLine s } := by
  simp only [hi.masked.interrupt_iff, hi.mirrors.first_iff]

/-- The chips do what the controller can do, and stay in step with it. -/
def Agree (r : Option I8259) (follows : Controller → Prop) : Prop :=
  (∀ d', r = some d' → ∃ c', follows c' ∧ InStep d' c') ∧ (r.isSome ↔ ∃ c', follows c')

theorem agree_of_some {r : Option I8259} {follows : Controller → Prop} {c' : Controller}
    (hc : follows c') (h : ∃ d', r = some d' ∧ InStep d' c') : Agree r follows := by
  obtain ⟨d1, rfl, hd⟩ := h
  exact ⟨fun d' hd' => ⟨c', hc, Option.some.inj hd' ▸ hd⟩, fun _ => ⟨c', hc⟩, fun _ => rfl⟩

theorem InStep.step (hi : InStep d c) {e : PicEvent} (hproper : Proper d e) :
    Agree (d.step e) (Follows c e) := by
  cases e with
  | enable n => exact agree_of_some (r := enableIrq n d) rfl (hi.enable n)
  | disable n => exact agree_of_some (r := disableIrq n d) rfl (hi.disable n)
  | eoi n => exact agree_of_some (r := Mp3Kernel.sendEoi n d) rfl (hi.sendEoi hproper.1 hproper.2)
  | request n => exact agree_of_some rfl ⟨_, rfl, hi.request hproper⟩
  | interrupt v =>
    constructor
    · intro d' hd'
      obtain ⟨s, hfirst, hv, rfl⟩ := (hi.interrupt_iff v).mp hd'
      exact ⟨_, ⟨s, hfirst, hv, rfl⟩, hi.serve hfirst⟩
    · rw [Option.isSome_iff_exists]
      constructor
      · rintro ⟨d', hd'⟩
        obtain ⟨s, hfirst, hv, -⟩ := (hi.interrupt_iff v).mp hd'
        exact ⟨_, s, hfirst, hv, rfl⟩
      · rintro ⟨c', s, hfirst, hv, -⟩
        exact ⟨_, (hi.interrupt_iff v).mpr ⟨s, hfirst, hv, rfl⟩⟩

/-! ## Runs -/

variable {es : List PicEvent}

theorem InStep.run (hi : InStep d c) (hproper : AllMeet I8259.step Proper d es)
    (hrun : run I8259.step d es = some d') : ∃ c', Leads c es c' ∧ InStep d' c' := by
  induction es generalizing d c with
  | nil => exact ⟨c, rfl, Option.some.inj hrun ▸ hi⟩
  | cons e es ih =>
    obtain ⟨d1, hstep, hrun⟩ := Option.bind_eq_some_iff.mp hrun
    obtain ⟨c1, hfollows, h1⟩ := (hi.step hproper.1).1 d1 hstep
    obtain ⟨c', hleads, h'⟩ := ih h1 (hproper.2 d1 hstep) hrun
    exact ⟨c', ⟨c1, hfollows, hleads⟩, h'⟩

/-- Nothing is enabled but what was and what the driver was told to. -/
theorem Masked.run (hi : Masked d on) (hrun : run I8259.step d es = some d') :
    ∃ on', Masked d' on' ∧ ∀ s ∈ on', s ∈ on ∨ ∃ n, PicEvent.enable n ∈ es ∧ s = source n := by
  induction es generalizing d on with
  | nil => exact ⟨on, Option.some.inj hrun ▸ hi, fun s hs => .inl hs⟩
  | cons e es ih =>
    obtain ⟨d1, hstep, hrun⟩ := Option.bind_eq_some_iff.mp hrun
    obtain ⟨on1, h1, hon1⟩ := hi.step hstep
    obtain ⟨on', h', hon'⟩ := ih h1 hrun
    refine ⟨on', h', fun s hs => ?_⟩
    rcases hon' s hs with hs | ⟨n, hn, rfl⟩
    · exact (hon1 s hs).imp id fun ⟨n, he, hsn⟩ => ⟨n, he ▸ List.mem_cons_self .., hsn⟩
    · exact .inr ⟨n, List.mem_cons_of_mem _ hn, rfl⟩

/-- The interrupts that are enabled when the kernel starts its devices. -/
def devices : List (Fin 16) := [pitIrq, keyboardIrq, rtcIrq]

open Entry in
theorem vector_irq (hn : n ∈ devices) : ∃ h, irq h = some (vector (source n)) := by
  unfold devices at hn
  rw [List.mem_cons, List.mem_cons, List.mem_singleton] at hn
  obtain rfl | rfl | rfl := hn
  · exact ⟨.irqhPit, rfl⟩
  · exact ⟨.irqhKeyboard, rfl⟩
  · exact ⟨.irqhRtc, rfl⟩

/-! ## The results -/

variable {pics : Pair}

theorem i8259_refines {d0 : I8259} (hinit : initI8259 ⟨0xFF, 0xFF, pics⟩ = some d0)
    (hproper : AllMeet I8259.step Proper d0 es) (hrun : run I8259.step d0 es = some d) :
    ∃ c, Leads idle es c ∧ InStep d c ∧
      ∀ e, Proper d e → ((d.step e).isSome ↔ ∃ c', Follows c e c') := by
  obtain rfl := Option.some.inj ((initI8259_eq pics).symm.trans hinit)
  obtain ⟨c, hleads, hi⟩ := started_inStep.run hproper hrun
  exact ⟨c, hleads, hi, fun e he => (hi.step he).2⟩

/-- The keyboard and the clock are enabled. The clock's interrupt is taken, then a key's inside
    it, both are ended, and another key is pressed. -/
def served : List PicEvent :=
  [.enable keyboardIrq, .enable rtcIrq, .request rtcIrq, .interrupt 0x28, .request keyboardIrq,
    .interrupt 0x21, .eoi keyboardIrq, .eoi rtcIrq, .request keyboardIrq]

theorem served_runs : ∃ d d', run I8259.step started served = some d ∧
    d.step (.interrupt 0x21) = some d' := by
  have h : ((run I8259.step started served).bind fun d => d.step (.interrupt 0x21)).isSome = true := by
    decide +kernel
  obtain ⟨d', hd'⟩ := Option.isSome_iff_exists.mp h
  obtain ⟨d, hrun, hstep⟩ := Option.bind_eq_some_iff.mp hd'
  exact ⟨d, d', hrun, hstep⟩

theorem i8259_refines_key : ∃ d c, run I8259.step started served = some d ∧
    Leads idle served c ∧ InStep d c ∧ ∃ c', Follows c (.interrupt 0x21) c' := by
  obtain ⟨d, d', hrun, hstep⟩ := served_runs
  obtain ⟨c, hleads, hi, hnext⟩ := i8259_refines (initI8259_eq started.pics)
    (show AllMeet I8259.step Proper started served by decide +kernel) hrun
  exact ⟨d, c, hrun, hleads, hi, (hnext (.interrupt 0x21) trivial).mp (by rw [hstep]; rfl)⟩

open Entry in
theorem interrupts_have_handlers {d0 : I8259} (hinit : initI8259 ⟨0xFF, 0xFF, pics⟩ = some d0)
    (henable : ∀ n, PicEvent.enable n ∈ es → n ∈ devices)
    (hrun : run I8259.step d0 es = some d) {v : BitVec 8}
    (hstep : d.step (.interrupt v) = some d') (p : Platform) (cpu : Base.Ia32.Cpu) :
    ∃ h, irq h = some v ∧
      Base.Ia32.deliver p.tables false v none cpu = some (entered p (p.sym.asm h) none cpu) := by
  obtain rfl := Option.some.inj ((initI8259_eq pics).symm.trans hinit)
  obtain ⟨on, hm, hon⟩ := started_inStep.masked.run hrun
  obtain ⟨s, hpasses, rfl, -⟩ := (hm.interrupt_iff v).mp hstep
  obtain ⟨hne, himr⟩ := hpasses.enabled
  have henabled : ∃ n ∈ devices, s = source n := by
    rcases hon s ((hm.enabled s).mpr himr) with hs | ⟨n, hn, rfl⟩
    · exact absurd (Finset.mem_singleton.mp hs) hne
    · exact ⟨n, henable n hn, rfl⟩
  obtain ⟨n, hn, rfl⟩ := henabled
  obtain ⟨h, hirq⟩ := vector_irq hn
  exact ⟨h, hirq, deliver_kernelGate (gate_irq hirq) (fun hs => by cases hs) none⟩

open Entry in
theorem interrupts_have_handlers_key : ∃ h, irq h = some 0x21 ∧
    Base.Ia32.deliver smallPlatform.tables false 0x21 none idleCpu =
      some (entered smallPlatform (smallPlatform.sym.asm h) none idleCpu) := by
  obtain ⟨d, d', hrun, hstep⟩ := served_runs
  refine interrupts_have_handlers (initI8259_eq started.pics) (fun n hn => ?_) hrun hstep
    smallPlatform idleCpu
  have hdevices : n = keyboardIrq ∨ n = rtcIrq := by simpa [served] using hn
  rcases hdevices with rfl | rfl <;> decide

end Mp3Kernel
