/-
  Interrupts, seen by the code they come from.

  Of the C functions it is assumed (`Cdecl`), as long as the interrupts that come while they run
  cannot be noticed, that they keep to the calling convention and return on the stack they were
  called on, that they write to none of the user memory that is looked at (so it has no page that
  `vidmap` has mapped to the screen), and that they keep the kernel's data in order. A tick that
  comes inside another right before its stack switch does not (Nesting.lean).

  `Mid` is the invariant along the entry code: the words on the kernel stack, the registers that
  still hold what they held, and the memory of the code that was interrupted.

  `interrupts_unnoticed`: interrupts of the devices, inside one another to any depth and wherever
  they come, then change nothing that the interrupted code could notice.
-/
import Mp3Kernel.Proofs.Gates

namespace Mp3Kernel.Entry

open Base.Ia32

variable {p : Platform} {c c' c1 c2 d d' : Cpu} {serving : Cpu → Cpu → Prop} {base : Nat}
  {ws : List Word} {w : Word} {val : Reg → Option Word} {h : Handler}

/-! ## What the code in a state can notice -/

/-- Memory of the code in `c`: the user memory, and in ring 0 its stack. -/
def Private (p : Platform) (c : Cpu) (a : Word) : Prop :=
  p.user a ∨ (c.cpl = 0 ∧ (c.reg .esp).toNat ≤ a.toNat ∧ a.toNat < p.esp0.toNat)

structure Undisturbed (p : Platform) (c d : Cpu) : Prop where
  reg : d.reg = c.reg
  eip : d.eip = c.eip
  eflags : d.eflags = c.eflags
  cs : d.cs = c.cs
  ss : d.ss = c.ss
  mem : ∀ a, Private p c a → d.mem a = c.mem a
  sound : p.sound d.mem

theorem Undisturbed.refl (hsound : p.sound c.mem) : Undisturbed p c c :=
  ⟨rfl, rfl, rfl, rfl, rfl, fun _ _ => rfl, hsound⟩

theorem Undisturbed.cpl (h : Undisturbed p c d) : d.cpl = c.cpl := congrArg (BitVec.setWidth 2) h.cs

theorem Undisturbed.private (h : Undisturbed p c d) {a : Word} (ha : Private p c a) :
    Private p d a := by
  unfold Private Cpu.cpl at ha ⊢
  rw [h.reg, h.cs]
  exact ha

theorem Undisturbed.trans (h : Undisturbed p c d) (h' : Undisturbed p d d') :
    Undisturbed p c d' where
  reg := h'.reg.trans h.reg
  eip := h'.eip.trans h.eip
  eflags := h'.eflags.trans h.eflags
  cs := h'.cs.trans h.cs
  ss := h'.ss.trans h.ss
  mem := fun a ha => (h'.mem a (h.private ha)).trans (h.mem a ha)
  sound := h'.sound

/-- What `serving` does cannot be noticed. -/
def Quiet (p : Platform) (serving : Cpu → Cpu → Prop) : Prop :=
  ∀ c d, p.sound c.mem → serving c d → Undisturbed p c d

/-! ## Compiled code -/

/-- A run of compiled code, with interrupts that it does not notice. -/
inductive CodeRun (p : Platform) (serving : Cpu → Cpu → Prop) (c : Cpu) : Cpu → Prop where
  | refl : CodeRun p serving c c
  | code {d d' : Cpu} (hrun : CodeRun p serving c d) (hstep : p.codeStep d d') :
    CodeRun p serving c d'
  | interrupt {d d' : Cpu} (hrun : CodeRun p serving c d) (hserve : serving d d')
    (hsame : Undisturbed p d d') : CodeRun p serving c d'

/-- The function at `f` is called by assembly code in ring 0. -/
structure Called (p : Platform) (f : Word) (c : Cpu) : Prop where
  eip : c.eip = f
  caller : (p.fetch c.top).isSome
  ring : c.cpl = 0
  sound : p.sound c.mem
  floor : p.floor ≤ (c.reg .esp).toNat
  le : (c.reg .esp).toNat + 4 ≤ p.esp0.toNat

/-- A function called in `c` has returned in `d`. -/
structure Back (p : Platform) (c d : Cpu) : Prop where
  eip : d.eip = c.top
  esp : d.reg .esp = c.reg .esp + 4
  saved : ∀ r, r = .ebx ∨ r = .ebp ∨ r = .esi ∨ r = .edi → d.reg r = c.reg r
  cs : d.cs = c.cs
  ss : d.ss = c.ss
  mem : ∀ a : Word, p.user a ∨
    ((c.reg .esp).toNat + 4 ≤ a.toNat ∧ a.toNat < p.esp0.toNat) → d.mem a = c.mem a

/-- The function at `f`, which has no parameters, gets back to assembly code only by returning. By
    then it has written neither above its frame nor to the user memory that is looked at, and the
    kernel's data are in order all the way. -/
structure Cdecl (p : Platform) (serving : Cpu → Cpu → Prop) (f : Word) : Prop where
  sound : ∀ {c d}, Called p f c → CodeRun p serving c d → p.sound d.mem
  back : ∀ {c d}, Called p f c → CodeRun p serving c d → (p.fetch d.eip).isSome → Back p c d

theorem Back.undisturbed {f : Word} (hc : Called p f c) (hb : Back p c d) (hu : Undisturbed p d d') :
    Back p c d' := by
  have hle := hc.le
  have hlt := p.esp0.isLt
  have hring : d.cpl = 0 := (congrArg (BitVec.setWidth 2) hb.cs).trans hc.ring
  have hesp : (d.reg .esp).toNat = (c.reg .esp).toNat + 4 := by
    rw [hb.esp]
    bv_omega
  refine ⟨hu.eip.trans hb.eip, by rw [hu.reg]; exact hb.esp, by rw [hu.reg]; exact hb.saved,
    hu.cs.trans hb.cs, hu.ss.trans hb.ss, fun a ha => (hu.mem a ?_).trans (hb.mem a ha)⟩
  exact ha.imp id fun ha => ⟨hring, by omega, ha.2⟩

/-! ## Runs of assembly code -/

/-- What happens next at an instruction that the run goes on from. -/
theorem Run.at_instr (hl : p.Linked) (hs : Quiet p serving) (hsound : p.sound c.mem)
    (hrun : Run p serving c c2) {i j : Instr} {next next' : Word}
    (hat : p.fetch c.eip = some (i, next)) (hend : p.fetch c2.eip = some (j, next'))
    (hne : j ≠ i) (hint : ∀ v, i ≠ .int v) :
    ∃ d d', Undisturbed p c d ∧ exec next d i = some d' ∧ Run p serving d' c2 := by
  induction hrun with
  | refl c =>
    obtain ⟨rfl, -⟩ := Prod.mk.inj (Option.some.inj (hat.symm.trans hend))
    exact absurd rfl hne
  | asm hat' hexec hrun _ =>
    obtain ⟨rfl, rfl⟩ := Prod.mk.inj (Option.some.inj (hat.symm.trans hat'))
    exact ⟨_, _, .refl hsound, hexec, hrun⟩
  | code hstep _ _ => cases (hl.code hstep).symm.trans hat
  | interrupt hserve hrun ih =>
    have hu := hs _ _ hsound hserve
    obtain ⟨d, d', hd, hexec, hrest⟩ := ih hu.sound (by rw [hu.eip]; exact hat) hend
    exact ⟨d, d', hu.trans hd, hexec, hrest⟩
  | int hat' _ _ _ _ _ _ _ =>
    obtain ⟨rfl, -⟩ := Prod.mk.inj (Option.some.inj (hat.symm.trans hat'))
    exact absurd rfl (hint _)

/-- At an `int` the handler of its vector runs. -/
theorem Run.at_int (hl : p.Linked) (hs : Quiet p serving) (hsound : p.sound c.mem)
    (hrun : Run p serving c c2) {v : BitVec 8} {j : Instr} {next next' : Word}
    (hat : p.fetch c.eip = some (.int v, next)) (hend : p.fetch c2.eip = some (j, next'))
    (hne : j ≠ .int v) :
    ∃ d d1 d2 d3 next2, Undisturbed p c d ∧
      deliver p.tables true v none (d.goto next) = some d1 ∧ Run p serving d1 d2 ∧
      p.fetch d2.eip = some (.iret, next2) ∧ leave d2 .iret = some d3 ∧ Run p serving d3 c2 := by
  induction hrun with
  | refl c =>
    obtain ⟨rfl, -⟩ := Prod.mk.inj (Option.some.inj (hat.symm.trans hend))
    exact absurd rfl hne
  | asm hat' hexec _ _ =>
    obtain ⟨rfl, -⟩ := Prod.mk.inj (Option.some.inj (hat.symm.trans hat'))
    cases hexec
  | code hstep _ _ => cases (hl.code hstep).symm.trans hat
  | interrupt hserve hrun ih =>
    have hu := hs _ _ hsound hserve
    obtain ⟨d, d1, d2, d3, next2, hd, hrest⟩ := ih hu.sound (by rw [hu.eip]; exact hat) hend
    exact ⟨d, d1, d2, d3, next2, hu.trans hd, hrest⟩
  | int hat' henter hhandler hiret hleave hrun _ _ =>
    obtain ⟨hi, rfl⟩ := Prod.mk.inj (Option.some.inj (hat.symm.trans hat'))
    obtain rfl := Instr.int.inj hi
    exact ⟨_, _, _, _, _, .refl hsound, henter, hhandler, hiret, hleave, hrun⟩

/-- At the instruction a piece of code returns with, only interrupts come. -/
theorem Run.at_end (hl : p.Linked) (hs : Quiet p serving) (hsound : p.sound c.mem)
    (hrun : Run p serving c c2) {j : Instr} {next : Word} (hat : p.fetch c.eip = some (j, next))
    (hj : j = .ret ∨ j = .iret) : Undisturbed p c c2 := by
  induction hrun with
  | refl c => exact .refl hsound
  | asm hat' hexec _ _ =>
    obtain ⟨rfl, -⟩ := Prod.mk.inj (Option.some.inj (hat.symm.trans hat'))
    obtain rfl | rfl := hj <;> cases hexec
  | code hstep _ _ => cases (hl.code hstep).symm.trans hat
  | interrupt hserve _ ih =>
    have hu := hs _ _ hsound hserve
    exact hu.trans (ih hu.sound (by rw [hu.eip]; exact hat))
  | int hat' _ _ _ _ _ _ _ =>
    obtain ⟨rfl, -⟩ := Prod.mk.inj (Option.some.inj (hat.symm.trans hat'))
    obtain hj | hj := hj <;> cases hj

/-- A function that has been called runs up to its return. -/
theorem Run.at_code {f : Word} {c0 : Cpu} (hs : Quiet p serving) (hf : Cdecl p serving f)
    (hcalled : Called p f c0) (hrun : Run p serving c c2) (hsofar : CodeRun p serving c0 c)
    (hat : p.fetch c.eip = none) (hend : (p.fetch c2.eip).isSome) :
    ∃ d, CodeRun p serving c0 d ∧ (p.fetch d.eip).isSome ∧ Run p serving d c2 := by
  induction hrun with
  | refl c =>
    rw [hat] at hend
    cases hend
  | asm hat' _ _ _ => cases hat.symm.trans hat'
  | @code c c1 _ hstep hrun ih =>
    have hnext := hsofar.code hstep
    cases hfetch : p.fetch c1.eip with
    | none => exact ih hnext hfetch hend
    | some _ => exact ⟨c1, hnext, by rw [hfetch]; rfl, hrun⟩
  | interrupt hserve _ ih =>
    have hu := hs _ _ (hf.sound hcalled hsofar) hserve
    exact ih (hsofar.interrupt hserve hu) (by rw [hu.eip]; exact hat) hend
  | int hat' _ _ _ _ _ _ _ => cases hat.symm.trans hat'

/-- Where the frame of an interrupt in `c` ends. -/
def stackBase (p : Platform) (c : Cpu) : Nat :=
  if c.cpl = 0 then (c.reg .esp).toNat else p.esp0.toNat

/-- The stack below `base` is not that of the code in `c`. -/
structure Bed (p : Platform) (c : Cpu) (base : Nat) : Prop where
  room : p.floor + 64 ≤ base
  le : base ≤ p.esp0.toNat
  own : ∀ a, Private p c a → p.user a ∨ base ≤ a.toNat ∧ a.toNat < p.esp0.toNat

theorem Platform.Room.bed (hl : p.Linked) (hroom : p.Room c) : Bed p c (stackBase p c) := by
  unfold stackBase
  split
  · rename_i hring
    obtain ⟨hroom, hle⟩ := hroom hring
    exact ⟨hroom, hle, fun a ha => ha.imp id fun ha => ha.2⟩
  · rename_i hring
    exact ⟨hl.room, Nat.le_refl _, fun a ha => ha.imp id fun ha => absurd ha.1 hring⟩

/-- In the entry code, with the words `ws` on the stack below `base`. `val` is what is known of the
    registers. -/
structure Mid (p : Platform) (c : Cpu) (base : Nat) (val : Reg → Option Word) (ws : List Word)
    (d : Cpu) : Prop where
  esp : (d.reg .esp).toNat + 4 * ws.length = base
  words : Holds d.mem (d.reg .esp) ws
  reg : ∀ r w, r ≠ .esp → val r = some w → d.reg r = w
  mem : ∀ a, Private p c a → d.mem a = c.mem a
  ss : c.cpl = 0 → d.ss = c.ss
  sound : p.sound d.mem

theorem Mid.push (hl : p.Linked) (hb : Bed p c base) (hm : Mid p c base val ws d)
    (hroom : p.floor + 4 * (ws.length + 1) ≤ base) (w : Word) :
    Mid p c base val (w :: ws) (d.push w) := by
  have hesp := hm.esp
  have hle := hb.le
  have hlt := p.esp0.isLt
  have hnew : (d.reg .esp - 4).toNat = (d.reg .esp).toNat - 4 := by bv_omega
  have hback : d.reg .esp - 4 + 4 = d.reg .esp := by bv_omega
  refine ⟨?_, ⟨?_, ?_⟩, ?_, ?_, hm.ss, hl.data (fun a _ ha => ?_) hm.sound⟩
  · rw [Cpu.push_esp, hnew, List.length_cons]
    omega
  · exact d.push_top w
  · rw [Cpu.push_esp, hback]
    exact hm.words.congr (fun b hb _ => store_above (by omega)) (by omega)
  · intro r w' hr hval
    rw [d.push_reg w hr]
    exact hm.reg r w' hr hval
  · intro a ha
    show Base.Ia32.store d.mem (d.reg .esp - 4) w a = _
    rcases hb.own a ha with huser | ⟨hge, -⟩
    · rcases hl.apart a huser with hlow | hhigh
      · rw [store_below (by omega) (by omega)]
        exact hm.mem a ha
      · rw [store_above (by omega)]
        exact hm.mem a ha
    · rw [store_above (by omega)]
      exact hm.mem a ha
  · show Base.Ia32.store d.mem (d.reg .esp - 4) w a = _
    rcases ha with hlow | hhigh
    · exact store_below (by omega) (by omega)
    · exact store_above (by omega)

theorem Mid.top (hm : Mid p c base val (w :: ws) d) : d.top = w := hm.words.1

theorem Mid.drop (hle : base ≤ p.esp0.toNat) (hm : Mid p c base val (w :: ws) d) :
    Mid p c base val ws d.drop := by
  have hesp := hm.esp
  have hlt := p.esp0.isLt
  rw [List.length_cons] at hesp
  have hnew : (d.reg .esp + 4).toNat = (d.reg .esp).toNat + 4 := by bv_omega
  have hreg : d.drop.reg .esp = d.reg .esp + 4 := d.setReg_self .esp (d.reg .esp + 4)
  refine ⟨?_, ?_, fun r w' hr hval => ?_, hm.mem, hm.ss, hm.sound⟩
  · rw [hreg, hnew]
    omega
  · rw [hreg]
    exact hm.words.2
  · exact (d.setReg_ne _ hr).trans (hm.reg r w' hr hval)

theorem Mid.setReg (hm : Mid p c base val ws d) {r : Reg} (hr : r ≠ .esp) (w : Word) :
    Mid p c base (Function.update val r (some w)) ws (d.setReg r w) := by
  have hesp : (d.setReg r w).reg .esp = d.reg .esp := d.setReg_ne w hr.symm
  refine ⟨by rw [hesp]; exact hm.esp, by rw [hesp]; exact hm.words, fun r' w' hr' hval => ?_,
    hm.mem, hm.ss, hm.sound⟩
  by_cases hrr : r' = r
  · subst hrr
    rw [Function.update_self] at hval
    exact (d.setReg_self ..).trans (Option.some.inj hval)
  · rw [Function.update_of_ne hrr] at hval
    exact (d.setReg_ne w hrr).trans (hm.reg r' w' hr' hval)

theorem Mid.weaken {val' : Reg → Option Word} (hm : Mid p c base val ws d)
    (hval : ∀ r w, r ≠ .esp → val' r = some w → val r = some w) : Mid p c base val' ws d :=
  ⟨hm.esp, hm.words, fun r w hr h => hm.reg r w hr (hval r w hr h), hm.mem, hm.ss, hm.sound⟩

theorem Mid.congr (hm : Mid p c base val ws d) (hreg : d'.reg = d.reg) (hmem : d'.mem = d.mem)
    (hss : d'.ss = d.ss) : Mid p c base val ws d' := by
  refine ⟨?_, ?_, ?_, ?_, ?_, ?_⟩
  · rw [hreg]; exact hm.esp
  · rw [hreg, hmem]; exact hm.words
  · rw [hreg]; exact hm.reg
  · rw [hmem]; exact hm.mem
  · rw [hss]; exact hm.ss
  · rw [hmem]; exact hm.sound

theorem Mid.undisturbed (hb : Bed p c base) (hm : Mid p c base val ws d) (hring : d.cpl = 0)
    (hu : Undisturbed p d d') : Mid p c base val ws d' := by
  have hesp := hm.esp
  have hle := hb.le
  have hlt := p.esp0.isLt
  have hmem : ∀ a : Word, (d.reg .esp).toNat ≤ a.toNat → a.toNat < p.esp0.toNat →
      d'.mem a = d.mem a := fun a hge hlt => hu.mem a (.inr ⟨hring, hge, hlt⟩)
  refine ⟨by rw [hu.reg]; exact hm.esp, ?_, by rw [hu.reg]; exact hm.reg, fun a ha => ?_,
    fun hc => hu.ss.trans (hm.ss hc), hu.sound⟩
  · rw [hu.reg]
    exact hm.words.congr (fun a hge hlt => hmem a hge (by omega)) (by omega)
  · refine Eq.trans ?_ (hm.mem a ha)
    rcases hb.own a ha with huser | ⟨hge, hlt⟩
    · exact hu.mem a (.inl huser)
    · exact hmem a (by omega) hlt

/-- What is known of the registers when a function has returned. -/
def afterCall (val : Reg → Option Word) (eax : Word) : Reg → Option Word
  | .eax => some eax
  | .ebx => val .ebx
  | .ebp => val .ebp
  | .esi => val .esi
  | .edi => val .edi
  | _ => none

/-- A C function has been called from the entry code and has returned. -/
theorem Mid.back (hb : Bed p c base) (hm : Mid p c base val (w :: ws) d) (hback : Back p d d')
    (hsound : p.sound d'.mem) : Mid p c base (afterCall val (d'.reg .eax)) ws d' := by
  have hesp := hm.esp
  have hle := hb.le
  have hlt := p.esp0.isLt
  rw [List.length_cons] at hesp
  have hnew : (d.reg .esp + 4).toNat = (d.reg .esp).toNat + 4 := by bv_omega
  refine ⟨?_, ?_, fun r w' hr hval => ?_, fun a ha => ?_, fun hc => hback.ss.trans (hm.ss hc),
    hsound⟩
  · rw [hback.esp, hnew]
    omega
  · rw [hback.esp]
    exact hm.words.2.congr (fun a hge hlt => hback.mem a (.inr ⟨by omega, by omega⟩)) (by omega)
  · have hsaved : (r = .ebx ∨ r = .ebp ∨ r = .esi ∨ r = .edi) → val r = some w' → d'.reg r = w' :=
      fun hr' hval => (hback.saved r hr').trans (hm.reg r w' hr hval)
    cases r <;> first
      | exact Option.some.inj hval
      | exact hsaved (by simp) hval
      | cases hval
  · refine Eq.trans (hback.mem a ?_) (hm.mem a ha)
    exact (hb.own a ha).imp id fun ⟨hge, hlt⟩ => ⟨by omega, hlt⟩

/-! ## The frame -/

/-- What the processor pushes when an interrupt comes in `c`. -/
def frame (c : Cpu) : List Word :=
  [c.eip, c.cs.setWidth 32, c.eflags] ++
    if c.cpl = 0 then [] else [c.reg .esp, c.ss.setWidth 32]

theorem frame_length (c : Cpu) : (frame c).length ≤ 5 := by
  unfold frame
  split <;> simp

/-- The stack the frame comes on, with what is pushed of the one that is left. -/
theorem stack_mid (hl : p.Linked) (hroom : p.Room c) (hsound : p.sound c.mem) :
    Mid p c (stackBase p c) (fun r => some (c.reg r))
      (if c.cpl = 0 then [] else [c.reg .esp, c.ss.setWidth 32]) (p.tables.stack c (0 < c.cpl)) := by
  have hb := hroom.bed hl
  unfold Tables.stack
  by_cases hring : c.cpl = 0
  · rw [if_pos hring, hring]
    exact ⟨(if_pos hring).symm, trivial, fun _ _ _ hval => Option.some.inj hval, fun _ _ => rfl,
      fun _ => rfl, hsound⟩
  · have hpos : (0 : BitVec 2) < c.cpl := by bv_omega
    have hstart : Mid p c (stackBase p c) (fun r => some (c.reg r)) []
        { c.setReg .esp p.tables.esp0 with ss := p.tables.ss0 } := by
      refine ⟨?_, trivial, fun r w hr hval => (c.setReg_ne _ hr).trans (Option.some.inj hval),
        fun _ _ => rfl, fun hc => absurd hc hring, hsound⟩
      exact (congrArg BitVec.toNat (c.setReg_self .esp _)).trans (if_neg hring).symm
    have hbed := hb.room
    rw [if_neg hring, decide_eq_true hpos]
    exact (hstart.push hl hb (by simp only [List.length_nil]; omega) _).push hl hb
      (by simp only [List.length_cons, List.length_nil]; omega) _

theorem entered_mid (hl : p.Linked) (hroom : p.Room c) (hsound : p.sound c.mem) (f : Word)
    (err : Option Word) :
    Mid p c (stackBase p c) (fun r => some (c.reg r)) (err.toList ++ frame c) (entered p f err c) := by
  have hb := hroom.bed hl
  have hbed := hb.room
  have hstack := stack_mid hl hroom hsound
  have hlen : (if c.cpl = 0 then [] else [c.reg .esp, c.ss.setWidth 32]).length ≤ 2 := by
    split <;> simp
  unfold frame
  generalize (if c.cpl = 0 then [] else [c.reg .esp, c.ss.setWidth 32]) = ws at hstack hlen
  have hframe := ((hstack.push hl hb (by omega) c.eflags).push hl hb
    (by rw [List.length_cons]; omega) (c.cs.setWidth 32)).push hl hb
    (by rw [List.length_cons, List.length_cons]; omega) c.eip
  cases err with
  | none => exact hframe.congr rfl rfl rfl
  | some w =>
    refine (hframe.push hl hb ?_ w).congr rfl rfl rfl
    rw [List.length_cons, List.length_cons, List.length_cons]
    omega

/-! ## The entry code -/

/-- A run of the entry code has come to `a`. -/
structure On (p : Platform) (serving : Cpu → Cpu → Prop) (c : Cpu) (base : Nat)
    (val : Reg → Option Word) (ws : List Word) (a : Word) (d c2 : Cpu) : Prop where
  mid : Mid p c base val ws d
  eip : d.eip = a
  ring : d.cpl = 0
  run : Run p serving d c2

section

variable {a next next' : Word} {r : Reg}

/-- What the next instruction is given. -/
theorem On.step (hl : p.Linked) (hs : Quiet p serving) (hb : Bed p c base)
    (ho : On p serving c base val ws a d c2) {i : Instr} (hat : p.fetch a = some (i, next))
    (hend : p.fetch c2.eip = some (.iret, next')) (hne : Instr.iret ≠ i)
    (hint : ∀ v, i ≠ .int v) :
    ∃ d1 d2, Mid p c base val ws d1 ∧ d1.cpl = 0 ∧ exec next d1 i = some d2 ∧
      Run p serving d2 c2 := by
  obtain ⟨d1, d2, hu, hexec, hrun⟩ := ho.run.at_instr hl hs ho.mid.sound (by rw [ho.eip]; exact hat)
    hend hne hint
  exact ⟨d1, d2, ho.mid.undisturbed hb ho.ring hu, hu.cpl.trans ho.ring, hexec, hrun⟩

theorem On.push (hl : p.Linked) (hs : Quiet p serving) (hb : Bed p c base)
    (ho : On p serving c base val ws a d c2) (hat : p.fetch a = some (.push r, next))
    (hend : p.fetch c2.eip = some (.iret, next')) (hr : r ≠ .esp) (hval : val r = some w)
    (hroom : p.floor + 4 * (ws.length + 1) ≤ base) :
    ∃ d', On p serving c base val (w :: ws) next d' c2 := by
  obtain ⟨d1, d2, hm, hring, hexec, hrun⟩ := ho.step hl hs hb hat hend (by simp) (by simp)
  obtain rfl := Option.some.inj hexec
  have hpush := hm.push hl hb hroom (d1.reg r)
  rw [hm.reg r w hr hval] at hpush hrun
  exact ⟨(d1.push w).goto next, hpush.congr rfl rfl rfl, rfl, hring, hrun⟩

theorem On.pushf (hl : p.Linked) (hs : Quiet p serving) (hb : Bed p c base)
    (ho : On p serving c base val ws a d c2) (hat : p.fetch a = some (.pushf, next))
    (hend : p.fetch c2.eip = some (.iret, next')) (hroom : p.floor + 4 * (ws.length + 1) ≤ base) :
    ∃ w d', On p serving c base val (w :: ws) next d' c2 := by
  obtain ⟨d1, d2, hm, hring, hexec, hrun⟩ := ho.step hl hs hb hat hend (by simp) (by simp)
  obtain rfl := Option.some.inj hexec
  exact ⟨_, (d1.push (d1.eflags &&& ~~~ 0x30000)).goto next,
    (hm.push hl hb hroom _).congr rfl rfl rfl, rfl, hring, hrun⟩

theorem On.popf (hl : p.Linked) (hs : Quiet p serving) (hb : Bed p c base)
    (ho : On p serving c base val (w :: ws) a d c2) (hat : p.fetch a = some (.popf, next))
    (hend : p.fetch c2.eip = some (.iret, next')) :
    ∃ d', On p serving c base val ws next d' c2 := by
  obtain ⟨d1, d2, hm, hring, hexec, hrun⟩ := ho.step hl hs hb hat hend (by simp) (by simp)
  have hd2 := Option.some.inj ((if_pos hring).symm.trans hexec)
  refine ⟨d2, (hm.drop hb.le).congr ?_ ?_ ?_, ?_, ?_, hrun⟩ <;> rw [← hd2] <;>
    first | rfl | exact hring

theorem On.addEsp (hl : p.Linked) (hs : Quiet p serving) (hb : Bed p c base)
    (ho : On p serving c base val (w :: ws) a d c2) (hat : p.fetch a = some (.addEsp 4, next))
    (hend : p.fetch c2.eip = some (.iret, next')) :
    ∃ d', On p serving c base val ws next d' c2 := by
  obtain ⟨d1, d2, hm, hring, hexec, hrun⟩ := ho.step hl hs hb hat hend (by simp) (by simp)
  obtain rfl := Option.some.inj hexec
  exact ⟨d1.drop.goto next, (hm.drop hb.le).congr rfl rfl rfl, rfl, hring, hrun⟩

theorem On.pop (hl : p.Linked) (hs : Quiet p serving) (hb : Bed p c base)
    (ho : On p serving c base val (w :: ws) a d c2) (hat : p.fetch a = some (.pop r, next))
    (hend : p.fetch c2.eip = some (.iret, next')) (hr : r ≠ .esp) :
    ∃ d', On p serving c base (Function.update val r (some w)) ws next d' c2 := by
  obtain ⟨d1, d2, hm, hring, hexec, hrun⟩ := ho.step hl hs hb hat hend (by simp) (by simp)
  obtain rfl := Option.some.inj hexec
  have hset := (hm.drop hb.le).setReg hr d1.top
  rw [hm.top] at hset hrun
  exact ⟨(d1.drop.setReg r w).goto next, hset.congr rfl rfl rfl, rfl, hring, hrun⟩

/-- A C function is called with the registers of the code that was interrupted, and returns. -/
theorem On.call (hl : p.Linked) (hs : Quiet p serving) (hb : Bed p c base) {f : Word}
    (hf : Cdecl p serving f) (hnone : p.fetch f = none)
    (ho : On p serving c base (fun r => some (c.reg r)) ws a d c2)
    (hat : p.fetch a = some (.call f, next)) (hcaller : (p.fetch next).isSome)
    (hend : p.fetch c2.eip = some (.iret, next')) (hroom : p.floor + 4 * (ws.length + 1) ≤ base) :
    ∃ e e' d', Called p f e ∧ (∀ r, r ≠ .esp → e.reg r = c.reg r) ∧ CodeRun p serving e e' ∧
      On p serving c base (afterCall (fun r => some (c.reg r)) (e'.reg .eax)) ws next d' c2 := by
  obtain ⟨d1, d2, hm, hring, hexec, hrun⟩ := ho.step hl hs hb hat hend (by simp) (by simp)
  obtain rfl := Option.some.inj hexec
  have hpush : Mid p c base (fun r => some (c.reg r)) (next :: ws) ((d1.push next).goto f) :=
    (hm.push hl hb hroom next).congr rfl rfl rfl
  have hesp := hpush.esp
  have hle := hb.le
  rw [List.length_cons] at hesp
  have hcalled : Called p f ((d1.push next).goto f) :=
    ⟨rfl, (congrArg (fun a => (p.fetch a).isSome) (d1.push_top next)).trans hcaller, hring, hpush.sound,
      by omega, by omega⟩
  obtain ⟨e', hcode, hsome, hrest⟩ := hrun.at_code hs hf hcalled .refl hnone (by rw [hend]; rfl)
  have hback := hf.back hcalled hcode hsome
  exact ⟨_, e', e', hcalled, fun r hr => hpush.reg r _ hr rfl, hcode,
    hpush.back hb hback (hf.sound hcalled hcode), hback.eip.trans (d1.push_top next),
    (congrArg (BitVec.setWidth 2) hback.cs).trans hring, hrest⟩

end

/-- The registers at the end of the entry code, if the C function has returned `eax`. -/
def handed (h : Handler) (c : Cpu) (eax : Word) : Reg → Word :=
  if h.keepEax then Function.update c.reg .eax eax else c.reg

/-- The entry code from its start to its `iret`. -/
theorem stub_run (hl : p.Linked) (hs : Quiet p serving) (hb : Bed p c base)
    (hf : Cdecl p serving (p.sym.handler h))
    (hm : Mid p c base (fun r => some (c.reg r)) ws c1) (hlen : ws.length ≤ 6)
    (heip : c1.eip = p.sym.asm h) (hring : c1.cpl = 0) (hrun : Run p serving c1 c2) {next : Word}
    (hend : p.fetch c2.eip = some (.iret, next)) :
    ∃ e e', Called p (p.sym.handler h) e ∧ (∀ r, r ≠ .esp → e.reg r = c.reg r) ∧
      CodeRun p serving e e' ∧ c2.cpl = 0 ∧
      Mid p c base (fun r => some (handed h c (e'.reg .eax) r)) ws c2 := by
  have hbed := hb.room
  obtain ⟨a1, f0, a2, f1, a3, f2, a4, f3, a5, f4, a6, f5, a7, f6, a8, f7, a9, f8, a10, f9, -⟩ :=
    hl.stub h
  have ho : On p serving c base _ ws (p.sym.asm h) c1 c2 := ⟨hm, heip, hring, hrun⟩
  obtain ⟨d1, h1⟩ := ho.push hl hs hb f0 hend (by decide) rfl (by omega)
  obtain ⟨d2, h2⟩ := h1.push hl hs hb f1 hend (by decide) rfl (by rw [List.length_cons]; omega)
  obtain ⟨d3, h3⟩ := h2.push hl hs hb f2 hend (by decide) rfl
    (by rw [List.length_cons, List.length_cons]; omega)
  obtain ⟨flags, d4, h4⟩ := h3.pushf hl hs hb f3 hend
    (by rw [List.length_cons, List.length_cons, List.length_cons]; omega)
  obtain ⟨e, e', d5, hcalled, hregs, hcode, h5⟩ := h4.call hl hs hb hf (hl.handler h) f4
    (by rw [f5]; rfl) hend
    (by rw [List.length_cons, List.length_cons, List.length_cons, List.length_cons]; omega)
  obtain ⟨d6, h6⟩ := h5.popf hl hs hb f5 hend
  obtain ⟨d7, h7⟩ := h6.pop hl hs hb f6 hend (by decide)
  obtain ⟨d8, h8⟩ := h7.pop hl hs hb f7 hend (by decide)
  refine ⟨e, e', hcalled, hregs, hcode, ?_⟩
  cases hkeep : h.keepEax with
  | false =>
    rw [hkeep] at f8
    obtain ⟨d9, h9⟩ := h8.pop hl hs hb f8 hend (by decide)
    have hu := h9.run.at_end hl hs h9.mid.sound (by rw [h9.eip]; exact f9) (.inr rfl)
    refine ⟨hu.cpl.trans h9.ring, (h9.mid.undisturbed hb h9.ring hu).weaken fun r w hr hval => ?_⟩
    unfold handed at hval
    rw [hkeep] at hval
    cases r <;> first | exact absurd rfl hr | exact hval
  | true =>
    rw [hkeep] at f8
    obtain ⟨d9, h9⟩ := h8.addEsp hl hs hb f8 hend
    have hu := h9.run.at_end hl hs h9.mid.sound (by rw [h9.eip]; exact f9) (.inr rfl)
    refine ⟨hu.cpl.trans h9.ring, (h9.mid.undisturbed hb h9.ring hu).weaken fun r w hr hval => ?_⟩
    unfold handed at hval
    rw [hkeep] at hval
    cases r <;> first | exact absurd rfl hr | exact hval

/-! ## The return -/

/-- `iret` has given back what the frame holds. -/
structure Resumed (c c2 c' : Cpu) : Prop where
  eip : c'.eip = c.eip
  cs : c'.cs = c.cs
  eflags : c'.eflags = c.eflags
  ss : c'.ss = c.ss
  esp : c'.reg .esp = c.reg .esp
  reg : ∀ r, r ≠ .esp → c'.reg r = c2.reg r
  mem : c'.mem = c2.mem

theorem iret_resumes (hb : Bed p c (stackBase p c)) (hm : Mid p c (stackBase p c) val (frame c) c2)
    (hring : c2.cpl = 0) (hleave : leave c2 .iret = some c') : Resumed c c2 c' := by
  obtain rfl := Option.some.inj ((if_pos hring).symm.trans hleave)
  have hcs : ((c.cs.setWidth 32).setWidth 16 : BitVec 16) = c.cs := by simp
  have hss : ((c.ss.setWidth 32).setWidth 16 : BitVec 16) = c.ss := by simp
  have hle := hb.le
  have h1 := hm.drop hle
  have h2 := h1.drop hle
  have h3 := h2.drop hle
  have hdrops : ∀ r, r ≠ .esp → c2.drop.drop.drop.reg r = c2.reg r := fun r hr =>
    (Cpu.setReg_ne _ _ hr).trans ((Cpu.setReg_ne _ _ hr).trans (Cpu.setReg_ne _ _ hr))
  unfold Cpu.iret
  dsimp only
  rw [hm.top, h1.top, h2.top, hcs]
  by_cases hc : c.cpl = 0
  · have hsame : ¬ (0 : BitVec 2) < c.cs.setWidth 2 := by
      rw [show c.cs.setWidth 2 = c.cpl from rfl, hc]
      decide
    have hesp := h3.esp
    rw [if_pos hc] at hesp
    rw [if_neg hsame]
    refine ⟨rfl, rfl, rfl, hm.ss hc, BitVec.eq_of_toNat_eq (hesp.trans (if_pos hc)), hdrops, rfl⟩
  · have houter : (0 : BitVec 2) < c.cs.setWidth 2 := by
      rw [show c.cs.setWidth 2 = c.cpl from rfl]
      bv_omega
    rw [if_neg hc] at h3
    have h4 := h3.drop hle
    rw [if_pos houter]
    refine ⟨rfl, rfl, rfl, ?_, ?_, fun r hr => ?_, rfl⟩
    · exact (congrArg (BitVec.setWidth 16) h4.top).trans hss
    · show Function.update c2.drop.drop.drop.reg .esp c2.drop.drop.drop.top .esp = _
      rw [Function.update_self]
      exact h3.top
    · exact (Cpu.setReg_ne _ _ hr).trans (hdrops r hr)

/-! ## Interrupts -/

/-- An interrupt that comes in `c`, up to the return of its handler. -/
theorem handler_returns (hl : p.Linked) (hs : Quiet p serving)
    (hf : Cdecl p serving (p.sym.handler h)) (hroom : p.Room c) (hsound : p.sound c.mem)
    (hrun : Run p serving (entered p (p.sym.asm h) none c) c2) {next : Word}
    (hend : p.fetch c2.eip = some (.iret, next)) (hleave : leave c2 .iret = some c') :
    ∃ e e', Called p (p.sym.handler h) e ∧ (∀ r, r ≠ .esp → e.reg r = c.reg r) ∧
      CodeRun p serving e e' ∧ c'.reg = handed h c (e'.reg .eax) ∧ Resumed c c2 c' ∧
      (∀ a, Private p c a → c'.mem a = c.mem a) ∧ p.sound c'.mem := by
  have hb := hroom.bed hl
  have hm := entered_mid hl hroom hsound (p.sym.asm h) none
  obtain ⟨e, e', hcalled, hregs, hcode, hring, hend'⟩ := stub_run hl hs hb hf hm
    (Nat.le_trans (frame_length c) (by decide)) rfl (entered_ring ..) hrun hend
  have hback := iret_resumes hb hend' hring hleave
  refine ⟨e, e', hcalled, hregs, hcode, funext fun r => ?_, hback, fun a ha => ?_, ?_⟩
  · by_cases hr : r = .esp
    · rw [hr, hback.esp]
      unfold handed
      split <;> rfl
    · exact (hback.reg r hr).trans (hend'.reg r _ hr rfl)
  · rw [hback.mem]
    exact hend'.mem a ha
  · rw [hback.mem]
    exact hend'.sound

theorem Served.undisturbed (hl : p.Linked) (hs : Quiet p serving)
    (hf : ∀ h v, irq h = some v → Cdecl p serving (p.sym.handler h)) (hsound : p.sound c.mem)
    (hserved : Served p serving c c') : Undisturbed p c c' := by
  obtain ⟨hirq, -, hroom, henter, hrun, hend, hleave⟩ := hserved
  rename_i h _ _ _ _
  rw [deliver_kernelGate (gate_irq hirq) (fun hs => by cases hs) none] at henter
  obtain rfl := Option.some.inj henter
  obtain ⟨-, e', -, -, -, hreg, hback, hmem, hsound'⟩ :=
    handler_returns hl hs (hf h _ hirq) hroom hsound hrun hend hleave
  have hkeep : h.keepEax = false := by
    cases h <;> first | rfl | cases hirq
  unfold handed at hreg
  rw [hkeep] at hreg
  exact ⟨hreg, hback.eip, hback.eflags, hback.cs, hback.ss, hmem, hsound'⟩

def handlers : List Handler :=
  [.excDe, .excDb, .excNmi, .excBp, .excOf, .excBr, .excUd, .excNm, .excDf, .excCso, .excTs,
    .excNp, .excSs, .excGp, .excPf, .excAf, .excMf, .excAc, .excMc, .excXf, .excVe, .excSx,
    .irqhKeyboard, .irqhPit, .irqhRtc, .irqhSyscall]

def smallSymbols : Symbols where
  handler h := BitVec.ofNat 32 (0x600000 + h.ctorIdx)
  asm h := BitVec.ofNat 32 (0x400000 + 16 * h.ctorIdx)
  wrapper t := BitVec.ofNat 32 (0x8048000 + 16 * t.ctorIdx)

/-- One byte for an instruction. -/
def smallFetch (a : Word) : Option (Instr × Word) :=
  let code := if a.toNat / 0x1000 = 0x400 then
      (handlers[a.toNat % 0x1000 / 16]?).map fun h => asmExc (smallSymbols.handler h) h.keepEax
    else if a.toNat / 0x1000 = 0x8048 then
      (syscalls[a.toNat % 0x1000 / 16]?).map fun t => doCall t.val
    else none
  (code.bind fun is => is[a.toNat % 16]?).map fun i => (i, a + 1)

/-- The C functions of the kernel return -1 at once. -/
def smallPlatform : Platform where
  sym := smallSymbols
  fetch := smallFetch
  codeStep c c' := (∃ h, c.eip = smallSymbols.handler h) ∧
    c' = (c.drop.setReg .eax (-1)).goto c.top
  esp0 := 0x7FDFFC
  floor := 0x7FC000
  user a := 0x8048000 ≤ a.toNat
  sound _ := True

theorem smallPlatform_linked : smallPlatform.Linked where
  stub h := by
    cases h <;> exact ⟨_, rfl, _, rfl, _, rfl, _, rfl, _, rfl, _, rfl, _, rfl, _, rfl, _, rfl, _, rfl,
      trivial⟩
  wrapper t := by
    cases t <;> exact ⟨_, rfl, _, rfl, _, rfl, _, rfl, _, rfl, _, rfl, _, rfl, _, rfl, trivial⟩
  handler h := by cases h <;> rfl
  code := by
    rintro c c' ⟨⟨h, heip⟩, -⟩
    rw [heip]
    cases h <;> rfl
  room := by decide
  apart a ha := .inr (Nat.le_trans (by decide) ha)
  data _ _ := trivial

/-- A function of the small platform has returned. -/
def Cpu.returned (c : Cpu) : Cpu := (c.drop.setReg .eax (-1)).goto c.top

/-- A program in user space. -/
def idleCpu : Cpu where
  reg r := if r = .esp then 0x8400000 else 0
  eip := 0x8049000
  eflags := 0x202
  cs := 0x23
  ss := 0x2B
  mem _ := 0

end Mp3Kernel.Entry
