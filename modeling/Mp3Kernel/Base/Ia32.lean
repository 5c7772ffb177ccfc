/-
  What calls, interrupts and returns do on a 32-bit x86 processor.

  A `Cpu` is the registers and memory; the data segments are flat and left out. `deliver` is an
  interrupt or exception: the gate is looked up and checked, the stack is switched if the code it
  leads to is more privileged, and the frame is pushed. `Instr` has the instructions entry code
  is made of; `leave` is `ret` and `iret` in ring 0.

  A fault while an interrupt is delivered is delivered once; a second one is `none`. The resume
  flag, which the processor sets in the image of the flags that it pushes for a fault, is left
  out.
-/
import Mathlib.Logic.Function.Basic
import Mathlib.Algebra.Group.Nat.Defs

namespace Base.Ia32

abbrev Word := BitVec 32

/-! ## Memory -/

abbrev Memory := Word → BitVec 8

def load (m : Memory) (a : Word) : Word := m (a + 3) ++ m (a + 2) ++ m (a + 1) ++ m a

def store (m : Memory) (a w : Word) : Memory := fun b =>
  if (b - a).toNat < 4 then w.extractLsb' (8 * (b - a).toNat) 8 else m b

theorem store_above {m : Memory} {a b w : Word} (h : a.toNat + 4 ≤ b.toNat) :
    store m a w b = m b := if_neg (by bv_omega)

theorem store_below {m : Memory} {a b w : Word} (h : b.toNat < a.toNat)
    (ha : a.toNat + 4 ≤ 2 ^ 32) : store m a w b = m b := if_neg (by bv_omega)

theorem load_store (m : Memory) (a w : Word) : load (store m a w) a = w := by
  have h : ∀ i : Nat, i < 4 → store m a w (a + BitVec.ofNat 32 i) = w.extractLsb' (8 * i) 8 := by
    intro i hi
    have hdiff : (a + BitVec.ofNat 32 i - a).toNat = i := by bv_omega
    unfold store
    rw [hdiff, if_pos hi]
  have h0 := h 0 (by decide)
  rw [BitVec.add_zero] at h0
  unfold load
  rw [h0, show (1 : Word) = BitVec.ofNat 32 1 from rfl, show (2 : Word) = BitVec.ofNat 32 2 from rfl,
    show (3 : Word) = BitVec.ofNat 32 3 from rfl, h 1 (by decide), h 2 (by decide), h 3 (by decide)]
  refine BitVec.eq_of_getLsbD_eq fun i hi => ?_
  simp only [BitVec.getLsbD_append, BitVec.getLsbD_extractLsb']
  grind

/-- The words at `a`, one after the other. -/
def Holds (m : Memory) : Word → List Word → Prop
  | _, [] => True
  | a, w :: ws => load m a = w ∧ Holds m (a + 4) ws

theorem holds_iff {m : Memory} {a : Word} {ws : List Word} :
    Holds m a ws ↔ ∀ (i : Nat) (h : i < ws.length), load m (a + BitVec.ofNat 32 (4 * i)) = ws[i] := by
  induction ws generalizing a with
  | nil => exact ⟨fun _ i h => absurd h (Nat.not_lt_zero i), fun _ => trivial⟩
  | cons w ws ih =>
    have hadd : ∀ i, a + BitVec.ofNat 32 (4 * (i + 1)) = a + 4 + BitVec.ofNat 32 (4 * i) := by
      intro i
      bv_omega
    constructor
    · intro h i hi
      cases i with
      | zero => exact (congrArg (load m) (BitVec.add_zero a)).trans h.1
      | succ i =>
        rw [hadd]
        exact ih.mp h.2 i (Nat.lt_of_succ_lt_succ hi)
    · intro h
      refine ⟨(congrArg (load m) (BitVec.add_zero a)).symm.trans (h 0 (Nat.succ_pos _)), ?_⟩
      refine ih.mpr fun i hi => ?_
      rw [← hadd]
      exact h (i + 1) (Nat.succ_lt_succ hi)

theorem load_congr {m m' : Memory} {a : Word}
    (h : ∀ b : Word, a.toNat ≤ b.toNat → b.toNat < a.toNat + 4 → m' b = m b)
    (ha : a.toNat + 4 ≤ 2 ^ 32) : load m' a = load m a := by
  unfold load
  rw [h a (by omega) (by omega), h (a + 1) (by bv_omega) (by bv_omega),
    h (a + 2) (by bv_omega) (by bv_omega), h (a + 3) (by bv_omega) (by bv_omega)]

/-- Words that nothing is stored on stay. -/
theorem Holds.congr {m m' : Memory} {a : Word} {ws : List Word} (h : Holds m a ws)
    (hsame : ∀ b : Word, a.toNat ≤ b.toNat → b.toNat < a.toNat + 4 * ws.length → m' b = m b)
    (ha : a.toNat + 4 * ws.length < 2 ^ 32) : Holds m' a ws := by
  induction ws generalizing a with
  | nil => trivial
  | cons w ws ih =>
    rw [List.length_cons] at hsame ha
    have hnext : (a + 4).toNat = a.toNat + 4 := by bv_omega
    refine ⟨(load_congr (fun b hb hlt => hsame b hb (by omega)) (by omega)).trans h.1, ?_⟩
    exact ih h.2 (fun b hb hlt => hsame b (by omega) (by omega)) (by omega)

/-! ## Registers and the stack -/

inductive Reg where
  | eax
  | ecx
  | edx
  | ebx
  | esp
  | ebp
  | esi
  | edi
deriving DecidableEq

structure Cpu where
  reg : Reg → Word
  eip : Word
  eflags : Word
  cs : BitVec 16
  ss : BitVec 16
  mem : Memory

/-- The ring the processor is in. -/
def Cpu.cpl (c : Cpu) : BitVec 2 := c.cs.setWidth 2

/-- The interrupt flag. -/
def Cpu.interruptible (c : Cpu) : Bool := c.eflags.getLsbD 9

def Cpu.setReg (c : Cpu) (r : Reg) (w : Word) : Cpu := { c with reg := Function.update c.reg r w }

def Cpu.push (c : Cpu) (w : Word) : Cpu :=
  { c.setReg .esp (c.reg .esp - 4) with mem := store c.mem (c.reg .esp - 4) w }

/-- The word on top of the stack. -/
def Cpu.top (c : Cpu) : Word := load c.mem (c.reg .esp)

/-- The stack without it. -/
def Cpu.drop (c : Cpu) : Cpu := c.setReg .esp (c.reg .esp + 4)

def Cpu.goto (c : Cpu) (eip : Word) : Cpu := { c with eip := eip }

@[simp] theorem Cpu.setReg_mem (c : Cpu) (r : Reg) (w : Word) : (c.setReg r w).mem = c.mem := rfl
@[simp] theorem Cpu.setReg_eip (c : Cpu) (r : Reg) (w : Word) : (c.setReg r w).eip = c.eip := rfl
@[simp] theorem Cpu.setReg_cs (c : Cpu) (r : Reg) (w : Word) : (c.setReg r w).cs = c.cs := rfl
@[simp] theorem Cpu.setReg_ss (c : Cpu) (r : Reg) (w : Word) : (c.setReg r w).ss = c.ss := rfl
@[simp] theorem Cpu.setReg_cpl (c : Cpu) (r : Reg) (w : Word) : (c.setReg r w).cpl = c.cpl := rfl

@[simp] theorem Cpu.setReg_self (c : Cpu) (r : Reg) (w : Word) : (c.setReg r w).reg r = w :=
  Function.update_self ..

theorem Cpu.setReg_ne (c : Cpu) {r r' : Reg} (w : Word) (h : r' ≠ r) :
    (c.setReg r w).reg r' = c.reg r' := Function.update_of_ne h ..

@[simp] theorem Cpu.push_esp (c : Cpu) (w : Word) : (c.push w).reg .esp = c.reg .esp - 4 :=
  c.setReg_self .esp (c.reg .esp - 4)

theorem Cpu.push_reg (c : Cpu) (w : Word) {r : Reg} (h : r ≠ .esp) :
    (c.push w).reg r = c.reg r := c.setReg_ne _ h

@[simp] theorem Cpu.push_top (c : Cpu) (w : Word) : (c.push w).top = w := by
  unfold top
  rw [push_esp]
  exact load_store ..

/-! ## Descriptors -/

structure Gate where
  offset : Word
  selector : BitVec 16
  kind : BitVec 5
  dpl : BitVec 2
  present : Bool

/-- A gate as the processor reads it. -/
def Gate.read (d : BitVec 64) : Gate where
  offset := d.extractLsb' 48 16 ++ d.extractLsb' 0 16
  selector := d.extractLsb' 16 16
  kind := d.extractLsb' 40 5
  dpl := d.extractLsb' 45 2
  present := d.getLsbD 47

def interruptGate : BitVec 5 := 0b01110
def trapGate : BitVec 5 := 0b01111

/-- The privilege level of a segment descriptor. -/
def segmentDpl (d : BitVec 64) : BitVec 2 := d.extractLsb' 45 2

/-- The descriptor tables, and the stack for ring 0. -/
structure Tables where
  idt : BitVec 8 → BitVec 64
  gdt : Nat → BitVec 64
  esp0 : Word
  ss0 : BitVec 16

/-! ## Interrupts -/

def Cpu.pushAll (c : Cpu) (ws : List Word) : Cpu := ws.foldl Cpu.push c

/-- The ring a gate leads to. -/
def Tables.level (t : Tables) (g : Gate) : BitVec 2 := segmentDpl (t.gdt (g.selector.toNat / 8))

/-- The flags in the handler: no single steps, and behind an interrupt gate no interrupts. -/
def Gate.flags (g : Gate) (eflags : Word) : Word :=
  eflags &&& ~~~ (if g.kind = interruptGate then 0x34300 else 0x34100)

/-- The stack the frame is pushed on. -/
def Tables.stack (t : Tables) (c : Cpu) (inner : Bool) : Cpu :=
  if inner then
    ({ c.setReg .esp t.esp0 with ss := t.ss0 }).pushAll [c.ss.setWidth 32, c.reg .esp]
  else c

/-- Through a gate. `none`: the code behind it is less privileged. The flags are pushed as they
    are, also for a fault (there the processor sets RF in them). -/
def enter (t : Tables) (g : Gate) (err : Option Word) (c : Cpu) : Option Cpu :=
  let level := t.level g
  if c.cpl < level then none
  else
    let c1 := (t.stack c (level < c.cpl)).pushAll
      ([c.eflags, c.cs.setWidth 32, c.eip] ++ err.toList)
    some { c1 with
      eflags := g.flags c.eflags
      cs := g.selector &&& 0xFFFC ||| level.setWidth 16
      eip := g.offset }

/-- The vector of the fault, if the gate may not be used. -/
def refusal (g : Gate) (cpl : BitVec 2) (software : Bool) : Option (BitVec 8) :=
  if g.kind ≠ interruptGate ∧ g.kind ≠ trapGate then some 13
  else if software ∧ g.dpl < cpl then some 13
  else if ¬ g.present then some 11
  else none

/-- Interrupt or exception `v`; `software` if it is that of an `int` instruction. -/
def deliver (t : Tables) (software : Bool) (v : BitVec 8) (err : Option Word) (c : Cpu) :
    Option Cpu :=
  match refusal (Gate.read (t.idt v)) c.cpl software with
  | none => enter t (Gate.read (t.idt v)) err c
  | some fault =>
    if refusal (Gate.read (t.idt fault)) c.cpl false = none then
      enter t (Gate.read (t.idt fault))
        (some (v.setWidth 32 * 8 + 2 + if software then 0 else 1)) c
    else none

/-! ## Instructions -/

inductive Instr where
  | push (r : Reg)
  | pushImm (w : Word)
  | pop (r : Reg)
  | pushf
  | popf
  /-- `addl $n, %esp` -/
  | addEsp (n : Word)
  | movImm (r : Reg) (w : Word)
  /-- `movl off(%esp), r` -/
  | movStack (r : Reg) (off : Word)
  | call (f : Word)
  | int (v : BitVec 8)
  | ret
  | iret

/-- What `pushf` leaves out of the flags, and what `popf` does not change in ring 0. -/
def keptFlags : Word := 0x1B0000

/-- An instruction that the one at `next` follows. `none` for the others. -/
def exec (next : Word) (c : Cpu) : Instr → Option Cpu
  | .push r => some ((c.push (c.reg r)).goto next)
  | .pushImm w => some ((c.push w).goto next)
  | .pop r => some ((c.drop.setReg r c.top).goto next)
  | .pushf => some ((c.push (c.eflags &&& ~~~ 0x30000)).goto next)
  | .popf =>
    if c.cpl = 0 then
      some ({ c.drop with
        eflags := c.eflags &&& keptFlags &&& ~~~ 0x10000 ||| c.top &&& ~~~ keptFlags }.goto next)
    else none
  | .addEsp n => some ((c.setReg .esp (c.reg .esp + n)).goto next)
  | .movImm r w => some ((c.setReg r w).goto next)
  | .movStack r off => some ((c.setReg r (load c.mem (c.reg .esp + off))).goto next)
  | .call f => some ((c.push next).goto f)
  | .int _ => none
  | .ret => none
  | .iret => none

/-- The frame of an interrupt, popped in ring 0. -/
def Cpu.iret (c : Cpu) : Cpu :=
  let c1 := c.drop
  let c2 := c1.drop
  let cs := c1.top.setWidth 16
  let back := { c2.drop with eip := c.top, cs := cs, eflags := c2.top }
  if (0 : BitVec 2) < cs.setWidth 2 then
    let c4 := back.drop
    { back.setReg .esp back.top with ss := c4.top.setWidth 16 }
  else back

/-- `ret` and `iret`. -/
def leave (c : Cpu) : Instr → Option Cpu
  | .ret => some (c.drop.goto c.top)
  | .iret => if c.cpl = 0 then some c.iret else none
  | _ => none

end Base.Ia32
