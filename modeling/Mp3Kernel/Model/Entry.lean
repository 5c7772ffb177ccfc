/-
  The way into the kernel and out again: the descriptor tables (x86_desc.S, idt.c), the entry
  code of interrupts, exceptions and system calls (idt_asm.S), and the wrappers the user programs
  call (ece391syscall.S).

  Addresses are the linker's (`Symbols`). The C functions are compiled code: `codeStep` is a step of
  it. `fetch` is the assembly code in memory, each instruction with the address behind it.

  An interrupt that is served and has returned is one step of the code it interrupted;
  `serve n` is such a step with at most `n` interrupts inside one another.
-/
import Mp3Kernel.Base.Ia32

namespace Mp3Kernel.Entry

open Base.Ia32

def kernelCs : BitVec 16 := 0x0010
def kernelDs : BitVec 16 := 0x0018

/-! ## The C functions that are entered from outside -/

inductive Handler where
  | excDe
  | excDb
  | excNmi
  | excBp
  | excOf
  | excBr
  | excUd
  | excNm
  | excDf
  | excCso
  | excTs
  | excNp
  | excSs
  | excGp
  | excPf
  | excAf
  | excMf
  | excAc
  | excMc
  | excXf
  | excVe
  | excSx
  | irqhKeyboard
  | irqhPit
  | irqhRtc
  | irqhSyscall
deriving DecidableEq

/-- `exc_handlers`. -/
def excHandlers : Nat → Option Handler := fun i =>
  [some .excDe, some .excDb, some .excNmi, some .excBp, some .excOf, some .excBr, some .excUd,
    some .excNm, some .excDf, some .excCso, some .excTs, some .excNp, some .excSs, some .excGp,
    some .excPf, some .excAf, some .excMf, some .excAc, some .excMc, some .excXf, some .excVe,
    none, none, none, none, none, none, none, none, none, some .excSx].getD i none

/-- Declared with `EXC_DFL_ERRC`: the function takes the frame to have an error code. -/
def Handler.errc : Handler → Bool
  | .excGp => true
  | .excPf => true
  | _ => false

/-- Declared with `ASM_EXC_KEEPEAX`. -/
def Handler.keepEax : Handler → Bool
  | .irqhSyscall => true
  | _ => false

inductive SyscallType where
  | halt
  | exec
  | read
  | write
  | open
  | close
  | getargs
  | vidmap
  | setHandler
  | sigreturn
deriving DecidableEq

def SyscallType.val : SyscallType → Nat
  | .halt => 1
  | .exec => 2
  | .read => 3
  | .write => 4
  | .open => 5
  | .close => 6
  | .getargs => 7
  | .vidmap => 8
  | .setHandler => 9
  | .sigreturn => 10

/-- Where the linker has put the C functions, their entry code and the wrappers. -/
structure Symbols where
  handler : Handler → Word
  asm : Handler → Word
  wrapper : SyscallType → Word

/-! ## Descriptor tables -/

inductive GateType where
  | task
  | int
  | trap

def GateType.val : GateType → BitVec 3
  | .task => 5
  | .int => 6
  | .trap => 7

structure IdtDesc where
  offset_31_16 : BitVec 16
  present : BitVec 1
  dpl : BitVec 2
  reserved0 : BitVec 1
  size : BitVec 1
  reserved1 : BitVec 1
  reserved2 : BitVec 1
  reserved3 : BitVec 1
  reserved4 : BitVec 8
  segSelector : BitVec 16
  offset_15_00 : BitVec 16

/-- The byte of the bit fields, the first of them last. -/
def IdtDesc.access (d : IdtDesc) : BitVec 8 :=
  d.present ++ d.dpl ++ d.reserved0 ++ d.size ++ d.reserved1 ++ d.reserved2 ++ d.reserved3

/-- The 8 bytes, the first field of the C structure last. -/
def IdtDesc.val (d : IdtDesc) : BitVec 64 :=
  d.offset_31_16 ++ d.access ++ d.reserved4 ++ d.segSelector ++ d.offset_15_00

def makeIdtDesc (handler : Word) (segSelector : BitVec 16) (gateType : GateType) (dpl : BitVec 2) :
    IdtDesc where
  segSelector := segSelector
  reserved4 := 0
  reserved3 := gateType.val.extractLsb' 0 1
  reserved2 := gateType.val.extractLsb' 1 1
  reserved1 := gateType.val.extractLsb' 2 1
  size := 1
  reserved0 := if gateType.val = GateType.task.val then 1 else 0
  dpl := dpl
  present := 1
  offset_31_16 := ((handler &&& 0xFFFF0000) >>> 16).setWidth 16
  offset_15_00 := (handler &&& 0xFFFF).setWidth 16

/-- The functions not in the table are null pointers. -/
def Symbols.exc (sym : Symbols) (i : Nat) : Word := (excHandlers i).elim 0 sym.asm

def excDesc (sym : Symbols) (i : Nat) : BitVec 64 :=
  (makeIdtDesc (sym.exc i) kernelCs .int 0).val

/-- `init_idt`. The table is all zeros before. -/
def initIdt (sym : Symbols) : BitVec 8 → BitVec 64 :=
  let idt := fun v : BitVec 8 => if v.toNat < 32 then excDesc sym v.toNat else 0
  let idt := Function.update idt 0x20 (makeIdtDesc (sym.asm .irqhPit) kernelCs .int 0).val
  let idt := Function.update idt 0x21 (makeIdtDesc (sym.asm .irqhKeyboard) kernelCs .int 0).val
  let idt := Function.update idt 0x28 (makeIdtDesc (sym.asm .irqhRtc) kernelCs .int 0).val
  Function.update idt 0x80 (makeIdtDesc (sym.asm .irqhSyscall) kernelCs .int 3).val

/-- The segments of x86_desc.S, but for those of the TSS and the LDT. -/
def gdt (i : Nat) : BitVec 64 :=
  [0, 0, 0x00CF9A000000FFFF, 0x00CF92000000FFFF, 0x00CFFA000000FFFF, 0x00CFF2000000FFFF].getD i 0

/-! ## Assembly code -/

/-- `I_ASM_EXC`. -/
def asmExc (f : Word) (clobeax : Bool) : List Instr :=
  [.push .eax, .push .ecx, .push .edx, .pushf, .call f, .popf, .pop .edx, .pop .ecx,
    if clobeax then .addEsp 4 else .pop .eax, .iret]

/-- `DO_CALL`. -/
def doCall (number : Nat) : List Instr :=
  [.push .ebx, .movImm .eax (BitVec.ofNat 32 number), .movStack .ebx 8, .movStack .ecx 12,
    .movStack .edx 16, .int 0x80, .pop .ebx, .ret]

/-- The instructions from `a` on. -/
def Assembled (fetch : Word → Option (Instr × Word)) : Word → List Instr → Prop
  | _, [] => True
  | a, i :: is => ∃ next, fetch a = some (i, next) ∧ Assembled fetch next is

/-! ## The machine -/

/-- The processor while one process runs. Its kernel stack goes from `esp0` down to `floor`. `user`
    is the part of user memory that is looked at, and `sound` says that the kernel's data are in
    order. -/
structure Platform where
  sym : Symbols
  fetch : Word → Option (Instr × Word)
  codeStep : Cpu → Cpu → Prop
  esp0 : Word
  floor : Nat
  user : Word → Prop
  sound : Memory → Prop

def Platform.tables (p : Platform) : Tables where
  idt := initIdt p.sym
  gdt := gdt
  esp0 := p.esp0
  ss0 := kernelDs

structure Platform.Linked (p : Platform) : Prop where
  stub : ∀ h, Assembled p.fetch (p.sym.asm h) (asmExc (p.sym.handler h) h.keepEax)
  wrapper : ∀ t, Assembled p.fetch (p.sym.wrapper t) (doCall t.val)
  handler : ∀ h, p.fetch (p.sym.handler h) = none
  code : ∀ {c c' : Cpu}, p.codeStep c c' → p.fetch c.eip = none
  room : p.floor + 64 ≤ p.esp0.toNat
  apart : ∀ a : Word, p.user a → a.toNat < p.floor ∨ p.esp0.toNat ≤ a.toNat
  /-- The kernel's data are neither on this stack nor in that memory. -/
  data : ∀ {m m' : Memory}, (∀ a : Word, ¬ p.user a → a.toNat < p.floor ∨ p.esp0.toNat ≤ a.toNat →
    m' a = m a) → p.sound m → p.sound m'

/-- An interrupt finds room for its frame on the stack. -/
def Platform.Room (p : Platform) (c : Cpu) : Prop :=
  c.cpl = 0 → p.floor + 64 ≤ (c.reg .esp).toNat ∧ (c.reg .esp).toNat ≤ p.esp0.toNat

/-- The interrupts of the devices. -/
def irq : Handler → Option (BitVec 8)
  | .irqhPit => some 0x20
  | .irqhKeyboard => some 0x21
  | .irqhRtc => some 0x28
  | _ => none

/-- What a piece of code does up to the instruction it returns with. -/
inductive Run (p : Platform) (serve : Cpu → Cpu → Prop) : Cpu → Cpu → Prop where
  | refl (c : Cpu) : Run p serve c c
  | asm {c c1 c' : Cpu} {i : Instr} {next : Word} (hat : p.fetch c.eip = some (i, next))
    (hexec : exec next c i = some c1) (hrun : Run p serve c1 c') : Run p serve c c'
  | code {c c1 c' : Cpu} (hstep : p.codeStep c c1) (hrun : Run p serve c1 c') : Run p serve c c'
  | interrupt {c c1 c' : Cpu} (hserve : serve c c1) (hrun : Run p serve c1 c') : Run p serve c c'
  | int {c c1 c2 c3 c' : Cpu} {v : BitVec 8} {next next' : Word}
    (hat : p.fetch c.eip = some (.int v, next))
    (henter : deliver p.tables true v none (c.goto next) = some c1)
    (hhandler : Run p serve c1 c2) (hiret : p.fetch c2.eip = some (.iret, next'))
    (hleave : leave c2 .iret = some c3) (hrun : Run p serve c3 c') : Run p serve c c'

/-- An interrupt, from its arrival to the return of its handler. -/
inductive Served (p : Platform) (serve : Cpu → Cpu → Prop) (c c' : Cpu) : Prop where
  | mk {h : Handler} {v : BitVec 8} {c1 c2 : Cpu} {next : Word} (hirq : irq h = some v)
    (hflag : c.interruptible = true) (hroom : p.Room c)
    (henter : deliver p.tables false v none c = some c1) (hrun : Run p serve c1 c2)
    (hiret : p.fetch c2.eip = some (.iret, next)) (hleave : leave c2 .iret = some c')

def serve (p : Platform) : Nat → Cpu → Cpu → Prop
  | 0 => fun _ _ => False
  | n + 1 => Served p (serve p n)

/-! ## System calls and exceptions -/

/-- The jump table. -/
def syscalls : List SyscallType :=
  [.halt, .exec, .read, .write, .open, .close, .getargs, .vidmap, .setHandler, .sigreturn]

/-- The argument of an exception handler, `IntStack` and `IntStackE`. -/
structure IntStack where
  flags : Word
  edx : Word
  ecx : Word
  eax : Word
  errc : Option Word
  eip : Word
  cs : Word
  eflags : Word
  esp : Word
  ss : Word

/-- The structure at `a`. -/
def IntStack.read (m : Memory) (a : Word) (errc : Bool) : IntStack :=
  let rest := if errc then a + 20 else a + 16
  { flags := load m a
    edx := load m (a + 4)
    ecx := load m (a + 8)
    eax := load m (a + 12)
    errc := if errc then some (load m (a + 16)) else none
    eip := load m rest
    cs := load m (rest + 4)
    eflags := load m (rest + 8)
    esp := load m (rest + 12)
    ss := load m (rest + 16) }

/-- The vectors for which the processor pushes an error code. -/
def pushesErrc (v : BitVec 8) : Bool := v ∈ [8, 10, 11, 12, 13, 14, 17, 21, 29, 30]

/-- The assembly code from here on, as long as nothing interrupts it. -/
def asmRun (p : Platform) : Nat → Cpu → Option Cpu
  | 0, c => some c
  | n + 1, c => (p.fetch c.eip).elim none fun (i, next) => (exec next c i).bind (asmRun p n)

/-- What the handler of exception `v` is given if the exception comes in `c`: its entry code has
    pushed its registers and called it. -/
def exceptionArgument (p : Platform) (v : BitVec 8) (errc : Word) (c : Cpu) : Option IntStack := do
  let h ← excHandlers v.toNat
  let c1 ← deliver p.tables false v (if pushesErrc v then some errc else none) c
  let c2 ← asmRun p 5 c1
  some (IntStack.read c2.mem (c2.reg .esp + 4) h.errc)

end Mp3Kernel.Entry
