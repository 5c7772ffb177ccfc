/-
  The kernel's state: terminals, process control blocks and the globals of syscall.c,
  terminal_driver.c, pit.c, keyboard.c and lib.c.

  `mem` is physical memory by byte. The PCBs lie in it too (`get_pcb` computes their
  address), but are kept apart as `pcbs`, by the slot number of that address: a `Pcb*` is
  the slot it points at, `none` is NULL. The kernel's stacks are not modelled; a saved
  stack or base pointer is a number.

  Words are `Nat` below the modulus of their C type, a u8 used as a flag is a `Bool`, a u8
  terminal number that the code has checked is a `Fin 3`.
-/
import Mp3Kernel.Model.Fs
import Mp3Kernel.Model.Paging
import Mathlib.Algebra.GroupWithZero.Nat

namespace Mp3Kernel

/-! ## Terminals -/

/-- There is a terminal 0. -/
instance neZeroThree : NeZero 3 := ⟨Nat.succ_ne_zero 2⟩

structure VirtualRtc where
  virtFreq : Nat
  realFreq : Nat
  intCount : Nat
  flag : Bool

/-- The two values `status` takes. -/
inductive TaskStatus where
  | notRunning
  | running
  deriving DecidableEq

structure Terminal where
  lineBuf : Nat → UInt8
  lineBufIndex : Nat
  screenX : Nat
  screenY : Nat
  pid : Nat
  id : Fin 3
  readFlag : Bool
  vidMemBuf : Nat
  running : Bool
  status : TaskStatus
  vidmap : Bool
  rtc : VirtualRtc

/-! ## Processes -/

/-- The operation tables a descriptor can point at. -/
inductive FileOps where
  | stdIn
  | stdOut
  | rtc
  | fs
  | dir
  deriving DecidableEq

structure FileDesc where
  jumptable : Option FileOps
  inode : Nat
  filePosition : Nat
  /-- The FD_IN_USE bit. -/
  inUse : Bool

/-- `argv0` and `argv1` are offsets into `rawArgv`. -/
structure Pcb where
  fds : Nat → FileDesc
  rawArgv : Nat → UInt8
  argv0 : Nat
  argv1 : Nat
  pid : Nat
  parentKsp : Nat
  parentKbp : Nat
  ksp : Nat
  kbp : Nat
  parentPid : Int
  parentPcb : Option Nat
  childPcb : Option Nat
  childReturn : Nat

/-! ## The kernel -/

structure Kernel where
  paging : Paging
  mem : Nat → UInt8
  screenX : Nat
  screenY : Nat
  terminals : Fin 3 → Terminal
  currentTerminal : Fin 3
  /-- `none` is -1. -/
  terminalToSwitchTo : Option (Fin 3)
  pcbs : Nat → Pcb
  /-- Bit 7 is PID 0. -/
  procs : BitVec 8
  runningPid : Nat
  programExceptionOccured : Bool
  esp0 : Nat
  currentSchedule : Fin 3
  scheduleCounter : Fin 3

def Kernel.setPaging (k : Kernel) (p : Paging) : Kernel := { k with paging := p }

def Kernel.setMem (k : Kernel) (mem : Nat → UInt8) : Kernel := { k with mem := mem }

def Kernel.setPcb (k : Kernel) (slot : Nat) (pcb : Pcb) : Kernel :=
  { k with pcbs := Function.update k.pcbs slot pcb }

def Kernel.setTerminal (k : Kernel) (t : Fin 3) (term : Terminal) : Kernel :=
  { k with terminals := Function.update k.terminals t term }

/-- `get_current_pcb`. -/
def getCurrentPcb (k : Kernel) : Pcb := k.pcbs k.runningPid

/-- `set_pid`: running_pid is a u8. -/
def setPid (k : Kernel) (pid : Nat) : Kernel := { k with runningPid := pid % 256 }

/-- The top of the kernel stack of `pid`: `MB8 - KB8 * (pid + 1) - ADDRESS_SIZE` as a u32. -/
@[irreducible] def kernelStackTop (pid : Int) : Nat := (((mb8 : Int) - kb8 * (pid + 1) - 4) % u32).toNat

/-- `FIRST_PID >> pid`. -/
def pidBit (pid : Nat) : BitVec 8 := 0x80#8 >>> pid

section Fields

variable (k : Kernel) (p : Paging) (slot : Nat) (pcb : Pcb) (t : Fin 3) (term : Terminal)
  (mem : Nat → UInt8)

@[simp] theorem setPaging_paging : (k.setPaging p).paging = p := rfl
@[simp] theorem setPaging_mem : (k.setPaging p).mem = k.mem := rfl
@[simp] theorem setPaging_screenX : (k.setPaging p).screenX = k.screenX := rfl
@[simp] theorem setPaging_screenY : (k.setPaging p).screenY = k.screenY := rfl
@[simp] theorem setPaging_terminals : (k.setPaging p).terminals = k.terminals := rfl
@[simp] theorem setPaging_pcbs : (k.setPaging p).pcbs = k.pcbs := rfl
@[simp] theorem setPaging_procs : (k.setPaging p).procs = k.procs := rfl
@[simp] theorem setPaging_esp0 : (k.setPaging p).esp0 = k.esp0 := rfl
@[simp] theorem setPaging_runningPid : (k.setPaging p).runningPid = k.runningPid := rfl
@[simp] theorem setPaging_currentTerminal :
    (k.setPaging p).currentTerminal = k.currentTerminal := rfl
@[simp] theorem setPaging_currentSchedule :
    (k.setPaging p).currentSchedule = k.currentSchedule := rfl

@[simp] theorem setMem_mem : (k.setMem mem).mem = mem := rfl
@[simp] theorem setMem_paging : (k.setMem mem).paging = k.paging := rfl
@[simp] theorem setMem_screenX : (k.setMem mem).screenX = k.screenX := rfl
@[simp] theorem setMem_screenY : (k.setMem mem).screenY = k.screenY := rfl
@[simp] theorem setMem_terminals : (k.setMem mem).terminals = k.terminals := rfl
@[simp] theorem setMem_pcbs : (k.setMem mem).pcbs = k.pcbs := rfl
@[simp] theorem setMem_procs : (k.setMem mem).procs = k.procs := rfl
@[simp] theorem setMem_runningPid : (k.setMem mem).runningPid = k.runningPid := rfl
@[simp] theorem setMem_currentTerminal :
    (k.setMem mem).currentTerminal = k.currentTerminal := rfl

@[simp] theorem setPcb_pcbs : (k.setPcb slot pcb).pcbs = Function.update k.pcbs slot pcb := rfl
@[simp] theorem setPcb_paging : (k.setPcb slot pcb).paging = k.paging := rfl
@[simp] theorem setPcb_mem : (k.setPcb slot pcb).mem = k.mem := rfl
@[simp] theorem setPcb_terminals : (k.setPcb slot pcb).terminals = k.terminals := rfl
@[simp] theorem setPcb_procs : (k.setPcb slot pcb).procs = k.procs := rfl
@[simp] theorem setPcb_esp0 : (k.setPcb slot pcb).esp0 = k.esp0 := rfl
@[simp] theorem setPcb_runningPid : (k.setPcb slot pcb).runningPid = k.runningPid := rfl
@[simp] theorem setPcb_currentTerminal :
    (k.setPcb slot pcb).currentTerminal = k.currentTerminal := rfl
@[simp] theorem setPcb_currentSchedule :
    (k.setPcb slot pcb).currentSchedule = k.currentSchedule := rfl

@[simp] theorem setTerminal_terminals :
    (k.setTerminal t term).terminals = Function.update k.terminals t term := rfl
@[simp] theorem setTerminal_paging : (k.setTerminal t term).paging = k.paging := rfl
@[simp] theorem setTerminal_mem : (k.setTerminal t term).mem = k.mem := rfl
@[simp] theorem setTerminal_screenX : (k.setTerminal t term).screenX = k.screenX := rfl
@[simp] theorem setTerminal_screenY : (k.setTerminal t term).screenY = k.screenY := rfl
@[simp] theorem setTerminal_pcbs : (k.setTerminal t term).pcbs = k.pcbs := rfl
@[simp] theorem setTerminal_procs : (k.setTerminal t term).procs = k.procs := rfl
@[simp] theorem setTerminal_esp0 : (k.setTerminal t term).esp0 = k.esp0 := rfl
@[simp] theorem setTerminal_runningPid : (k.setTerminal t term).runningPid = k.runningPid := rfl
@[simp] theorem setTerminal_currentTerminal :
    (k.setTerminal t term).currentTerminal = k.currentTerminal := rfl
@[simp] theorem setTerminal_currentSchedule :
    (k.setTerminal t term).currentSchedule = k.currentSchedule := rfl

end Fields

end Mp3Kernel
