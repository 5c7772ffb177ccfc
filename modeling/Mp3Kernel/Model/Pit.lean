/-
  The scheduler (pit.c): the timer tick that performs a requested terminal switch, picks the
  next terminal and resumes its innermost process or starts its shell.

  One tick is one function here; the interrupts it lets in while it runs are the subject of
  a machine of its own.
-/
import Mp3Kernel.Model.Syscall

namespace Mp3Kernel

/-- The switch an Alt+Fn key asked for. -/
def pendingSwitch (k : Kernel) : Option Kernel :=
  match k.terminalToSwitchTo with
  | none => some k
  | some t => do
    let k ← switchTerminal k t.val
    some { k with terminalToSwitchTo := none }

/-- The counter's next value: the first terminal after it, round-robin, that has been
    started. `none`: the loop does not end. -/
def nextSchedule (k : Kernel) : Option (Fin 3) :=
  let c := k.scheduleCounter
  if (k.terminals (c + 1)).status = .running then some (c + 1)
  else if (k.terminals (c + 2)).status = .running then some (c + 2)
  else if (k.terminals c).status = .running then some c
  else none

/-- The stack position of the interrupted process. -/
def saveContext (k : Kernel) (esp ebp : Nat) : Kernel :=
  k.setPcb k.runningPid { getCurrentPcb k with ksp := esp, kbp := ebp }

/-- The innermost process below a slot; `none` if its child links form a cycle. -/
def lowestChild (k : Kernel) (slot : Nat) : Option Nat :=
  Base.Chain.last (fun s => (k.pcbs s).childPcb) 256 slot

/-- `scheduler_vidmap`. -/
def schedulerVidmap (k : Kernel) (numTerm : Fin 3) (pid : Nat) : Kernel :=
  remap k pid vidmapStart (videoAddr k numTerm)

/-- The video page of the process the scheduler resumes. -/
def mapScreen (k : Kernel) (pid : Nat) : Kernel :=
  if k.currentSchedule = k.currentTerminal then remap k pid video video
  else remap k pid video (k.terminals k.currentSchedule).vidMemBuf

/-- The vidmap page of the process the scheduler resumes. -/
def mapVidmap (k : Kernel) (pid : Nat) : Kernel :=
  if (k.terminals k.currentSchedule).vidmap then schedulerVidmap k k.currentSchedule pid else k

/-- The TSS and `running_pid` of the process the scheduler resumes. -/
def enterProcess (k : Kernel) (pid : Nat) : Kernel :=
  setPid { k with esp0 := kernelStackTop pid } pid

/-- The process at slot `next`, up to the switch to its saved stack. -/
def resumeProcess (k : Kernel) (next : Nat) : Kernel :=
  let pid := (k.pcbs next).pid
  flushTlb (mapScreen (mapVidmap (enterProcess k pid) pid) pid)

/-- The tick past the pending switch, on a terminal other than the one scheduled so far. -/
def scheduleTerminal (fs : Image) (k : Kernel) (esp ebp : Nat) : Option Kernel :=
  let term := k.terminals k.currentSchedule
  let k := saveContext k esp ebp
  if term.running then
    (lowestChild k (term.pid % 256)).map fun next => resumeProcess k next
  else
    match execute fs k (some shellCmd) esp ebp with
    | .launched k _ => some k
    -- `execute` returns -1 to the tick, which returns to the interrupted process
    | .failed k => some k
    | .fault => none

def irqhPit (fs : Image) (k : Kernel) (esp ebp : Nat) : Option Kernel := do
  let k ← pendingSwitch k
  let next ← nextSchedule k
  let k := { k with scheduleCounter := next }
  if next = k.currentSchedule then some k
  else scheduleTerminal fs { k with currentSchedule := next } esp ebp

end Mp3Kernel
