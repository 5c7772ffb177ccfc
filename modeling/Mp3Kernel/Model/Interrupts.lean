/-
  A timer tick one step at a time, and the interrupts it lets in (pit.c, paging.c, i8259.c).

  `irqhPit` does a tick at once. Here the CPU does one step of `irqh_pit` after the other, and
  a timer interrupt can come before any of them if the interrupt flag is set and the EOI of
  the last timer interrupt has been sent. The interrupt gate clears the flag, and so do
  `switch_terminal` and `map_vid_mem`, which set it again at their end.

  The kernel stacks are not modelled byte by byte: `frames` holds, for a stack and base pointer
  that have been saved, the code that the frame they point at returns to.
-/
import Mp3Kernel.Model.Pit

namespace Mp3Kernel

/-- The step of `irqh_pit` to be done next. `next` is the slot of `next_pcb`. -/
inductive Pc where
  /-- `switch_terminal`, if one is pending. -/
  | start
  /-- The loop over the terminals. -/
  | pick
  /-- `send_eoi` and the return of a tick that goes on with the same terminal. -/
  | eoiSame
  | ret
  /-- `current_schedule`, and the saved stack position. -/
  | save
  /-- The loop over the children. -/
  | find
  /-- `tss.esp0` and `set_pid`. -/
  | enter (next : Nat)
  /-- `scheduler_vidmap`, if the terminal uses it. -/
  | vidmap (next : Nat)
  /-- `map_vid_mem` for the screen. -/
  | screen (next : Nat)
  | flush (next : Nat)
  | eoi (next : Nat)
  /-- `mov ksp, %esp`. -/
  | stack (next : Nat)
  /-- `mov kbp, %ebp; leave; ret`, with the stack pointer loaded. -/
  | base (next esp : Nat)

/-- What the CPU executes: a process, in user space or in a system call, or `irqh_pit` with
    its own stack position and what it interrupted. -/
inductive Code where
  | process (pid : Nat)
  | handler (pc : Pc) (esp ebp : Nat) (interrupted : Code)

/-- The process on whose kernel stack an interrupt would be served. -/
def Code.owner : Code → Nat
  | .process pid => pid
  | .handler (.base next _) _ _ _ => next
  | .handler _ _ _ code => code.owner

/-- The stack position lies in the 8KB below the PCB of a process. -/
def OnStack (pid esp : Nat) : Prop := mb8 ≤ esp + kb8 * (pid + 2) ∧ esp + kb8 * (pid + 1) < mb8

instance (pid esp : Nat) : Decidable (OnStack pid esp) := by
  unfold OnStack
  infer_instance

structure Machine where
  kernel : Kernel
  interruptFlag : Bool
  /-- The timer can interrupt again. -/
  eoiSent : Bool
  code : Code
  frames : Nat × Nat → Option Code

inductive Action where
  /-- The next step of `irqh_pit`. -/
  | run
  /-- A timer interrupt; `irqh_pit` has its frame at this position. -/
  | tick (esp ebp : Nat)
  /-- `cli` or `sti` in a system call. -/
  | setFlag (flag : Bool)
  /-- Alt+F1, Alt+F2 or Alt+F3. -/
  | request (t : Fin 3)

/-- `switch_terminal` gets past its check. -/
def switchesTerminal (k : Kernel) : Bool :=
  match k.terminalToSwitchTo with
  | none => false
  | some t => t != k.currentTerminal

/-- The flag after `map_vid_mem`, which returns from between `cli` and `sti` if it refuses the
    process. -/
def flagAfterMap (pid : Nat) : Bool := pid % 256 < 8

/-- A return to what was interrupted: `iret` sets the flag. -/
def Machine.resume (m : Machine) (code : Code) : Machine :=
  { m with interruptFlag := true, code := code }

/-- `none`: the step does not come to an end, or it is a call of `execute` for a terminal that
    does not run. -/
def handlerStep (m : Machine) (pc : Pc) (esp ebp : Nat) (code : Code) : Option Machine :=
  let k := m.kernel
  let goto := fun (m : Machine) (pc : Pc) => { m with code := .handler pc esp ebp code }
  match pc with
  | .start => (pendingSwitch k).map fun k1 =>
      goto { m with kernel := k1, interruptFlag := m.interruptFlag || switchesTerminal k } .pick
  | .pick => (nextSchedule k).map fun t =>
      goto { m with kernel := { k with scheduleCounter := t } }
        (if t = k.currentSchedule then .eoiSame else .save)
  | .eoiSame => some (goto { m with eoiSent := true } .ret)
  | .ret => some (m.resume code)
  | .save => some (goto { m with
      kernel := saveContext { k with currentSchedule := k.scheduleCounter } esp ebp
      frames := Function.update m.frames (esp, ebp) (some code) } .find)
  | .find =>
      let term := k.terminals k.currentSchedule
      if term.running then
        (lowestChild k (term.pid % 256)).map fun next => goto m (.enter next)
      else none
  | .enter next => some (goto { m with kernel := enterProcess k (k.pcbs next).pid } (.vidmap next))
  | .vidmap next =>
      let pid := (k.pcbs next).pid
      let flag := if (k.terminals k.currentSchedule).vidmap then flagAfterMap pid
        else m.interruptFlag
      some (goto { m with kernel := mapVidmap k pid, interruptFlag := flag } (.screen next))
  | .screen next =>
      let pid := (k.pcbs next).pid
      some (goto { m with kernel := mapScreen k pid, interruptFlag := flagAfterMap pid }
        (.flush next))
  | .flush next => some (goto { m with kernel := flushTlb k } (.eoi next))
  | .eoi next => some (goto { m with eoiSent := true } (.stack next))
  | .stack next => some (goto m (.base next (k.pcbs next).ksp))
  | .base next esp => (m.frames (esp, (k.pcbs next).kbp)).map fun code => m.resume code

def machineStep (m : Machine) : Action → Option Machine
  | .run =>
    match m.code with
    | .process _ => none
    | .handler pc esp ebp code => handlerStep m pc esp ebp code
  | .tick esp ebp =>
    if m.interruptFlag ∧ m.eoiSent ∧ OnStack m.code.owner esp then
      some { m with
        interruptFlag := false
        eoiSent := false
        code := .handler .start esp ebp m.code }
    else none
  | .setFlag flag =>
    match m.code with
    | .process _ => some { m with interruptFlag := flag }
    | .handler _ _ _ _ => none
  | .request t => some { m with kernel := { m.kernel with terminalToSwitchTo := some t } }

end Mp3Kernel
