/-
  The whole kernel as a step function on its state, for one file-system image.

  A step is one operation from start to end: a call the running process makes, a timer tick,
  or a key press that asks for a terminal. `none` ends the run.
-/
import Mp3Kernel.Base.Runs
import Mp3Kernel.Model.Pit
import Mp3Kernel.Model.Screen

namespace Mp3Kernel

inductive Op where
  /-- The running process calls `execute`. -/
  | execute (ucmd : Option CString) (esp ebp : Nat)
  /-- The running process calls `halt`. -/
  | halt (status : UInt8) (esp ebp : Nat)
  /-- The end of an exception handler: having reported the exception on the screen, it sets the
      flag and halts the running process. -/
  | exception (esp ebp : Nat)
  | tick (esp ebp : Nat)
  /-- Alt+F1, Alt+F2 or Alt+F3. -/
  | request (t : Fin 3)
  | vidmap (screenStart : Nat)
  | putc (c : UInt8)
  | clear

/-- The state after `execute`, in user space or back in the caller. -/
def ExecResult.state : ExecResult → Option Kernel
  | .launched k _ => some k
  | .failed k => some k
  | .fault => none

def step (fs : Image) (k : Kernel) : Op → Option Kernel
  | .execute ucmd esp ebp => (execute fs k ucmd esp ebp).state
  | .halt status esp ebp => halt fs k status esp ebp
  | .exception esp ebp => halt fs { k with programExceptionOccured := true } 1 esp ebp
  | .tick esp ebp => irqhPit fs k esp ebp
  | .request t => some { k with terminalToSwitchTo := some t }
  | .vidmap screenStart => (vidmap k screenStart).map (·.2)
  | .putc c => putc k c
  | .clear => clear k

/-- The state `entry` leaves to `init_terminals`: the globals are zero, paging is on, the
    screen position is on the screen. PCBs, memory and the pending switch are arbitrary. -/
structure BootState (l : Layout) (k : Kernel) : Prop where
  paging : k.paging = initPaging (Paging.reset l)
  screenX : k.screenX < numCols
  screenY : k.screenY < numRows
  pid : ∀ t, (k.terminals t).pid = 0
  procs : k.procs = 0
  runningPid : k.runningPid = 0
  noException : k.programExceptionOccured = false
  currentSchedule : k.currentSchedule = 0
  scheduleCounter : k.scheduleCounter = 0

/-- The states in which the first shell has just been launched. -/
def Booted (fs : Image) (k : Kernel) : Prop :=
  ∃ l k0 esp ebp, BootState l k0 ∧ initTerminals fs k0 esp ebp = some k

/-- A state some run reaches from there. -/
def Reachable (fs : Image) (k : Kernel) : Prop :=
  ∃ k0 ops, Booted fs k0 ∧ Base.Runs.run (step fs) k0 ops = some k

end Mp3Kernel
