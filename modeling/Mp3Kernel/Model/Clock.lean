/-
  The virtual clocks of the terminals (rtc.c): `irqh_rtc`, and the calls that use a clock.

  The handler is entered through an interrupt gate and is one step. `rtc_read` is called with
  interrupts enabled, so each of its two stores and each turn of its loop is a step of its own.
  Every process has an `RtcReader`: how far its call has come. While it is in the call the
  process makes no other.

  Two traces no C code reads are kept: for each process the interrupts since it last entered
  `rtc_read`, and the frequencies that were accepted, with the process that set them.
-/
import Mp3Kernel.Model.Files

namespace Mp3Kernel

def pidCount : Nat := 8

/-! ## irqh_rtc -/

/-- What an interrupt does to one clock: the product is a u32. -/
def VirtualRtc.interrupt (rtc : VirtualRtc) : VirtualRtc :=
  let intCount := (rtc.intCount + 1) % u32
  { rtc with
    intCount := intCount
    flag := decide (rtc.realFreq ≤ rtc.virtFreq * intCount % u32) }

/-- The loop body of `irqh_rtc`. -/
def interruptPid (k : Kernel) (i : Nat) : Kernel :=
  match getTerminalFromPid k i with
  | none => k
  | some t => k.setTerminal t { k.terminals t with rtc := (k.terminals t).rtc.interrupt }

/-- The loop from PID `i` on, with `n` PIDs left. -/
def interruptFrom (k : Kernel) (i : Nat) : Nat → Kernel
  | 0 => k
  | n + 1 => interruptFrom (interruptPid k i) (i + 1) n

@[irreducible] def irqhRtc (k : Kernel) : Kernel := interruptFrom k 0 pidCount

/-! ## rtc_read, a step at a time -/

inductive RtcReader where
  | idle
  /-- The terminal is found; its flag is cleared next. -/
  | clearFlag (t : Fin 3)
  /-- Its count is cleared next. -/
  | clearCount (t : Fin 3)
  | spin (t : Fin 3)
  deriving DecidableEq

structure Clock where
  kernel : Kernel
  readers : Nat → RtcReader
  delivered : Nat → Nat
  /-- The last one first. -/
  accepted : List (Nat × Nat)

inductive ClockOp where
  | irq
  /-- Another process runs. -/
  | run (pid : Nat)
  /-- The running process makes a call. -/
  | rtcOpen
  | rtcWrite (buf : Option (Nat → UInt8)) (nbytes : Int)
  | rtcRead
  /-- The next step of its `rtc_read`. -/
  | step

def Clock.reader (c : Clock) : RtcReader := c.readers c.kernel.runningPid

def Clock.setReader (c : Clock) (reader : RtcReader) : Clock :=
  { c with readers := Function.update c.readers c.kernel.runningPid reader }

def Clock.setRtc (c : Clock) (t : Fin 3) (rtc : VirtualRtc) : Clock :=
  { c with kernel := c.kernel.setTerminal t { c.kernel.terminals t with rtc := rtc } }

def Clock.irq (c : Clock) : Clock :=
  { c with kernel := irqhRtc c.kernel, delivered := fun pid => c.delivered pid + 1 }

def Clock.open (c : Clock) : Option Clock :=
  (rtcOpen c.kernel).map fun (_, k) =>
    { c with kernel := k, accepted := (c.kernel.runningPid, rtcDefaultVirtFreq) :: c.accepted }

def Clock.write (c : Clock) (buf : Option (Nat → UInt8)) (nbytes : Int) : Option Clock :=
  (rtcWrite c.kernel buf nbytes).map fun (ret, k) =>
    { c with
      kernel := k
      accepted := if ret = 4 then (c.kernel.runningPid, le32 (buf.getD fun _ => 0)) :: c.accepted
        else c.accepted }

/-- The start of `rtc_read`; without a terminal the call fails at once. -/
def Clock.read (c : Clock) : Option Clock := do
  let term ← getRunningTerminal c.kernel
  match term with
  | none => some c
  | some t =>
    let c := c.setReader (.clearFlag t)
    some { c with delivered := Function.update c.delivered c.kernel.runningPid 0 }

def Clock.readerStep (c : Clock) : Option Clock :=
  match c.reader with
  | .idle => none
  | .clearFlag t =>
    some ((c.setRtc t { (c.kernel.terminals t).rtc with flag := false }).setReader (.clearCount t))
  | .clearCount t =>
    some ((c.setRtc t { (c.kernel.terminals t).rtc with intCount := 0 }).setReader (.spin t))
  | .spin t => if (c.kernel.terminals t).rtc.flag then some (c.setReader .idle) else some c

/-- A call of the running process, which is not in `rtc_read`. -/
def Clock.call (c : Clock) (result : Option Clock) : Option Clock :=
  if c.reader = .idle then result else none

def clockStep (c : Clock) : ClockOp → Option Clock
  | .irq => some c.irq
  | .run pid => some { c with kernel := setPid c.kernel pid }
  | .rtcOpen => c.call c.open
  | .rtcWrite buf nbytes => c.call (c.write buf nbytes)
  | .rtcRead => c.call c.read
  | .step => c.readerStep

end Mp3Kernel
