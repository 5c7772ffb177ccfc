/-
  The keyboard handler and the line buffers it fills (keyboard.c, keyboard.h).

  A terminal's line buffer has an editor, `handle_keypress`, and a reader, `get_line_buf`,
  which spins until there is a newline in it. `handle_keypress` runs with interrupts disabled
  and is one step; `get_line_buf` is interrupted anywhere, so each of its accesses to the
  buffer is a step of its own. Every process has a `Reader`: how far its call has come.

  `storeLine` past the buffer writes the field behind it, the four bytes of `line_buf_index`.

  Two traces no C code reads are kept for each terminal: the characters stored in its buffer,
  less those erased again, and the lines its reads have returned.
-/
import Mp3Kernel.Model.Screen

namespace Mp3Kernel

def lineBufferSize : Nat := 128

/-! ## Scancodes (scancodes.h) -/

def scs1PressedBackspace : Nat := 0x0E
def scs1PressedEnter : Nat := 0x1C
def scs1PressedLeftctrl : Nat := 0x1D
def scs1PressedA : Nat := 0x1E
def scs1PressedL : Nat := 0x26
def scs1PressedLeftshift : Nat := 0x2A
def scs1PressedRightshift : Nat := 0x36
def scs1PressedLeftalt : Nat := 0x38
def scs1PressedCapslock : Nat := 0x3A
def scs1PressedF1 : Nat := 0x3B
def scs1PressedF2 : Nat := 0x3C
def scs1PressedF3 : Nat := 0x3D
def scs1PressedF11 : Nat := 0x57
def scs1PressedF12 : Nat := 0x58
def scs1KeypressReleaseOffset : Nat := 0x80
def scs1ReleasedCapslock : Nat := 0xBA
def scs1ReleasedF12 : Nat := 0xD8
def scs1Multibyte : Nat := 0xE0
def scs1UppercaseOffset : UInt8 := 0x20

/-- The array `keycodes`, which gives a pressed key its character; 0 if it has none. -/
def keycodes : List UInt8 :=
  [0, 0, 0x31, 0x32, 0x33, 0x34, 0x35, 0x36, 0x37, 0x38, 0x39, 0x30, 0x2D, 0x3D, 0x0A, 0x20,
    0x71, 0x77, 0x65, 0x72, 0x74, 0x79, 0x75, 0x69, 0x6F, 0x70, 0x5B, 0x5D, 0x0A, 0,
    0x61, 0x73, 0x64, 0x66, 0x67, 0x68, 0x6A, 0x6B, 0x6C, 0x3B, 0x27, 0x60, 0, 0x5C,
    0x7A, 0x78, 0x63, 0x76, 0x62, 0x6E, 0x6D, 0x2C, 0x2E, 0x2F, 0, 0x2A, 0, 0x20]

def keycode (scancode : Nat) : UInt8 := keycodes.getD scancode 0

/-! ## Key states -/

structure Keyboard where
  keyState : Nat → Bool
  capsLockRepeat : Bool
  multiByte : Bool

def shiftPressed (keys : Keyboard) : Bool :=
  keys.keyState scs1PressedLeftshift || keys.keyState scs1PressedRightshift

def capslockPressed (keys : Keyboard) : Bool := keys.keyState scs1PressedCapslock

def altPressed (keys : Keyboard) : Bool := keys.keyState scs1PressedLeftalt

def isFuncKey (keys : Keyboard) : Bool :=
  (List.range 10).any (fun i => keys.keyState (scs1PressedF1 + i)) ||
    keys.keyState scs1PressedF11 || keys.keyState scs1PressedF12

/-- The characters the shift key changes other than the letters. -/
def shifted (disp : UInt8) : UInt8 :=
  match disp with
  | 0x31 => 0x21
  | 0x32 => 0x40
  | 0x33 => 0x23
  | 0x34 => 0x24
  | 0x35 => 0x25
  | 0x36 => 0x5E
  | 0x37 => 0x26
  | 0x38 => 0x2A
  | 0x39 => 0x28
  | 0x30 => 0x29
  | 0x60 => 0x7E
  | 0x2D => 0x5F
  | 0x3D => 0x2B
  | 0x3B => 0x3A
  | 0x27 => 0x22
  | 0x2C => 0x3C
  | 0x2E => 0x3E
  | 0x2F => 0x3F
  | 0x5B => 0x7B
  | 0x5D => 0x7D
  | 0x5C => 0x7C
  | c => c

def handleDisp (keys : Keyboard) (disp : UInt8) : UInt8 :=
  let letter := 0x61 ≤ disp ∧ disp ≤ 0x7A
  if shiftPressed keys ∨ (capslockPressed keys ∧ letter) then
    if letter ∧ ¬ (capslockPressed keys ∧ shiftPressed keys) then disp - scs1UppercaseOffset
    else shifted disp
  else disp

/-- The state of a key that is pressed. Caps lock is toggled, but not while it is held. -/
def pressKey (keys : Keyboard) (scancode : Nat) : Keyboard :=
  if scancode = scs1PressedCapslock ∧ !keys.capsLockRepeat then
    { keys with
      keyState := Function.update keys.keyState scancode (!keys.keyState scancode)
      capsLockRepeat := true }
  else { keys with keyState := Function.update keys.keyState scancode true }

def releaseKey (keys : Keyboard) (scancode : Nat) : Keyboard :=
  if scancode = scs1ReleasedCapslock then { keys with capsLockRepeat := false }
  else { keys with
    keyState := Function.update keys.keyState (scancode - scs1KeypressReleaseOffset) false }

/-! ## The line buffer -/

/-- The byte `i` of a u32 set to `c`. -/
def setByte (n i : Nat) (c : UInt8) : Nat :=
  n - n / 256 ^ i % 256 * 256 ^ i + c.toNat * 256 ^ i

/-- `line_buf[i] = c`. -/
def Terminal.storeLine (term : Terminal) (i : Nat) (c : UInt8) : Terminal :=
  if i < lineBufferSize then { term with lineBuf := Function.update term.lineBuf i c }
  else { term with lineBufIndex := setByte term.lineBufIndex (i - lineBufferSize) c }

/-- What a pressed key does, once the key states are up to date. -/
inductive KeyAction where
  | ignore
  | request (t : Fin 3)
  | clear
  | erase
  | append (c : UInt8)

/-- The branches of `handle_keypress` for a pressed key that gives the character `disp`. -/
def keyAction (keys : Keyboard) (term : Terminal) (scancode : Nat) (disp : UInt8) : KeyAction :=
  if altPressed keys ∧ isFuncKey keys then
    if scancode = scs1PressedF1 then .request 0
    else if scancode = scs1PressedF2 then .request 1
    else if scancode = scs1PressedF3 then .request 2
    else .ignore
  else if keys.keyState scs1PressedLeftctrl ∧ scancode = scs1PressedL then .clear
  else if !term.readFlag then .ignore
  else if keys.keyState scs1PressedBackspace then
    if 0 < term.lineBufIndex then .erase else .ignore
  else if disp ≠ 0 then
    if term.lineBufIndex < lineBufferSize - 1 then .append disp
    else if disp = newline then .append disp
    else .ignore
  else .ignore

def eraseLast (term : Terminal) : Terminal :=
  { term with lineBufIndex := term.lineBufIndex - 1 }.storeLine (term.lineBufIndex - 1) 0

/-- `term->line_buf[term->line_buf_index] = c; term->line_buf_index++`. -/
def appendLast (term : Terminal) (c : UInt8) : Terminal :=
  let term := term.storeLine term.lineBufIndex c
  { term with lineBufIndex := (term.lineBufIndex + 1) % u32 }

def KeyAction.apply (k : Kernel) : KeyAction → Option Kernel
  | .ignore => some k
  | .request t => some { k with terminalToSwitchTo := some t }
  | .clear => Mp3Kernel.clear k
  | .erase =>
    putc (k.setTerminal k.currentTerminal (eraseLast (k.terminals k.currentTerminal))) backspace
  | .append c => (putc k c).map fun k =>
    k.setTerminal k.currentTerminal (appendLast (k.terminals k.currentTerminal) c)

/-- The scancode is that of a key being pressed. -/
def IsPress (keys : Keyboard) (scancode : Nat) : Prop :=
  scancode ≠ scs1Multibyte ∧ keys.multiByte = false ∧ 0 < scancode ∧ scancode < scs1PressedF12

instance (keys : Keyboard) (scancode : Nat) : Decidable (IsPress keys scancode) := by
  unfold IsPress
  infer_instance

/-- What `handle_keypress` does beside the key states. -/
def pressAction (k : Kernel) (keys : Keyboard) (scancode : Nat) : KeyAction :=
  if IsPress keys scancode then
    keyAction (pressKey keys scancode) (k.terminals k.currentTerminal) scancode
      (handleDisp keys (keycode scancode))
  else .ignore

/-- What it does to the key states. -/
def scanKey (keys : Keyboard) (scancode : Nat) : Keyboard :=
  if scancode = scs1Multibyte then { keys with multiByte := true }
  else if keys.multiByte then { keys with multiByte := false }
  else if 0 < scancode ∧ scancode < scs1PressedF12 then pressKey keys scancode
  else if scs1KeypressReleaseOffset < scancode ∧ scancode ≤ scs1ReleasedF12 then
    releaseKey keys scancode
  else keys

def handleKeypress (k : Kernel) (keys : Keyboard) (scancode : Nat) :
    Option (Kernel × Keyboard) :=
  ((pressAction k keys scancode).apply k).map fun k => (k, scanKey keys scancode)

/-! ## get_line_buf, a step at a time -/

inductive Reader where
  | idle
  /-- `contains_newline` looks at position `i` of the buffer of `t`. -/
  | scan (t : Fin 3) (nbytes i : Nat)
  /-- Byte `j` is copied next; the newline is at `nl`. -/
  | copy (t : Fin 3) (nbytes nl j : Nat)
  /-- `clear_line_buf` clears position `i` of the buffer of `u` next. -/
  | clear (t : Fin 3) (lenstr : Nat) (u : Fin 3) (i : Nat)
  | done (t : Fin 3) (lenstr : Nat)

/-- `buffers` are the buffers the processes passed. -/
structure Console where
  kernel : Kernel
  keys : Keyboard
  readers : Nat → Reader
  buffers : Nat → Nat → UInt8
  stored : Fin 3 → List UInt8
  returned : Fin 3 → List UInt8

inductive ConsoleOp where
  | key (scancode : Nat)
  | switch (termNum : Nat)
  /-- Another process runs. -/
  | run (paging : Paging) (pid : Nat)
  /-- The running process calls `get_line_buf` with a buffer. -/
  | read (nbytes : Int)
  /-- The next step of its call. -/
  | step

def Console.setReader (c : Console) (reader : Reader) : Console :=
  { c with readers := Function.update c.readers c.kernel.runningPid reader }

def Console.setTerminal (c : Console) (t : Fin 3) (term : Terminal) : Console :=
  { c with kernel := c.kernel.setTerminal t term }

def Console.setBuffer (c : Console) (i : Nat) (b : UInt8) : Console :=
  { c with
    buffers := Function.update c.buffers c.kernel.runningPid
      (Function.update (c.buffers c.kernel.runningPid) i b) }

/-- The trace of what a key stores or erases. -/
def Console.trace (c : Console) : KeyAction → Fin 3 → List UInt8
  | .erase => Function.update c.stored c.kernel.currentTerminal
      (c.stored c.kernel.currentTerminal).dropLast
  | .append b => Function.update c.stored c.kernel.currentTerminal
      (c.stored c.kernel.currentTerminal ++ [b])
  | _ => c.stored

def Console.key (c : Console) (scancode : Nat) : Option Console :=
  (handleKeypress c.kernel c.keys scancode).map fun (k, keys) =>
    { c with
      kernel := k
      keys := keys
      stored := c.trace (pressAction c.kernel c.keys scancode) }

/-- The start of `get_line_buf`; a call that fails returns at once. -/
def Console.read (c : Console) (nbytes : Int) : Option Console :=
  if nbytes ≤ 0 then some c
  else do
    let term ← getRunningTerminal c.kernel
    match term with
    | none => some c
    | some t =>
      let c := c.setTerminal t { c.kernel.terminals t with readFlag := true }
      some (c.setReader (.scan t nbytes.toNat 0))

/-- The end of the copy: the newline behind the line, and the start of `clear_line_buf`. -/
def Console.copied (c : Console) (t : Fin 3) (nbytes limit : Nat) : Option Console := do
  let c := c.setBuffer (min nbytes lineBufferSize) newline
  let term ← getRunningTerminal c.kernel
  match term with
  | none => some (c.setReader (.done t limit))
  | some u => some (c.setReader (.clear t limit u 0))

/-- The trace of a line that is returned. -/
def Console.return (c : Console) (t : Fin 3) (lenstr : Nat) : Console :=
  { c.setReader .idle with
    returned := Function.update c.returned t
      (c.returned t ++ (List.range lenstr).map (c.buffers c.kernel.runningPid)) }

def Console.readerStep (c : Console) : Option Console :=
  match c.readers c.kernel.runningPid with
  | .idle => none
  | .scan t nbytes i =>
    if (c.kernel.terminals t).lineBuf i = newline then some (c.setReader (.copy t nbytes i 0))
    else some (c.setReader (.scan t nbytes (if i + 1 < lineBufferSize then i + 1 else 0)))
  | .copy t nbytes nl j =>
    let limit := min (nl + 1) nbytes
    if j < limit then
      some ((c.setBuffer j ((c.kernel.terminals t).lineBuf j)).setReader (.copy t nbytes nl (j + 1)))
    else c.copied t nbytes limit
  | .clear t lenstr u i =>
    let term := c.kernel.terminals u
    if i < lineBufferSize then
      some ((c.setTerminal u { term with lineBuf := Function.update term.lineBuf i 0 }).setReader
        (.clear t lenstr u (i + 1)))
    else some ((c.setTerminal u { term with lineBufIndex := 0 }).setReader (.done t lenstr))
  | .done t lenstr =>
    let c := c.setTerminal t { c.kernel.terminals t with readFlag := false }
    some (c.return t lenstr)

def consoleStep (c : Console) : ConsoleOp → Option Console
  | .key scancode => c.key scancode
  | .switch termNum => (switchTerminal c.kernel termNum).map fun k => { c with kernel := k }
  | .run paging pid => some { c with kernel := setPid (c.kernel.setPaging paging) pid }
  | .read nbytes => c.read nbytes
  | .step => c.readerStep

end Mp3Kernel
