/-
  The text screen (lib.c): clearing, scrolling and the two character paths, `putc` for the
  kernel and the keyboard's echo, `terminal_putc` for a process's output.

  `video_mem` is the constant VIDEO: `scroll_up` assigns it the return value of `memmove`,
  which is its destination. Whether VIDEO means video memory or a terminal's buffer is up to
  the page table of the running process.
-/
import Mp3Kernel.Model.Terminal

namespace Mp3Kernel

def newline : UInt8 := 0x0A
def backspace : UInt8 := 0x08
def tab : UInt8 := 0x09

/-! ## scroll_up, clear_screen_xy, clear_terminal_screen_xy, clear -/

def scrollUp (k : Kernel) : Option Kernel := do
  let k ← memmove k video (video + numCols * 2) (numCols * (numRows - 1) * 2)
  fillCells k video (numCols * (numRows - 1)) numCols

def clearScreenXY (k : Kernel) : Option Kernel :=
  putCell k video (numCols * k.screenY + k.screenX) space

def clearTerminalScreenXY (k : Kernel) (numTerm : Fin 3) : Option Kernel :=
  let term := k.terminals numTerm
  putCell k video (numCols * term.screenY + term.screenX) space

/-- The terminal the running process has to be remapped for before the displayed screen can
    be written through VIDEO: its own, when that one is hidden. -/
def hiddenTerminal (k : Kernel) (term : Option (Fin 3)) : Option (Fin 3) :=
  term.filter fun t => (k.terminals t).id != k.currentTerminal

def clear (k : Kernel) : Option Kernel := do
  let term ← getRunningTerminal k
  match hiddenTerminal k term with
  | some t =>
    let k := remap k (getCurrentPcb k).pid video video
    let k ← fillCells k video 0 (numRows * numCols)
    let k := remap k (getCurrentPcb k).pid video (k.terminals t).vidMemBuf
    let k := setTerminalScreenXY k k.currentTerminal 0 0
    some (setScreenXY k 0 0)
  | none =>
    let k ← fillCells k video 0 (numRows * numCols)
    some (setScreenXY k 0 0)

/-! ## putc -/

/-- The next row, or the last one again after a scroll. -/
def nextRow (k : Kernel) : Option Kernel :=
  if k.screenY < numRows - 1 then some { k with screenY := k.screenY + 1 } else scrollUp k

/-- The row after the cursor has come to column `x`, which is past the end if it wraps. -/
def wrapRow (k : Kernel) (x : Nat) : Option Kernel :=
  if 0 < x / numCols then
    if k.screenY = numRows - 1 then scrollUp k
    else some { k with screenY := (k.screenY + x / numCols) % numRows }
  else some k

/-- The position a backspace leads to. `x - 1` is a u16: it wraps at 0 and is then refused. -/
def stepBack (k : Kernel) : Kernel :=
  if k.screenX = 0 ∧ 0 < k.screenY then setScreenXY k (numCols - 1) (k.screenY - 1)
  else setScreenX k ((k.screenX + 65535) % 65536)

/-- The branches of `putc` on its character, with VIDEO mapped to the screen. `tab` is not
    among them. -/
def putcBody (k : Kernel) (c : UInt8) : Option Kernel :=
  if c = newline then do
    let k ← nextRow k
    some { k with screenX := 0 }
  else if c = backspace then clearScreenXY (stepBack k)
  else do
    let k ← putCell k video (numCols * k.screenY + k.screenX) c
    let x := (k.screenX + 1) % 65536
    let k ← wrapRow k x
    some { k with screenX := x % numCols }

/-- `putc` for a character other than `tab`, on which it calls itself once. -/
def putcChar (k : Kernel) (c : UInt8) : Option Kernel := do
  let term ← getRunningTerminal k
  if c = 0 then some k
  else
    match hiddenTerminal k term with
    | some t =>
      let k := remap k (getCurrentPcb k).pid video video
      let k ← putcBody k c
      some (remap k (getCurrentPcb k).pid video (k.terminals t).vidMemBuf)
    | none => putcBody k c

def putc (k : Kernel) (c : UInt8) : Option Kernel := do
  if c = tab then
    let term ← getRunningTerminal k
    match hiddenTerminal k term with
    -- the remap is undone by the inner call, which finds the same terminal
    | some _ => putcChar (remap k (getCurrentPcb k).pid video video) space
    | none => putcChar k space
  else putcChar k c

/-! ## terminal_putc, terminal_write -/

/-- `terminal_putc` for a character other than `tab`, on which it calls itself with a space.
    A displayed terminal's position is the screen's, a hidden one's is its own. -/
def terminalPutcChar (k : Kernel) (numTerm : Fin 3) (c : UInt8) : Option Kernel :=
  let term := k.terminals numTerm
  let displayed := term.id = k.currentTerminal
  let x := if displayed then k.screenX else term.screenX
  let y := if displayed then k.screenY else term.screenY
  let setXY := fun (k : Kernel) (x y : Nat) =>
    if term.id = k.currentTerminal then setScreenXY k x y else setTerminalScreenXY k term.id x y
  if c = 0 then some k
  else if c = newline then
    if y < numRows - 1 then some (setXY k 0 (y + 1))
    else do
      let k ← scrollUp k
      some (setXY k 0 y)
  else if c = backspace then
    let (x, y) := if x = 0 ∧ 0 < y then (numCols - 1, y - 1) else ((x + 65535) % 65536, y)
    let k := setXY k x y
    if term.id = k.currentTerminal then clearScreenXY k else clearTerminalScreenXY k term.id
  else do
    let k ← putCell k (if displayed then video else term.vidMemBuf) (numCols * y + x) c
    let x := (x + 1) % 65536
    if 0 < x / numCols then
      if y = numRows - 1 then do
        let k ← scrollUp k
        some (setXY k (x % numCols) y)
      else some (setXY k (x % numCols) ((y + x / numCols) % numRows))
    else some (setXY k (x % numCols) y)

def terminalPutc (k : Kernel) (numTerm : Fin 3) (c : UInt8) : Option Kernel :=
  terminalPutcChar k numTerm (if c = tab then space else c)

/-- The loop of `terminal_write`. -/
def terminalPuts (k : Kernel) (numTerm : Fin 3) : List UInt8 → Option Kernel
  | [] => some k
  | c :: cs => do
    let k ← terminalPutc k numTerm c
    terminalPuts k numTerm cs

/-- The bytes of the caller's buffer are given as a list of length `nbytes`; `none` is a null
    buffer. Returns the count and the state. -/
def terminalWrite (k : Kernel) (buf : Option (List UInt8)) : Option (Int × Kernel) := do
  let term ← getRunningTerminal k
  match buf, term with
  | some (b :: bs), some t =>
    let k ← terminalPuts k (k.terminals t).id (b :: bs)
    some (((b :: bs).length : Int), k)
  | _, _ => some (-1, k)

/-! ## Runs of the screen routines -/

inductive ScreenOp where
  | putc (c : UInt8)
  | terminalPutc (numTerm : Fin 3) (c : UInt8)
  | clear
  | switchTerminal (termNum : Nat)

def screenStep (k : Kernel) : ScreenOp → Option Kernel
  | .putc c => putc k c
  | .terminalPutc numTerm c => terminalPutc k numTerm c
  | .clear => clear k
  | .switchTerminal termNum => switchTerminal k termNum

end Mp3Kernel
