/-
  Finding, claiming and switching terminals (terminal_driver.c).

  Memory is accessed through the loaded page directory: `none` is a page fault. The only
  areas touched here are the visible parts of video memory and of the terminals' buffers,
  4000 bytes from the start of a page, so `memcpy` and `memmove` translate the two ends once.

  The hardware cursor is not modelled: `set_cursor_location` only writes to its ports.
-/
import Mp3Kernel.Base.Chain
import Mp3Kernel.Model.State

namespace Mp3Kernel

/-! ## Memory -/

/-- A byte store. The kernel runs at ring 0, so only presence is checked. -/
def store (k : Kernel) (va : Nat) (b : UInt8) : Option Kernel :=
  (k.paging.phys va).map fun pa => k.setMem (Function.update k.mem pa b)

/-- `n` bytes from `src` to `dst`, all of them read before the first is overwritten. -/
def copyBytes (mem : Nat → UInt8) (dst src n : Nat) (a : Nat) : UInt8 :=
  if dst ≤ a ∧ a < dst + n then mem (src + (a - dst)) else mem a

def memcpy (k : Kernel) (dest src n : Nat) : Option Kernel := do
  let d ← k.paging.phys dest
  let s ← k.paging.phys src
  some (k.setMem (copyBytes k.mem d s n))

def memmove (k : Kernel) (dest src n : Nat) : Option Kernel := memcpy k dest src n

/-- A call of `map_vid_mem`: it takes its pid as a u8, and its callers ignore a failure. -/
def remap (k : Kernel) (proc virtualAddress physicalAddress : Nat) : Kernel :=
  k.setPaging
    ((mapVidMem k.paging (proc % 256) virtualAddress physicalAddress).getD k.paging)

/-! ## The screen position (lib.c) -/

def numRows : Nat := 25
def numCols : Nat := 80
def attrib : UInt8 := 2
def space : UInt8 := 0x20

def setScreenX (k : Kernel) (x : Nat) : Kernel :=
  if x < numCols then { k with screenX := x } else k

def setScreenXY (k : Kernel) (x y : Nat) : Kernel :=
  if y < numRows ∧ x < numCols then { k with screenX := x, screenY := y } else k

/-- Refuses a position only when both coordinates are out of range. -/
def setTerminalScreenXY (k : Kernel) (numTerm : Fin 3) (x y : Nat) : Kernel :=
  if numRows ≤ y ∧ numCols ≤ x then k
  else k.setTerminal numTerm { k.terminals numTerm with screenX := x, screenY := y }

/-- `base[i << 1] = c; base[(i << 1) + 1] = ATTRIB`. -/
def putCell (k : Kernel) (base i : Nat) (c : UInt8) : Option Kernel := do
  let k ← store k (base + 2 * i) c
  store k (base + 2 * i + 1) attrib

/-- `n` blank cells from cell `i` on. -/
def fillCells (k : Kernel) (base i : Nat) : Nat → Option Kernel
  | 0 => some k
  | n + 1 => do
    let k ← putCell k base i space
    fillCells k base (i + 1) n

/-! ## Which terminal -/

/-- The first of the three terminals that meets a test. -/
def firstTerminal (test : Fin 3 → Bool) : Option (Fin 3) :=
  if test 0 then some 0
  else if test 1 then some 1
  else if test 2 then some 2
  else none

def getTerminalFromPid (k : Kernel) (pid : Nat) : Option (Fin 3) :=
  firstTerminal fun i => (k.terminals i).pid == pid

/-- The loop of `get_running_terminal` from a PCB that has a parent. `none`: the walk reaches
    a PCB whose `parent_pcb` is NULL, which the loop condition dereferences, or it never
    ends: there are 256 slots, so a longer walk is a cycle. -/
def searchParents (k : Kernel) (slot : Nat) : Option (Fin 3) :=
  Base.Chain.search (fun s => (k.pcbs s).parentPcb)
    (fun s => getTerminalFromPid k ((k.pcbs s).parentPid % u32).toNat) 256 slot

/-- `none`: does not return; `some none`: returned NULL. -/
def getRunningTerminal (k : Kernel) : Option (Option (Fin 3)) :=
  let pcb := getCurrentPcb k
  match getTerminalFromPid k pcb.pid with
  | some term => some (some term)
  | none =>
    if pcb.parentPcb.isNone then some none
    else (searchParents k k.runningPid).map some

/-- The first terminal that is not running, claimed for `pid`. -/
def newTerminal (k : Kernel) (pid : Nat) : Option (Fin 3) × Kernel :=
  match firstTerminal fun i => !(k.terminals i).running with
  | some i => (some i, k.setTerminal i { k.terminals i with pid := pid, running := true })
  | none => (none, k)

/-! ## Switching -/

/-- The visible part of a screen, in bytes. -/
def screenBytes : Nat := numCols * numRows * 2

/-- Saves the position of the displayed terminal and takes up that of `termNum`. -/
def swapPosition (k : Kernel) (termNum : Fin 3) : Kernel :=
  let prev := k.currentTerminal
  let k := k.setTerminal prev
    { k.terminals prev with screenX := k.screenX, screenY := k.screenY }
  setScreenXY k (k.terminals termNum).screenX (k.terminals termNum).screenY

def restoreTerminal (k : Kernel) (termNum : Fin 3) : Option Kernel := do
  let prevBuf := (k.terminals k.currentTerminal).vidMemBuf
  let k := swapPosition k termNum
  let pid := (getCurrentPcb k).pid
  let k := remap k pid video video
  let k ← memcpy k prevBuf video screenBytes
  let k ← memcpy k video (k.terminals termNum).vidMemBuf screenBytes
  some (remap k pid video prevBuf)

def switchTerminal (k : Kernel) (termNum : Nat) : Option Kernel :=
  if h : termNum < 3 then
    if k.currentTerminal.val = termNum then some k
    else do
      let t : Fin 3 := ⟨termNum, h⟩
      let k ← restoreTerminal k t
      let k := { k with currentTerminal := t }
      some (k.setTerminal t { k.terminals t with status := .running })
  else some k

/-! ## init_terminals, up to the start of the shell -/

/-- The values every terminal starts from; `pid` keeps what it had. -/
def resetTerminal (old : Terminal) (i : Fin 3) (x y : Nat) : Terminal where
  lineBuf := fun j => if j < 128 then 0 else old.lineBuf j
  lineBufIndex := 0
  screenX := x
  screenY := y
  pid := old.pid
  id := i
  readFlag := false
  vidMemBuf := vidMemBufAddr i
  running := false
  status := .notRunning
  vidmap := false
  rtc := ⟨2, 1024, 0, false⟩

/-- The loop body of `init_terminals`. Terminal 0 starts at the cursor that booting left; the
    buffers of the others are blanked. -/
def initTerminal (k : Kernel) (i : Fin 3) : Option Kernel :=
  let x := if i = 0 then k.screenX else 0
  let y := if i = 0 then k.screenY else 0
  let k := k.setTerminal i (resetTerminal (k.terminals i) i x y)
  if i = 0 then some k else fillCells k (k.terminals i).vidMemBuf 0 (numRows * numCols)

def initTerminalData (k : Kernel) : Option Kernel := do
  let k ← initTerminal k 0
  let k ← initTerminal k 1
  let k ← initTerminal k 2
  let k := k.setTerminal 0 { k.terminals 0 with running := true, status := .running }
  some { k with currentTerminal := 0 }

end Mp3Kernel
