/-
  Process creation and termination (syscall.c): `execute`, `halt`, `close`, `getargs`, `vidmap`,
  and the start of the first shell.

  A pointer a function holds across its updates (`pcb`, `parent`, `term`) is a slot or a
  terminal number, so two pointers to one object alias here as they do in the source.

  `execute` does not return where it enters user space. It can also never come back: a
  command longer than its buffer overwrites the stack frame, a NULL terminal is dereferenced,
  a program that does not fit its page is loaded past it. These ends are `fault`.
-/
import Mp3Kernel.Model.Terminal

namespace Mp3Kernel

def entryPointOffset : Nat := 24
def loadAddr : Nat := 0x8048000
def maxPidCount : Nat := 8
def fdStart : Nat := 2
def fdCnt : Nat := 8
def argsSize : Nat := 128
def processKilledByException : Nat := 256
def elfHeader : List UInt8 := [0x7F, 0x45, 0x4C, 0x46]

/-! ## The command -/

/-- The array `cmd` of `execute`; `overrun` records a store past its end. -/
structure CmdBuf where
  bytes : Nat → UInt8
  overrun : Bool

def CmdBuf.store (cmd : CmdBuf) (j : Nat) (b : UInt8) : CmdBuf :=
  if j < argsSize then { cmd with bytes := Function.update cmd.bytes j b }
  else { cmd with overrun := true }

/-- `strcpy(cmd + j, src)`. -/
def CmdBuf.strcpy (cmd : CmdBuf) (j : Nat) : List UInt8 → CmdBuf
  | [] => cmd.store j 0
  | b :: bs => (cmd.store j b).strcpy (j + 1) bs

/-- The command as a C string: the name, which is followed by a NUL. -/
def CmdBuf.name (cmd : CmdBuf) : CString :=
  CString.ofBytes ((List.range argsSize).map cmd.bytes)

/-- The number of leading spaces. -/
def strnonspace (s : CString) : Nat := (s.bytes.takeWhile (· = space)).length

/-- `while (i + 1 < l && ucmd[i + 1] == ' ') i++` from a space, on the bytes from `i` on. -/
def skipSpaces : List UInt8 → List UInt8
  | a :: b :: bs => if b = space then skipSpaces (b :: bs) else a :: b :: bs
  | bs => bs

/-- The copying loop, on the bytes of `ucmd` from `i` on. Returns the buffer and `j`. -/
def parseLoop (cmd : CmdBuf) (j : Nat) : List UInt8 → CmdBuf × Nat
  | [] => (cmd, j)
  | b :: bs =>
    if b = space then ((cmd.store j 0).strcpy j (skipSpaces (b :: bs)), j)
    else parseLoop (cmd.store j b) (j + 1) bs

def parseCmd (ucmd : CString) : CmdBuf :=
  let (cmd, j) := parseLoop ⟨fun _ => 0, false⟩ 0 (ucmd.bytes.drop (strnonspace ucmd))
  cmd.store j 0

/-- The string "shell". -/
def shellCmd : CString := ⟨[0x73, 0x68, 0x65, 0x6C, 0x6C], by simp⟩

/-! ## The checks of execute -/

/-- The name is found and the file starts with the four ELF bytes. -/
def isExecutable (fs : Image) (fname : CString) : Bool :=
  match readDentryByName fs fname with
  | none => false
  | some dentry =>
    let res := readData fs dentry.inodeIdx 0 (some fun _ => 0) 4
    res.ret == 4 && res.buf.any fun header => (List.range 4).map header == elfHeader

/-- The lowest PID whose bit is clear, from `i` on with `n` PIDs left. -/
def findPid (procs : BitVec 8) (i : Nat) : Nat → Option Nat
  | 0 => none
  | n + 1 => if pidBit i &&& procs = 0 then some i else findPid procs (i + 1) n

def allocPid (procs : BitVec 8) : Option Nat := findPid procs 0 maxPidCount

/-! ## Launching -/

/-- The first `n` bytes of a buffer, stored from `va` on. -/
def storeBytes (k : Kernel) (va : Nat) (buf : Nat → UInt8) : Nat → Option Kernel
  | 0 => some k
  | n + 1 => do
    let k ← storeBytes k va buf n
    store k (va + n) (buf n)

/-- The four bytes at the entry point offset. -/
def readEntry (fs : Image) (fname : CString) : ReadResult :=
  fileReadName fs fname (some fun _ => 0) entryPointOffset 4

/-- The whole file. -/
def readProgram (fs : Image) (fname : CString) : ReadResult :=
  fileReadName fs fname (some fun _ => 0) 0 0

/-- `file_read_name` into memory at `LOAD_ADDR`. -/
def loadProgram (fs : Image) (k : Kernel) (fname : CString) : Option (Int × Kernel) :=
  let res := readProgram fs fname
  (storeBytes k loadAddr (res.buf.getD fun _ => 0) res.reads).map fun k => (res.ret, k)

/-- A little-endian word at the start of a buffer. -/
def le32 (buf : Nat → UInt8) : Nat :=
  (buf 0).toNat + 256 * (buf 1).toNat + 65536 * (buf 2).toNat + 16777216 * (buf 3).toNat

def stdinFd : FileDesc := ⟨some .stdIn, 0, 0, true⟩
def stdoutFd : FileDesc := ⟨some .stdOut, 0, 0, true⟩
def closedFd : FileDesc := ⟨none, 0, 0, false⟩

/-- The descriptors, arguments and stack of a new process. -/
def initPcb (old : Pcb) (cmd : CmdBuf) (pid esp ebp : Nat) : Pcb :=
  { old with
    fds := fun i =>
      if i = 0 then stdinFd else if i < fdStart then stdoutFd
      else if i < fdCnt then closedFd else old.fds i
    rawArgv := fun i => if i < argsSize then cmd.bytes i else old.rawArgv i
    argv0 := 0
    argv1 := strlen cmd.name + 1
    pid := pid
    parentKsp := esp
    parentKbp := ebp }

/-- The terminal of a new process: the displayed one if it is running, else a new one. -/
def bindTerminal (k : Kernel) : Option (Fin 3) × Kernel :=
  if (k.terminals k.currentTerminal).running then (some k.currentTerminal, k)
  else newTerminal k k.runningPid

/-- The links between the new process, at the running slot, and `parent`. The first process
    of a terminal has no parent. -/
def linkParent (k : Kernel) (parent : Nat) (term : Fin 3) : Kernel :=
  let slot := k.runningPid
  let parentPid := if slot = (k.terminals term).pid then -1 else i32 (k.pcbs parent).pid
  let k := k.setPcb slot
    { k.pcbs slot with childPcb := none, parentPid := parentPid, parentPcb := some parent }
  if parentPid ≠ -1 then k.setPcb parent { k.pcbs parent with childPcb := some slot }
  else k.setPcb slot { k.pcbs slot with parentPcb := none }

/-- From the copy of ESP and EBP to the entry into user space. -/
def startProcess (k : Kernel) (parent : Nat) (cmd : CmdBuf) (esp ebp : Nat) : Option Kernel :=
  let slot := k.runningPid
  let k := k.setPcb slot (initPcb (k.pcbs slot) cmd slot esp ebp)
  let (term, k) := bindTerminal k
  term.map fun t => { linkParent k parent t with esp0 := kernelStackTop slot }

inductive ExecResult where
  /-- User space is entered at `entry`. -/
  | launched (k : Kernel) (entry : Nat)
  /-- Returned -1. -/
  | failed (k : Kernel)
  | fault

/-- `procs |= mask; running_pid = i`. -/
def takePid (k : Kernel) (pid : Nat) : Kernel :=
  { k with procs := k.procs ||| pidBit pid, runningPid := pid }

/-- `execute` from the label `cont` on, where the PID is taken. -/
def launch (fs : Image) (k : Kernel) (parent : Nat) (cmd : CmdBuf) (esp ebp : Nat) :
    ExecResult :=
  let entry := readEntry fs cmd.name
  if entry.ret ≠ 4 then .failed k
  else
    match makeTaskPgdir k.paging k.runningPid with
    | none => .failed k
    | some p =>
      match loadProgram fs (k.setPaging p) cmd.name with
      | none => .fault
      | some (ret, k) =>
        if ret = -1 then .failed k
        else
          match startProcess k parent cmd esp ebp with
          | none => .fault
          | some k => .launched k (le32 (entry.buf.getD fun _ => 0))

def execute (fs : Image) (k : Kernel) (ucmd : Option CString) (esp ebp : Nat) : ExecResult :=
  match ucmd with
  | none => .failed k
  | some ucmd =>
    let cmd := parseCmd ucmd
    if cmd.overrun then .fault
    else if isExecutable fs cmd.name then
      match allocPid k.procs with
      | none => .failed k
      | some pid => launch fs (takePid k pid) k.runningPid cmd esp ebp
    else .failed k

/-! ## halt -/

/-- `close`, in the running process. -/
def close (k : Kernel) (fd : Nat) : Int × Kernel :=
  if fd < fdStart ∨ fdCnt ≤ fd then (-1, k)
  else
    let pcb := getCurrentPcb k
    if !(pcb.fds fd).inUse ∨ (pcb.fds fd).jumptable.isNone then (-1, k)
    else (0, k.setPcb k.runningPid { pcb with fds := Function.update pcb.fds fd closedFd })

/-- The loop that closes descriptors `i`, `i + 1`, … . -/
def closeAll (k : Kernel) (i : Nat) : Nat → Kernel
  | 0 => k
  | n + 1 => closeAll (close k i).2 (i + 1) n

/-- `flush_tlb` loads the directory of the running process. -/
def flushTlb (k : Kernel) : Kernel := k.setPaging (k.paging.loadCr3 (getCurrentPcb k).pid)

/-- `parent_pcb->child_pcb = NULL`. -/
def unlinkParent (k : Kernel) (slot : Nat) : Kernel :=
  match (k.pcbs slot).parentPcb with
  | some parent => k.setPcb parent { k.pcbs parent with childPcb := none }
  | none => k

/-- `procs &= ~(FIRST_PID >> pid)`. -/
def freePid (k : Kernel) (pid : Nat) : Kernel :=
  { k with procs := k.procs &&& ~~~(pidBit pid) }

/-- The part of `halt` for a process that has a parent: back to it. -/
def resumeParent (k : Kernel) (slot : Nat) (term : Fin 3) (status : UInt8) : Kernel :=
  let ret := if k.programExceptionOccured then processKilledByException else status.toNat
  let k := k.setPcb slot { k.pcbs slot with childReturn := ret }
  let pcb := k.pcbs slot
  let k := { k with
    programExceptionOccured := false
    esp0 := kernelStackTop pcb.parentPid
    runningPid := (pcb.parentPid % 256).toNat }
  let k := flushTlb (k.setPaging (removeTaskPgdir k.paging (pcb.pid % 256)))
  k.setTerminal term { k.terminals term with vidmap := false }

/-- The displayed terminal gives up its root process, and the kernel stack is `term`'s. -/
def stopTerminal (k : Kernel) (term : Fin 3) : Kernel :=
  let k := { k with esp0 := kernelStackTop (k.terminals term).pid }
  k.setTerminal k.currentTerminal { k.terminals k.currentTerminal with running := false }

/-- The part of `halt` for a root process: a new shell. It runs on a stack frame that has been
    replaced, so there is nothing to come back to if the shell cannot be launched. -/
def relaunchShell (fs : Image) (k : Kernel) (term : Fin 3) (esp ebp : Nat) : Option Kernel :=
  match execute fs (stopTerminal k term) (some shellCmd) esp ebp with
  | .launched k _ => some k
  | _ => none

/-- `none`: a NULL terminal is dereferenced, or the search for it or the relaunch does not
    come back. `esp` and `ebp` are what the relaunched shell saves. -/
def halt (fs : Image) (k : Kernel) (status : UInt8) (esp ebp : Nat) : Option Kernel := do
  let slot := k.runningPid
  let k := closeAll (unlinkParent k slot) 0 fdCnt
  let term ← getRunningTerminal k
  let k := freePid k (k.pcbs slot).pid
  let t ← term
  if (k.pcbs slot).parentPid = -1 then relaunchShell fs k t esp ebp
  else some (resumeParent k slot t status)

/-! ## getargs -/

/-- The string `argv[1]` points to in `raw_argv`. -/
def argString (pcb : Pcb) : CString :=
  CString.ofBytes (((List.range argsSize).map pcb.rawArgv).drop pcb.argv1)

/-- `argv[1]` is not NULL once `execute` has set it. Returns the buffer too. -/
def getargs (k : Kernel) (buf : Option (Nat → UInt8)) (nbytes : Int) :
    Int × Option (Nat → UInt8) :=
  match buf with
  | none => (-1, none)
  | some buf =>
    let args := argString (getCurrentPcb k)
    if nbytes < 0 ∨ args.get 0 = 0 then (-1, some buf)
    else (0, some fun i => if i < min (strlen args + 1) nbytes.toNat then args.get i else buf i)

/-! ## vidmap -/

/-- Where the pages of terminal `t` are to be shown: video memory if it is displayed. -/
def videoAddr (k : Kernel) (t : Fin 3) : Nat :=
  if (k.terminals t).id = k.currentTerminal then video else (k.terminals t).vidMemBuf

/-- `screen_start` is checked against the start of user memory only. -/
def vidmap (k : Kernel) (screenStart : Nat) : Option (Int × Kernel) :=
  if screenStart < pg4mStart * 2 then some (-1, k)
  else do
    let k ← storeBytes k screenStart (fun i => UInt8.ofNat (vidmapStart / 256 ^ i)) 4
    let term ← getRunningTerminal k
    match term with
    | none => some (-1, k)
    | some t =>
      let addr := videoAddr k t
      let k := k.setTerminal t { k.terminals t with vidmap := true }
      let pid := (getCurrentPcb k).pid
      let ret := if numProc ≤ pid % 256 then -1 else 0
      some (ret, remap k pid vidmapStart addr)

/-! ## Booting -/

/-- `init_terminals`, where the shell starts. -/
def initTerminals (fs : Image) (k : Kernel) (esp ebp : Nat) : Option Kernel := do
  let k ← initTerminalData k
  match execute fs k (some shellCmd) esp ebp with
  | .launched k _ => some k
  | _ => none

end Mp3Kernel
