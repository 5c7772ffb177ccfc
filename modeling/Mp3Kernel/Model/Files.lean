/-
  File descriptors: the system calls `open`, `close`, `read` and `write` (syscall.c) and the
  drivers behind their tables (fs.c, rtc.c, terminal_driver.c).

  A call is one step. `none`: it does not return, because the search for the caller's terminal
  or the screen routine it ends in does not. Two drivers wait for an interrupt: `terminal_read`
  for a line (Keyboard.lean has its steps) and `rtc_read` for the clock. Such a call changes the
  state as far as its loop and has no return value; `FileOp.interrupt` is what happens then.

  `dir_read` measures and copies a directory entry on its stack that it has not filled in
  when the index is past the last inode; `stale` is what lies there.
-/
import Mp3Kernel.Model.Screen
import Mp3Kernel.Model.Syscall

namespace Mp3Kernel

def ftRtc : Nat := 0
def ftDir : Nat := 1
def ftReg : Nat := 2
def rtcDefaultVirtFreq : Nat := 2

/-- The kernel and the counter of fs.c. -/
structure Files where
  kernel : Kernel
  dirReadCount : Nat

def Files.setKernel (s : Files) (k : Kernel) : Files := { s with kernel := k }

/-- `pcb->fds[fd]` of the running process. -/
def Files.fd (s : Files) (fd : Nat) : FileDesc := (getCurrentPcb s.kernel).fds fd

def Files.setFd (s : Files) (fd : Nat) (desc : FileDesc) : Files :=
  let pcb := getCurrentPcb s.kernel
  s.setKernel (s.kernel.setPcb s.kernel.runningPid
    { pcb with fds := Function.update pcb.fds fd desc })

/-! ## The clock (rtc.c) -/

def setVirtualFreqRtc (k : Kernel) (freq : Nat) : Option (Int × Kernel) := do
  let term ← getRunningTerminal k
  match term with
  | none => some (-1, k)
  | some t =>
    let rtc := (k.terminals t).rtc
    if freq = 0 ∨ rtc.realFreq < freq ∨ freq &&& (freq - 1) ≠ 0 then some (-1, k)
    else some (0, k.setTerminal t { k.terminals t with
      rtc := { rtc with intCount := 0, virtFreq := freq } })

def rtcOpen (k : Kernel) : Option (Int × Kernel) :=
  (setVirtualFreqRtc k rtcDefaultVirtFreq).map fun (_, k) => (0, k)

def rtcWrite (k : Kernel) (buf : Option (Nat → UInt8)) (nbytes : Int) : Option (Int × Kernel) :=
  match buf with
  | none => some (-1, k)
  | some buf =>
    if nbytes ≠ 4 then some (-1, k)
    else (setVirtualFreqRtc k (le32 buf)).map fun (ret, k) => (if ret ≠ 0 then -1 else 4, k)

/-! ## read -/

/-- The outcome of a call. `ret` is `none` while it waits; `buf` is the buffer of a `read`. -/
structure Outcome where
  ret : Option Int
  buf : Option (Nat → UInt8)
  files : Files

/-- `rtc_read` up to its loop. -/
def rtcRead (s : Files) (buf : Nat → UInt8) : Option Outcome := do
  let term ← getRunningTerminal s.kernel
  match term with
  | none => some ⟨some (-1), some buf, s⟩
  | some t =>
    let rtc := (s.kernel.terminals t).rtc
    some ⟨none, some buf, s.setKernel (s.kernel.setTerminal t { s.kernel.terminals t with
      rtc := { rtc with flag := false, intCount := 0 } })⟩

/-- `get_line_buf` up to its loop. -/
def terminalRead (s : Files) (buf : Nat → UInt8) (nbytes : Int) : Option Outcome :=
  if nbytes ≤ 0 then some ⟨some (-1), some buf, s⟩
  else do
    let term ← getRunningTerminal s.kernel
    match term with
    | none => some ⟨some (-1), some buf, s⟩
    | some t =>
      some ⟨none, some buf, s.setKernel (s.kernel.setTerminal t { s.kernel.terminals t with
        readFlag := true })⟩

/-- A length of 0 asks for the whole file. -/
def fileRead (img : Image) (s : Files) (fd : Nat) (buf : Nat → UInt8) (nbytes : Int) : Outcome :=
  let desc := s.fd fd
  if !desc.inUse then ⟨some (-1), some buf, s⟩
  else
    let length := if nbytes = 0 then (img.inodes desc.inode).size else (nbytes % u32).toNat
    let res := readData img desc.inode desc.filePosition (some buf) length
    ⟨some res.ret, res.buf,
      if 0 ≤ res.ret then
        s.setFd fd { desc with filePosition := (desc.filePosition + res.ret.toNat) % u32 }
      else s⟩

/-- `strlen` of a name in its 32 bytes, where `dir_read` cuts it off. -/
def nameLen (filename : Nat → UInt8) : Nat :=
  (((List.range fsFnameLen).map filename).takeWhile (· ≠ 0)).length

def dirRead (img : Image) (s : Files) (stale buf : Nat → UInt8) (nbytes : Int) : Outcome :=
  let entry := readDentryByIndex img s.dirReadCount
  let filename := entry.elim stale fun d => d.filename
  let s := { s with dirReadCount := (s.dirReadCount + 1) % u32 }
  let bytes := min (min nbytes 32) (nameLen filename)
  if bytes < 0 then ⟨some (-1), some buf, s⟩
  else
    ⟨some (if entry.isNone then 0 else bytes),
      some fun i => if (i : Int) < bytes then filename i else buf i, s⟩

def readDriver (img : Image) (s : Files) (ops : FileOps) (fd : Nat) (stale buf : Nat → UInt8)
    (nbytes : Int) : Option Outcome :=
  match ops with
  | .stdIn => terminalRead s buf nbytes
  | .stdOut => some ⟨some (-1), some buf, s⟩
  | .rtc => rtcRead s buf
  | .fs => some (fileRead img s fd buf nbytes)
  | .dir => some (dirRead img s stale buf nbytes)

/-- The descriptor of a call, if the checks `read` and `write` make let it through. -/
def checkFd (s : Files) (fd nbytes : Int) : Option FileOps :=
  if fd < 0 ∨ (fdCnt : Int) ≤ fd ∨ nbytes < 0 ∨ !(s.fd fd.toNat).inUse then none
  else (s.fd fd.toNat).jumptable

def readCall (img : Image) (s : Files) (fd : Int) (stale : Nat → UInt8)
    (buf : Option (Nat → UInt8)) (nbytes : Int) : Option Outcome :=
  match buf, checkFd s fd nbytes with
  | some buf, some ops => readDriver img s ops fd.toNat stale buf nbytes
  | _, _ => some ⟨some (-1), buf, s⟩

/-! ## write -/

def writeDriver (s : Files) (ops : FileOps) (buf : Nat → UInt8) (nbytes : Int) :
    Option (Int × Kernel) :=
  match ops with
  | .stdOut => terminalWrite s.kernel (some ((List.range nbytes.toNat).map buf))
  | .rtc => rtcWrite s.kernel (some buf) nbytes
  | _ => some (-1, s.kernel)

def writeCall (s : Files) (fd : Int) (buf : Option (Nat → UInt8)) (nbytes : Int) :
    Option (Int × Files) :=
  match buf, checkFd s fd nbytes with
  | some buf, some ops => (writeDriver s ops buf nbytes).map fun (ret, k) => (ret, s.setKernel k)
  | _, _ => some (-1, s)

/-! ## open and close -/

/-- The operations of a file type. -/
def fileOps (filetype : Nat) : Option FileOps :=
  if filetype = ftRtc then some .rtc
  else if filetype = ftDir then some .dir
  else if filetype = ftReg then some .fs
  else none

def openDriver (s : Files) : FileOps → Option (Int × Files)
  | .rtc => (rtcOpen s.kernel).map fun (ret, k) => (ret, s.setKernel k)
  | .dir => some (0, { s with dirReadCount := 0 })
  | _ => some (0, s)

/-- The loop of `open` from descriptor `fd` on, with `n` descriptors left. -/
def openFrom (s : Files) (dentry : DirEntry) (fd : Nat) : Nat → Option (Int × Files)
  | 0 => some (-1, s)
  | n + 1 =>
    if (s.fd fd).inUse then openFrom s dentry (fd + 1) n
    else
      match fileOps dentry.filetype with
      | none => some (-1, s)
      | some ops => do
        let s := s.setFd fd { s.fd fd with jumptable := some ops }
        let (ret, s) ← openDriver s ops
        if ret = -1 then some (-1, s.setFd fd { s.fd fd with jumptable := none })
        else
          let inode := if dentry.filetype = ftReg then dentry.inodeIdx else 0
          some (fd, s.setFd fd { s.fd fd with inUse := true, inode := inode, filePosition := 0 })

def openCall (img : Image) (s : Files) (filename : Option CString) : Option (Int × Files) :=
  match filename with
  | none => some (-1, s)
  | some filename =>
    if strlen filename = 0 then some (-1, s)
    else
      match readDentryByName img filename with
      | none => some (-1, s)
      | some dentry => openFrom s dentry fdStart (fdCnt - fdStart)

/-- A negative descriptor is below FD_START like 0. -/
def closeCall (s : Files) (fd : Int) : Int × Files :=
  let (ret, k) := close s.kernel fd.toNat
  (ret, s.setKernel k)

/-! ## Runs -/

inductive FileCall where
  | openFile (filename : Option CString)
  | close (fd : Int)
  | read (fd : Int) (stale : Nat → UInt8) (buf : Option (Nat → UInt8)) (nbytes : Int)
  | write (fd : Int) (buf : Option (Nat → UInt8)) (nbytes : Int)

def fileCall (img : Image) (s : Files) : FileCall → Option Outcome
  | .openFile filename =>
    (openCall img s filename).map fun (ret, s) => ⟨some ret, none, s⟩
  | .close fd =>
    let (ret, s) := closeCall s fd
    some ⟨some ret, none, s⟩
  | .read fd stale buf nbytes => readCall img s fd stale buf nbytes
  | .write fd buf nbytes => (writeCall s fd buf nbytes).map fun (ret, s) => ⟨some ret, none, s⟩

inductive FileOp where
  /-- The running process makes a call. -/
  | call (c : FileCall)
  /-- Another process runs. -/
  | run (paging : Paging) (pid : Nat)
  /-- What the keyboard, the clock and the calls that wait make of the terminals and of memory.
      The PIDs of the terminals stay. -/
  | interrupt (mem : Nat → UInt8) (terminals : Fin 3 → Terminal)

/-- A call that has returned, for the record: who made it, and what it gave back. -/
structure Returned where
  pid : Nat
  call : FileCall
  ret : Int
  bytes : List UInt8

/-- The state with the record of the calls, the last one first. -/
structure Session where
  files : Files
  record : List Returned

/-- The bytes a `read` gives back. -/
def Outcome.bytes (o : Outcome) : List UInt8 :=
  o.buf.elim [] fun buf => (List.range (o.ret.getD 0).toNat).map buf

def Session.returned (s : Session) (c : FileCall) (o : Outcome) : Session :=
  ⟨o.files, match o.ret with
    | some ret => ⟨s.files.kernel.runningPid, c, ret, o.bytes⟩ :: s.record
    | none => s.record⟩

def sessionStep (img : Image) (s : Session) : FileOp → Option Session
  | .call c => (fileCall img s.files c).map (s.returned c)
  | .run paging pid =>
    some { s with files := s.files.setKernel (setPid (s.files.kernel.setPaging paging) pid) }
  | .interrupt mem terminals =>
    let k := s.files.kernel
    some { s with files := s.files.setKernel { k.setMem mem with
      terminals := fun t => { terminals t with pid := (k.terminals t).pid } } }

end Mp3Kernel
