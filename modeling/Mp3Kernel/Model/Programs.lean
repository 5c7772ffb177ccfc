/-
  User programs (syscalls/): the support routines of ece391support.c, and `cat` and `do_one_file`
  of `grep` as programs that make system calls.

  A buffer or a string is the memory from its start on. An automatic array holds what lay on the
  stack, so it is an argument. A `Program` stops where a loop takes more than `fuel` turns.

  `Returns` is what the kernel makes of a call. One that waits for an interrupt, and `execute`,
  do not return there.
-/
import Mp3Kernel.Base.Programs
import Mp3Kernel.Model.Files
import Mp3Kernel.Model.Itoa

namespace Mp3Kernel.User

open Base.Programs

/-! ## ece391support.c -/

/-- A string literal. -/
def lit (s : String) : List UInt8 := s.toList.map fun c => UInt8.ofNat c.toNat

/-- A literal in memory, with its terminator. -/
def str (s : String) (i : Nat) : UInt8 := (lit s).getD i 0

/-- The loop is that of `strlen` in lib.c. -/
def ece391Strlen (fuel : Nat) (s : Nat → UInt8) : Option Nat := strlenFrom s fuel 0

/-- `ece391_strcpy` inside one array, from index `src` to index `dst`. -/
def ece391Strcpy : Nat → (Nat → UInt8) → Nat → Nat → Option (Nat → UInt8)
  | 0, _, _, _ => none
  | fuel + 1, mem, dst, src =>
    let b := mem src
    let mem := Function.update mem dst b
    if b = 0 then some mem else ece391Strcpy fuel mem (dst + 1) (src + 1)

/-- `ece391_strcmp` from index `i` on. -/
def ece391StrcmpFrom (s1 s2 : Nat → UInt8) : Nat → Nat → Option Int
  | 0, _ => none
  | fuel + 1, i =>
    if s1 i = s2 i then
      if s1 i = 0 then some 0 else ece391StrcmpFrom s1 s2 fuel (i + 1)
    else some ((s1 i).toNat - (s2 i).toNat)

def ece391Strcmp (fuel : Nat) (s1 s2 : Nat → UInt8) : Option Int := ece391StrcmpFrom s1 s2 fuel 0

/-- `ece391_strncmp` from index `i` on, with `n` characters left. -/
def ece391StrncmpFrom (s1 s2 : Nat → UInt8) : Nat → Nat → Int
  | 0, _ => 0
  | n + 1, i =>
    if s1 i = s2 i then
      if s1 i = 0 ∨ n = 0 then 0 else ece391StrncmpFrom s1 s2 n (i + 1)
    else (s1 i).toNat - (s2 i).toNat

def ece391Strncmp (s1 s2 : Nat → UInt8) (n : Nat) : Int := ece391StrncmpFrom s1 s2 n 0

/-- The loop of `ece391_itoa`. The u32 makes its remainder one of u32s. `around` is what lies
    around the digit table. -/
def ece391ItoaLoop (around : Int → UInt8) (radix : Int) :
    Nat → Nat → Nat → (Nat → UInt8) → Option (Nat × (Nat → UInt8))
  | 0, _, _, _ => none
  | fuel + 1, newval, newbuf, buf =>
    if newval = 0 then some (newbuf, buf)
    else if radix % u32 = 0 then none
    else
      let i := i32 (newval % (radix % u32).toNat)
      ece391ItoaLoop around radix fuel (newval / (radix % u32).toNat) (newbuf + 1)
        (Function.update buf newbuf (lookup around i))

/-- `ece391_strrev` is `strrev` of lib.c with a check that changes nothing. -/
def ece391Strrev (fuel : Nat) (s : Nat → UInt8) : Option (Nat → UInt8) :=
  match ece391Strlen fuel s with
  | none => none
  | some len =>
    let last := i32 len - 1
    if last ≤ 0 then some s else strrevLoop fuel s 0 last

def ece391Itoa (around : Int → UInt8) (fuel value : Nat) (buf : Nat → UInt8) (radix : Int) :
    Option (Nat → UInt8) :=
  if value = 0 then
    some (Function.update (Function.update buf 0 (UInt8.ofNat '0'.toNat)) 1 0)
  else
    match ece391ItoaLoop around radix fuel value 0 buf with
    | none => none
    | some (newbuf, buf) => ece391Strrev fuel (Function.update buf newbuf 0)

/-! ## System calls -/

inductive Call where
  | execute (command : Nat → UInt8)
  | read (fd : Int) (buf : Nat → UInt8) (nbytes : Int)
  | write (fd : Int) (buf : Nat → UInt8) (nbytes : Int)
  | openFile (filename : Nat → UInt8)
  | close (fd : Int)
  | getargs (buf : Nat → UInt8) (nbytes : Int)

/-- What EAX holds, and what the buffer of a `read` or `getargs` holds then. -/
structure Answer where
  ret : Int
  buf : Nat → UInt8

abbrev Prog := Program Call Answer

def ece391Fdputs (fuel : Nat) (fd : Int) (s : Nat → UInt8) : Prog Unit := do
  let len ← Program.ofOption (ece391Strlen fuel s)
  let _ ← ask (.write fd s len)

/-! ## cat -/

/-- One turn of the loop of `cat`. -/
def catTurn (fuel : Nat) (fd : Int) (buf : Nat → UInt8) : Prog ((Nat → UInt8) ⊕ Int) := do
  let cnt ← ask (.read fd buf 1024)
  if cnt.ret = 0 then return .inr 0
  if cnt.ret = -1 then
    ece391Fdputs fuel 1 (str "file read failed\n")
    return .inr 3
  let written ← ask (.write 1 cnt.buf cnt.ret)
  if written.ret = -1 then return .inr 3
  return .inl cnt.buf

def cat (fuel : Nat) (buf : Nat → UInt8) : Prog Int := do
  let args ← ask (.getargs buf 1024)
  if args.ret ≠ 0 then
    ece391Fdputs fuel 1 (str "could not read arguments\n")
    return 3
  let fd ← ask (.openFile args.buf)
  if fd.ret = -1 then
    ece391Fdputs fuel 1 (str "file not found\n")
    return 2
  loop (catTurn fuel fd.ret) fuel args.buf

/-! ## grep -/

def bufSize : Nat := 1024
def nl : UInt8 := 0x0A

/-- The array `data` of `do_one_file`, and how much of it is filled. -/
structure GrepBuf where
  data : Nat → UInt8
  last : Nat

/-- `while (line_end < last && '\n' != data[line_end]) line_end++`, with `last - line_end` turns
    left. -/
def lineEndFrom (data : Nat → UInt8) : Nat → Nat → Nat
  | 0, lineEnd => lineEnd
  | n + 1, lineEnd => if data lineEnd ≠ nl then lineEndFrom data n (lineEnd + 1) else lineEnd

/-- The search of the line at `line_start`, from `check` on with `line_end - check` turns left. -/
def searchLine (fuel sLen : Nat) (s fname data : Nat → UInt8) (lineStart : Nat) :
    Nat → Nat → Prog Unit
  | 0, _ => return ()
  | n + 1, check =>
    if s 0 = data check ∧ ece391Strncmp (fun i => data (check + i)) s sLen = 0 then do
      ece391Fdputs fuel 1 fname
      ece391Fdputs fuel 1 (str ":")
      ece391Fdputs fuel 1 fun i => data (lineStart + i)
      ece391Fdputs fuel 1 (str "\n")
    else searchLine fuel sLen s fname data lineStart n (check + 1)

/-- One turn of the inner loop, for the line at `line_start`. -/
def lineTurn (fuel sLen : Nat) (s fname : Nat → UInt8) (cnt : Int) (last : Nat) :
    (Nat → UInt8) × Nat → Prog (((Nat → UInt8) × Nat) ⊕ GrepBuf)
  | (data, lineStart) => do
    let lineEnd := lineEndFrom data (last - lineStart) lineStart
    let ended := data lineEnd = nl
    let data := Function.update data lineEnd 0
    if ¬ ended ∧ cnt ≠ 0 ∧ lineStart ≠ 0 then
      let data ← Program.ofOption (ece391Strcpy fuel data 0 lineStart)
      return .inr ⟨data, last - lineStart⟩
    searchLine fuel sLen s fname data lineStart (lineEnd - lineStart) lineStart
    if last ≤ lineEnd + 1 then return .inr ⟨data, 0⟩
    return .inl (data, lineEnd + 1)

/-- One turn of the outer loop: a read, and the lines that are whole by then. A read that has
    not failed returns no negative number. -/
def grepTurn (fuel sLen : Nat) (s fname : Nat → UInt8) (fd : Int) (b : GrepBuf) :
    Prog (GrepBuf ⊕ Int) := do
  let cnt ← ask (.read fd (fun i => b.data (b.last + i)) ((bufSize : Int) - b.last))
  if cnt.ret = -1 then
    ece391Fdputs fuel 1 (str "file read failed\n")
    return .inr (-1)
  let data := fun i => if i < b.last then b.data i else cnt.buf (i - b.last)
  let b ← loop (lineTurn fuel sLen s fname cnt.ret (b.last + cnt.ret.toNat)) fuel (data, 0)
  if cnt.ret = 0 then return .inr 0
  return .inl b

/-- The call the kernel is given. `stale` is what lies on its stack. -/
inductive Call.Enters : Call → FileCall → Prop where
  | read (fd : Int) (stale buf : Nat → UInt8) (nbytes : Int) :
    Enters (.read fd buf nbytes) (.read fd stale (some buf) nbytes)
  | write (fd : Int) (buf : Nat → UInt8) (nbytes : Int) :
    Enters (.write fd buf nbytes) (.write fd (some buf) nbytes)
  | openFile {filename : Nat → UInt8} {name : CString}
    (h : ∀ i, i ≤ strlen name → filename i = name.get i) :
    Enters (.openFile filename) (.openFile (some name))
  | close (fd : Int) : Enters (.close fd) (.close fd)

/-- The running process makes the call, and it returns. -/
inductive Returns (img : Image) (t : Session) : Call → Answer → Session → Prop where
  | file {q : Call} {c : FileCall} {o : Outcome} {ret : Int} {buf : Nat → UInt8}
    (henters : q.Enters c) (hcall : fileCall img t.files c = some o) (hret : o.ret = some ret)
    (hbuf : ∀ b, o.buf = some b → buf = b) : Returns img t q ⟨ret, buf⟩ (t.returned c o)
  | getargs {buf buf' : Nat → UInt8} {nbytes ret : Int}
    (h : Mp3Kernel.getargs t.files.kernel (some buf) nbytes = (ret, some buf')) :
    Returns img t (.getargs buf nbytes) ⟨ret, buf'⟩ t

end Mp3Kernel.User
