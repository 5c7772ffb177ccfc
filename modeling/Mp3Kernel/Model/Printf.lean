/-
  Formatted output (lib.c).

  A string is the memory from its start on. What `printf` finds on the stack and behind its
  pointers is in `Args`; `buf` and `esp` are indices into the format and the stack words.

  `none` is a call that does not come back: a `putc` faults, `itoa` does not come back, or a
  loop takes more than `fuel` turns.
-/
import Mp3Kernel.Model.Itoa
import Mp3Kernel.Model.Screen

namespace Mp3Kernel

/-! ## puts -/

/-- The loop of `puts`, at `index`. -/
def putsFrom (s : Nat → UInt8) : Nat → Nat → Kernel → Option (Nat × Kernel)
  | 0, _, _ => none
  | fuel + 1, index, k =>
    if s index = 0 then some (index, k)
    else do
      let k ← putc k (s index)
      putsFrom s fuel (index + 1) k

def puts (fuel : Nat) (k : Kernel) (s : Nat → UInt8) : Option (Nat × Kernel) := putsFrom s fuel 0 k

/-! ## Conversions -/

/-- The character constants of the source. -/
def ch (c : Char) : UInt8 := UInt8.ofNat c.toNat

structure Args where
  /-- The stack words from `format` on upwards, itself left out. -/
  word : Nat → UInt32
  /-- The memory from an address on. -/
  deref : UInt32 → Nat → UInt8
  /-- What `conv_buf` holds when the word at an index is converted. -/
  stale : Nat → Nat → UInt8
  /-- What lies around the digit table. -/
  around : Int → UInt8

/-- `%x` and `%u`. -/
def putUnsigned (a : Args) (fuel : Nat) (radix : Int) (esp : Nat) (k : Kernel) : Option Kernel := do
  let res ← itoa a.around fuel (a.word esp).toNat (a.stale esp) radix
  let (_, k) ← puts fuel k res.buf
  some k

/-- `%d`. -/
def putSigned (a : Args) (fuel : Nat) (esp : Nat) (k : Kernel) : Option Kernel :=
  let value := (a.word esp).toNat
  if i32 value < 0 then do
    -- the digits go behind the sign
    let res ← itoa a.around fuel (u32 - value) (fun j => a.stale esp (j + 1)) 10
    let convBuf := fun j => if j = 0 then ch '-' else res.buf (j - 1)
    let (_, k) ← puts fuel k convBuf
    some k
  else putUnsigned a fuel 10 esp k

/-- `n` zeros from `conv_buf[i]` on. -/
def padZeros : Nat → Nat → (Nat → UInt8) → Nat → UInt8
  | 0, _, convBuf => convBuf
  | n + 1, i, convBuf => padZeros n (i + 1) (Function.update convBuf i (ch '0'))

/-- `%#x`: the digits go to `conv_buf[8]`, and the zeros into the places before it from the
    index on that is their number. -/
def putPadded (a : Args) (fuel : Nat) (esp : Nat) (k : Kernel) : Option Kernel := do
  let res ← itoa a.around fuel (a.word esp).toNat (fun j => a.stale esp (j + 8)) 16
  let startingIndex ← strlenFrom res.buf fuel 0
  let convBuf := fun j => if j < 8 then a.stale esp j else res.buf (j - 8)
  let convBuf := padZeros (8 - startingIndex) startingIndex convBuf
  let (_, k) ← puts fuel k fun j => convBuf (startingIndex + j)
  some k

/-- From `format_char_switch` on, up to the last character of the conversion: `buf` and `esp`
    as they leave the switch. -/
def formatChar (format : Nat → UInt8) (a : Args) (fuel : Nat) :
    Nat → Bool → Nat → Nat → Kernel → Option (Nat × Nat × Kernel)
  | 0, _, _, _, _ => none
  | turns + 1, alternate, buf, esp, k =>
    let c := format buf
    if c = ch '%' then (putc k (ch '%')).map fun k => (buf, esp, k)
    else if c = ch '#' then formatChar format a fuel turns true (buf + 1) esp k
    else if c = ch 'x' then
      if alternate then (putPadded a fuel esp k).map fun k => (buf, esp + 1, k)
      else (putUnsigned a fuel 16 esp k).map fun k => (buf, esp + 1, k)
    else if c = ch 'u' then (putUnsigned a fuel 10 esp k).map fun k => (buf, esp + 1, k)
    else if c = ch 'd' then (putSigned a fuel esp k).map fun k => (buf, esp + 1, k)
    else if c = ch 'c' then
      (putc k (UInt8.ofNat (a.word esp).toNat)).map fun k => (buf, esp + 1, k)
    else if c = ch 's' then (puts fuel k (a.deref (a.word esp))).map fun r => (buf, esp + 1, r.2)
    -- any other character ends the conversion, also the terminator
    else some (buf, esp, k)

/-! ## printf -/

def printfLoop (format : Nat → UInt8) (a : Args) (fuel : Nat) :
    Nat → Nat → Nat → Kernel → Option (Nat × Kernel)
  | 0, _, _, _ => none
  | turns + 1, buf, esp, k =>
    if format buf = 0 then some (buf, k)
    else if format buf = ch '%' then do
      let (buf, esp, k) ← formatChar format a fuel fuel false (buf + 1) esp k
      printfLoop format a fuel turns (buf + 1) esp k
    else do
      let k ← putc k (format buf)
      printfLoop format a fuel turns (buf + 1) esp k

def printf (fuel : Nat) (k : Kernel) (format : Nat → UInt8) (a : Args) : Option (Nat × Kernel) :=
  printfLoop format a fuel fuel 0 0 k

end Mp3Kernel
