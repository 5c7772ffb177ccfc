/-
  Numbers as text (lib.c).

  A buffer is the memory from its start on. `none` is a call that does not come back: it
  divides by zero, or it takes more than `fuel` turns of one of its loops.
-/
import Mp3Kernel.Model.Fs

namespace Mp3Kernel

/-! ## The digit table -/

/-- The characters of `lookup`, with the terminator. -/
def lookupChars : List UInt8 :=
  ['0', '1', '2', '3', '4', '5', '6', '7', '8', '9', 'A', 'B', 'C', 'D', 'E', 'F', 'G', 'H',
    'I', 'J', 'K', 'L', 'M', 'N', 'O', 'P', 'Q', 'R', 'S', 'T', 'U', 'V', 'W', 'X', 'Y', 'Z',
    '\u0000'].map fun c => UInt8.ofNat c.toNat

/-- `lookup[i]`; `around` is what lies in memory before and behind the table. -/
def lookup (around : Int → UInt8) (i : Int) : UInt8 :=
  if 0 ≤ i ∧ i < lookupChars.length then lookupChars.getD i.toNat 0 else around i

/-! ## Strings in a buffer -/

/-- `strlen`, with `len` characters counted so far. -/
def strlenFrom (s : Nat → UInt8) : Nat → Nat → Option Nat
  | 0, _ => none
  | fuel + 1, len => if s len = 0 then some len else strlenFrom s fuel (len + 1)

/-- The loop of `strrev`. -/
def strrevLoop : Nat → (Nat → UInt8) → Int → Int → Option (Nat → UInt8)
  | 0, _, _, _ => none
  | fuel + 1, s, beg, last =>
    if beg < last then
      let tmp := s last.toNat
      let s := Function.update s last.toNat (s beg.toNat)
      let s := Function.update s beg.toNat tmp
      strrevLoop fuel s (beg + 1) (last - 1)
    else some s

def strrev (fuel : Nat) (s : Nat → UInt8) : Option (Nat → UInt8) :=
  match strlenFrom s fuel 0 with
  | none => none
  | some len => strrevLoop fuel s 0 (i32 len - 1)

/-! ## itoa -/

/-- The locals of `itoa`'s loop; `newbuf` counts from `buf` on. `reads` is a trace of the
    indices `lookup` is read at. -/
structure ItoaState where
  newval : Nat
  newbuf : Nat
  buf : Nat → UInt8
  reads : List Int

structure ItoaResult where
  buf : Nat → UInt8
  reads : List Int

def itoaStep (around : Int → UInt8) (radix : Int) (st : ItoaState) : ItoaState :=
  -- the remainder is taken of an i32, the quotient of a u32
  let i := (i32 st.newval).tmod radix
  { newval := st.newval / (radix % u32).toNat
    newbuf := st.newbuf + 1
    buf := Function.update st.buf st.newbuf (lookup around i)
    reads := i :: st.reads }

def itoaLoop (around : Int → UInt8) (radix : Int) : Nat → ItoaState → Option ItoaState
  | 0, _ => none
  | fuel + 1, st =>
    if st.newval = 0 then some st
    else if radix = 0 then none
    else itoaLoop around radix fuel (itoaStep around radix st)

def itoa (around : Int → UInt8) (fuel value : Nat) (buf : Nat → UInt8) (radix : Int) :
    Option ItoaResult :=
  if value = 0 then
    some ⟨Function.update (Function.update buf 0 (UInt8.ofNat '0'.toNat)) 1 0, []⟩
  else
    match itoaLoop around radix fuel ⟨value, 0, buf, []⟩ with
    | none => none
    | some st =>
      match strrev fuel (Function.update st.buf st.newbuf 0) with
      | none => none
      | some buf => some ⟨buf, st.reads⟩

end Mp3Kernel
