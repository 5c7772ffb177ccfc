/-
  The string routines of lib.c that are written in assembly: `memset`, `memset_word`,
  `memset_dword`, `memcpy` and `memmove`.

  `memset` and `memcpy` go byte by byte up to an aligned destination, by double words from
  there and byte by byte at the end; `memmove` goes byte by byte, downwards if the source lies
  below the destination, which leaves the direction flag set. Each counts down ECX, so a loop
  is a recursion on it.

  An area does not go past the end of the address space, so addresses do not wrap.
-/
import Mathlib.Algebra.Group.Nat.Defs
import Mp3Kernel.Base.Areas
import Mp3Kernel.Model.Fs

namespace Mp3Kernel.Lib

open Base.Areas

/-- Memory and the direction flag. -/
structure Cpu where
  mem : Nat → UInt8
  df : Bool

def Cpu.cld (c : Cpu) : Cpu := { c with df := false }
def Cpu.std (c : Cpu) : Cpu := { c with df := true }

/-- A string instruction's next address. -/
def Cpu.next (c : Cpu) (a size : Nat) : Nat := if c.df then a - size else a + size

/-- A little-endian value of `size` bytes stored at `a`. -/
def Cpu.store (c : Cpu) (a size value : Nat) : Cpu :=
  { c with mem := fun b =>
      if a ≤ b ∧ b < a + size then UInt8.ofNat (value / 256 ^ (b - a)) else c.mem b }

/-! ## rep stos, rep movs -/

/-- `rep stosw` and `rep stosl`. -/
def repStos (size value : Nat) : Nat → Nat → Cpu → Nat × Cpu
  | 0, edi, c => (edi, c)
  | ecx + 1, edi, c => repStos size value ecx (c.next edi size) (c.store edi size value)

/-- `rep movsb` and `rep movsl`: a value is read whole before it is stored. -/
def repMovs (size : Nat) : Nat → Nat → Nat → Cpu → Nat × Nat × Cpu
  | 0, edi, esi, c => (edi, esi, c)
  | ecx + 1, edi, esi, c =>
    repMovs size ecx (c.next edi size) (c.next esi size)
      { c with mem := copied c.mem edi esi size }

/-! ## memset -/

/-- `.memset_top`, with what is left of ECX. -/
def memsetTop (al : UInt8) : Nat → Nat → Cpu → Nat × Nat × Cpu
  | 0, edi, c => (0, edi, c)
  | ecx + 1, edi, c =>
    if edi % 4 = 0 then (ecx + 1, edi, c)
    else memsetTop al ecx (edi + 1) { c with mem := Function.update c.mem edi al }

/-- `.memset_bottom`. -/
def memsetBottom (al : UInt8) : Nat → Nat → Cpu → Cpu
  | 0, _, c => c
  | edx + 1, edi, c =>
    memsetBottom al edx (edi + 1) { c with mem := Function.update c.mem edi al }

def memset (cpu : Cpu) (s : Nat) (c : Int) (n : Nat) : Cpu :=
  let c := (c % 256).toNat
  let eax := c <<< 24 ||| c <<< 16 ||| c <<< 8 ||| c
  let al := UInt8.ofNat eax
  let (ecx, edi, cpu) := memsetTop al n s cpu
  if ecx = 0 then cpu
  else
    let (edi, cpu) := repStos 4 eax (ecx / 4) edi cpu.cld
    memsetBottom al (ecx % 4) edi cpu

/-- `n` words; only the lower half of `c` is stored. -/
def memsetWord (cpu : Cpu) (s : Nat) (c : Int) (n : Nat) : Cpu :=
  (repStos 2 (c % u32).toNat n s cpu.cld).2

def memsetDword (cpu : Cpu) (s : Nat) (c : Int) (n : Nat) : Cpu :=
  (repStos 4 (c % u32).toNat n s cpu.cld).2

/-! ## memcpy, memmove -/

/-- `.memcpy_top`, with what is left of ECX. -/
def memcpyTop : Nat → Nat → Nat → Cpu → Nat × Nat × Nat × Cpu
  | 0, edi, esi, c => (0, edi, esi, c)
  | ecx + 1, edi, esi, c =>
    if edi % 4 = 0 then (ecx + 1, edi, esi, c)
    else
      memcpyTop ecx (edi + 1) (esi + 1)
        { c with mem := Function.update c.mem edi (c.mem esi) }

/-- `.memcpy_bottom`. -/
def memcpyBottom : Nat → Nat → Nat → Cpu → Cpu
  | 0, _, _, c => c
  | edx + 1, edi, esi, c =>
    memcpyBottom edx (edi + 1) (esi + 1)
      { c with mem := Function.update c.mem edi (c.mem esi) }

def memcpy (cpu : Cpu) (dest src n : Nat) : Cpu :=
  let (ecx, edi, esi, cpu) := memcpyTop n dest src cpu
  if ecx = 0 then cpu
  else
    let (edi, esi, cpu) := repMovs 4 (ecx / 4) edi esi cpu.cld
    memcpyBottom (ecx % 4) edi esi cpu

def memmove (cpu : Cpu) (dest src n : Nat) : Cpu :=
  if dest ≤ src then (repMovs 1 n dest src cpu.cld).2.2
  else (repMovs 1 n (dest + n - 1) (src + n - 1) cpu.std).2.2

end Mp3Kernel.Lib
