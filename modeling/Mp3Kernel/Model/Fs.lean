/-
  The read-only file system (fs.c, fs.h) and the string helpers of lib.c it rests on.

  An `Image` is the module GRUB loads: the boot block, the inodes and the data blocks,
  as fs.h lays them out. Machine words are `Nat`; the two u32 sums that can wrap carry
  their `% u32`. `INode.data` and `Image.inodes`, `Image.direntries`, `Image.datablks`
  are total: past the end of a C array they stand for whatever lies next in memory, so
  an overrun reads an arbitrary value instead of being ruled out.

  A destination buffer is `Option (Nat → UInt8)` (`none` is NULL). `readData` also
  returns two traces no C code reads: the data blocks it dereferenced and the slots of
  the inode's block index it looked at.
-/
import Mathlib.Logic.Function.Basic
import Mathlib.Data.List.TakeWhile

namespace Mp3Kernel

/-! ## Machine words and strings -/

/-- `2^32`, the modulus of u32 arithmetic. -/
def u32 : Nat := 4294967296

/-- The i32 with the bits of the u32 `n`. -/
def i32 (n : Nat) : Int := if n < 2147483648 then (n : Int) else (n : Int) - 4294967296

/-- The value of a byte read as an i8 (`char`, signed on this target). -/
def i8 (b : UInt8) : Int := if b.toNat < 128 then (b.toNat : Int) else (b.toNat : Int) - 256

/-- A NUL-terminated string, by the bytes before its terminator. -/
structure CString where
  bytes : List UInt8
  noNul : ∀ b ∈ bytes, b ≠ 0

/-- `s[i]`; from the terminator on it reads 0. -/
def CString.get (s : CString) (i : Nat) : UInt8 := s.bytes.getD i 0

def strlen (s : CString) : Nat := s.bytes.length

/-- The string that starts at the head of a memory area. -/
def CString.ofBytes (area : List UInt8) : CString where
  bytes := area.takeWhile (· ≠ 0)
  noNul := fun b hb => by simpa using List.mem_takeWhile_imp hb

/-- `strncmp` from index `i` on, with `n` bytes still to compare. -/
def strncmpFrom (s1 s2 : Nat → UInt8) (i : Nat) : Nat → Int
  | 0 => 0
  | n + 1 =>
    if s1 i ≠ s2 i ∨ s1 i = 0 then i8 (s1 i) - i8 (s2 i)
    else strncmpFrom s1 s2 (i + 1) n

def strncmp (s1 s2 : Nat → UInt8) (n : Nat) : Int := strncmpFrom s1 s2 0 n

/-! ## The image -/

def fsMaxDirEntries : Nat := 63
def fsFnameLen : Nat := 32
def fsInodeDataLen : Nat := 1023
def fsBlkSize : Nat := 4096

structure FsStats where
  direntryCnt : Nat
  inodeCnt : Nat
  datablkCnt : Nat

/-- `filetype` is the raw word: FT_RTC, FT_DIR, FT_REG or an unknown value. -/
structure DirEntry where
  filename : Nat → UInt8
  filetype : Nat
  inodeIdx : Nat

structure INode where
  size : Nat
  data : Nat → Nat

structure Image where
  fsStats : FsStats
  direntries : Nat → DirEntry
  inodes : Nat → INode
  datablks : Nat → Nat → UInt8

/-! ## read_dentry_by_name, read_dentry_by_index -/

/-- The scan of the 63 directory slots, from slot `i` with `n` slots left. -/
def findDentry (img : Image) (fname : CString) (i : Nat) : Nat → Option DirEntry
  | 0 => none
  | n + 1 =>
    if strlen fname ≤ fsFnameLen ∧
        strncmp fname.get (img.direntries i).filename fsFnameLen = 0 then
      some (img.direntries i)
    else findDentry img fname (i + 1) n

/-- `some d`: returned 0 with `d` copied out; `none`: returned -1, destination untouched. -/
def readDentryByName (img : Image) (ufname : CString) : Option DirEntry :=
  findDentry img ufname 0 fsMaxDirEntries

/-- The whole call: the value returned and what is at `dentry` then. -/
def readDentryByNameTo (img : Image) (ufname : CString) (dentry : Option DirEntry) :
    Int × Option DirEntry :=
  match dentry, readDentryByName img ufname with
  | some _, some d => (0, some d)
  | _, _ => (-1, dentry)

def readDentryByIndex (img : Image) (idx : Nat) : Option DirEntry :=
  if img.fsStats.inodeCnt ≤ idx then none else some (img.direntries idx)

/-! ## read_data -/

/-- The locals of `read_data`'s loop. `blks` and `slots` are traces. -/
structure ReadState where
  reads : Nat
  datablkIdx : Nat
  datablkOffset : Nat
  buf : Nat → UInt8
  blks : List Nat
  slots : List Nat

structure ReadResult where
  ret : Int
  buf : Option (Nat → UInt8)
  /-- Bytes stored in the buffer before the return. -/
  reads : Nat
  blks : List Nat
  slots : List Nat

def ReadState.finish (st : ReadState) (ret : Int) : ReadResult :=
  ⟨ret, some st.buf, st.reads, st.blks, st.slots⟩

/-- `buf[reads++] = *read_addr`, with `read_addr` in block `datablk`. -/
def ReadState.store (st : ReadState) (img : Image) (datablk : Nat) : ReadState :=
  { st with
    buf := Function.update st.buf st.reads (img.datablks datablk st.datablkOffset)
    reads := st.reads + 1
    blks := datablk :: st.blks }

/-- The index of slot `datablkIdx` is read. -/
def ReadState.look (st : ReadState) : ReadState :=
  { st with slots := st.datablkIdx :: st.slots }

def ReadState.nextOffset (st : ReadState) : ReadState :=
  { st with datablkOffset := st.datablkOffset + 1 }

def ReadState.nextBlk (st : ReadState) : ReadState :=
  { st with datablkIdx := st.datablkIdx + 1, datablkOffset := 0 }

/-- One turn of the loop body; `.error` is a `return` from inside it. -/
def readStep (img : Image) (inode offset : Nat) (st : ReadState) :
    Except ReadResult ReadState :=
  let ino := img.inodes inode
  let datablk := ino.data st.datablkIdx
  let st := st.look
  if ino.size ≤ (st.reads + offset) % u32 then .error (st.finish st.reads)
  else
    let st := st.store img datablk
    if fsBlkSize ≤ st.datablkOffset + 1 then
      -- the index of the block after the one just finished is checked here
      let st := st.nextBlk.look
      if img.fsStats.datablkCnt ≤ ino.data st.datablkIdx then .error (st.finish (-1))
      else .ok st
    else .ok st.nextOffset

/-- `while (reads < length)`, by the number of turns `length - reads` left. -/
def readLoop (img : Image) (inode offset : Nat) : Nat → ReadState → ReadResult
  | 0, st => st.finish st.reads
  | n + 1, st =>
    match readStep img inode offset st with
    | .error res => res
    | .ok st' => readLoop img inode offset n st'

def readData (img : Image) (inode offset : Nat) (buf : Option (Nat → UInt8))
    (ulength : Nat) : ReadResult :=
  let ino := img.inodes inode
  let datablkIdx := offset / fsBlkSize
  let datablkOffset := offset % fsBlkSize
  match buf with
  | none => ⟨-1, none, 0, [], []⟩
  | some b =>
    if img.fsStats.inodeCnt ≤ inode then ⟨-1, some b, 0, [], []⟩
    else if ino.size ≤ offset then ⟨0, some b, 0, [], []⟩
    else if (img.fsStats.direntryCnt * fsBlkSize) % u32 ≤ (offset + ulength) % u32 then
      ⟨-1, some b, 0, [], []⟩
    else if img.fsStats.datablkCnt ≤ ino.data datablkIdx then
      ⟨-1, some b, 0, [], [datablkIdx]⟩
    else
      readLoop img inode offset (i32 ulength).toNat
        (ReadState.look ⟨0, datablkIdx, datablkOffset, b, [], []⟩)

/-- `file_read_name`. A `size` of 0 asks for the whole file. -/
def fileReadName (img : Image) (fname : CString) (buf : Option (Nat → UInt8))
    (offset size : Nat) : ReadResult :=
  match readDentryByName img fname with
  | none => ⟨-1, buf, 0, [], []⟩
  | some dentry =>
    let size := if size = 0 then (img.inodes dentry.inodeIdx).size else size
    readData img dentry.inodeIdx offset buf size

end Mp3Kernel
