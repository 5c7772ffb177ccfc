/-
  The frames of the fish program (`add_frames` of fish/fish.c): two files of text are read side by
  side, a character at a time, and a blink is added for every place where one of them is not blank.

  The fields of a blink that nobody sets before it is added are 0 here.
-/
import Mp3Kernel.Model.Blink
import Mp3Kernel.Model.Programs

namespace Mp3Kernel.User

open Base.Programs

/-- `c0` and `eof0`, or `c1` and `eof1`. -/
structure FrameFile where
  c : UInt8
  eof : Bool

structure Frames where
  f0 : FrameFile
  f1 : FrameFile
  mp1 : Mp1

/-- The next character, if there is one before the end of the line. -/
def frameRead (fd : Int) (f : FrameFile) : Prog FrameFile :=
  if f.c = nl then return f
  else do
    let numBytes ← ask (.read fd (fun _ => f.c) 1)
    return if numBytes.ret = 0 then ⟨nl, true⟩ else ⟨numBytes.buf 0, f.eof⟩

/-- The blink of two characters; a line that is over goes on with spaces. -/
def frameBlink (row col : Nat) (c0 c1 : UInt8) : Blink where
  location := (row * 80 + col + 40) % 65536
  onChar := if c0 = nl then space else c0
  offChar := if c1 = nl then space else c1
  onLength := 15
  offLength := 15
  countdown := 0
  status := false

/-- One turn of the inner loop. -/
def colTurn (fd0 fd1 : Int) (row : Nat) : Frames × Nat → Prog ((Frames × Nat) ⊕ Frames)
  | (s, col) => do
    let f0 ← frameRead fd0 s.f0
    let f1 ← frameRead fd1 s.f1
    if f0.c = nl ∧ f1.c = nl then return .inr ⟨f0, f1, s.mp1⟩
    else if (f0.c ≠ space ∧ f0.c ≠ nl) ∨ (f1.c ≠ space ∧ f1.c ≠ nl) then
      return .inl (⟨f0, f1, (mp1IoctlAdd s.mp1 (frameBlink row col f0.c f1.c)).2⟩, col + 1)
    else return .inl (⟨f0, f1, s.mp1⟩, col + 1)

/-- Before the next row. A file that is over is closed after every row. -/
def frameEnd (fd : Int) (f : FrameFile) : Prog FrameFile :=
  if f.eof then do
    let _ ← ask (.close fd)
    return ⟨nl, true⟩
  else return ⟨UInt8.ofNat '0'.toNat, false⟩

/-- One turn of the outer loop. -/
def rowTurn (fuel : Nat) (fd0 fd1 : Int) : Frames × Nat → Prog ((Frames × Nat) ⊕ Mp1)
  | (s, row) =>
    if s.f0.eof ∧ s.f1.eof then return .inr s.mp1
    else do
      let s ← loop (colTurn fd0 fd1 row) fuel (s, 0)
      let f0 ← frameEnd fd0 s.f0
      let f1 ← frameEnd fd1 s.f1
      return .inl (⟨f0, f1, s.mp1⟩, row + 1)

/-- `none`: it has called `ece391_halt`. -/
def addFrames (fuel : Nat) (f0 f1 : Nat → UInt8) (s : Mp1) : Prog (Option Mp1) := do
  let fd0 ← ask (.openFile f0)
  if fd0.ret < 0 then return none
  let fd1 ← ask (.openFile f1)
  if fd1.ret < 0 then return none
  let start : FrameFile := ⟨UInt8.ofNat '0'.toNat, false⟩
  let s ← loop (rowTurn fuel fd0.ret fd1.ret) fuel (⟨start, start, s⟩, 0)
  return some s

end Mp3Kernel.User
