/-
  The blinking characters of the fish program (fish/blink.S, fish/fish.c).

  A character blinks by an `mp1_blink_struct`, which lies in `blink_array` and is linked into
  the list from `mp1_list_head`; a pointer to it is its index there, `none` is NULL. A slot of
  the array is free while its location is 0: `mp1_malloc` returns the first such slot, and
  `mp1_free` clears a slot. Nothing keeps a blink from being at location 0.

  `video` is the memory from `vmem_base_addr` on. `none`: a loop over the list takes more than
  `fuel` turns.
-/
import Mp3Kernel.Base.LinkedList

namespace Mp3Kernel

open Base.LinkedList

/-- The number of structures in `blink_array`, and of cells on the screen. -/
def blinkCnt : Nat := 80 * 25

/-- `struct mp1_blink_struct` without its link. The lengths and the countdown are u16. -/
structure Blink where
  location : Nat
  onChar : UInt8
  offChar : UInt8
  onLength : Nat
  offLength : Nat
  countdown : Nat
  /-- Bit 0, the only one that is ever set. -/
  status : Bool

structure BlinkStruct extends Blink where
  next : Option Nat

structure Mp1 where
  listHead : Option Nat
  blinkArray : Nat → BlinkStruct
  video : Nat → UInt8

def Mp1.next (s : Mp1) (a : Nat) : Option Nat := (s.blinkArray a).next

/-- Everything but the link of a structure. -/
def Mp1.setBlink (s : Mp1) (a : Nat) (b : Blink) : Mp1 :=
  { s with blinkArray := Function.update s.blinkArray a { b with next := s.next a } }

/-- The pointer that is the head, or in a structure. -/
def Mp1.setCell (s : Mp1) (cell q : Option Nat) : Mp1 :=
  match cell with
  | none => { s with listHead := q }
  | some b => { s with
      blinkArray := Function.update s.blinkArray b { s.blinkArray b with next := q } }

def mp1Poke (s : Mp1) (c : UInt8) (offset : Nat) : Mp1 :=
  { s with video := Function.update s.video offset c }

/-! ## mp1_rtc_tasklet -/

/-- `decw`. -/
@[irreducible] def decw (n : Nat) : Nat := (n + 65535) % 65536

/-- `decw COUNTDOWN`. -/
def Blink.decrement (b : Blink) : Blink := { b with countdown := decw b.countdown }

/-- `cmpw $0, COUNTDOWN; jg`: the countdown is positive as an i16. -/
def Blink.Waits (b : Blink) : Prop := 0 < b.countdown ∧ b.countdown < 32768

instance (b : Blink) : Decidable b.Waits := inferInstanceAs (Decidable (_ ∧ _))

/-- `mov LENGTH, COUNTDOWN; xorw $1, STATUS`. -/
def Blink.flip (b : Blink) : Blink :=
  { b with countdown := if b.status then b.offLength else b.onLength, status := !b.status }

/-- A turn of the loop. -/
def taskletTurn (s : Mp1) (a : Nat) : Mp1 :=
  let b := (s.blinkArray a).toBlink.decrement
  let s := s.setBlink a b
  if b.Waits then s
  else (mp1Poke s (if b.status then b.offChar else b.onChar) (b.location * 2)).setBlink a b.flip

def mp1RtcTasklet (fuel : Nat) (s : Mp1) : Option Mp1 :=
  walk Mp1.next taskletTurn fuel s s.listHead

/-! ## mp1_malloc, mp1_free, mp1_find_helper -/

def mp1Malloc (s : Mp1) : Option Nat :=
  (List.range blinkCnt).find? fun i => (s.blinkArray i).location == 0

def mp1Free (s : Mp1) (a : Nat) : Mp1 :=
  { s with blinkArray := Function.update s.blinkArray a ⟨⟨0, 0, 0, 0, 0, 0, false⟩, none⟩ }

def mp1FindHelper (fuel : Nat) (s : Mp1) (location : Nat) : Option (Option Nat) :=
  find s.next (fun a => (s.blinkArray a).location == location) fuel s.listHead

/-! ## mp1_ioctl -/

/-- A blink as it is added: it is on. -/
def Blink.start (b : Blink) : Blink := { b with status := true, countdown := b.onLength }

/-- The structure `a` is filled in and put at the front of the list. -/
def Mp1.insert (s : Mp1) (a : Nat) (b : Blink) : Mp1 :=
  ((s.setBlink a b).setCell (some a) s.listHead).setCell none (some a)

def mp1IoctlAdd (s : Mp1) (b : Blink) : Int × Mp1 :=
  if blinkCnt ≤ b.location then (-1, s)
  else
    match mp1Malloc s with
    | none => (-1, s)
    | some a => (0, mp1Poke (s.insert a b.start) b.onChar (b.location * 2))

def mp1IoctlRemove (fuel : Nat) (s : Mp1) (arg : Nat) : Option (Int × Mp1) := do
  let found ← mp1FindHelper fuel s (arg % 65536)
  match found with
  | none => some (-1, s)
  | some a =>
    let cell ← findCell s.next s.listHead a fuel none
    some (0, mp1Free (s.setCell cell (s.next a)) a)

/-- The structure is copied to the caller, its NEXT pointer too; that is left out of the reply. -/
def mp1IoctlFind (fuel : Nat) (s : Mp1) (location : Nat) : Option (Int × Option Blink) :=
  (mp1FindHelper fuel s location).map fun found =>
    match found with
    | none => (-1, none)
    | some a => (0, some (s.blinkArray a).toBlink)

/-- What `mp1_ioctl_sync` copies. -/
def Blink.copyPhase (src dst : Blink) : Blink :=
  { dst with
    onLength := src.onLength
    offLength := src.offLength
    countdown := src.countdown
    status := src.status }

def mp1IoctlSync (fuel : Nat) (s : Mp1) (arg : Nat) : Option (Int × Mp1) := do
  let src ← mp1FindHelper fuel s (arg / 65536 % 65536)
  match src with
  | none => some (-1, s)
  | some a =>
    let dst ← mp1FindHelper fuel s (arg % 65536)
    match dst with
    | none => some (-1, s)
    | some d =>
      let b := (s.blinkArray a).toBlink.copyPhase (s.blinkArray d).toBlink
      -- `cmovl` after `testb` never moves: the sign of `status & 1` is clear
      some (0, mp1Poke (s.setBlink d b) b.offChar (b.location * 2))

/-! ## Runs -/

inductive BlinkCmd where
  | add (b : Blink)
  | remove (arg : Nat)
  | find (location : Nat)
  | sync (arg : Nat)
  | tasklet

/-- What a call returns, and for `find` what it stores. -/
inductive BlinkReply where
  | done
  | ret (r : Int)
  | found (r : Int) (b : Option Blink)

def mp1Call (fuel : Nat) (s : Mp1) : BlinkCmd → Option (BlinkReply × Mp1)
  | .add b => let (r, s) := mp1IoctlAdd s b; some (.ret r, s)
  | .remove arg => (mp1IoctlRemove fuel s arg).map fun (r, s) => (.ret r, s)
  | .find location => (mp1IoctlFind fuel s location).map fun (r, b) => (.found r b, s)
  | .sync arg => (mp1IoctlSync fuel s arg).map fun (r, s) => (.ret r, s)
  | .tasklet => (mp1RtcTasklet fuel s).map fun s => (.done, s)

/-- The replies to the calls `cmds`, one after the other. -/
def mp1Run (fuel : Nat) (s : Mp1) : List BlinkCmd → Option (List BlinkReply × Mp1)
  | [] => some ([], s)
  | cmd :: cmds => do
    let (reply, s) ← mp1Call fuel s cmd
    let (replies, s) ← mp1Run fuel s cmds
    some (reply :: replies, s)

/-- The state the program starts in. -/
def mp1Reset (video : Nat → UInt8) : Mp1 where
  listHead := none
  blinkArray := fun _ => ⟨⟨0, 0, 0, 0, 0, 0, false⟩, none⟩
  video := video

end Mp3Kernel
