/-
  The driver of the interrupt controllers (i8259.c). The slave is at input 2 of the master.

  The functions assert that `irqNum` is below 16.
-/
import Mp3Kernel.Base.Pic

namespace Mp3Kernel

open Base.Pic

/-- The masks the driver keeps, and the controllers. -/
structure I8259 where
  masterMask : BitVec 8
  slaveMask : BitVec 8
  pics : Pair

def master8259Port : Nat := 0x20
def master8259DataPort : Nat := 0x21
def slave8259Port : Nat := 0xA0
def slave8259DataPort : Nat := 0xA1

def icw1 : BitVec 8 := 0x11
def icw2Master : BitVec 8 := 0x20
def icw2Slave : BitVec 8 := 0x28
def icw3Master : BitVec 8 := 0x04
def icw3Slave : BitVec 8 := 0x02
def icw4 : BitVec 8 := 0x01

def slaveIrq : Fin 16 := 2

theorem slaveIrq_lt : slaveIrq.val < 8 := by decide

/-- The input of the master that the slave is at. -/
def slaveLine : Fin 8 := ⟨slaveIrq.val, slaveIrq_lt⟩

def eoi : BitVec 8 := 0x60

def I8259.outb (d : I8259) (data : BitVec 8) (port : Nat) : Option I8259 :=
  if port = master8259Port then
    (d.pics.master.command data).map fun c => { d with pics := { d.pics with master := c } }
  else if port = master8259DataPort then
    some { d with pics := { d.pics with master := d.pics.master.data data } }
  else if port = slave8259Port then
    (d.pics.slave.command data).map fun c => { d with pics := { d.pics with slave := c } }
  else if port = slave8259DataPort then
    some { d with pics := { d.pics with slave := d.pics.slave.data data } }
  else some d

def enableIrq (irqNum : Fin 16) (d : I8259) : Option I8259 :=
  if irqNum < 8 then
    let d := { d with masterMask := d.masterMask &&& (~~~ (1#32 <<< irqNum.val)).setWidth 8 }
    d.outb d.masterMask master8259DataPort
  else
    let d := { d with slaveMask := d.slaveMask &&& (~~~ (1#32 <<< (irqNum.val - 8))).setWidth 8 }
    d.outb d.slaveMask slave8259DataPort

def disableIrq (irqNum : Fin 16) (d : I8259) : Option I8259 :=
  if irqNum < 8 then
    let d := { d with masterMask := d.masterMask ||| (1#32 <<< irqNum.val).setWidth 8 }
    d.outb d.masterMask master8259DataPort
  else
    let d := { d with slaveMask := d.slaveMask ||| (1#32 <<< (irqNum.val - 8)).setWidth 8 }
    d.outb d.slaveMask slave8259DataPort

def sendEoi (irqNum : Fin 16) (d : I8259) : Option I8259 :=
  if irqNum < 8 then d.outb (BitVec.ofNat 8 irqNum.val ||| eoi) master8259Port
  else do
    let d ← d.outb (BitVec.ofNat 8 (irqNum.val - 8) ||| eoi) slave8259Port
    d.outb (eoi ||| BitVec.ofNat 8 slaveIrq.val) master8259Port

def initI8259 (d : I8259) : Option I8259 := do
  let d ← d.outb icw1 master8259Port
  let d ← d.outb icw1 slave8259Port
  let d ← d.outb icw2Master master8259DataPort
  let d ← d.outb icw2Slave slave8259DataPort
  let d ← d.outb icw3Master master8259DataPort
  let d ← d.outb icw3Slave slave8259DataPort
  let d ← d.outb icw4 master8259DataPort
  let d ← d.outb icw4 slave8259DataPort
  let d ← d.outb d.slaveMask slave8259DataPort
  enableIrq slaveIrq d

def pitIrq : Fin 16 := 0
def keyboardIrq : Fin 16 := 1
def rtcIrq : Fin 16 := 8

/-- The input of the controllers that `irqNum` stands for. -/
def source (irqNum : Fin 16) : Source :=
  if h : irqNum.val < 8 then .master ⟨irqNum.val, h⟩ else .slave ⟨irqNum.val - 8, by omega⟩

/-- What can happen once the controllers are initialized. -/
inductive PicEvent where
  | enable (irqNum : Fin 16)
  | disable (irqNum : Fin 16)
  | eoi (irqNum : Fin 16)
  /-- A device asks for an interrupt. -/
  | request (irqNum : Fin 16)
  /-- The processor takes an interrupt and is given the vector. -/
  | interrupt (v : BitVec 8)

def I8259.step (d : I8259) : PicEvent → Option I8259
  | .enable irqNum => enableIrq irqNum d
  | .disable irqNum => disableIrq irqNum d
  | .eoi irqNum => sendEoi irqNum d
  | .request irqNum => some { d with pics := d.pics.raise (source irqNum) }
  | .interrupt v => (d.pics.acknowledge slaveLine).bind fun (v', pics) =>
    if v' = v then some { d with pics := pics } else none

end Mp3Kernel
