/-
  Page directories and page tables (paging.c, paging.h, x86_desc.S).

  x86_desc.S lays out eight page directories, the boot page table and eight process page
  tables one after the other, page-aligned, inside the kernel image; `Layout` is the
  address the linker gave the first of them. CR3 holds a directory's address.

  `none` is a return of -1, which none of the functions of paging.c makes after changing
  anything.
-/
import Mp3Kernel.Base.PageWalk
import Mp3Kernel.Model.Fs

namespace Mp3Kernel

open Base.PageWalk

/-! ## Constants -/

def mb4 : Nat := 0x400000
def mb8 : Nat := 0x800000
def kb4 : Nat := 0x1000
def kb8 : Nat := 0x2000

def pgPresent : Nat := 1
def pgRw : Nat := 2
def pgUspace : Nat := 4
def pgSize : Nat := 128
def pg4mStart : Nat := 0x400000
def pg4m : Nat := pg4mStart ||| pgUspace
def pgdirLen : Nat := 1024
def pgtblLen : Nat := 1024
def pteSize : Nat := 4096
def elfLoadPg : Nat := 0x20
def numProc : Nat := 8

/-- `VIDEO`, the address of text-mode video memory. -/
def video : Nat := 0xB8000

/-- The virtual address `vidmap` hands out: 160MB. -/
def vidmapStart : Nat := pg4mStart * (elfLoadPg + numProc)

/-! ## The tables -/

/-- Where the linker put `pgdir`. The 17 tables lie in the kernel's 4MB frame. -/
structure Layout where
  pgdir : Nat
  aligned : pgdir % 4096 = 0
  low : mb4 ≤ pgdir
  high : pgdir + 17 * 4096 ≤ mb8

def Layout.pgdirAddr (l : Layout) (proc : Nat) : Nat := l.pgdir + 4096 * proc
def Layout.pgtblAddr (l : Layout) : Nat := l.pgdir + 4096 * 8
def Layout.pgtblProcAddr (l : Layout) (proc : Nat) : Nat := l.pgdir + 4096 * 9 + 4096 * proc

structure Paging where
  layout : Layout
  pgdir : Nat → Nat → Nat
  pgtbl : Nat → Nat
  pgtblProc : Nat → Nat → Nat
  cr3 : Nat

/-- The tables as the loader leaves them: all zero. -/
def Paging.reset (l : Layout) : Paging := ⟨l, fun _ _ => 0, fun _ => 0, fun _ _ => 0, 0⟩

/-- The page table at a physical address. -/
def Paging.tableAt (p : Paging) (addr : Nat) : Option (Nat → Nat) :=
  if addr = p.layout.pgtblAddr then some p.pgtbl
  else if p.layout.pgtblProcAddr 0 ≤ addr ∧ addr < p.layout.pgtblProcAddr numProc ∧
      addr % 4096 = 0 then
    some (p.pgtblProc ((addr - p.layout.pgtblProcAddr 0) / 4096))
  else none

/-- The translation of `va` in the directory of `proc`. -/
def Paging.translate (p : Paging) (proc va : Nat) : Option Translation :=
  walk (p.pgdir proc) p.tableAt va

/-- The physical address `va` has under the loaded directory. -/
def Paging.phys (p : Paging) (va : Nat) : Option Nat :=
  (p.translate ((p.cr3 - p.layout.pgdir) / 4096) va).map (·.phys)

def Paging.setPde (p : Paging) (proc i e : Nat) : Paging :=
  { p with pgdir := Function.update p.pgdir proc (Function.update (p.pgdir proc) i e) }

def Paging.setPgtbl (p : Paging) (proc : Nat) (pt : Nat → Nat) : Paging :=
  { p with pgtblProc := Function.update p.pgtblProc proc pt }

def Paging.setPte (p : Paging) (proc i e : Nat) : Paging :=
  p.setPgtbl proc (Function.update (p.pgtblProc proc) i e)

def Paging.loadCr3 (p : Paging) (proc : Nat) : Paging :=
  { p with cr3 := p.layout.pgdirAddr proc }

section Fields

variable (p : Paging) (proc i e : Nat) (pt : Nat → Nat)

@[simp] theorem Paging.setPde_layout : (p.setPde proc i e).layout = p.layout := rfl
@[simp] theorem Paging.setPde_pgtbl : (p.setPde proc i e).pgtbl = p.pgtbl := rfl
@[simp] theorem Paging.setPde_pgtblProc : (p.setPde proc i e).pgtblProc = p.pgtblProc := rfl
@[simp] theorem Paging.setPgtbl_layout : (p.setPgtbl proc pt).layout = p.layout := rfl
@[simp] theorem Paging.setPgtbl_pgtbl : (p.setPgtbl proc pt).pgtbl = p.pgtbl := rfl
@[simp] theorem Paging.setPgtbl_pgdir : (p.setPgtbl proc pt).pgdir = p.pgdir := rfl
@[simp] theorem Paging.loadCr3_layout : (p.loadCr3 proc).layout = p.layout := rfl
@[simp] theorem Paging.loadCr3_pgtbl : (p.loadCr3 proc).pgtbl = p.pgtbl := rfl
@[simp] theorem Paging.loadCr3_pgdir : (p.loadCr3 proc).pgdir = p.pgdir := rfl
@[simp] theorem Paging.loadCr3_pgtblProc : (p.loadCr3 proc).pgtblProc = p.pgtblProc := rfl
@[simp] theorem Paging.loadCr3_cr3 : (p.loadCr3 proc).cr3 = p.layout.pgdirAddr proc := rfl

@[simp] theorem Paging.setPde_pgdir_self :
    (p.setPde proc i e).pgdir proc = Function.update (p.pgdir proc) i e :=
  Function.update_self ..

theorem Paging.setPde_pgdir_of_ne {proc' : Nat} (h : proc' ≠ proc) :
    (p.setPde proc i e).pgdir proc' = p.pgdir proc' :=
  Function.update_of_ne h ..

@[simp] theorem Paging.setPgtbl_pgtblProc_self : (p.setPgtbl proc pt).pgtblProc proc = pt :=
  Function.update_self ..

theorem Paging.setPgtbl_pgtblProc_of_ne {proc' : Nat} (h : proc' ≠ proc) :
    (p.setPgtbl proc pt).pgtblProc proc' = p.pgtblProc proc' :=
  Function.update_of_ne h ..

end Fields

/-! ## paging.c -/

def initPaging (p : Paging) : Paging :=
  let pgtbl := fun i =>
    if i = 0 then pgRw
    else if i < pgtblLen then i * pteSize ||| pgRw ||| pgPresent
    else p.pgtbl i
  let dir := fun i =>
    if i = 0 then p.layout.pgtblAddr ||| pgRw ||| pgPresent
    else if i = 1 then pg4mStart ||| pgRw ||| pgSize ||| pgPresent
    else if i < pgdirLen then i * pg4mStart ||| pgRw ||| pgUspace ||| pgSize
    else p.pgdir 0 i
  { p with pgtbl := pgtbl, pgdir := Function.update p.pgdir 0 dir }.loadCr3 0

/-- The page table `make_task_pgdir` fills in: page 0 absent, the rest mapped to itself. -/
def taskPgtbl (old : Nat → Nat) (i : Nat) : Nat :=
  if i = 0 then pgUspace ||| pgRw
  else if i < pgtblLen then i * pteSize ||| pgUspace ||| pgRw ||| pgPresent
  else old i

def makeTaskPgdir (p : Paging) (proc : Nat) : Option Paging :=
  if numProc ≤ proc then none
  else
    let p := p.setPgtbl proc (taskPgtbl (p.pgtblProc proc))
    let p := p.setPde proc 0 (p.layout.pgtblProcAddr proc ||| pgUspace ||| pgRw ||| pgPresent)
    let p := p.setPde proc 1 (pg4m ||| pgRw ||| pgSize ||| pgPresent)
    let p := p.setPde proc elfLoadPg
      ((proc + 2) * mb4 ||| pgSize ||| pgUspace ||| pgRw ||| pgPresent)
    some (p.loadCr3 proc)

/-- Clears the present bit of the program page: `&= ~PG_PRESENT`. -/
def removeTaskPgdir (p : Paging) (proc : Nat) : Paging :=
  (p.setPde proc elfLoadPg (p.pgdir proc elfLoadPg &&& 0xFFFFFFFE)).loadCr3 proc

def mapVidMem (p : Paging) (proc virtualAddress physicalAddress : Nat) : Option Paging :=
  if numProc ≤ proc then none
  else
    let p := p.setPde proc (virtualAddress / mb4)
      (p.layout.pgtblProcAddr proc ||| pgUspace ||| pgRw ||| pgPresent)
    let p := p.setPte proc (virtualAddress % mb4 / kb4)
      (physicalAddress ||| pgUspace ||| pgRw ||| pgPresent)
    some (p.loadCr3 proc)

/-! ## open_fs (fs.c) -/

/-- The present bit of the directory entry `i` of PID 0. -/
def setPresent (p : Paging) (i : Nat) : Paging := p.setPde 0 i (p.pgdir 0 i ||| pgPresent)

/-- The page of the boot block, at `start`, is made present, and taken back if the directory
    count it holds is too large. -/
def openFs (p : Paging) (start direntryCnt : Nat) : Int × Paging :=
  let i := start / pg4mStart
  let p := setPresent p i
  if fsMaxDirEntries ≤ direntryCnt then
    (-1, p.setPde 0 i (p.pgdir 0 i &&& 0xFFFFFFFE))
  else (0, p)

/-! ## Runs of the paging operations -/

/-- The virtual addresses the kernel passes to `map_vid_mem`. -/
inductive VidAddr where
  | video
  | vidmap
  deriving DecidableEq

def VidAddr.addr : VidAddr → Nat
  | .video => Mp3Kernel.video
  | .vidmap => vidmapStart

/-- `vid_mem_buf` of terminal `t`: the pages after video memory. -/
def vidMemBufAddr (t : Nat) : Nat := video + kb4 * (t + 1)

/-- The physical pages the kernel passes to `map_vid_mem`: video memory or the buffer of one
    of the three terminals. -/
inductive VidFrame where
  | video
  | buf (t : Fin 3)
  deriving DecidableEq

def VidFrame.addr : VidFrame → Nat
  | .video => Mp3Kernel.video
  | .buf t => vidMemBufAddr t

/-- One call, with the arguments the kernel passes. `makeTaskPgdir` and `mapVidMem` check
    their pid; `removeTaskPgdir` does not and is only called with the pid of a process. -/
inductive PagingOp where
  | initPaging
  | makeTaskPgdir (proc : Nat)
  | removeTaskPgdir (proc : Fin 8)
  | mapVidMem (proc : Nat) (va : VidAddr) (pa : VidFrame)

def Paging.apply (p : Paging) : PagingOp → Paging
  | .initPaging => Mp3Kernel.initPaging p
  | .makeTaskPgdir proc => (Mp3Kernel.makeTaskPgdir p proc).getD p
  | .removeTaskPgdir proc => Mp3Kernel.removeTaskPgdir p proc
  | .mapVidMem proc va pa => (Mp3Kernel.mapVidMem p proc va.addr pa.addr).getD p

/-- The step of a run of paging operations; every call returns. -/
def Paging.step (p : Paging) (op : PagingOp) : Option Paging := some (p.apply op)

/-- A paging operation, or `open_fs` for a module at `start`. -/
inductive MappingOp where
  | paging (op : PagingOp)
  | openFs (start direntryCnt : Nat)

def mappingStep (p : Paging) : MappingOp → Option Paging
  | .paging op => p.step op
  | .openFs start direntryCnt => some (Mp3Kernel.openFs p start direntryCnt).2

end Mp3Kernel
