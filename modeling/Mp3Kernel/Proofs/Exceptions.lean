/-
  What the handler of an exception is given, and how user space gets to one.

  The entry code is the same for all exceptions, and so is the C structure but for two of them.

  * `exception_told_iff`: the instruction, the flags (but for RF, see Ia32.lean) and the registers
    the exception came at are where the handler looks for them, except for the six vectors with a
    handler that takes no error code though the processor pushes one. There the handler takes the
    error code for the address. The field `flags`, which the entry code fills, is not in `Told`:
    behind an interrupt gate it has IF clear.
  * `user_int_only_0x80`: from user space an `int` instruction gets into the kernel through the gate
    of the system calls, or as a general protection fault that names its vector.
-/
import Mp3Kernel.Proofs.Entry

namespace Mp3Kernel.Entry

open Base.Ia32

variable {p : Platform} {c c' d : Cpu} {h : Handler} {v : BitVec 8} {errc : Word}

/-! ## The property -/

/-- The handler of exception `v` is told what was running when it came in `c`. -/
def Told (p : Platform) (v : BitVec 8) (errc : Word) (c : Cpu) : Prop :=
  ∃ a, exceptionArgument p v errc c = some a ∧ a.eip = c.eip ∧ a.cs = c.cs.setWidth 32 ∧
    a.eflags = c.eflags ∧ a.eax = c.reg .eax ∧ a.ecx = c.reg .ecx ∧ a.edx = c.reg .edx

/-- The exceptions with an error code that the handler does not take. -/
def untaken : List (BitVec 8) := [8, 10, 11, 12, 17, 30]

theorem pushesErrc_iff (hv : excHandlers v.toNat = some h) :
    pushesErrc v = h.errc ↔ v ∉ untaken := by
  have hall : ∀ v : BitVec 8, ∀ h, excHandlers v.toNat = some h →
      (pushesErrc v = h.errc ↔ v ∉ untaken) := by decide +kernel
  exact hall v h hv

theorem pushesErrc_of_errc (hv : excHandlers v.toNat = some h) (herrc : h.errc = true) :
    pushesErrc v = true := by
  have hall : ∀ v : BitVec 8, ∀ h, excHandlers v.toNat = some h → h.errc = true →
      pushesErrc v = true := by decide +kernel
  exact hall v h hv herrc

/-! ## The entry code up to the call -/

theorem asmRun_succ {n : Nat} {i : Instr} {next : Word} (hat : p.fetch c.eip = some (i, next))
    (hexec : exec next c i = some c') : asmRun p (n + 1) c = asmRun p n c' := by
  unfold asmRun
  rw [hat]
  show (exec next c i).bind (asmRun p n) = _
  rw [hexec]
  cases n <;> rfl

/-- A register is pushed. -/
theorem asmRun_push (hl : p.Linked) {base n : Nat} {ws : List Word} {r : Reg} {a next : Word}
    (hb : Bed p c base) (hm : Mid p c base (fun r => some (c.reg r)) ws d) (heip : d.eip = a)
    (hat : p.fetch a = some (.push r, next)) (hr : r ≠ .esp)
    (hroom : p.floor + 4 * (ws.length + 1) ≤ base) :
    ∃ d', asmRun p (n + 1) d = asmRun p n d' ∧
      Mid p c base (fun r => some (c.reg r)) (c.reg r :: ws) d' ∧ d'.eip = next := by
  have hpush := hm.push hl hb hroom (d.reg r)
  rw [hm.reg r _ hr rfl] at hpush
  refine ⟨(d.push (c.reg r)).goto next, asmRun_succ (by rw [heip]; exact hat) ?_,
    hpush.congr rfl rfl rfl, rfl⟩
  show some ((d.push (d.reg r)).goto next) = _
  rw [hm.reg r _ hr rfl]

/-- What lies on the stack when the C function has been called. -/
theorem asmRun_stub (hl : p.Linked) (h : Handler) (hroom : p.Room c) (hsound : p.sound c.mem)
    (err : Option Word) :
    ∃ d flags, asmRun p 5 (entered p (p.sym.asm h) err c) = some d ∧
      Holds d.mem (d.reg .esp + 4)
        (flags :: c.reg .edx :: c.reg .ecx :: c.reg .eax :: (err.toList ++ frame c)) := by
  have hb := hroom.bed hl
  have hbed := hb.room
  obtain ⟨a1, f0, a2, f1, a3, f2, a4, f3, a5, f4, -⟩ := hl.stub h
  have h0 := entered_mid hl hroom hsound (p.sym.asm h) err
  have hlen : (err.toList ++ frame c).length ≤ 6 := by
    have := frame_length c
    rw [List.length_append]
    cases err <;> simp <;> omega
  obtain ⟨d1, hrun1, h1, he1⟩ := asmRun_push (n := 4) hl hb h0 rfl f0 (by decide) (by omega)
  obtain ⟨d2, hrun2, h2, he2⟩ := asmRun_push (n := 3) hl hb h1 he1 f1 (by decide)
    (by rw [List.length_cons]; omega)
  obtain ⟨d3, hrun3, h3, he3⟩ := asmRun_push (n := 2) hl hb h2 he2 f2 (by decide)
    (by rw [List.length_cons, List.length_cons]; omega)
  have h4 := h3.push hl hb (by rw [List.length_cons, List.length_cons, List.length_cons]; omega)
    (d3.eflags &&& ~~~ 0x30000)
  have h5 := h4.push hl hb
    (by rw [List.length_cons, List.length_cons, List.length_cons, List.length_cons]; omega) a5
  refine ⟨(((d3.push (d3.eflags &&& ~~~ 0x30000)).goto a4).push a5).goto (p.sym.handler h), _, ?_,
    h5.words.2⟩
  rw [hrun1, hrun2, hrun3, asmRun_succ (by rw [he3]; exact f3) rfl, asmRun_succ f4 rfl]
  rfl

/-! ## The structure the handler reads -/

theorem holds_at {m : Memory} {a b : Word} {ws : List Word} (hw : Holds m a ws) (i : Nat)
    (hi : i < ws.length) (hb : b = a + BitVec.ofNat 32 (4 * i)) : load m b = ws[i] := by
  rw [hb]
  exact holds_iff.mp hw i hi

/-- The structure as it is read where an error code lies or not, as taken. -/
theorem intStack_read {m : Memory} {a flags edx ecx eax eip cs eflags : Word} {err : Option Word}
    {ws : List Word}
    (hw : Holds m a (flags :: edx :: ecx :: eax :: (err.toList ++ eip :: cs :: eflags :: ws))) :
    let s := IntStack.read m a err.isSome
    s.eip = eip ∧ s.cs = cs ∧ s.eflags = eflags ∧ s.eax = eax ∧ s.ecx = ecx ∧ s.edx = edx := by
  cases err with
  | none =>
    exact ⟨holds_at hw 4 (by simp) rfl, holds_at hw 5 (by simp) (show a + 16 + 4 = _ by bv_omega),
      holds_at hw 6 (by simp) (show a + 16 + 8 = _ by bv_omega), holds_at hw 3 (by simp) rfl,
      holds_at hw 2 (by simp) rfl, holds_at hw 1 (by simp) rfl⟩
  | some e =>
    exact ⟨holds_at hw 5 (by simp) rfl, holds_at hw 6 (by simp) (show a + 20 + 4 = _ by bv_omega),
      holds_at hw 7 (by simp) (show a + 20 + 8 = _ by bv_omega), holds_at hw 3 (by simp) rfl,
      holds_at hw 2 (by simp) rfl, holds_at hw 1 (by simp) rfl⟩

/-- An error code that is not taken passes for the address. -/
theorem intStack_untaken {m : Memory} {a flags edx ecx eax e : Word} {ws : List Word}
    (hw : Holds m a (flags :: edx :: ecx :: eax :: e :: ws)) :
    (IntStack.read m a false).eip = e := holds_at hw 4 (by simp) rfl

/-! ## Exceptions -/

theorem exceptionArgument_eq (hl : p.Linked) (hv : excHandlers v.toNat = some h)
    (hroom : p.Room c) (hsound : p.sound c.mem) (errc : Word) :
    ∃ (d : Cpu) (flags : Word), exceptionArgument p v errc c = some
        (IntStack.read d.mem (d.reg .esp + 4) h.errc) ∧
      Holds d.mem (d.reg .esp + 4) (flags :: c.reg .edx :: c.reg .ecx :: c.reg .eax ::
        ((if pushesErrc v then some errc else none).toList ++ frame c)) := by
  have hlt : v.toNat < 32 := by
    have hall : ∀ v : BitVec 8, 32 ≤ v.toNat → excHandlers v.toNat = none := by decide +kernel
    by_contra hge
    rw [hall v (by omega)] at hv
    cases hv
  have hgate : Gate.read (p.tables.idt v) = kernelGate (p.sym.asm h) 0 := by
    rw [gate_exc hlt]
    unfold Symbols.exc
    rw [hv]
    rfl
  obtain ⟨d, flags, hrun, hwords⟩ := asmRun_stub hl h hroom hsound
    (if pushesErrc v then some errc else none)
  refine ⟨d, flags, ?_, hwords⟩
  unfold exceptionArgument
  rw [hv, deliver_kernelGate hgate (fun hs => by cases hs)]
  show (asmRun p 5 _).bind _ = _
  rw [hrun]
  rfl

theorem exception_told_iff (hl : p.Linked) {m : Memory} (hsound : p.sound m)
    (hv : excHandlers v.toNat = some h) :
    (∀ errc c, p.sound c.mem → p.Room c → Told p v errc c) ↔ v ∉ untaken := by
  rw [← pushesErrc_iff hv]
  constructor
  · intro htold
    cases hpush : pushesErrc v with
    | false =>
      cases herrc : h.errc with
      | false => rfl
      | true => exact hpush.symm.trans (pushesErrc_of_errc hv herrc)
    | true =>
      -- in user space, at address 1 with error code 0
      have hroom : p.Room ⟨fun _ => 0, 1, 0, 0x23, 0x2B, m⟩ := fun hring =>
        absurd hring (show ¬ (0x23 : BitVec 16).setWidth 2 = (0 : BitVec 2) by decide)
      obtain ⟨a, ha, heip, -⟩ := htold 0 _ hsound hroom
      obtain ⟨d, flags, heq, hwords⟩ := exceptionArgument_eq hl hv hroom hsound 0
      cases herrc : h.errc with
      | true => rfl
      | false =>
        rw [herrc] at heq
        rw [hpush] at hwords
        obtain rfl := Option.some.inj (ha.symm.trans heq)
        exact absurd (heip.symm.trans (intStack_untaken hwords)) (show (1 : Word) ≠ 0 by decide)
  · intro htaken errc c hsound hroom
    obtain ⟨d, flags, heq, hwords⟩ := exceptionArgument_eq hl hv hroom hsound errc
    rw [← htaken] at heq
    have hsome : (if pushesErrc v then some errc else none : Option Word).isSome = pushesErrc v := by
      cases pushesErrc v <;> rfl
    rw [← hsome] at heq
    have hread := intStack_read hwords
    exact ⟨_, heq, hread⟩

theorem exception_told_page_fault : Told smallPlatform 14 4 idleCpu :=
  (exception_told_iff smallPlatform_linked (m := fun _ => 0) trivial (h := .excPf) rfl).mpr
    (by decide) 4 idleCpu trivial fun hring => absurd hring (by decide)

/-! ## Software interrupts from user space -/

theorem refusal_user {v : BitVec 8} (hv : v ≠ 0x80) :
    refusal (Gate.read (p.tables.idt v)) 3 true = some 13 := by
  have hdpl : ∀ f, refusal (kernelGate f 0) 3 true = some 13 := fun f =>
    (if_neg fun hk => hk.1 rfl).trans (if_pos ⟨rfl, show (0 : BitVec 2) < 3 by decide⟩)
  by_cases hirq : ∃ h, irq h = some v
  · obtain ⟨h, hirq⟩ := hirq
    rw [gate_irq hirq]
    exact hdpl _
  by_cases hlt : v.toNat < 32
  · rw [gate_exc hlt]
    exact hdpl _
  have hne : v ≠ 0x20 ∧ v ≠ 0x21 ∧ v ≠ 0x28 ∧ v ≠ 0x80 :=
    ⟨fun he => hirq ⟨.irqhPit, congrArg some he.symm⟩,
      fun he => hirq ⟨.irqhKeyboard, congrArg some he.symm⟩,
      fun he => hirq ⟨.irqhRtc, congrArg some he.symm⟩, hv⟩
  rw [idt_eq hne, if_neg hlt]
  decide

/-- How an `int` instruction of vector `v` ends. -/
def IntEnds (p : Platform) (v : BitVec 8) (c1 : Cpu) : Prop :=
  if v = 0x80 then c1.eip = p.sym.asm .irqhSyscall
  else c1.eip = p.sym.asm .excGp ∧ c1.top = v.setWidth 32 * 8 + 2

theorem user_int_only_0x80 (huser : c.cpl = 3) (v : BitVec 8) :
    ∃ c1, deliver p.tables true v none c = some c1 ∧ c1.cpl = 0 ∧ c1.interruptible = false ∧
      IntEnds p v c1 := by
  unfold IntEnds
  split
  · rename_i hv
    refine ⟨entered p (p.sym.asm .irqhSyscall) none c, ?_, entered_ring .., entered_interruptible ..,
      rfl⟩
    rw [hv]
    exact deliver_kernelGate gate_syscall (fun _ => by rw [huser]; decide) none
  · rename_i hv
    have hgp : Gate.read (p.tables.idt 13) = kernelGate (p.sym.asm .excGp) 0 :=
      gate_exc (show 13 < 32 by decide)
    have hnone : refusal (kernelGate (p.sym.asm .excGp) 0) 3 false = none :=
      refusal_kernelGate fun hs => by cases hs
    refine ⟨entered p (p.sym.asm .excGp) (some (v.setWidth 32 * 8 + 2)) c, ?_, entered_ring ..,
      entered_interruptible .., rfl, ?_⟩
    · unfold deliver
      rw [huser, refusal_user hv]
      dsimp only
      rw [hgp, if_pos hnone, if_pos rfl,
        show v.setWidth 32 * 8 + 2 + 0 = v.setWidth 32 * 8 + 2 from BitVec.add_zero _]
      exact enter_kernelGate _ _ _ _
    · exact entered_top ..

theorem user_int_only_0x80_key : ∃ c1, deliver smallPlatform.tables true 0x21 none idleCpu = some c1 ∧
    c1.cpl = 0 ∧ c1.interruptible = false ∧ IntEnds smallPlatform 0x21 c1 :=
  user_int_only_0x80 rfl 0x21

end Mp3Kernel.Entry
