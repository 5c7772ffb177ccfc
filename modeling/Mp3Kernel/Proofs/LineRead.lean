/-
  One call of `get_line_buf`, with nothing in between.

  The call looks for the first newline (`run_scan`), copies up to it or to the end of the
  caller's buffer, stores a newline at `min nbytes 128` and clears the line buffer (`run_take`).
  `returns_line` is the whole call: what it returns and what it leaves in the caller's buffer.

  `line_read_exact_iff`: the call keeps to the caller's `nbytes` bytes if and only if they are
  more than 128. In a buffer of 128 bytes or fewer the last store is one behind its end.
-/
import Mp3Kernel.Proofs.Delivery

namespace Mp3Kernel

open Base.Runs Base.BlockFile

variable {c c' : Console} {t : Fin 3} {nbytes nl : Nat}

/-! ## The property -/

/-- The running process's call of `get_line_buf`, made in `c` and not interrupted, returns
    `lenstr` in state `c'`. -/
def ReadReturns (c : Console) (nbytes : Int) (lenstr : Nat) (c' : Console) : Prop :=
  ∃ n c1 t, run consoleStep c (.read nbytes :: List.replicate n .step) = some c1 ∧
    c1.readers c1.kernel.runningPid = .done t lenstr ∧ consoleStep c1 .step = some c'

/-- The running process passes `buf`. -/
def Console.passing (c : Console) (buf : Nat → UInt8) : Console :=
  { c with buffers := Function.update c.buffers c.kernel.runningPid buf }

/-- A line that ends at `nl` is read into `nbytes` bytes, whatever they held: the call returns
    how much of the line there is room for, copies that much, and changes nothing from byte
    `nbytes` on. -/
def ReadExact (c : Console) (t : Fin 3) (nl : Nat) (nbytes : Int) : Prop :=
  ∀ buf, ∃ c', ReadReturns (c.passing buf) nbytes (min (nl + 1) nbytes.toNat) c' ∧
    (∀ j, j < min (nl + 1) nbytes.toNat →
      c'.buffers c.kernel.runningPid j = (c.kernel.terminals t).lineBuf j) ∧
    ∀ j : Nat, nbytes ≤ j → c'.buffers c.kernel.runningPid j = buf j

/-! ## A call returns once -/

theorem step_idle (hr : c.readers c.kernel.runningPid = .idle) : consoleStep c .step = none := by
  show c.readerStep = none
  unfold Console.readerStep
  rw [hr]

/-- From its last step on the call has only that step left. -/
theorem run_done {l l' n : Nat} {t' : Fin 3} (hr : c.readers c.kernel.runningPid = .done t l)
    (hrun : run consoleStep c (List.replicate n .step) = some c')
    (hr' : c'.readers c'.kernel.runningPid = .done t' l') : n = 0 := by
  cases n with
  | zero => rfl
  | succ n =>
    rw [List.replicate_succ, run_cons_of_some (show consoleStep c .step = _ from step_return hr)]
      at hrun
    have hidle : ∀ c1 : Console, ((c1.return t l).readers (c1.return t l).kernel.runningPid) =
        .idle := fun c1 => setReader_self c1 .idle
    cases n with
    | zero =>
      obtain rfl := Option.some.inj hrun
      exact nomatch (hidle _).symm.trans hr'
    | succ n =>
      rw [List.replicate_succ, run_cons, step_idle (hidle _)] at hrun
      cases hrun

theorem ReadReturns.unique {nbytes : Int} {l l' : Nat} {c1 c2 : Console} (h : ReadReturns c nbytes l c1)
    (h' : ReadReturns c nbytes l' c2) : l = l' ∧ c1 = c2 := by
  obtain ⟨n, d, t, hrun, hr, hstep⟩ := h
  obtain ⟨n', d', t', hrun', hr', hstep'⟩ := h'
  have hsame : ∀ {n e : Nat} {d d' : Console} {t t' : Fin 3} {l l' : Nat},
      run consoleStep c (.read nbytes :: List.replicate n .step) = some d →
      run consoleStep c (.read nbytes :: List.replicate (n + e) .step) = some d' →
      d.readers d.kernel.runningPid = .done t l → d'.readers d'.kernel.runningPid = .done t' l' →
      d = d' := by
    intro n e d d' t t' l l' hrun hrun' hr hr'
    rw [List.replicate_add, ← List.cons_append, run_append, hrun, Option.bind_some] at hrun'
    obtain rfl := run_done hr hrun' hr'
    exact Option.some.inj hrun'
  have hd : d = d' := by
    rcases Nat.le_total n n' with hle | hle
    · obtain ⟨e, rfl⟩ := Nat.exists_eq_add_of_le hle
      exact hsame hrun hrun' hr hr'
    · obtain ⟨e, rfl⟩ := Nat.exists_eq_add_of_le hle
      exact (hsame hrun' hrun hr' hr).symm
  subst hd
  cases hr.symm.trans hr'
  exact ⟨rfl, Option.some.inj (hstep.symm.trans hstep')⟩

/-! ## The search -/

/-- `contains_newline` goes on to the first newline. -/
theorem run_scan (n : Nat) {i : Nat} (hr : c.readers c.kernel.runningPid = .scan t nbytes i)
    (hi : i + n = nl) (hnl : nl < lineBufferSize)
    (hno : ∀ j, i ≤ j → j < nl → (c.kernel.terminals t).lineBuf j ≠ newline) :
    ∃ c', run consoleStep c (List.replicate n .step) = some c' ∧
      ComesTo c c' (.scan t nbytes nl) (c.buffers c.kernel.runningPid) := by
  induction n generalizing c i with
  | zero =>
    obtain rfl : i = nl := hi
    exact ⟨c, rfl, rfl, hr, fun _ _ => rfl, rfl, rfl, rfl⟩
  | succ n ih =>
    have hstep : consoleStep c .step = some (c.setReader (.scan t nbytes (i + 1))) :=
      step_scan hr (hno i (Nat.le_refl _) (by omega)) (by omega)
    obtain ⟨c', hrun, hcomes⟩ := ih
      (setReader_self c (.scan t nbytes (i + 1))) (by omega) fun j hj hlt => hno j (by omega) hlt
    refine ⟨c', (run_cons_of_some hstep _).trans hrun, hcomes.kernel, hcomes.reader,
      fun pid hp => (hcomes.others pid hp).trans ?_, hcomes.buffer, hcomes.stored, hcomes.returned⟩
    exact Function.update_of_ne hp _ _

/-! ## The call -/

/-- The call in full. Behind the bytes of the line the caller's buffer is as it was, but for the
    newline at `min nbytes 128`. -/
theorem returns_line (nbytes : Nat) (hterm : getRunningTerminal c.kernel = some (some t))
    (hnl : nl < lineBufferSize) (hfirst : (c.kernel.terminals t).lineBuf nl = newline)
    (hno : ∀ j, j < nl → (c.kernel.terminals t).lineBuf j ≠ newline) (hpos : 0 < nbytes) :
    ∃ c' buf, ReadReturns c nbytes (min (nl + 1) nbytes) c' ∧
      c'.buffers c.kernel.runningPid = Function.update buf (min nbytes lineBufferSize) newline ∧
      Copied (c.buffers c.kernel.runningPid) (c.kernel.terminals t).lineBuf 0
        (min (nl + 1) nbytes) buf := by
  let term : Terminal := { c.kernel.terminals t with readFlag := true }
  have hread : consoleStep c (.read nbytes) =
      some ((c.setTerminal t term).setReader (.scan t nbytes 0)) := by
    show c.read nbytes = _
    unfold Console.read
    rw [if_neg (by omega), hterm]
    rfl
  have hline : ((c.setTerminal t term).kernel.terminals t).lineBuf =
      (c.kernel.terminals t).lineBuf := by
    show (Function.update c.kernel.terminals t term t).lineBuf = _
    rw [Function.update_self]
  obtain ⟨c1, h1, hk1, hr1, -, hb1, -⟩ := run_scan nl
    (setReader_self (c.setTerminal t term) (.scan t nbytes 0)) (Nat.zero_add nl) hnl
    fun j _ hlt => hline ▸ hno j hlt
  have hpid1 : c1.kernel.runningPid = c.kernel.runningPid := by
    rw [hk1]
    rfl
  have hbuf1 : c1.buffers c1.kernel.runningPid = c.buffers c.kernel.runningPid := by
    rw [hpid1]
    exact hb1
  have hline1 : (c1.kernel.terminals t).lineBuf = (c.kernel.terminals t).lineBuf := by
    rw [hk1]
    exact hline
  have h2 : consoleStep c1 .step = some _ :=
    step_found (hpid1 ▸ hr1) (by rw [hline1]; exact hfirst)
  have hterm1 : getRunningTerminal (c1.setReader (.copy t nbytes nl 0)).kernel =
      some (some t) := by
    refine Eq.trans ?_ hterm
    show getRunningTerminal c1.kernel = _
    rw [hk1]
    exact setTerminal_running (k := c.kernel) (show term.pid = _ from rfl) c.kernel.runningPid
  obtain ⟨c3, buf, h3, htaken, hb3, hcopied⟩ := run_take
    (setReader_self c1 (.copy t nbytes nl 0)) hterm1
  have hr3 : c3.readers c3.kernel.runningPid = .done t (min (nl + 1) nbytes) :=
    htaken.runningPid.symm ▸ htaken.reader
  have h4 : consoleStep c3 .step = some _ := step_return hr3
  refine ⟨_, buf, ⟨nl + (1 + (min (nl + 1) nbytes + (lineBufferSize + 2))), c3, t, ?_, hr3, h4⟩,
    ?_, ?_⟩
  · refine (run_cons_of_some hread _).trans ?_
    rw [List.replicate_add]
    refine run_append_of_some h1 ?_
    rw [List.replicate_add]
    exact (run_cons_of_some h2 _).trans h3
  · rw [← hpid1]
    exact hb3
  · rw [← hbuf1, ← hline1]
    exact hcopied

/-- The call keeps to the caller's buffer exactly if that is longer than the line buffer. -/
theorem line_read_exact_iff (hterm : getRunningTerminal c.kernel = some (some t))
    (hnl : nl < lineBufferSize) (hfirst : (c.kernel.terminals t).lineBuf nl = newline)
    (hno : ∀ j, j < nl → (c.kernel.terminals t).lineBuf j ≠ newline)
    {nbytes : Int} (hpos : 0 < nbytes) :
    ReadExact c t nl nbytes ↔ (lineBufferSize : Int) < nbytes := by
  obtain ⟨size, rfl⟩ := Int.eq_ofNat_of_zero_le (Int.le_of_lt hpos)
  have hcall := fun buf => returns_line (c := c.passing buf) size hterm hnl hfirst hno
    (by omega)
  have hpassed : ∀ buf, (c.passing buf).buffers c.kernel.runningPid = buf :=
    fun buf => Function.update_self _ _ _
  unfold ReadExact
  rw [Int.toNat_natCast]
  constructor
  · intro h
    by_contra hle
    -- the byte behind the caller's buffer was 0 and is a newline now
    obtain ⟨c1, hret1, -, hframe⟩ := h fun _ => 0
    obtain ⟨c2, buf, hret2, hbuf, -⟩ := hcall fun _ => 0
    obtain rfl := (hret1.unique hret2).2
    have hsame := hframe size (Int.le_refl _)
    have hmin : min size lineBufferSize = size := by omega
    rw [show c1.buffers c.kernel.runningPid = _ from hbuf, hmin, Function.update_self] at hsame
    exact absurd hsame (by decide)
  · intro hlt buf
    obtain ⟨c', buf', hret, hbuf, hcopied⟩ := hcall buf
    rw [show (c.passing buf).buffers (c.passing buf).kernel.runningPid = buf from hpassed buf]
      at hcopied
    have hlast : min size lineBufferSize = lineBufferSize := by omega
    rw [hlast] at hbuf
    refine ⟨c', hret, fun j hj => ?_, fun j hj => ?_⟩
    · rw [show c'.buffers c.kernel.runningPid = _ from hbuf, Function.update_of_ne (by omega),
        hcopied.filled j hj, Nat.zero_add]
      rfl
    · rw [show c'.buffers c.kernel.runningPid = _ from hbuf, Function.update_of_ne (by omega)]
      exact hcopied.frame j (by omega)

/-- The console with an empty line in the buffer of the first terminal. -/
def Kernel.entered (k : Kernel) : Console :=
  k.console.setTerminal 0 { k.terminals 0 with lineBuf := fun _ => newline }

theorem Booted.entered {fs : Image} {k : Kernel} (h : Booted fs k) :
    getRunningTerminal k.entered.kernel = some (some 0) ∧
      (k.entered.kernel.terminals 0).lineBuf = fun _ => newline := by
  constructor
  · refine (setTerminal_running (k := k) ?_ k.runningPid).trans h.runningTerminal
    rfl
  · exact congrArg Terminal.lineBuf (Function.update_self 0
      { k.terminals 0 with lineBuf := fun _ => newline } k.terminals)

theorem line_read_exact_large : ∃ k, Booted smallImage k ∧ ReadExact k.entered 0 0 129 := by
  obtain ⟨k, hk⟩ := booted_smallImage
  obtain ⟨hterm, hline⟩ := hk.entered
  exact ⟨k, hk, (line_read_exact_iff hterm (by decide) (by rw [hline])
    (fun j hj => absurd hj (Nat.not_lt_zero j)) (by decide)).mpr (by decide)⟩

/-- A read of the line into 128 bytes stores a newline in byte 128. -/
theorem line_read_overruns : ∃ k c, Booted smallImage k ∧
    getRunningTerminal k.entered.kernel = some (some 0) ∧
    (k.entered.kernel.terminals 0).lineBuf 0 = newline ∧
    ReadReturns (k.entered.passing fun _ => 0) 128 1 c ∧
      c.buffers k.runningPid 128 = newline ∧ ¬ ReadExact k.entered 0 0 128 := by
  obtain ⟨k, hk⟩ := booted_smallImage
  obtain ⟨hterm, hline⟩ := hk.entered
  obtain ⟨c, buf, hret, hbuf, -⟩ := returns_line (c := k.entered.passing fun _ => 0)
    128 hterm (show 0 < lineBufferSize by decide) (congrFun hline 0)
    (fun j hj => absurd hj (Nat.not_lt_zero j)) (by decide)
  have hlast : c.buffers k.runningPid 128 = newline := by
    rw [show c.buffers k.runningPid = _ from hbuf]
    exact Function.update_self _ _ _
  refine ⟨k, c, hk, hterm, congrFun hline 0, hret, hlast, fun h => ?_⟩
  obtain ⟨c', hret', -, hframe⟩ := h fun _ => 0
  obtain rfl := (hret'.unique hret).2
  have hsame := hframe 128 (by decide)
  rw [show c'.buffers k.entered.kernel.runningPid 128 = newline from hlast] at hsame
  exact absurd hsame (by decide)

end Mp3Kernel
