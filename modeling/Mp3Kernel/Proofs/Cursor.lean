/-
  Cursors stay on the screen, and so does what is drawn, as long as nobody backspaces a hidden
  terminal that is in its upper left corner.

  There `terminal_putc` steps back to column 65535. `set_screen_xy` refuses that for the
  displayed terminal; `set_terminal_screen_xy`, which joins its two tests with `&&`, stores it.
  `cursors_on_screen`: the runs from boot in which all cursors and all cells written are on
  the screen are the runs without such a step. `cursor_leaves` is one with it.
-/
import Mp3Kernel.Proofs.Boot
import Mp3Kernel.Proofs.Printing

namespace Mp3Kernel

open Base.Runs

variable {fs : Image} {k k' : Kernel} {t : Fin 3} {c : UInt8}

/-! ## The property -/

/-- The global cursor and every saved one. -/
structure OnScreen (k : Kernel) : Prop where
  x : k.screenX < numCols
  y : k.screenY < numRows
  saved : ∀ t, (k.terminals t).screenX < numCols ∧ (k.terminals t).screenY < numRows

/-- The screens a routine is there to draw on, by their physical address. -/
def Surface (k : Kernel) (pa : Nat) : ScreenOp → Prop
  | .putc _ => pa = video ∨ k.paging.phys video = some pa
  | .clear => pa = video ∨ k.paging.phys video = some pa
  | .terminalPutc t _ => pa = (k.terminals t).vidMemBuf ∨ k.paging.phys video = some pa
  | .switchTerminal _ => pa = video ∨ pa = (k.terminals k.currentTerminal).vidMemBuf

/-- Whatever memory holds, what the step changes of it are cells 0 to 1999 of these screens. -/
def CellsOnScreen (k : Kernel) (op : ScreenOp) : Prop :=
  ∀ mem k', screenStep (k.setMem mem) op = some k' →
    ∀ a, k'.mem a ≠ mem a → ∃ pa, Surface k pa op ∧ pa ≤ a ∧ a < pa + 2 * 2000

/-- The step is no backspace to a hidden terminal in its upper left corner. -/
def NoWrap (k : Kernel) : ScreenOp → Prop
  | .terminalPutc t c => ¬ Wraps k t c
  | _ => True

/-! ## One step -/

/-- What the run keeps. -/
structure Tidy (k : Kernel) : Prop where
  drawable : Drawable k
  onScreen : OnScreen k

theorem OnScreen.cursor (h : OnScreen k) (t : Fin 3) :
    (k.cursor t).1 < numCols ∧ (k.cursor t).2 < numRows := by
  unfold Kernel.cursor
  split
  · exact ⟨h.x, h.y⟩
  · exact h.saved t

/-- Drawing on the screen leaves the cursors there. -/
theorem Drawn.onScreen {p : Printed} (h : Drawn k k' t p) (hk : OnScreen k)
    (hx : p.x < numCols) (hy : p.y < numRows) : OnScreen k' := by
  have hcursor : ∀ u, (k'.cursor u).1 < numCols ∧ (k'.cursor u).2 < numRows := by
    intro u
    by_cases hu : u = t
    · rw [hu, h.cursor]
      exact ⟨hx, hy⟩
    · rw [h.others u hu]
      exact hk.cursor u
  have hscreen := hcursor k'.currentTerminal
  rw [cursor_displayed] at hscreen
  refine ⟨hscreen.1, hscreen.2, fun u => ?_⟩
  by_cases hu : u = k.currentTerminal
  · rw [hu]
    rcases h.saved with hsame | hp
    · rw [Terminal.position, Terminal.position, Prod.mk.injEq] at hsame
      rw [hsame.1, hsame.2]
      exact hk.saved _
    · rw [Terminal.position, Prod.mk.injEq] at hp
      rw [hp.1, hp.2]
      exact ⟨hx, hy⟩
  · have hhid := hcursor u
    rw [cursor_hidden (by rw [h.frame.currentTerminal]; exact hu)] at hhid
    exact hhid

theorem SwitchedTo.onScreen (h : SwitchedTo k k' t) (hk : OnScreen k) : OnScreen k' := by
  have hcursor : ∀ u, (k'.cursor u).1 < numCols ∧ (k'.cursor u).2 < numRows := by
    intro u
    rw [h.cursor u]
    exact hk.cursor u
  have hscreen := hcursor k'.currentTerminal
  rw [cursor_displayed] at hscreen
  refine ⟨hscreen.1, hscreen.2, fun u => ?_⟩
  by_cases hu : u = t
  · have hsaved := h.saved
    rw [Terminal.position, Terminal.position, Prod.mk.injEq] at hsaved
    rw [hu, hsaved.1, hsaved.2]
    exact hk.saved t
  · have hhid := hcursor u
    rw [cursor_hidden (by rw [h.currentTerminal]; exact hu)] at hhid
    exact hhid

/-- The step comes to an end in a state like this one, and draws where it should. -/
def StepsTidily (k : Kernel) (op : ScreenOp) : Prop :=
  ∃ k', screenStep k op = some k' ∧ Tidy k' ∧
    ∀ a, (∀ pa, Surface k pa op → Outside pa a) → k'.mem a = k.mem a

theorem Drawn.stepsTidily {p : Printed} (op : ScreenOp) (hk : Tidy k)
    (hstep : screenStep k op = some k') (h : Drawn k k' t p) (hx : p.x < numCols)
    (hy : p.y < numRows)
    (hmem : ∀ a, (∀ pa, Surface k pa op → Outside pa a) → p.mem a = k.mem a) :
    StepsTidily k op := by
  refine ⟨k', hstep, ⟨h.drawable hk.drawable, h.onScreen hk.onScreen hx hy⟩, fun a ha => ?_⟩
  rw [h.mem]
  exact hmem a ha

theorem Window.phys_video {p : Paging} {proc pa : Nat} (h : Window p proc pa) :
    p.phys Mp3Kernel.video = some pa := h.area_video 0 (by decide)

/-- `putc` and `clear` draw on VIDEO as it is mapped, or on video memory. -/
theorem drawnAt_cases (hidden : Option (Fin 3)) (pa : Nat) :
    drawnAt hidden pa = video ∨ drawnAt hidden pa = pa := by
  unfold drawnAt
  cases hidden with
  | none => exact Or.inr rfl
  | some t => exact Or.inl rfl

theorem Tidy.putc (hk : Tidy k) (c : UInt8) : StepsTidily k (.putc c) := by
  obtain ⟨pa, hw, hpa⟩ := hk.drawable.window
  obtain ⟨term, hterm⟩ := hk.drawable.terminal
  have hx := hk.onScreen.x
  have hy := hk.onScreen.y
  obtain ⟨k', hstep, h⟩ := putc_drawn hw hpa hk.drawable hterm hx hy c
  obtain ⟨hx', hy'⟩ := printed_lt k.mem (drawnAt (hiddenTerminal k term) pa)
    (drawnAt (hiddenTerminal k term) pa) hx hy c
  refine Drawn.stepsTidily (.putc c) hk hstep h hx' hy' fun a ha => ?_
  have hout : Outside (drawnAt (hiddenTerminal k term) pa) a := by
    rcases drawnAt_cases (hiddenTerminal k term) pa with he | he
    · rw [he]
      exact ha video (Or.inl rfl)
    · rw [he]
      exact ha pa (Or.inr hw.phys_video)
  exact printed_outside hx hy hout hout

theorem Tidy.clear (hk : Tidy k) : StepsTidily k .clear := by
  obtain ⟨pa, hw, hpa⟩ := hk.drawable.window
  obtain ⟨term, hterm⟩ := hk.drawable.terminal
  obtain ⟨k', hstep, h⟩ := clear_drawn hw hpa hk.drawable hterm
  refine Drawn.stepsTidily .clear hk hstep h (Nat.zero_lt_succ _)
    (Nat.zero_lt_succ _) fun a ha => ?_
  have hout : Outside (drawnAt (hiddenTerminal k term) pa) a := by
    rcases drawnAt_cases (hiddenTerminal k term) pa with he | he
    · rw [he]
      exact ha video (Or.inl rfl)
    · rw [he]
      exact ha pa (Or.inr hw.phys_video)
  exact fillMem_outside (by decide) hout

theorem Tidy.terminalPutc (hk : Tidy k) (hno : ¬ Wraps k t c) :
    StepsTidily k (.terminalPutc t c) := by
  obtain ⟨pa, hw, hpa⟩ := hk.drawable.window
  obtain ⟨hx, hy⟩ := hk.onScreen.cursor t
  obtain ⟨k', hstep, -, h⟩ := terminalPutc_drawn hw hpa hk.drawable hx hy hno
  obtain ⟨hx', hy'⟩ := printed_lt k.mem
    (if t = k.currentTerminal then pa else vidMemBufAddr t) pa hx hy c
  refine Drawn.stepsTidily (.terminalPutc t c) hk hstep h hx' hy' fun a ha => ?_
  have hout : Outside pa a := ha pa (Or.inr hw.phys_video)
  refine printed_outside hx hy hout ?_
  split
  · exact hout
  · exact ha _ (Or.inl (hk.drawable.vidMemBuf t).symm)

theorem Tidy.switchTerminal (hk : Tidy k) (n : Nat) : StepsTidily k (.switchTerminal n) := by
  have hsame : ∀ k', Mp3Kernel.switchTerminal k n = some k' → k' = k →
      StepsTidily k (.switchTerminal n) := by
    intro k' hstep he
    exact ⟨k', hstep, he ▸ hk, fun a _ => by rw [he]⟩
  by_cases hn : n < 3
  · obtain ⟨t, rfl⟩ : ∃ t : Fin 3, n = t.val := ⟨⟨n, hn⟩, rfl⟩
    by_cases ht : t = k.currentTerminal
    · refine hsame k ?_ rfl
      unfold Mp3Kernel.switchTerminal
      rw [dif_pos t.isLt, if_pos (by rw [ht])]
    · obtain ⟨hx, hy⟩ := hk.onScreen.saved t
      obtain ⟨k', hstep, h⟩ := switchTerminal_spec hk.drawable hx hy ht
      refine ⟨k', hstep, ⟨h.drawable hk.drawable, h.onScreen hk.onScreen⟩, fun a ha => ?_⟩
      have hvideo : Outside video a := ha video (Or.inl rfl)
      have hbuf : Outside (vidMemBufAddr k.currentTerminal) a :=
        ha _ (Or.inr (hk.drawable.vidMemBuf _).symm)
      rw [h.mem]
      unfold switchedMem
      rw [copyBytes_outside (Nat.le_refl _) hvideo, copyBytes_outside (Nat.le_refl _) hbuf]
  · refine hsame k ?_ rfl
    unfold Mp3Kernel.switchTerminal
    rw [dif_neg hn]

theorem Tidy.stepsTidily (hk : Tidy k) {op : ScreenOp} (hno : NoWrap k op) :
    StepsTidily k op := by
  cases op with
  | putc c => exact hk.putc c
  | terminalPutc t c => exact hk.terminalPutc hno
  | clear => exact hk.clear
  | switchTerminal n => exact hk.switchTerminal n

theorem Tidy.step (hk : Tidy k) {op : ScreenOp} (hno : NoWrap k op)
    (hstep : screenStep k op = some k') : Tidy k' := by
  obtain ⟨k1, h1, h2, -⟩ := hk.stepsTidily hno
  rw [h1, Option.some.injEq] at hstep
  exact hstep ▸ h2

theorem Tidy.setMem (hk : Tidy k) (mem : Nat → UInt8) : Tidy (k.setMem mem) :=
  ⟨⟨hk.drawable.id, hk.drawable.vidMemBuf, hk.drawable.window, hk.drawable.terminal⟩,
    ⟨hk.onScreen.x, hk.onScreen.y, hk.onScreen.saved⟩⟩

theorem Tidy.cellsOnScreen (hk : Tidy k) {op : ScreenOp} (hno : NoWrap k op) :
    CellsOnScreen k op := by
  intro mem k' hstep a hne
  obtain ⟨k1, h1, -, hmem⟩ := (hk.setMem mem).stepsTidily hno
  rw [h1, Option.some.injEq] at hstep
  rw [← hstep] at hne
  by_contra hcell
  refine hne (hmem a fun pa hpa => ?_)
  by_contra hin
  refine hcell ⟨pa, hpa, ?_⟩
  unfold Outside screenBytes numCols numRows at hin
  omega

/-- A step that wraps leaves a cursor off the screen. -/
theorem Tidy.noWrap (hk : Tidy k) {op : ScreenOp} (hstep : screenStep k op = some k')
    (hk' : OnScreen k') : NoWrap k op := by
  cases op with
  | putc c => trivial
  | clear => trivial
  | switchTerminal n => trivial
  | terminalPutc t c =>
    intro hwraps
    obtain ⟨pa, hw, -⟩ := hk.drawable.window
    obtain ⟨mem, hmem⟩ := terminalPutc_wraps hw (hk.drawable.id t) hwraps
    have heq := Option.some.inj (hstep.symm.trans hmem)
    have hx := (hk'.saved t).1
    rw [heq, setMem_terminals, setTerminal_terminals, Function.update_self] at hx
    exact absurd (show 65535 < numCols from hx) (by decide)

/-! ## Runs from boot -/

theorem Booted.currentPid (h : Booted fs k) : (getCurrentPcb k).pid = 0 := by
  unfold getCurrentPcb
  rw [h.spec.runningPid, h.spec.pid]

theorem Booted.runningTerminal (h : Booted fs k) : getRunningTerminal k = some (some 0) := by
  unfold getRunningTerminal getTerminalFromPid
  dsimp only
  rw [h.currentPid, firstTerminal_eq (t := 0) (by rw [h.spec.terminals.pid]; rfl) fun u hu =>
    absurd hu (Nat.not_lt_zero _)]

theorem Booted.tidy (h : Booted fs k) : Tidy k := by
  have hb := h.spec
  refine ⟨⟨hb.terminals.id, hb.terminals.vidMemBuf, ⟨video, ?_, Or.inl rfl⟩, some 0,
    h.runningTerminal⟩, hb.screenX, hb.screenY, hb.terminals.cursor⟩
  rw [h.currentPid]
  exact hb.window

/-- In a run from boot, all cursors and all cells written are on the screen exactly if no
    step backspaces a hidden terminal in its corner. -/
theorem cursors_on_screen (hb : Booted fs k) (ops : List ScreenOp) :
    (AllStates screenStep OnScreen k ops ∧ AllSteps screenStep CellsOnScreen k ops) ↔
      AllSteps screenStep NoWrap k ops := by
  have hstep : ∀ k op k', Tidy k → NoWrap k op → screenStep k op = some k' → Tidy k' :=
    fun _ _ _ hk hno h => hk.step hno h
  have hiff : AllStates screenStep OnScreen k ops ↔ AllSteps screenStep NoWrap k ops :=
    allStates_iff_allSteps (fun _ h => h.onScreen) hstep
      (fun _ _ _ hk h hon => hk.noWrap h hon) hb.tidy
  constructor
  · intro h
    exact hiff.mp h.1
  · intro h
    exact ⟨hiff.mpr h, allSteps_of_allSteps hstep (fun _ _ hk hno => hk.cellsOnScreen hno)
      hb.tidy h⟩

theorem cursors_on_screen_smallImage : ∃ k, Booted smallImage k ∧
    ((AllStates screenStep OnScreen k [.terminalPutc 1 0x41, .switchTerminal 1, .clear] ∧
        AllSteps screenStep CellsOnScreen k [.terminalPutc 1 0x41, .switchTerminal 1, .clear]) ↔
      AllSteps screenStep NoWrap k [.terminalPutc 1 0x41, .switchTerminal 1, .clear]) := by
  obtain ⟨k, hk⟩ := booted_smallImage
  exact ⟨k, hk, cursors_on_screen hk _⟩

/-- A backspace written to terminal 1 right after boot. -/
theorem cursor_leaves : ∃ k k', Booted smallImage k ∧
    screenStep k (.terminalPutc 1 backspace) = some k' ∧ (k'.terminals 1).screenX = 65535 ∧
      ¬ AllStates screenStep OnScreen k [.terminalPutc 1 backspace] := by
  obtain ⟨k, hk⟩ := booted_smallImage
  have hb := hk.spec
  obtain ⟨hx, hy⟩ := hb.terminals.corner 1 (by decide)
  have hwraps : Wraps k 1 backspace := by
    refine ⟨by rw [hb.currentTerminal]; decide, rfl, ?_⟩
    rw [cursor_hidden (by rw [hb.currentTerminal]; decide), Terminal.position, hx, hy]
  obtain ⟨mem, hmem⟩ := terminalPutc_wraps hb.window (hb.terminals.id 1) hwraps
  have hcol : (((k.setTerminal 1 { k.terminals 1 with screenX := 65535, screenY := 0 }).setMem
      mem).terminals 1).screenX = 65535 := by
    rw [setMem_terminals, setTerminal_terminals, Function.update_self]
  refine ⟨k, _, hk, hmem, hcol, fun h => ?_⟩
  have hlt := ((h.2 _ hmem).saved 1).1
  rw [hcol] at hlt
  exact absurd hlt (by decide)

end Mp3Kernel
