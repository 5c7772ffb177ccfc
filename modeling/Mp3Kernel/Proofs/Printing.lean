/-
  The printing routines, run by a process with a window.

  `putc_eq`, `terminalPutc_eq`, `clear_eq` and `switchTerminal_spec`: each routine comes to an
  end, and all it changes is memory, one cursor and the running process's window. What it does
  to memory and cursor is `printed`, a fill, or a swap of screens.
-/
import Mp3Kernel.Proofs.Rendering
import Mp3Kernel.Proofs.Steps

namespace Mp3Kernel

variable {k k' : Kernel} {pa : Nat} {c : UInt8} {t : Fin 3}

/-! ## Scrolling and the global cursor -/

theorem scrollUp_eq (harea : Area k.paging video pa screenBytes) :
    scrollUp k = some (k.setMem (scrollMem k.mem pa)) := by
  have h0 : k.paging.phys video = some pa := by
    have h := harea 0 (by decide)
    rwa [Nat.add_zero, Nat.add_zero] at h
  have hcopy := memcpy_eq (numCols * (numRows - 1) * 2) h0 (harea (numCols * 2) (by decide))
  unfold scrollUp memmove
  rw [hcopy, Option.bind_eq_bind, Option.bind_some]
  exact fillCells_eq (k := k.setMem (copyBytes k.mem pa (pa + numCols * 2)
    (numCols * (numRows - 1) * 2))) harea (by decide)

/-- Memory and the global cursor. -/
def Kernel.show (k : Kernel) (p : Printed) : Kernel :=
  { k with mem := p.mem, screenX := p.x, screenY := p.y }

theorem printed_tab (mem : Nat → UInt8) (pb pa x y : Nat) :
    printed mem pb pa x y tab = printed mem pb pa x y space := by
  have h1 : tab ≠ 0 ∧ tab ≠ newline ∧ tab ≠ backspace := by decide
  have h2 : space ≠ 0 ∧ space ≠ newline ∧ space ≠ backspace ∧ space ≠ tab := by decide
  unfold printed
  rw [if_neg h1.1, if_neg h1.2.1, if_neg h1.2.2, if_pos rfl, if_neg h2.1, if_neg h2.2.1,
    if_neg h2.2.2.1, if_neg h2.2.2.2]

/-- The cell at the cursor, in bytes. -/
theorem cell_lt {x y : Nat} (hx : x < numCols) (hy : y < numRows) :
    2 * (numCols * y + x) + 1 < screenBytes := by
  unfold screenBytes numCols numRows at *
  omega

theorem stepBack_eq (hx : k.screenX < numCols) (hy : k.screenY < numRows) : stepBack k =
    { k with
      screenX := (prevCell k.screenX k.screenY).1
      screenY := (prevCell k.screenX k.screenY).2 } := by
  have hcol : numCols - 1 < numCols := by decide
  unfold stepBack prevCell setScreenXY setScreenX
  by_cases hx0 : k.screenX = 0
  · by_cases hy0 : k.screenY = 0
    · have hwrap : ¬ (k.screenX + 65535) % 65536 < numCols := by
        rw [hx0]
        decide
      rw [if_neg (by omega), if_neg hwrap, if_pos hx0, if_pos hy0]
      cases k
      dsimp only at hx0 hy0
      rw [hx0, hy0]
    · rw [if_pos ⟨hx0, by omega⟩, if_pos ⟨by omega, hcol⟩, if_pos hx0, if_neg hy0]
  · have hprev : (k.screenX + 65535) % 65536 = k.screenX - 1 := by
      unfold numCols at hx
      omega
    rw [if_neg (fun h => hx0 h.1), hprev, if_pos (by omega), if_neg hx0]

theorem wrapRow_eq (harea : Area k.paging video pa screenBytes) (hx : k.screenX < numCols)
    (hy : k.screenY < numRows) : (wrapRow k ((k.screenX + 1) % 65536)).map
      (fun k' => { k' with screenX := (k.screenX + 1) % 65536 % numCols }) =
    some (k.show (if k.screenX + 1 < numCols then ⟨k.mem, k.screenX + 1, k.screenY⟩
      else nextLine k.mem pa k.screenY)) := by
  have hword : (k.screenX + 1) % 65536 = k.screenX + 1 := by
    unfold numCols at hx
    omega
  rw [hword]
  unfold wrapRow nextLine
  by_cases hcol : k.screenX + 1 < numCols
  · have hdiv : ¬ 0 < (k.screenX + 1) / numCols := by
      rw [Nat.div_eq_of_lt hcol]
      omega
    rw [if_neg hdiv, if_pos hcol, Nat.mod_eq_of_lt hcol]
    rfl
  · have hfull : k.screenX + 1 = numCols := by omega
    rw [if_neg hcol, hfull, Nat.div_self (by decide), Nat.mod_self, if_pos Nat.zero_lt_one]
    by_cases hrow : k.screenY + 1 < numRows
    · rw [if_neg (by omega), if_pos hrow, Nat.mod_eq_of_lt hrow]
      rfl
    · rw [if_pos (by omega), if_neg hrow, scrollUp_eq harea]
      rfl

theorem putcBody_eq (harea : Area k.paging video pa screenBytes) (hx : k.screenX < numCols)
    (hy : k.screenY < numRows) (h0 : c ≠ 0) (htab : c ≠ tab) :
    putcBody k c = some (k.show (printed k.mem pa pa k.screenX k.screenY c)) := by
  unfold putcBody printed
  rw [if_neg h0]
  split
  · unfold nextRow nextLine
    by_cases hrow : k.screenY + 1 < numRows
    · rw [if_pos (by omega), if_pos hrow]
      rfl
    · rw [if_neg (by omega), if_neg hrow, scrollUp_eq harea]
      rfl
  split
  · obtain ⟨hx', hy'⟩ := prevCell_lt hx hy
    unfold clearScreenXY
    rw [stepBack_eq hx hy]
    exact putCell_eq (k := { k with
      screenX := (prevCell k.screenX k.screenY).1
      screenY := (prevCell k.screenX k.screenY).2 }) harea (cell_lt hx' hy') space
  · rw [putCell_eq harea (cell_lt hx hy) c, Option.bind_eq_bind, Option.bind_some]
    have hwrap := wrapRow_eq (k := k.setMem (cellMem k.mem pa (numCols * k.screenY + k.screenX) c))
      harea hx hy
    refine Eq.trans ?_ hwrap
    rw [Option.map_eq_bind]
    rfl

/-! ## putc -/

/-- The screen `putc` and `clear` draw on: what the window shows, or video memory if the
    running process has to be remapped for it. -/
def drawnAt (hidden : Option (Fin 3)) (pa : Nat) : Nat := hidden.elim pa fun _ => video

/-- A window's screen: video memory or a terminal's buffer. -/
def IsScreen (pa : Nat) : Prop := pa = video ∨ ∃ t : Fin 3, pa = vidMemBufAddr t

theorem putcBody_window (hw : Window k.paging (getCurrentPcb k).pid pa) (hx : k.screenX < numCols)
    (hy : k.screenY < numRows) (h0 : c ≠ 0) (htab : c ≠ tab) :
    putcBody k c = some (k.show (printed k.mem pa pa k.screenX k.screenY c)) :=
  putcBody_eq (hw.area_video.mono (by decide)) hx hy h0 htab

theorem putcChar_eq {term : Option (Fin 3)} (hw : Window k.paging (getCurrentPcb k).pid pa)
    (hpa : IsScreen pa) (hterm : getRunningTerminal k = some term)
    (hbuf : ∀ u, (k.terminals u).vidMemBuf = vidMemBufAddr u) (hx : k.screenX < numCols)
    (hy : k.screenY < numRows) (htab : c ≠ tab) :
    ∃ q pa', putcChar k c = some ((k.setPaging q).show (printed k.mem
        (drawnAt (hiddenTerminal k term) pa) (drawnAt (hiddenTerminal k term) pa)
        k.screenX k.screenY c)) ∧
      Window q (getCurrentPcb k).pid pa' ∧ IsScreen pa' := by
  unfold putcChar
  rw [hterm, Option.bind_eq_bind, Option.bind_some]
  by_cases h0 : c = 0
  · refine ⟨k.paging, pa, ?_, hw, hpa⟩
    unfold printed
    rw [if_pos h0, if_pos h0]
    rfl
  rw [if_neg h0]
  cases hhid : hiddenTerminal k term with
  | none => exact ⟨k.paging, pa, putcBody_window hw hx hy h0 htab, hw, hpa⟩
  | some t =>
    obtain ⟨q, hq, hwq⟩ := hw.remap video (by decide)
    have hdraw : putcBody (k.setPaging q) c = some ((k.setPaging q).show
        (printed k.mem video video k.screenX k.screenY c)) :=
      putcBody_window (k := k.setPaging q) hwq hx hy h0 htab
    obtain ⟨r, hr, hwr⟩ := Window.remap (k := (k.setPaging q).show
      (printed k.mem video video k.screenX k.screenY c)) hwq (vidMemBufAddr t)
      (vidMemBufAddr_aligned t)
    refine ⟨r, vidMemBufAddr t, ?_, hwr, Or.inr ⟨t, rfl⟩⟩
    dsimp only
    rw [hq, hdraw, Option.bind_eq_bind, Option.bind_some]
    refine congrArg some (Eq.trans ?_ hr)
    rw [← hbuf t]
    rfl

theorem putc_eq {term : Option (Fin 3)} (hw : Window k.paging (getCurrentPcb k).pid pa)
    (hpa : IsScreen pa) (hterm : getRunningTerminal k = some term)
    (hbuf : ∀ u, (k.terminals u).vidMemBuf = vidMemBufAddr u) (hx : k.screenX < numCols)
    (hy : k.screenY < numRows) (c : UInt8) :
    ∃ q pa', putc k c = some ((k.setPaging q).show (printed k.mem
        (drawnAt (hiddenTerminal k term) pa) (drawnAt (hiddenTerminal k term) pa)
        k.screenX k.screenY c)) ∧
      Window q (getCurrentPcb k).pid pa' ∧ IsScreen pa' := by
  unfold putc
  by_cases htab : c = tab
  · rw [if_pos htab, hterm, Option.bind_eq_bind, Option.bind_some, htab, printed_tab]
    cases hhid : hiddenTerminal k term with
    | none =>
      obtain ⟨q, pa', h1, h2⟩ := putcChar_eq (c := space) hw hpa hterm hbuf hx hy (by decide)
      rw [hhid] at h1
      exact ⟨q, pa', h1, h2⟩
    | some t =>
      obtain ⟨q, hq, hwq⟩ := hw.remap video (by decide)
      obtain ⟨r, pa', h1, h2⟩ := putcChar_eq (k := k.setPaging q) (c := space) hwq (Or.inl rfl)
        hterm hbuf hx hy (by decide)
      have hhid' : hiddenTerminal (k.setPaging q) term = some t := hhid
      rw [hhid'] at h1
      dsimp only
      rw [hq]
      exact ⟨r, pa', h1, h2⟩
  · rw [if_neg htab]
    exact putcChar_eq hw hpa hterm hbuf hx hy htab

/-! ## clear -/

/-- What `clear` does to the saved cursor of the displayed terminal. -/
def resetSaved (k : Kernel) (hidden : Option (Fin 3)) : Kernel :=
  hidden.elim k fun _ => setTerminalScreenXY k k.currentTerminal 0 0

theorem clear_eq {term : Option (Fin 3)} (hw : Window k.paging (getCurrentPcb k).pid pa)
    (hpa : IsScreen pa) (hterm : getRunningTerminal k = some term)
    (hbuf : ∀ u, (k.terminals u).vidMemBuf = vidMemBufAddr u) :
    ∃ q pa', clear k = some (((resetSaved k (hiddenTerminal k term)).setPaging q).show
        ⟨fillMem k.mem (drawnAt (hiddenTerminal k term) pa) 0 (numRows * numCols), 0, 0⟩) ∧
      Window q (getCurrentPcb k).pid pa' ∧ IsScreen pa' := by
  unfold clear
  rw [hterm, Option.bind_eq_bind, Option.bind_some]
  cases hhid : hiddenTerminal k term with
  | none =>
    refine ⟨k.paging, pa, ?_, hw, hpa⟩
    dsimp only
    rw [fillCells_eq hw.area_video (by decide), Option.bind_eq_bind, Option.bind_some]
    rfl
  | some t =>
    obtain ⟨q, hq, hwq⟩ := hw.remap video (by decide)
    have hfill := fillCells_eq (k := k.setPaging q) (i := 0) (n := numRows * numCols)
      hwq.area_video (by decide)
    obtain ⟨r, hr, hwr⟩ := Window.remap (k := (k.setPaging q).setMem
      (fillMem k.mem video 0 (numRows * numCols))) hwq (vidMemBufAddr t) (vidMemBufAddr_aligned t)
    refine ⟨r, vidMemBufAddr t, ?_, hwr, Or.inr ⟨t, rfl⟩⟩
    dsimp only
    rw [hq, hfill, Option.bind_eq_bind, Option.bind_some]
    rw [← hbuf t] at hr
    refine congrArg some ?_
    refine Eq.trans (congrArg (fun k' : Kernel =>
      setScreenXY (setTerminalScreenXY k' k'.currentTerminal 0 0) 0 0) hr) ?_
    rfl

/-! ## terminal_putc -/

/-- The position of a terminal: the screen's if it is displayed, else its own. -/
def Kernel.cursor (k : Kernel) (t : Fin 3) : Nat × Nat :=
  if t = k.currentTerminal then (k.screenX, k.screenY)
  else ((k.terminals t).screenX, (k.terminals t).screenY)

/-- Memory and the position of a terminal. -/
def Kernel.showOn (k : Kernel) (t : Fin 3) (p : Printed) : Kernel :=
  if t = k.currentTerminal then k.show p
  else (k.setTerminal t { k.terminals t with screenX := p.x, screenY := p.y }).setMem p.mem

/-- A backspace to a hidden terminal that is in its upper left corner. -/
def Wraps (k : Kernel) (t : Fin 3) (c : UInt8) : Prop :=
  t ≠ k.currentTerminal ∧ c = backspace ∧ k.cursor t = (0, 0)

theorem showOn_self (k : Kernel) (t : Fin 3) :
    k.showOn t ⟨k.mem, (k.cursor t).1, (k.cursor t).2⟩ = k := by
  unfold Kernel.showOn Kernel.cursor
  split
  · rfl
  · dsimp only
    unfold Kernel.setTerminal
    rw [Function.update_eq_self]
    rfl

theorem showOn_setMem (k : Kernel) (t : Fin 3) (mem : Nat → UInt8) (p : Printed) :
    (k.setMem mem).showOn t p = k.showOn t p := by
  unfold Kernel.showOn
  by_cases ht : t = k.currentTerminal
  · rw [if_pos ht, if_pos (show t = (k.setMem mem).currentTerminal from ht)]
    rfl
  · rw [if_neg ht, if_neg (show ¬ t = (k.setMem mem).currentTerminal from ht)]
    rfl

/-- The setter `terminal_putc` uses. -/
def Kernel.setXY (k : Kernel) (t : Fin 3) (x y : Nat) : Kernel :=
  if t = k.currentTerminal then setScreenXY k x y else setTerminalScreenXY k t x y

/-- For a position on the screen. -/
theorem setXY_eq (k : Kernel) (t : Fin 3) (mem : Nat → UInt8) {x y : Nat} (hx : x < numCols)
    (hy : y < numRows) : (k.setMem mem).setXY t x y = k.showOn t ⟨mem, x, y⟩ := by
  unfold Kernel.setXY Kernel.showOn
  by_cases ht : t = k.currentTerminal
  · rw [if_pos ht, if_pos (show t = (k.setMem mem).currentTerminal from ht)]
    unfold setScreenXY
    rw [if_pos ⟨hy, hx⟩]
    rfl
  · rw [if_neg ht, if_neg (show ¬ t = (k.setMem mem).currentTerminal from ht)]
    unfold setTerminalScreenXY
    rw [if_neg (by omega)]
    rfl

/-- The clearing it does for a backspace. -/
def Kernel.clearXY (k : Kernel) (t : Fin 3) : Option Kernel :=
  if t = k.currentTerminal then clearScreenXY k else clearTerminalScreenXY k t

theorem clearXY_eq (t : Fin 3) {x y : Nat} (harea : Area k.paging video pa screenBytes)
    (hx : x < numCols) (hy : y < numRows) : (k.showOn t ⟨k.mem, x, y⟩).clearXY t =
      some (k.showOn t ⟨cellMem k.mem pa (numCols * y + x) space, x, y⟩) := by
  unfold Kernel.clearXY Kernel.showOn
  by_cases ht : t = k.currentTerminal
  · rw [if_pos ht, if_pos ht, if_pos (show t = (k.show _).currentTerminal from ht)]
    exact putCell_eq (k := k.show ⟨k.mem, x, y⟩) harea (cell_lt hx hy) space
  · rw [if_neg ht, if_neg ht, if_neg (show ¬ t = ((k.setTerminal t _).setMem _).currentTerminal
      from ht)]
    unfold clearTerminalScreenXY
    dsimp only
    rw [setMem_terminals, setTerminal_terminals, Function.update_self]
    exact putCell_eq (k := k.setTerminal t _) harea (cell_lt hx hy) space

/-- The position a backspace leads to. -/
theorem prevCell_wrap {x y : Nat} (hx : x < numCols) (h : ¬ (x = 0 ∧ y = 0)) :
    (if x = 0 ∧ 0 < y then (numCols - 1, y - 1) else ((x + 65535) % 65536, y)) = prevCell x y := by
  unfold prevCell
  by_cases hx0 : x = 0
  · rw [if_pos ⟨hx0, by omega⟩, if_pos hx0, if_neg (by omega)]
  · have hprev : (x + 65535) % 65536 = x - 1 := by
      unfold numCols at hx
      omega
    rw [if_neg (by omega), if_neg hx0, hprev]

/-- A newline. -/
theorem terminalNewline_eq (t : Fin 3) {y : Nat} (hvideo : Area k.paging video pa screenBytes)
    (hy : y < numRows) :
    (if y < numRows - 1 then some (k.setXY t 0 (y + 1))
      else (scrollUp k).bind fun k => some (k.setXY t 0 y)) =
    some (k.showOn t (nextLine k.mem pa y)) := by
  unfold nextLine
  by_cases hrow : y + 1 < numRows
  · rw [if_pos (by omega), if_pos hrow]
    exact congrArg some (setXY_eq k t k.mem (by decide) hrow)
  · rw [if_neg (by omega), if_neg hrow, scrollUp_eq hvideo, Option.bind_some]
    exact congrArg some (setXY_eq k t _ (by decide) hy)

/-- A backspace. In the upper left corner the position past the left edge is refused. -/
theorem terminalBackspace_eq {x y : Nat} (hvideo : Area k.paging video pa screenBytes)
    (hx : x < numCols) (hy : y < numRows) (hcursor : k.showOn t ⟨k.mem, x, y⟩ = k)
    (hcorner : x = 0 ∧ y = 0 → t = k.currentTerminal) {p : Nat × Nat}
    (hp : (if x = 0 ∧ 0 < y then (numCols - 1, y - 1) else ((x + 65535) % 65536, y)) = p) :
    (k.setXY t p.1 p.2).clearXY t = some (k.showOn t
      ⟨cellMem k.mem pa (numCols * (prevCell x y).2 + (prevCell x y).1) space,
        (prevCell x y).1, (prevCell x y).2⟩) := by
  subst hp
  obtain ⟨hx', hy'⟩ := prevCell_lt hx hy
  by_cases h0 : x = 0 ∧ y = 0
  · have ht := hcorner h0
    obtain ⟨rfl, rfl⟩ := h0
    have hstay : k.setXY t 65535 0 = k.showOn t ⟨k.mem, 0, 0⟩ := by
      rw [hcursor, Kernel.setXY, if_pos ht]
      rfl
    exact (congrArg (fun k1 : Kernel => k1.clearXY t) hstay).trans
      (clearXY_eq t hvideo (by decide) (by decide))
  · rw [prevCell_wrap hx h0]
    exact (congrArg (fun k1 : Kernel => k1.clearXY t) (setXY_eq k t k.mem hx' hy')).trans
      (clearXY_eq t hvideo hx' hy')

/-- The step to the next cell, behind a character. -/
theorem terminalAdvance_eq (t : Fin 3) {x y : Nat} (hvideo : Area k.paging video pa screenBytes)
    (hx : x < numCols) (hy : y < numRows) :
    (if 0 < (x + 1) % 65536 / numCols then
      if y = numRows - 1 then (scrollUp k).bind fun k =>
        some (k.setXY t ((x + 1) % 65536 % numCols) y)
      else some (k.setXY t ((x + 1) % 65536 % numCols)
        ((y + (x + 1) % 65536 / numCols) % numRows))
    else some (k.setXY t ((x + 1) % 65536 % numCols) y)) =
    some (k.showOn t (if x + 1 < numCols then ⟨k.mem, x + 1, y⟩ else nextLine k.mem pa y)) := by
  have hword : (x + 1) % 65536 = x + 1 := by
    unfold numCols at hx
    omega
  rw [hword]
  unfold nextLine
  by_cases hcol : x + 1 < numCols
  · have hdiv : ¬ 0 < (x + 1) / numCols := by
      rw [Nat.div_eq_of_lt hcol]
      omega
    rw [if_neg hdiv, if_pos hcol, Nat.mod_eq_of_lt hcol]
    exact congrArg some (setXY_eq k t _ hcol hy)
  · have hfull : x + 1 = numCols := by omega
    rw [if_neg hcol, hfull, Nat.div_self (by decide), Nat.mod_self, if_pos Nat.zero_lt_one]
    by_cases hrow : y + 1 < numRows
    · rw [if_neg (by omega), if_pos hrow, Nat.mod_eq_of_lt hrow]
      exact congrArg some (setXY_eq k t _ (by decide) hrow)
    · rw [if_pos (by omega), if_neg hrow, scrollUp_eq hvideo, Option.bind_some]
      exact congrArg some (setXY_eq k t _ (by decide) hy)

theorem terminalPutcChar_eq {proc : Nat} (hw : Window k.paging proc pa)
    (hid : (k.terminals t).id = t) (hbuf : (k.terminals t).vidMemBuf = vidMemBufAddr t)
    (hx : (k.cursor t).1 < numCols) (hy : (k.cursor t).2 < numRows) (htab : c ≠ tab)
    (hno : ¬ Wraps k t c) :
    terminalPutcChar k t c = some (k.showOn t (printed k.mem
      (if t = k.currentTerminal then pa else vidMemBufAddr t) pa (k.cursor t).1 (k.cursor t).2
      c)) := by
  have hself := showOn_self k t
  have hvideo : Area k.paging video pa screenBytes := hw.area_video.mono (by decide)
  have hbase : Area k.paging (if t = k.currentTerminal then video else vidMemBufAddr t)
      (if t = k.currentTerminal then pa else vidMemBufAddr t) screenBytes := by
    split
    · exact hvideo
    · exact (hw.area_buf t).mono (by decide)
  have hcx : (if t = k.currentTerminal then k.screenX else (k.terminals t).screenX) =
      (k.cursor t).1 := by
    unfold Kernel.cursor
    split <;> rfl
  have hcy : (if t = k.currentTerminal then k.screenY else (k.terminals t).screenY) =
      (k.cursor t).2 := by
    unfold Kernel.cursor
    split <;> rfl
  have hcorner : c = backspace → (k.cursor t).1 = 0 ∧ (k.cursor t).2 = 0 → t = k.currentTerminal := by
    intro hc h0
    by_contra ht
    exact hno ⟨ht, hc, Prod.ext h0.1 h0.2⟩
  unfold terminalPutcChar printed
  simp only [hid, hbuf, hcx, hcy]
  generalize (k.cursor t).1 = x at *
  generalize (k.cursor t).2 = y at *
  split
  · rw [hself]
  split
  · exact terminalNewline_eq t hvideo hy
  split
  · rename_i hc
    exact terminalBackspace_eq hvideo hx hy hself (hcorner hc) rfl
  · rw [putCell_eq hbase (cell_lt hx hy) c, Option.bind_eq_bind, Option.bind_some]
    have hadvance := terminalAdvance_eq (k := k.setMem (cellMem k.mem
      (if t = k.currentTerminal then pa else vidMemBufAddr t) (numCols * y + x) c)) t hvideo hx hy
    rwa [showOn_setMem] at hadvance

theorem terminalPutc_eq {proc : Nat} (hw : Window k.paging proc pa)
    (hid : (k.terminals t).id = t) (hbuf : (k.terminals t).vidMemBuf = vidMemBufAddr t)
    (hx : (k.cursor t).1 < numCols) (hy : (k.cursor t).2 < numRows) (hno : ¬ Wraps k t c) :
    terminalPutc k t c = some (k.showOn t (printed k.mem
      (if t = k.currentTerminal then pa else vidMemBufAddr t) pa (k.cursor t).1 (k.cursor t).2
      c)) := by
  unfold terminalPutc
  by_cases htab : c = tab
  · have hne : ¬ Wraps k t space := fun h => absurd h.2.1 (by decide)
    rw [if_pos htab, htab, printed_tab]
    exact terminalPutcChar_eq hw hid hbuf hx hy (by decide) hne
  · rw [if_neg htab]
    exact terminalPutcChar_eq hw hid hbuf hx hy htab hno

/-- In the corner the column wraps, which `set_terminal_screen_xy` accepts. -/
theorem terminalPutc_wraps {proc : Nat} (hw : Window k.paging proc pa)
    (hid : (k.terminals t).id = t) (hwraps : Wraps k t c) : ∃ mem, terminalPutc k t c =
      some ((k.setTerminal t { k.terminals t with screenX := 65535, screenY := 0 }).setMem mem) := by
  obtain ⟨ht, rfl, h0⟩ := hwraps
  unfold Kernel.cursor at h0
  rw [if_neg ht, Prod.mk.injEq] at h0
  obtain ⟨term, hterm⟩ : ∃ term : Terminal,
    term = { k.terminals t with screenX := 65535, screenY := 0 } := ⟨_, rfl⟩
  have hset : setTerminalScreenXY k t 65535 0 = k.setTerminal t term := by
    unfold setTerminalScreenXY
    rw [if_neg (by decide), hterm]
  have hc : (if backspace = tab then space else backspace) = backspace := by decide
  have hpos : (if True ∧ 0 < 0 then (numCols - 1, 0 - 1) else ((0 + 65535) % 65536, 0)) =
      (65535, 0) := if_neg fun h => absurd h.2 (Nat.lt_irrefl 0)
  -- the cell lies 128KB past VIDEO
  have hpage := hw.area_low (i := 0xD7) (by decide) (by decide) (by decide)
  have h1 : k.paging.phys (video + 2 * (numCols * 0 + 65535)) = some 0xD7FFE :=
    hpage 0xFFE (by decide)
  have h2 : k.paging.phys (video + 2 * (numCols * 0 + 65535) + 1) = some 0xD7FFF :=
    hpage 0xFFF (by decide)
  rw [← hterm]
  unfold terminalPutc terminalPutcChar
  simp only [hc, hid, if_neg ht, h0.1, h0.2]
  rw [if_neg (by decide), if_neg (by decide), if_pos trivial, hpos, hset]
  rw [if_neg (show ¬ t = (k.setTerminal t term).currentTerminal from ht)]
  unfold clearTerminalScreenXY putCell
  dsimp only
  rw [setTerminal_terminals, Function.update_self, hterm]
  dsimp only
  rw [← hterm, store_eq (k := k.setTerminal t term) space h1, Option.bind_eq_bind,
    Option.bind_some, store_eq (k := (k.setTerminal t term).setMem _) attrib h2]
  exact ⟨_, rfl⟩

/-! ## What a routine does to the screens -/

/-- The saved cursor of a terminal. -/
def Terminal.position (term : Terminal) : Nat × Nat := (term.screenX, term.screenY)

theorem cursor_displayed (k : Kernel) : k.cursor k.currentTerminal = (k.screenX, k.screenY) := by
  unfold Kernel.cursor
  rw [if_pos rfl]

theorem cursor_hidden (ht : t ≠ k.currentTerminal) : k.cursor t = (k.terminals t).position := by
  unfold Kernel.cursor Terminal.position
  rw [if_neg ht]

/-- Memory and the position of `t` have become `p`; of the rest, only the saved position of the
    displayed terminal, which nothing reads, may have changed with it. -/
structure Drawn (k k' : Kernel) (t : Fin 3) (p : Printed) : Prop where
  mem : k'.mem = p.mem
  cursor : k'.cursor t = (p.x, p.y)
  others : ∀ u, u ≠ t → k'.cursor u = k.cursor u
  saved : (k'.terminals k.currentTerminal).position =
      (k.terminals k.currentTerminal).position ∨
    (k'.terminals k.currentTerminal).position = (p.x, p.y)
  frame : Frame k k'
  window : ∃ pa, Window k'.paging (getCurrentPcb k).pid pa ∧ IsScreen pa

/-- The state the printing routines find. -/
structure Drawable (k : Kernel) : Prop where
  id : ∀ t, (k.terminals t).id = t
  vidMemBuf : ∀ t, (k.terminals t).vidMemBuf = vidMemBufAddr t
  window : ∃ pa, Window k.paging (getCurrentPcb k).pid pa ∧ IsScreen pa
  terminal : ∃ term, getRunningTerminal k = some term

theorem getRunningTerminal_frame {k' : Kernel} (h : Frame k k') :
    getRunningTerminal k' = getRunningTerminal k :=
  getRunningTerminal_congr h.runningPid (fun t => (h.terminals t).pid) (fun s => by rw [h.pcbs])
    (fun s => by rw [h.pcbs]) fun s => by rw [h.pcbs]

theorem Drawn.drawable {k' : Kernel} {p : Printed} (h : Drawn k k' t p) (hs : Drawable k) :
    Drawable k' where
  id := fun u => ((h.frame.terminals u).id).trans (hs.id u)
  vidMemBuf := fun u => ((h.frame.terminals u).vidMemBuf).trans (hs.vidMemBuf u)
  window := by
    rw [h.frame.currentPcb]
    exact h.window
  terminal := by
    rw [getRunningTerminal_frame h.frame]
    exact hs.terminal

theorem putc_drawn {term : Option (Fin 3)} (hw : Window k.paging (getCurrentPcb k).pid pa)
    (hpa : IsScreen pa) (hs : Drawable k) (hterm : getRunningTerminal k = some term)
    (hx : k.screenX < numCols) (hy : k.screenY < numRows) (c : UInt8) :
    ∃ k', putc k c = some k' ∧ Drawn k k' k.currentTerminal (printed k.mem
      (drawnAt (hiddenTerminal k term) pa) (drawnAt (hiddenTerminal k term) pa)
      k.screenX k.screenY c) := by
  obtain ⟨q, pa', heq, hw', hpa'⟩ := putc_eq hw hpa hterm hs.vidMemBuf hx hy c
  refine ⟨_, heq, rfl, cursor_displayed _, fun u hu => ?_, Or.inl rfl, frame_putc heq,
    pa', hw', hpa'⟩
  rw [cursor_hidden hu]
  exact cursor_hidden hu

theorem clear_drawn {term : Option (Fin 3)} (hw : Window k.paging (getCurrentPcb k).pid pa)
    (hpa : IsScreen pa) (hs : Drawable k) (hterm : getRunningTerminal k = some term) :
    ∃ k', clear k = some k' ∧ Drawn k k' k.currentTerminal
      ⟨fillMem k.mem (drawnAt (hiddenTerminal k term) pa) 0 (numRows * numCols), 0, 0⟩ := by
  obtain ⟨q, pa', heq, hw', hpa'⟩ := clear_eq hw hpa hterm hs.vidMemBuf
  have hcur : (resetSaved k (hiddenTerminal k term)).currentTerminal = k.currentTerminal := by
    unfold resetSaved
    cases hiddenTerminal k term <;> rfl
  have hterms : ∀ u, u ≠ k.currentTerminal →
      (resetSaved k (hiddenTerminal k term)).terminals u = k.terminals u := by
    intro u hu
    unfold resetSaved
    cases hiddenTerminal k term with
    | none => rfl
    | some v => exact Function.update_of_ne hu _ _
  refine ⟨_, heq, rfl, ?_, fun u hu => ?_, ?_, frame_clear heq, pa', hw', hpa'⟩
  · rw [← hcur]
    exact cursor_displayed _
  · rw [cursor_hidden hu]
    refine (cursor_hidden (by rw [← hcur] at hu; exact hu)).trans ?_
    exact congrArg Terminal.position (hterms u hu)
  · unfold resetSaved
    cases hiddenTerminal k term with
    | none => exact Or.inl rfl
    | some v =>
      refine Or.inr ?_
      show Terminal.position (Function.update k.terminals k.currentTerminal _ _) = _
      rw [Function.update_self]
      rfl

theorem terminalPutc_drawn (hw : Window k.paging (getCurrentPcb k).pid pa)
    (hpa : IsScreen pa) (hs : Drawable k) (hx : (k.cursor t).1 < numCols)
    (hy : (k.cursor t).2 < numRows) (hno : ¬ Wraps k t c) :
    ∃ k', terminalPutc k t c = some k' ∧ k'.paging = k.paging ∧ Drawn k k' t (printed k.mem
      (if t = k.currentTerminal then pa else vidMemBufAddr t) pa (k.cursor t).1 (k.cursor t).2
      c) := by
  have hpaging : ∀ p, (k.showOn t p).paging = k.paging := by
    intro p
    unfold Kernel.showOn
    split <;> rfl
  refine ⟨_, terminalPutc_eq hw (hs.id t) (hs.vidMemBuf t) hx hy hno, hpaging _, ?_⟩
  generalize printed k.mem _ pa (k.cursor t).1 (k.cursor t).2 c = p
  unfold Kernel.showOn
  by_cases ht : t = k.currentTerminal
  · rw [if_pos ht, ht]
    refine ⟨rfl, cursor_displayed _, fun u hu => ?_, Or.inl rfl, { Frame.refl k with },
      pa, hw, hpa⟩
    rw [cursor_hidden hu]
    exact cursor_hidden hu
  · rw [if_neg ht]
    have hcur : ∀ u, u ≠ t →
        ((k.setTerminal t { k.terminals t with screenX := p.x, screenY := p.y }).setMem
          p.mem).cursor u = k.cursor u := by
      intro u hu
      unfold Kernel.cursor
      rw [setMem_terminals, setTerminal_terminals, Function.update_of_ne hu]
      rfl
    refine ⟨rfl, ?_, hcur, Or.inl ?_,
      (frame_setTerminal k t ⟨p.x, p.y, rfl⟩).trans (frame_mem _ _), pa, hw, hpa⟩
    · rw [cursor_hidden (k := (k.setTerminal t _).setMem p.mem) ht, setMem_terminals,
        setTerminal_terminals, Function.update_self]
      rfl
    · rw [setMem_terminals, setTerminal_terminals, Function.update_of_ne (Ne.symm ht)]

/-! ## switch_terminal -/

/-- A switch from the displayed terminal to `t`. -/
structure SwitchedTo (k k' : Kernel) (t : Fin 3) : Prop where
  mem : k'.mem = switchedMem k.mem k.currentTerminal t
  currentTerminal : k'.currentTerminal = t
  cursor : ∀ u, k'.cursor u = k.cursor u
  saved : (k'.terminals t).position = (k.terminals t).position
  terminals : ∀ u, (k'.terminals u).id = (k.terminals u).id ∧
    (k'.terminals u).vidMemBuf = (k.terminals u).vidMemBuf ∧
    (k'.terminals u).pid = (k.terminals u).pid
  pcbs : k'.pcbs = k.pcbs
  runningPid : k'.runningPid = k.runningPid
  window : Window k'.paging (getCurrentPcb k).pid (vidMemBufAddr k.currentTerminal)

theorem SwitchedTo.terminal {k' : Kernel} (h : SwitchedTo k k' t) :
    getRunningTerminal k' = getRunningTerminal k :=
  getRunningTerminal_congr h.runningPid (fun u => (h.terminals u).2.2) (fun s => by rw [h.pcbs])
    (fun s => by rw [h.pcbs]) fun s => by rw [h.pcbs]

theorem SwitchedTo.currentPcb {k' : Kernel} (h : SwitchedTo k k' t) :
    getCurrentPcb k' = getCurrentPcb k := by
  unfold getCurrentPcb
  rw [h.pcbs, h.runningPid]

theorem SwitchedTo.drawable {k' : Kernel} (h : SwitchedTo k k' t) (hs : Drawable k) :
    Drawable k' where
  id := fun u => (h.terminals u).1.trans (hs.id u)
  vidMemBuf := fun u => (h.terminals u).2.1.trans (hs.vidMemBuf u)
  window := by
    refine ⟨vidMemBufAddr k.currentTerminal, ?_, Or.inr ⟨_, rfl⟩⟩
    rw [h.currentPcb]
    exact h.window
  terminal := by
    rw [h.terminal]
    exact hs.terminal

theorem switchTerminal_spec (hs : Drawable k) (hx : (k.terminals t).screenX < numCols)
    (hy : (k.terminals t).screenY < numRows) (ht : t ≠ k.currentTerminal) :
    ∃ k', switchTerminal k t.val = some k' ∧ SwitchedTo k k' t := by
  obtain ⟨pa, hw, -⟩ := hs.window
  obtain ⟨q, hq, hwq⟩ := restoreTerminal_eq t hw hs.vidMemBuf
  have hswap : swapPosition k t = { k.setTerminal k.currentTerminal { k.terminals k.currentTerminal
      with screenX := k.screenX, screenY := k.screenY } with
      screenX := (k.terminals t).screenX, screenY := (k.terminals t).screenY } := by
    unfold swapPosition setScreenXY
    dsimp only
    rw [setTerminal_terminals, Function.update_of_ne ht, if_pos ⟨hy, hx⟩]
  have hne : ¬ k.currentTerminal.val = t.val := fun he => ht (Fin.ext he.symm)
  unfold switchTerminal
  rw [dif_pos t.isLt, if_neg hne]
  dsimp only
  rw [hq, hswap, Option.bind_eq_bind, Option.bind_some]
  refine ⟨_, rfl, ?_⟩
  generalize hk' : Kernel.setTerminal _ t _ = k'
  have hterms : ∀ u, k'.terminals u =
      if u = t then { k.terminals u with status := .running }
      else if u = k.currentTerminal then
        { k.terminals u with screenX := k.screenX, screenY := k.screenY }
      else k.terminals u := by
    intro u
    rw [← hk']
    by_cases hu : u = t
    · subst hu
      rw [if_pos rfl, setTerminal_terminals, Function.update_self, setPaging_terminals,
        setMem_terminals]
      dsimp only
      rw [setTerminal_terminals, Function.update_of_ne ht]
    · rw [if_neg hu, setTerminal_terminals, Function.update_of_ne hu, setPaging_terminals,
        setMem_terminals]
      dsimp only
      rw [setTerminal_terminals]
      by_cases hu' : u = k.currentTerminal
      · rw [hu', Function.update_self, if_pos rfl]
      · rw [Function.update_of_ne hu', if_neg hu']
  have hcur : k'.currentTerminal = t := by rw [← hk']; rfl
  have hscreen : k'.screenX = (k.terminals t).screenX ∧ k'.screenY = (k.terminals t).screenY := by
    rw [← hk']
    exact ⟨rfl, rfl⟩
  refine ⟨by rw [← hk']; rfl, hcur, fun u => ?_, ?_, fun u => ?_, by rw [← hk']; rfl,
    by rw [← hk']; rfl, by rw [← hk']; exact hwq⟩
  · unfold Kernel.cursor
    rw [hcur, hscreen.1, hscreen.2, hterms]
    by_cases hu : u = t
    · rw [if_pos hu, if_neg (by rw [hu]; exact ht), hu]
    · rw [if_neg hu, if_neg hu]
      split <;> rfl
  · rw [hterms, if_pos rfl]
    rfl
  · rw [hterms]
    split
    · exact ⟨rfl, rfl, rfl⟩
    · split <;> exact ⟨rfl, rfl, rfl⟩

end Mp3Kernel
