/-
  What printing a character does to memory and to the cursor.

  The three paths, `putc` and `terminal_putc` for a displayed and for a hidden terminal, are
  one function of memory, cursor and character, `printed`: the character goes to the screen at
  `pb`, scrolls and backspaces to the one at `pa`, where VIDEO is mapped. It writes nothing
  outside the two (`printed_outside`) and keeps the cursor on the screen (`printed_lt`).

  Where both go to one screen, `printed` is the reference renderer on it (`screenAt_printed`).
-/
import Mp3Kernel.Base.TextScreen
import Mp3Kernel.Proofs.Window

namespace Mp3Kernel

open Base

variable {k : Kernel} {mem : Nat → UInt8} {pa pb x y : Nat} {c : UInt8}

/-! ## Memory and cursor -/

/-- Memory after `scrollUp`. -/
def scrollMem (mem : Nat → UInt8) (pa : Nat) : Nat → UInt8 :=
  fillMem (copyBytes mem pa (pa + numCols * 2) (numCols * (numRows - 1) * 2)) pa
    (numCols * (numRows - 1)) numCols

structure Printed where
  mem : Nat → UInt8
  x : Nat
  y : Nat

/-- The start of the next row. -/
def nextLine (mem : Nat → UInt8) (pa y : Nat) : Printed :=
  if y + 1 < numRows then ⟨mem, 0, y + 1⟩ else ⟨scrollMem mem pa, 0, y⟩

/-- The cell before; none before the first. -/
def prevCell (x y : Nat) : Nat × Nat :=
  if x = 0 then if y = 0 then (0, 0) else (numCols - 1, y - 1) else (x - 1, y)

def printed (mem : Nat → UInt8) (pb pa x y : Nat) (c : UInt8) : Printed :=
  if c = 0 then ⟨mem, x, y⟩
  else if c = newline then nextLine mem pa y
  else if c = backspace then
    ⟨cellMem mem pa (numCols * (prevCell x y).2 + (prevCell x y).1) space, (prevCell x y).1,
      (prevCell x y).2⟩
  else
    let mem := cellMem mem pb (numCols * y + x) (if c = tab then space else c)
    if x + 1 < numCols then ⟨mem, x + 1, y⟩ else nextLine mem pa y

/-! ## The reference renderer -/

abbrev Screen := TextScreen (UInt8 × UInt8)

def glyph (c : UInt8) : UInt8 × UInt8 := (c, attrib)

/-- What a terminal is given to show. -/
inductive Key where
  | char (c : UInt8)
  | clear

def reference (s : Screen) : Key → Screen
  | .clear => TextScreen.clear (glyph space)
  | .char c =>
    if c = 0 then s
    else if c = newline then s.newline numCols numRows (glyph space)
    else if c = backspace then s.backspace numCols (glyph space)
    else s.print numCols numRows (glyph space) (glyph (if c = tab then space else c))

def InScreen (s : Screen) : Prop := TextScreen.Within numCols numRows s

theorem InScreen.reference {s : Screen} (h : InScreen s) (key : Key) :
    InScreen (reference s key) := by
  cases key with
  | clear => exact TextScreen.within_clear (by decide) (by decide)
  | char c =>
    show InScreen (if c = 0 then s else _)
    split
    · exact h
    split
    · exact TextScreen.Within.newline h
    split
    · exact TextScreen.Within.backspace h
    · exact TextScreen.Within.print h _

/-- The screen that memory holds at `pa`. -/
def screenAt (mem : Nat → UInt8) (pa x y : Nat) : Screen where
  cells := fun i => if i < numCols * numRows then (mem (pa + 2 * i), mem (pa + 2 * i + 1))
    else glyph space
  x := x
  y := y

theorem screenAt_eq {m : Nat → UInt8} (hmem : ∀ j, j < screenBytes → m (pa + j) = mem (pb + j)) :
    screenAt m pa x y = screenAt mem pb x y := by
  unfold screenAt
  congr 1
  funext i
  split
  · rename_i hi
    have hlt : 2 * i + 1 < screenBytes := by
      unfold screenBytes numCols numRows at *
      omega
    rw [Nat.add_assoc, Nat.add_assoc, hmem (2 * i) (by omega), hmem (2 * i + 1) hlt]
  · rfl

theorem screenAt_cellMem {i : Nat} (hi : i < numCols * numRows) :
    (screenAt (cellMem mem pa i c) pa x y).cells =
      Function.update (screenAt mem pa x y).cells i (glyph c) := by
  funext j
  unfold screenAt cellMem
  dsimp only
  by_cases hj : j = i
  · subst hj
    rw [Function.update_self, if_pos hi, Function.update_self,
      Function.update_of_ne (by omega), Function.update_self]
    rfl
  · rw [Function.update_of_ne hj]
    split
    · rw [Function.update_of_ne (by omega), Function.update_of_ne (by omega),
        Function.update_of_ne (by omega), Function.update_of_ne (by omega)]
    · rfl

theorem screenAt_fillMem {i n : Nat} :
    (screenAt (fillMem mem pa i n) pa x y).cells = fun j =>
      if i ≤ j ∧ j < i + n then glyph space else (screenAt mem pa x y).cells j := by
  funext j
  unfold screenAt fillMem
  dsimp only
  by_cases hj : j < numCols * numRows
  · rw [if_pos hj, if_pos hj]
    by_cases hin : i ≤ j ∧ j < i + n
    · rw [if_pos hin, if_pos (by omega), if_pos (by omega), if_pos (by omega), if_neg (by omega)]
      rfl
    · rw [if_neg hin, if_neg (by omega), if_neg (by omega)]
  · rw [if_neg hj, if_neg hj]
    split <;> rfl

theorem screenAt_scrollMem : screenAt (scrollMem mem pa) pa x y =
    (screenAt mem pa x y).scroll numCols numRows (glyph space) := by
  have hcells : (screenAt (scrollMem mem pa) pa x y).cells =
      ((screenAt mem pa x y).scroll numCols numRows (glyph space)).cells := by
    unfold scrollMem
    rw [screenAt_fillMem]
    funext j
    unfold TextScreen.scroll screenAt copyBytes numCols numRows
    dsimp only
    by_cases hj : j < 80 * (25 - 1)
    · have h0 : pa + 80 * 2 + (pa + 2 * j - pa) = pa + 2 * (j + 80) := by omega
      have h1 : pa + 80 * 2 + (pa + 2 * j + 1 - pa) = pa + 2 * (j + 80) + 1 := by omega
      rw [if_neg (by omega), if_pos hj, if_pos (by omega), if_pos (by omega), if_pos (by omega),
        if_pos (by omega), h0, h1]
    · rw [if_neg hj]
      split
      · rfl
      · rw [if_neg (by omega)]
  exact congrArg (fun cells => TextScreen.mk cells x y) hcells

/-! ## Printing is rendering -/

theorem screenAt_set (hx : x < numCols) (hy : y < numRows) :
    screenAt (cellMem mem pa (numCols * y + x) c) pa x y =
      (screenAt mem pa x y).set numCols (glyph c) := by
  have hcell : numCols * y + x < numCols * numRows := by
    unfold numCols numRows at *
    omega
  exact congrArg (fun cells => TextScreen.mk cells x y) (screenAt_cellMem hcell)

theorem screenAt_nextLine : screenAt (nextLine mem pa y).mem pa (nextLine mem pa y).x
    (nextLine mem pa y).y = (screenAt mem pa x y).newline numCols numRows (glyph space) := by
  unfold nextLine TextScreen.newline
  split
  · rename_i hlt
    rw [if_pos (show (screenAt mem pa x y).y + 1 < numRows from hlt)]
    rfl
  · rename_i hlt
    rw [if_neg (show ¬ (screenAt mem pa x y).y + 1 < numRows from hlt), screenAt_scrollMem]
    rfl

theorem prevCell_eq (s : Screen) :
    s.back numCols = ⟨s.cells, (prevCell s.x s.y).1, (prevCell s.x s.y).2⟩ := by
  obtain ⟨cells, x, y⟩ := s
  unfold TextScreen.back prevCell
  dsimp only
  split
  · rename_i hx
    subst hx
    split
    · rename_i hy
      subst hy
      rfl
    · rfl
  · rfl

theorem prevCell_lt (hx : x < numCols) (hy : y < numRows) :
    (prevCell x y).1 < numCols ∧ (prevCell x y).2 < numRows := by
  unfold prevCell
  split
  · split
    · exact ⟨by decide, by decide⟩
    · have hcol : numCols - 1 < numCols := by decide
      exact ⟨hcol, by dsimp only; omega⟩
  · exact ⟨by dsimp only; omega, hy⟩

/-- Printing on one screen is what the reference renderer does. -/
theorem screenAt_printed (hx : x < numCols) (hy : y < numRows) (c : UInt8) :
    screenAt (printed mem pa pa x y c).mem pa (printed mem pa pa x y c).x
      (printed mem pa pa x y c).y = reference (screenAt mem pa x y) (.char c) := by
  unfold printed reference
  dsimp only
  split
  · rfl
  split
  · exact screenAt_nextLine
  split
  · obtain ⟨hx', hy'⟩ := prevCell_lt hx hy
    unfold TextScreen.backspace
    rw [prevCell_eq]
    exact screenAt_set hx' hy'
  · unfold TextScreen.print
    split
    · rename_i hlt
      rw [if_pos (show (screenAt mem pa x y).x + 1 < numCols from hlt), ← screenAt_set hx hy]
      rfl
    · rename_i hlt
      rw [if_neg (show ¬ (screenAt mem pa x y).x + 1 < numCols from hlt), ← screenAt_set hx hy]
      exact screenAt_nextLine

/-- The cursor goes where the renderer's does, whatever the screens hold. -/
theorem printed_cursor (mem : Nat → UInt8) (pb pa x y : Nat) (c : UInt8)
    (cells : Nat → UInt8 × UInt8) :
    (printed mem pb pa x y c).x = (reference ⟨cells, x, y⟩ (.char c)).x ∧
      (printed mem pb pa x y c).y = (reference ⟨cells, x, y⟩ (.char c)).y := by
  have hline : ∀ m : Nat → UInt8, (nextLine m pa y).x = 0 ∧ (nextLine m pa y).y =
      if y + 1 < numRows then y + 1 else y := by
    intro m
    unfold nextLine
    split <;> exact ⟨rfl, rfl⟩
  have hnew : ∀ s : Screen, s.y = y → (s.newline numCols numRows (glyph space)).x = 0 ∧
      (s.newline numCols numRows (glyph space)).y = if y + 1 < numRows then y + 1 else y := by
    intro s hs
    unfold TextScreen.newline
    rw [hs]
    split <;> exact ⟨rfl, by first | rfl | exact hs⟩
  unfold printed reference
  dsimp only
  split
  · exact ⟨rfl, rfl⟩
  split
  · rw [(hline _).1, (hline _).2, (hnew _ rfl).1, (hnew _ rfl).2]
    exact ⟨rfl, rfl⟩
  split
  · unfold TextScreen.backspace
    rw [prevCell_eq]
    exact ⟨rfl, rfl⟩
  · unfold TextScreen.print
    dsimp only
    split
    · exact ⟨rfl, rfl⟩
    · rw [(hline _).1, (hline _).2, (hnew _ rfl).1, (hnew _ rfl).2]
      exact ⟨rfl, rfl⟩

theorem printed_lt (mem : Nat → UInt8) (pb pa : Nat) (hx : x < numCols) (hy : y < numRows)
    (c : UInt8) :
    (printed mem pb pa x y c).x < numCols ∧ (printed mem pb pa x y c).y < numRows := by
  obtain ⟨h1, h2⟩ := printed_cursor mem pb pa x y c fun _ => glyph space
  have hin : InScreen ⟨fun _ => glyph space, x, y⟩ := ⟨hx, hy⟩
  rw [h1, h2]
  exact ⟨(hin.reference (.char c)).x, (hin.reference (.char c)).y⟩

/-! ## What is left alone -/

/-- Outside the visible part of the screen at `pa`. -/
def Outside (pa a : Nat) : Prop := a < pa ∨ pa + screenBytes ≤ a

theorem cellMem_outside {i a : Nat} (hi : i < numCols * numRows) (ha : Outside pa a) :
    cellMem mem pa i c a = mem a := by
  unfold Outside screenBytes at ha
  unfold cellMem
  rw [Function.update_of_ne (by omega), Function.update_of_ne (by omega)]

theorem fillMem_outside {i n a : Nat} (hi : i + n ≤ numCols * numRows) (ha : Outside pa a) :
    fillMem mem pa i n a = mem a := by
  unfold Outside screenBytes at ha
  unfold fillMem
  rw [if_neg (by omega)]

theorem copyBytes_outside {src n a : Nat} (hn : n ≤ screenBytes) (ha : Outside pa a) :
    copyBytes mem pa src n a = mem a := by
  unfold Outside at ha
  unfold copyBytes
  rw [if_neg (by omega)]

theorem scrollMem_outside {a : Nat} (ha : Outside pa a) : scrollMem mem pa a = mem a := by
  unfold scrollMem
  rw [fillMem_outside (by decide) ha, copyBytes_outside (by decide) ha]

theorem nextLine_outside {a : Nat} (ha : Outside pa a) : (nextLine mem pa y).mem a = mem a := by
  unfold nextLine
  split
  · rfl
  · exact scrollMem_outside ha

theorem printed_outside (hx : x < numCols) (hy : y < numRows) {a : Nat} (ha : Outside pa a)
    (hb : Outside pb a) : (printed mem pb pa x y c).mem a = mem a := by
  have hcell : ∀ u v : Nat, u < numCols → v < numRows → numCols * v + u < numCols * numRows := by
    intro u v hu hv
    unfold numCols numRows at *
    omega
  unfold printed
  split
  · rfl
  split
  · exact nextLine_outside ha
  split
  · obtain ⟨hx', hy'⟩ := prevCell_lt hx hy
    exact cellMem_outside (hcell _ _ hx' hy') ha
  · dsimp only
    split
    · exact cellMem_outside (hcell x y hx hy) hb
    · rw [nextLine_outside ha]
      exact cellMem_outside (hcell x y hx hy) hb

end Mp3Kernel
