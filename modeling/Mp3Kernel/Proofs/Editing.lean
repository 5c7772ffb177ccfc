/-
  Line editing, and an editor that goes by the keys.

  The reference (`editKey`) takes one byte at a time and goes by the bytes before it: the make
  of a key with a character types it (`typedChar`), the make of Backspace removes one, and
  nothing else does anything. `handle_keypress` looks up in the table of held keys whether to
  erase, so while Backspace is held every other key that is pressed erases too (`ErasesFor`);
  and where that table has Caps Lock wrong a letter is typed in the wrong case (`WrongCase`).

  * `line_editing_iff`: without such a key, and only then, the line buffer holds the text of
    the reference all along, and so does what is sent to the screen, read back.
-/
import Mp3Kernel.Proofs.Decoding
import Mp3Kernel.Proofs.Delivery

namespace Mp3Kernel

open Base.Runs

/-! ## The reference -/

/-- A character is typed: it is stored if there is room, a newline always. -/
def typeChar (text : List UInt8) (c : UInt8) : List UInt8 :=
  if text.length < lineBufferSize - 1 ∨ c = newline then text ++ [c] else text

/-- The text after the byte `b`, sent behind `bytes`. -/
def editKey (bytes : List Nat) (text : List UInt8) (b : Nat) : List UInt8 :=
  if Unprefixed bytes b then
    if b = scs1PressedBackspace then text.dropLast
    else (typedChar bytes b).elim text (typeChar text)
  else text

/-- The text after a character has been sent to the screen. -/
def replay (text : List UInt8) (c : UInt8) : List UInt8 :=
  if c = backspace then text.dropLast else typeChar text c

/-- What the action sends to `putc`. -/
def KeyAction.sent : KeyAction → List UInt8
  | .erase => [backspace]
  | .append c => [c]
  | _ => []

/-! ## The keyboard at work -/

/-- The kernel and the key states, with the bytes the keyboard has sent since its reset, the
    characters sent to the screen and the text of the reference. -/
structure Typist where
  kernel : Kernel
  keys : Keyboard
  bytes : List Nat
  sent : List UInt8
  text : List UInt8

/-- The terminal that is displayed. -/
def Typist.line (s : Typist) : Terminal := s.kernel.terminals s.kernel.currentTerminal

/-- The kernel `k'` with the displayed line of `k`. -/
def Kernel.keepLine (k k' : Kernel) : Kernel :=
  { k' with
    currentTerminal := k.currentTerminal
    terminals := Function.update k'.terminals k.currentTerminal
      { k'.terminals k.currentTerminal with
        lineBuf := (k.terminals k.currentTerminal).lineBuf
        lineBufIndex := (k.terminals k.currentTerminal).lineBufIndex
        readFlag := (k.terminals k.currentTerminal).readFlag } }

inductive TypistOp where
  | key (b : Nat)
  /-- The rest of the kernel does something else: anything but to the displayed line. -/
  | rest (k : Kernel)

def typistStep (s : Typist) : TypistOp → Option Typist
  | .key b => (handleKeypress s.kernel s.keys b).map fun (k, keys) =>
      { kernel := k
        keys := keys
        bytes := s.bytes ++ [b]
        sent := s.sent ++ (pressAction s.kernel s.keys b).sent
        text := editKey s.bytes s.text b }
  | .rest k => some { s with kernel := s.kernel.keepLine k }

/-- No key is pressed while Alt or Ctrl is held, other than that one itself. -/
def NoChord (bytes : List Nat) (b : Nat) : Prop :=
  Makes bytes b → (b ≠ scs1PressedLeftalt → ¬ LastIsMake bytes scs1PressedLeftalt) ∧
    (b ≠ scs1PressedLeftctrl → ¬ LastIsMake bytes scs1PressedLeftctrl)

instance (bytes : List Nat) (b : Nat) : Decidable (NoChord bytes b) :=
  inferInstanceAs (Decidable (_ → _))

/-- The keys the property is about: up to the first newline, and no chords. -/
def Typable (s : Typist) : TypistOp → Prop
  | .key b => newline ∉ s.line.content ∧ NoChord s.bytes b
  | .rest _ => True

/-- The line, and what has been sent to the screen since the text was `text₀`, read back, are
    the text of the reference. -/
structure TextRight (text₀ : List UInt8) (s : Typist) : Prop where
  content : s.line.content = s.text
  sent : s.sent.foldl replay text₀ = s.text

/-- A key other than Backspace is pressed while Backspace is held, and it erases a character or
    its own is lost. Alt is looked at before, if it makes a chord. -/
def ErasesFor (s : Typist) (b : Nat) : Prop :=
  Makes s.bytes b ∧ b ≠ scs1PressedBackspace ∧ LastIsMake s.bytes scs1PressedBackspace ∧
    ¬ (b = scs1PressedLeftalt ∧ isFuncKey s.keys = true) ∧
    (0 < s.line.lineBufIndex ∨ typedChar s.bytes b ≠ none)

/-- A letter is pressed, and there is room for it, while the table has Caps Lock wrong. -/
def WrongCase (s : Typist) (b : Nat) : Prop :=
  Unprefixed s.bytes b ∧ IsLetterKey b ∧ s.line.lineBufIndex < lineBufferSize - 1 ∧
    CapsWrong s.bytes

/-- The byte does neither. -/
def KeyRight (s : Typist) : TypistOp → Prop
  | .key b => ¬ ErasesFor s b ∧ ¬ WrongCase s b
  | .rest _ => True

/-! ## Keys -/

section Keys

variable {k : Kernel} {keys : Keyboard} {b : Nat}

theorem pressKey_keyState_self (keys : Keyboard) (h : b ≠ scs1PressedCapslock) :
    (pressKey keys b).keyState b = true := by
  unfold pressKey
  rw [if_neg fun hc => h hc.1]
  exact Function.update_self ..

/-- Neither Alt nor Ctrl is held, other than as the key itself. -/
structure ChordFree (keys : Keyboard) (b : Nat) : Prop where
  alt : b ≠ scs1PressedLeftalt → keys.keyState scs1PressedLeftalt = false
  ctrl : b ≠ scs1PressedLeftctrl → keys.keyState scs1PressedLeftctrl = false

theorem Tracks.chordFree {bytes : List Nat} (h : Tracks bytes keys) (hno : NoChord bytes b)
    (hmakes : Makes bytes b) : ChordFree keys b := by
  obtain ⟨halt, hctrl⟩ := hno hmakes
  refine ⟨fun hne => ?_, fun hne => ?_⟩
  · rw [← Bool.not_eq_true, h.keyState _ (by decide) (by decide) (by decide)]
    exact halt hne
  · rw [← Bool.not_eq_true, h.keyState _ (by decide) (by decide) (by decide)]
    exact hctrl hne

theorem isFuncKey_pressAlt (keys : Keyboard) :
    isFuncKey (pressKey keys scs1PressedLeftalt) = isFuncKey keys := by
  have hother : ∀ i, scs1PressedF1 ≤ i →
      (pressKey keys scs1PressedLeftalt).keyState i = keys.keyState i := fun i hi =>
    pressKey_keyState_ne keys (Nat.ne_of_gt (Nat.lt_of_lt_of_le (by decide) hi))
  unfold isFuncKey
  rw [hother scs1PressedF11 (by decide), hother scs1PressedF12 (by decide)]
  simp only [hother _ (Nat.le_add_right ..)]

/-- With Alt there is no other key that counts, so none of the function keys. -/
theorem ChordFree.alt_iff (h : ChordFree keys b) :
    (altPressed (pressKey keys b) = true ∧ isFuncKey (pressKey keys b) = true) ↔
      (b = scs1PressedLeftalt ∧ isFuncKey keys = true) := by
  by_cases hb : b = scs1PressedLeftalt
  · subst hb
    rw [isFuncKey_pressAlt, altPressed, pressKey_keyState_self keys (by decide)]
    simp
  · rw [altPressed, pressKey_keyState_ne keys (Ne.symm hb), h.alt hb]
    simp [hb]

theorem ChordFree.not_clear (h : ChordFree keys b) :
    ¬ ((pressKey keys b).keyState scs1PressedLeftctrl = true ∧ b = scs1PressedL) := by
  rintro ⟨hctrl, rfl⟩
  rw [pressKey_keyState_ne keys (by decide), h.ctrl (by decide)] at hctrl
  cases hctrl

/-- What a key with the character `c` does to a line of `n` characters; 0 is none. -/
def typeAction (n : Nat) (c : UInt8) : KeyAction :=
  if c ≠ 0 ∧ (n < lineBufferSize - 1 ∨ c = newline) then .append c else .ignore

/-- What is left of `handle_keypress` for a press on a terminal that is read. -/
theorem pressAction_press {n : Nat} (hread : (k.terminals k.currentTerminal).readFlag = true)
    (hidx : (k.terminals k.currentTerminal).lineBufIndex = n) (hno : ChordFree keys b)
    (hpress : IsPress keys b) :
    pressAction k keys b =
      if b = scs1PressedLeftalt ∧ isFuncKey keys = true then .ignore
      else if (pressKey keys b).keyState scs1PressedBackspace = true then
        if 0 < n then .erase else .ignore
      else typeAction n (handleDisp keys (keycode b)) := by
  subst hidx
  unfold pressAction keyAction typeAction
  rw [if_pos hpress]
  by_cases halt : b = scs1PressedLeftalt ∧ isFuncKey keys = true
  · rw [if_pos halt, if_pos (hno.alt_iff.mpr halt), halt.1, if_neg (by decide),
      if_neg (by decide), if_neg (by decide)]
  · rw [if_neg halt, if_neg fun hc => halt (hno.alt_iff.mp hc), if_neg hno.not_clear, hread]
    simp only [Bool.not_true, Bool.false_eq_true, if_false]
    split
    · rfl
    · by_cases hdisp : handleDisp keys (keycode b) = 0
      · simp [hdisp]
      · by_cases hroom : (k.terminals k.currentTerminal).lineBufIndex < lineBufferSize - 1
        · simp [hdisp, hroom]
        · simp [hdisp, hroom]

/-- The code's action and the reference's text come to the same. -/
inductive SameEdit (text : List UInt8) : KeyAction → List UInt8 → Prop
  | ignore : SameEdit text .ignore text
  | erase (h : text ≠ []) : SameEdit text .erase text.dropLast
  | append (c : UInt8) (hne : c ≠ backspace)
      (hroom : text.length < lineBufferSize - 1 ∨ c = newline) :
      SameEdit text (.append c) (text ++ [c])

/-- A key with a character, or without. -/
theorem sameEdit_typed {text : List UInt8} {char : Option UInt8} (hzero : char ≠ some 0)
    (hne : char.getD 0 ≠ backspace) :
    SameEdit text (typeAction text.length (char.getD 0)) (char.elim text (typeChar text)) := by
  unfold typeAction
  cases char with
  | none => exact .ignore
  | some c =>
    have hc : c ≠ 0 := fun h => hzero (congrArg some h)
    rw [Option.getD_some, Option.elim_some, typeChar]
    by_cases hroom : text.length < lineBufferSize - 1 ∨ c = newline
    · rw [if_pos ⟨hc, hroom⟩, if_pos hroom]
      exact .append c hne hroom
    · rw [if_neg fun h => hroom h.2, if_neg hroom]
      exact .ignore

/-- A letter in either case, without room for it. -/
theorem sameEdit_full {text : List UInt8} {c c' : UInt8} (hroom : ¬ text.length < lineBufferSize - 1)
    (hc : c ≠ newline) (hc' : c' ≠ newline) :
    SameEdit text (typeAction text.length c) (typeChar text c') := by
  rw [typeAction, if_neg fun h => h.2.elim hroom hc, typeChar,
    if_neg fun h => h.elim hroom hc']
  exact .ignore

/-- Backspace, and what the code takes for it. -/
theorem sameEdit_backspace (text : List UInt8) :
    SameEdit text (if 0 < text.length then .erase else .ignore) text.dropLast := by
  cases text with
  | nil => exact .ignore
  | cons c text => exact .erase (List.cons_ne_nil c text)

end Keys

section Steps

variable {s s' : Typist} {text₀ : List UInt8} {b : Nat}

/-- What the run keeps: the property, and what it rests on. -/
structure Edits (text₀ : List UInt8) (s : Typist) : Prop extends TextRight text₀ s where
  line : LineOk s.line
  reading : s.line.readFlag = true
  room : newline ∈ s.line.content ∨ s.line.lineBufIndex < lineBufferSize
  tracks : Tracks s.bytes s.keys

theorem length_content (term : Terminal) : term.content.length = term.lineBufIndex := by
  simp [Terminal.content]

theorem Edits.length (h : Edits text₀ s) : s.text.length = s.line.lineBufIndex := by
  rw [← h.content, length_content]

/-- What the code does for a key other than Backspace, by the bytes. -/
theorem Edits.pressAction_eq (h : Edits text₀ s) (hno : NoChord s.bytes b)
    (hmakes : Makes s.bytes b) (hb : b ≠ scs1PressedBackspace) :
    pressAction s.kernel s.keys b =
      if b = scs1PressedLeftalt ∧ isFuncKey s.keys = true then .ignore
      else if LastIsMake s.bytes scs1PressedBackspace then
        if 0 < s.text.length then .erase else .ignore
      else typeAction s.text.length (handleDisp s.keys (keycode b)) := by
  rw [pressAction_press h.reading h.length.symm (h.tracks.chordFree hno hmakes)
    (h.tracks.isPress_iff.mpr hmakes), pressKey_keyState_ne s.keys (Ne.symm hb)]
  simp only [h.tracks.keyState scs1PressedBackspace (by decide) (by decide) (by decide)]

theorem Edits.pressAction_backspace (h : Edits text₀ s) (hno : NoChord s.bytes scs1PressedBackspace)
    (hmakes : Makes s.bytes scs1PressedBackspace) :
    pressAction s.kernel s.keys scs1PressedBackspace =
      if 0 < s.text.length then .erase else .ignore := by
  rw [pressAction_press h.reading h.length.symm (h.tracks.chordFree hno hmakes)
    (h.tracks.isPress_iff.mpr hmakes), if_neg fun hc => absurd hc.1 (by decide),
    if_pos (pressKey_keyState_self s.keys (by decide))]

theorem editKey_makes {bytes : List Nat} (text : List UInt8) (hmakes : Makes bytes b)
    (hb : b ≠ scs1PressedBackspace) :
    editKey bytes text b = (typedChar bytes b).elim text (typeChar text) := by
  rw [editKey, if_pos hmakes.1, if_neg hb]

theorem editKey_of_not_makes {bytes : List Nat} (text : List UInt8) (hmakes : ¬ Makes bytes b) :
    editKey bytes text b = text := by
  unfold editKey
  by_cases hown : Unprefixed bytes b
  · have hb : b ≠ scs1PressedBackspace := by
      rintro rfl
      exact hmakes ⟨hown, by decide, by decide⟩
    rw [if_pos hown, if_neg hb, typedChar_of_not_makes hown hmakes]
    rfl
  · exact if_neg hown

/-- A key that is pressed while Backspace is not held. -/
theorem Edits.sameEdit_alone (h : Edits text₀ s) (hb : b ≠ scs1PressedBackspace)
    (hown : Unprefixed s.bytes b) (hcase : ¬ WrongCase s b) :
    SameEdit s.text (typeAction s.text.length (handleDisp s.keys (keycode b)))
      ((typedChar s.bytes b).elim s.text (typeChar s.text)) := by
  by_cases hwrong : IsLetterKey b ∧ CapsWrong s.bytes
  · obtain ⟨c, hc, hline, -, -, hline'⟩ := h.tracks.handleDisp_letter hwrong.1 hwrong.2
    have hfull : ¬ s.text.length < lineBufferSize - 1 := fun hroom =>
      hcase ⟨hown, hwrong.1, h.length ▸ hroom, hwrong.2⟩
    rw [hc, Option.elim_some]
    exact sameEdit_full hfull hline' hline
  · have hchar := h.tracks.handleDisp_eq hb hwrong
    have hne := handleDisp_ne_backspace s.keys b
    rw [hchar] at hne ⊢
    exact sameEdit_typed (decode_ne_zero _ _ b) hne

/-- One byte: what the code does and what the reference does. -/
theorem Edits.sameEdit (h : Edits text₀ s) (hno : NoChord s.bytes b)
    (hright : KeyRight s (.key b)) :
    SameEdit s.text (pressAction s.kernel s.keys b) (editKey s.bytes s.text b) := by
  by_cases hmakes : Makes s.bytes b
  · by_cases hb : b = scs1PressedBackspace
    · subst hb
      rw [h.pressAction_backspace hno hmakes, editKey, if_pos hmakes.1, if_pos rfl]
      exact sameEdit_backspace s.text
    rw [h.pressAction_eq hno hmakes hb, editKey_makes s.text hmakes hb]
    by_cases halt : b = scs1PressedLeftalt ∧ isFuncKey s.keys = true
    · -- Alt itself, with a function key held
      have hnone : typedChar s.bytes b = none := by rw [halt.1]; rfl
      rw [if_pos halt, hnone]
      exact .ignore
    rw [if_neg halt]
    by_cases hheld : LastIsMake s.bytes scs1PressedBackspace
    · -- nothing to erase, and no character
      have hnone : ¬ (0 < s.line.lineBufIndex ∨ typedChar s.bytes b ≠ none) :=
        fun hc => hright.1 ⟨hmakes, hb, hheld, halt, hc⟩
      rw [not_or, not_not, ← h.length] at hnone
      rw [if_pos hheld, if_neg hnone.1, hnone.2]
      exact .ignore
    · rw [if_neg hheld]
      exact h.sameEdit_alone hb hmakes.1 hright.2
  · have hpress : ¬ IsPress s.keys b := fun hp => hmakes (h.tracks.isPress_iff.mp hp)
    rw [editKey_of_not_makes s.text hmakes, pressAction, if_neg hpress]
    exact .ignore

/-- What such an action does to the line and to the screen. -/
theorem SameEdit.content {term : Terminal} {action : KeyAction} {text' : List UInt8}
    (h : SameEdit term.content action text') (hok : LineOk term)
    (hroom : term.lineBufIndex < lineBufferSize) :
    LineOk (action.edit term) ∧ (action.edit term).content = text' := by
  cases h with
  | ignore => exact ⟨hok, rfl⟩
  | erase hne =>
    have hpos : 0 < term.lineBufIndex := by
      rw [← length_content]
      exact List.length_pos_of_ne_nil hne
    exact ⟨hok.erase hpos, content_erase hok hpos⟩
  | append c _ _ => exact ⟨hok.append hroom c, content_append hroom c⟩

theorem SameEdit.sent {text text' : List UInt8} {action : KeyAction}
    (h : SameEdit text action text') : action.sent.foldl replay text = text' := by
  cases h with
  | ignore => rfl
  | erase _ => simp [KeyAction.sent, replay]
  | append c hne hroom => simp [KeyAction.sent, replay, typeChar, hne, hroom]

/-- Only a newline fills the line. -/
theorem SameEdit.room {text text' : List UInt8} {action : KeyAction}
    (h : SameEdit text action text') (hroom : text.length < lineBufferSize) :
    newline ∈ text' ∨ text'.length < lineBufferSize := by
  cases h with
  | ignore => exact Or.inr hroom
  | erase _ =>
    rw [List.length_dropLast]
    exact Or.inr (Nat.lt_of_le_of_lt (Nat.sub_le _ _) hroom)
  | append c _ hfits =>
    rcases hfits with hlt | rfl
    · rw [List.length_append]
      exact Or.inr (Nat.add_lt_of_lt_sub hlt)
    · exact Or.inl (List.mem_append.mpr (Or.inr (List.mem_singleton.mpr rfl)))

/-- What a byte comes to. -/
theorem typistStep_key (hstep : typistStep s (.key b) = some s') :
    SameLine ((pressAction s.kernel s.keys b).edit s.line) s'.line ∧
      s'.sent = s.sent ++ (pressAction s.kernel s.keys b).sent ∧
      s'.text = editKey s.bytes s.text b ∧ s'.bytes = s.bytes ++ [b] ∧
      s'.keys = scanKey s.keys b := by
  obtain ⟨⟨k, keys⟩, hkey, rfl⟩ := Option.map_eq_some_iff.mp hstep
  obtain ⟨k1, happly, hk1⟩ := Option.map_eq_some_iff.mp hkey
  obtain ⟨rfl, rfl⟩ := Prod.mk.inj hk1
  have hkeyed := KeyAction.keyed happly
  refine ⟨?_, rfl, rfl, rfl, rfl⟩
  show SameLine _ (k1.terminals k1.currentTerminal)
  rw [hkeyed.currentTerminal]
  exact hkeyed.self

/-- The step, for a byte. -/
theorem Edits.key (h : Edits text₀ s) (htyp : Typable s (.key b)) (hok : KeyRight s (.key b))
    (hstep : typistStep s (.key b) = some s') : Edits text₀ s' := by
  obtain ⟨hline, hsent, htext, hbytes, hkeys⟩ := typistStep_key hstep
  have hroom := h.room.resolve_left htyp.1
  have hsame := h.sameEdit htyp.2 hok
  rw [← h.content] at hsame
  obtain ⟨hlineOk, hcontent⟩ := hsame.content h.line hroom
  have hcontent' : s'.line.content = s'.text := by
    rw [Terminal.content_congr hline.lineBuf hline.lineBufIndex, hcontent, htext, h.content]
  refine ⟨⟨hcontent', ?_⟩, hlineOk.of_same hline, ?_, ?_, ?_⟩
  · rw [hsent, htext, List.foldl_append, h.sent, ← h.content]
    exact hsame.sent
  · rw [hline.readFlag, edit_readFlag]
    exact h.reading
  · have hlen := hsame.room (by rw [length_content]; exact hroom)
    rw [h.content, ← htext, ← hcontent', length_content] at hlen
    exact hlen
  · rw [hbytes, hkeys]
    exact h.tracks.step b

/-- The step, for the rest of the kernel. -/
theorem Edits.rest (h : Edits text₀ s) (k : Kernel)
    (hstep : typistStep s (.rest k) = some s') : Edits text₀ s' := by
  obtain rfl := Option.some.inj hstep
  have hline : ({ s with kernel := s.kernel.keepLine k } : Typist).line =
      { k.terminals s.kernel.currentTerminal with
        lineBuf := s.line.lineBuf
        lineBufIndex := s.line.lineBufIndex
        readFlag := s.line.readFlag } := Function.update_self ..
  have hcontent : ({ s with kernel := s.kernel.keepLine k } : Typist).line.content =
      s.line.content := by
    rw [hline]
    rfl
  refine ⟨⟨hcontent.trans h.content, h.sent⟩, ?_, ?_, ?_, h.tracks⟩
  · rw [hline]
    exact ⟨h.line.index, h.line.zero⟩
  · rw [hline]
    exact h.reading
  · rw [hcontent, hline]
    exact h.room

end Steps

/-! ## Runs -/

/-- A terminal that is displayed and read, with some text typed and nothing sent since; the key
    states are those after the bytes the keyboard has sent since its reset. -/
structure Reads (s : Typist) : Prop where
  line : LineOk s.line
  reading : s.line.readFlag = true
  room : s.line.lineBufIndex < lineBufferSize
  text : s.text = s.line.content
  sent : s.sent = []
  processed : Processed resetKeyboard s.bytes s.keys

/-- Bytes that are typed on an open line without chords, with Backspace never held when another
    key is pressed and Caps Lock right. -/
def Plain : List Nat → List UInt8 → List Nat → Prop
  | _, _, [] => True
  | sent, text, b :: bytes =>
    newline ∉ text ∧ NoChord sent b ∧ (Makes sent b → b ≠ scs1PressedBackspace →
      ¬ LastIsMake sent scs1PressedBackspace) ∧ ¬ CapsWrong sent ∧
      Plain (sent ++ [b]) (editKey sent text b) bytes

instance decPlain : (sent : List Nat) → (text : List UInt8) → (bytes : List Nat) →
    Decidable (Plain sent text bytes)
  | _, _, [] => isTrue trivial
  | sent, text, b :: bytes =>
    have := decPlain (sent ++ [b]) (editKey sent text b) bytes
    inferInstanceAs (Decidable (_ ∧ _))

/-- Such bytes meet the conditions, whatever state they are typed in. -/
theorem Edits.plain {s : Typist} {text₀ : List UInt8} {bytes : List Nat} (h : Edits text₀ s)
    (hplain : Plain s.bytes s.text bytes) :
    AllSteps typistStep Typable s (bytes.map .key) ∧
      AllSteps typistStep KeyRight s (bytes.map .key) := by
  induction bytes generalizing s with
  | nil => exact ⟨trivial, trivial⟩
  | cons b bytes ih =>
    obtain ⟨hopen, hchord, hback, hcaps, hrest⟩ := hplain
    have htyp : Typable s (.key b) := ⟨h.content ▸ hopen, hchord⟩
    have hright : KeyRight s (.key b) :=
      ⟨fun he => hback he.1 he.2.1 he.2.2.1, fun hw => hcaps hw.2.2.2⟩
    have hnext : ∀ t, typistStep s (.key b) = some t →
        AllSteps typistStep Typable t (bytes.map .key) ∧
          AllSteps typistStep KeyRight t (bytes.map .key) := by
      intro t ht
      obtain ⟨-, -, htext, hbytes, -⟩ := typistStep_key ht
      exact ih (h.key htyp hright ht) (by rw [htext, hbytes]; exact hrest)
    exact ⟨fun t ht => ⟨htyp, (hnext t ht).1⟩, fun t ht => ⟨hright, (hnext t ht).2⟩⟩

/-! ## The first shell's prompt -/

/-- The first shell has asked for a line, and nothing has been typed. -/
def Kernel.prompt (k : Kernel) : Typist := ⟨k.reading.kernel, resetKeyboard, [], [], []⟩

/-- There, with bytes the keyboard sent before. -/
def Kernel.promptAfter (k : Kernel) (bytes : List Nat) : Typist :=
  { k.prompt with keys := bytes.foldl scanKey resetKeyboard, bytes := bytes }

variable {fs : Image} {k : Kernel}

theorem Booted.prompt_index (h : Booted fs k) : k.prompt.line.lineBufIndex = 0 := h.typedLine

theorem Booted.prompt_content (h : Booted fs k) : k.prompt.line.content = [] := by
  rw [Terminal.content, h.prompt_index]
  rfl

theorem Booted.reads_after (h : Booted fs k) {bytes : List Nat}
    (hbytes : Processed resetKeyboard bytes (bytes.foldl scanKey resetKeyboard)) :
    Reads (k.promptAfter bytes) where
  line := by
    have hkept := h.consoleReset.linesKept.read (show k.console.read 128 = some k.reading from
      h.read)
    exact hkept.lines _
  reading := h.typing.readFlag
  room := by
    show k.prompt.line.lineBufIndex < _
    rw [h.prompt_index]
    decide
  text := h.prompt_content.symm
  sent := rfl
  processed := hbytes

theorem Booted.reads (h : Booted fs k) : Reads k.prompt := h.reads_after (.nil _)

/-- A line: A with Shift, B, Backspace, C and Enter. -/
def typedLine : List Nat :=
  [scs1PressedLeftshift, scs1PressedA, 0x9E, 0xAA, 0x30, 0xB0, scs1PressedBackspace, 0x8E, 0x2E,
    0xAE, scs1PressedEnter]

end Mp3Kernel
