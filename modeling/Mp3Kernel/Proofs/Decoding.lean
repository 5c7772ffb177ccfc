/-
  What a key types, by the bytes the keyboard has sent and the characters on its keys.

  The reference knows nothing of the code's tables. Its keys are labelled with two characters
  each (`legends`), Shift is held if the last event of one of its keys is a make, and Caps Lock
  is on after an odd number of presses; it changes the two characters of a letter for each
  other. `handle_disp` goes by the table of key states, `keycodes` and a list of what Shift
  changes.

  * `Tracks.handleDisp_eq`: it gives the reference's character, unless the key is a letter and
    the table has Caps Lock wrong (`CapsWrong`).
  * `Tracks.handleDisp_letter`: then it gives another one.
-/
import Mp3Kernel.Proofs.KeyStates

namespace Mp3Kernel

/-! ## The reference -/

/-- The characters of a key without Shift and with it; the other keys have none. Tab types a
  blank, and of the keypad only the star types. -/
def legends : List (Nat × Char × Char) :=
  [(0x02, '1', '!'), (0x03, '2', '@'), (0x04, '3', '#'), (0x05, '4', '$'), (0x06, '5', '%'),
    (0x07, '6', '^'), (0x08, '7', '&'), (0x09, '8', '*'), (0x0A, '9', '('), (0x0B, '0', ')'),
    (0x0C, '-', '_'), (0x0D, '=', '+'), (0x0F, ' ', ' '),
    (0x10, 'q', 'Q'), (0x11, 'w', 'W'), (0x12, 'e', 'E'), (0x13, 'r', 'R'), (0x14, 't', 'T'),
    (0x15, 'y', 'Y'), (0x16, 'u', 'U'), (0x17, 'i', 'I'), (0x18, 'o', 'O'), (0x19, 'p', 'P'),
    (0x1A, '[', '\x7b'), (0x1B, ']', '\x7d'), (0x1C, '\n', '\n'),
    (0x1E, 'a', 'A'), (0x1F, 's', 'S'), (0x20, 'd', 'D'), (0x21, 'f', 'F'), (0x22, 'g', 'G'),
    (0x23, 'h', 'H'), (0x24, 'j', 'J'), (0x25, 'k', 'K'), (0x26, 'l', 'L'), (0x27, ';', ':'),
    (0x28, '\x27', '\x22'), (0x29, '\x60', '~'), (0x2B, '\x5c', '|'),
    (0x2C, 'z', 'Z'), (0x2D, 'x', 'X'), (0x2E, 'c', 'C'), (0x2F, 'v', 'V'), (0x30, 'b', 'B'),
    (0x31, 'n', 'N'), (0x32, 'm', 'M'), (0x33, ',', '<'), (0x34, '.', '>'), (0x35, '/', '?'),
    (0x37, '*', '*'), (0x39, ' ', ' ')]

/-- The three rows of letters. -/
def IsLetterKey (b : Nat) : Prop :=
  (0x10 ≤ b ∧ b ≤ 0x19) ∨ (0x1E ≤ b ∧ b ≤ 0x26) ∨ (0x2C ≤ b ∧ b ≤ 0x32)

instance : DecidablePred IsLetterKey := fun _ => inferInstanceAs (Decidable (_ ∨ _))

/-- The character of the key `b` with Shift held and Caps Lock on, or not. -/
def decode (shift caps : Bool) (b : Nat) : Option UInt8 :=
  (legends.lookup b).map fun chars =>
    if shift != (caps && decide (IsLetterKey b)) then chars.2.toUInt8 else chars.1.toUInt8

instance (bytes : List Nat) (k : Nat) : Decidable (LastIsMake bytes k) :=
  inferInstanceAs (Decidable (_ = _))

/-- One of the two Shift keys is held. -/
def ShiftHeld (bytes : List Nat) : Prop :=
  LastIsMake bytes scs1PressedLeftshift ∨ LastIsMake bytes scs1PressedRightshift

instance (bytes : List Nat) : Decidable (ShiftHeld bytes) :=
  inferInstanceAs (Decidable (_ ∨ _))

def CapsOn (bytes : List Nat) : Prop := (capsLog bytes).presses % 2 = 1

instance (bytes : List Nat) : Decidable (CapsOn bytes) := inferInstanceAs (Decidable (_ = _))

/-- The character of the key `b`, pressed behind `bytes`. -/
def typedChar (bytes : List Nat) (b : Nat) : Option UInt8 :=
  decode (decide (ShiftHeld bytes)) (decide (CapsOn bytes)) b

instance (bytes : List Nat) (b : Nat) : Decidable (Unprefixed bytes b) :=
  inferInstanceAs (Decidable (_ ∧ _))

/-- The byte `b`, sent behind `bytes`, is the make of a key that the code knows. -/
def Makes (bytes : List Nat) (b : Nat) : Prop :=
  Unprefixed bytes b ∧ 0 < b ∧ b < scs1PressedF12

instance (bytes : List Nat) (b : Nat) : Decidable (Makes bytes b) :=
  inferInstanceAs (Decidable (_ ∧ _))

/-- At its last repeat Caps Lock had been pressed an even number of times. -/
def CapsWrong (bytes : List Nat) : Prop :=
  ∃ n, (capsLog bytes).atRepeat = some n ∧ n % 2 = 0

instance (bytes : List Nat) : Decidable (CapsWrong bytes) :=
  decidable_of_iff ((capsLog bytes).atRepeat.any (· % 2 == 0) = true)
    (by simp [CapsWrong, Option.any_eq_true])

/-! ## Both on one key -/

/-- A keyboard with Shift held and Caps Lock on, or not. -/
def modifiers (shift caps : Bool) : Keyboard where
  keyState k := if k = scs1PressedLeftshift then shift else k == scs1PressedCapslock && caps
  capsLockRepeat := false
  multiByte := false

theorem handleDisp_modifiers (keys : Keyboard) (disp : UInt8) :
    handleDisp keys disp = handleDisp (modifiers (shiftPressed keys) (capslockPressed keys)) disp := by
  have hshift : shiftPressed (modifiers (shiftPressed keys) (capslockPressed keys)) =
      shiftPressed keys := by
    simp [shiftPressed, modifiers, scs1PressedLeftshift, scs1PressedRightshift,
      scs1PressedCapslock]
  have hcaps : capslockPressed (modifiers (shiftPressed keys) (capslockPressed keys)) =
      capslockPressed keys := by
    simp [capslockPressed, modifiers, scs1PressedLeftshift, scs1PressedCapslock]
  unfold handleDisp
  rw [hshift, hcaps]

theorem handleDisp_zero (keys : Keyboard) : handleDisp keys 0 = 0 := by
  unfold handleDisp
  dsimp only
  split
  · rw [if_neg fun h => absurd h.1.1 (by decide)]
    rfl
  · rfl

theorem keycode_none {b : Nat} (hb : 0x3A ≤ b) : keycode b = 0 := by
  unfold keycode
  rw [List.getD_eq_getElem?_getD, List.getElem?_eq_none (show keycodes.length ≤ b from hb)]
  rfl

theorem decode_none (shift caps : Bool) {b : Nat} (hb : 0x3A ≤ b) : decode shift caps b = none := by
  have hlabels : ∀ label ∈ legends, label.1 < 0x3A := by decide +kernel
  have hlookup : legends.lookup b = none := by
    rw [List.lookup_eq_none_iff]
    intro label hlabel
    have := hlabels label hlabel
    simp only [bne_iff_ne, ne_eq]
    omega
  rw [decode, hlookup]
  rfl

/-- The tables of the code and the labels of the keys say the same. -/
theorem decode_eq (shift caps : Bool) {b : Nat} (hb : b ≠ scs1PressedBackspace) :
    handleDisp (modifiers shift caps) (keycode b) = (decode shift caps b).getD 0 := by
  by_cases hlt : b < 0x3A
  · have hall : ∀ b < 0x3A, b ≠ scs1PressedBackspace → ∀ shift caps : Bool,
        handleDisp (modifiers shift caps) (keycode b) = (decode shift caps b).getD 0 := by
      decide +kernel
    exact hall b hlt hb shift caps
  · rw [keycode_none (Nat.le_of_not_lt hlt), decode_none shift caps (Nat.le_of_not_lt hlt)]
    exact handleDisp_zero _

/-- A character that no key of the table has, whatever the modifiers are. -/
theorem handleDisp_ne {c : UInt8} (hall : ∀ disp ∈ 0 :: keycodes, ∀ shift caps : Bool,
    handleDisp (modifiers shift caps) disp ≠ c) (keys : Keyboard) (b : Nat) :
    handleDisp keys (keycode b) ≠ c := by
  have hmem : keycode b ∈ 0 :: keycodes := by
    unfold keycode
    rw [List.getD_eq_getElem?_getD]
    cases hb : keycodes[b]? with
    | none => exact List.mem_cons_self ..
    | some c => exact List.mem_cons_of_mem _ (List.mem_of_getElem? hb)
  rw [handleDisp_modifiers]
  exact hall _ hmem _ _

theorem handleDisp_ne_backspace (keys : Keyboard) (b : Nat) :
    handleDisp keys (keycode b) ≠ backspace := handleDisp_ne (by decide +kernel) keys b

theorem handleDisp_ne_tab (keys : Keyboard) (b : Nat) : handleDisp keys (keycode b) ≠ tab :=
  handleDisp_ne (by decide +kernel) keys b

/-- A label is a character. -/
theorem decode_ne_zero (shift caps : Bool) (b : Nat) : decode shift caps b ≠ some 0 := by
  have hlabels : ∀ label ∈ legends, label.2.1.toUInt8 ≠ 0 ∧ label.2.2.toUInt8 ≠ 0 := by
    decide +kernel
  intro h
  obtain ⟨chars, hchars, hzero⟩ := Option.map_eq_some_iff.mp h
  obtain ⟨before, behind, hlegends, -⟩ := List.lookup_eq_some_iff.mp hchars
  have hmem : (b, chars) ∈ legends := by simp [hlegends]
  obtain ⟨hplain, hshifted⟩ := hlabels (b, chars) hmem
  split at hzero
  · exact hshifted hzero
  · exact hplain hzero

/-- Caps Lock is for the letters. -/
theorem decode_caps (shift caps caps' : Bool) {b : Nat} (hb : ¬ IsLetterKey b) :
    decode shift caps b = decode shift caps' b := by
  simp [decode, hb]

/-- A letter is another one with Caps Lock the other way, and neither ends a line. -/
theorem decode_letter (shift caps : Bool) {b : Nat} (hb : IsLetterKey b) :
    ∃ c c', decode shift caps b = some c ∧ decode shift (!caps) b = some c' ∧ c ≠ c' ∧
      c ≠ newline ∧ c' ≠ newline := by
  have hall : ∀ b < 0x33, IsLetterKey b → ∀ shift caps : Bool,
      decode shift caps b ≠ none ∧ decode shift caps b ≠ decode shift (!caps) b ∧
        decode shift caps b ≠ some newline := by decide +kernel
  have hlt : b < 0x33 := by
    unfold IsLetterKey at hb
    omega
  obtain ⟨hsome, hne, hline⟩ := hall b hlt hb shift caps
  obtain ⟨hsome', -, hline'⟩ := hall b hlt hb shift (!caps)
  obtain ⟨c, hc⟩ := Option.ne_none_iff_exists'.mp hsome
  obtain ⟨c', hc'⟩ := Option.ne_none_iff_exists'.mp hsome'
  rw [hc] at hne hline
  rw [hc'] at hne hline'
  exact ⟨c, c', hc, hc', fun h => hne (congrArg some h), fun h => hline (congrArg some h),
    fun h => hline' (congrArg some h)⟩

/-! ## Behind a sequence of bytes -/

section Tracks

variable {bytes : List Nat} {keys : Keyboard} {b : Nat}

theorem typedChar_of_not_makes (h : Unprefixed bytes b) (hb : ¬ Makes bytes b) :
    typedChar bytes b = none := by
  by_cases hzero : b = 0
  · subst hzero
    rfl
  · have hge : scs1PressedF12 ≤ b :=
      Nat.le_of_not_lt fun hlt => hb ⟨h, Nat.pos_of_ne_zero hzero, hlt⟩
    exact decode_none _ _ (Nat.le_trans (by decide) hge)

theorem Tracks.isPress_iff (h : Tracks bytes keys) : IsPress keys b ↔ Makes bytes b := by
  unfold IsPress Makes Unprefixed
  rw [and_assoc, ← Bool.not_eq_true, ne_eq (bytes.getLast?), ← h.multiByte]

theorem Tracks.shiftPressed_eq (h : Tracks bytes keys) :
    shiftPressed keys = decide (ShiftHeld bytes) := by
  rw [Bool.eq_iff_iff, shiftPressed, Bool.or_eq_true, decide_eq_true_iff,
    h.keyState _ (by decide) (by decide) (by decide),
    h.keyState _ (by decide) (by decide) (by decide), ShiftHeld]

theorem Tracks.caps_right (h : Tracks bytes keys) (hcaps : ¬ CapsWrong bytes) :
    capslockPressed keys = decide (CapsOn bytes) := by
  rw [Bool.eq_iff_iff, decide_eq_true_iff, capslockPressed, h.caps, CapsLog.shown, CapsOn]
  cases hat : (capsLog bytes).atRepeat with
  | none => simp
  | some n =>
    have hodd : n % 2 ≠ 0 := fun hn => hcaps ⟨n, hat, hn⟩
    simp [hodd]

theorem Tracks.caps_wrong (h : Tracks bytes keys) (hcaps : CapsWrong bytes) :
    capslockPressed keys = !decide (CapsOn bytes) := by
  obtain ⟨n, hat, heven⟩ := hcaps
  rw [Bool.eq_iff_iff, Bool.not_eq_true', decide_eq_false_iff_not, capslockPressed, h.caps,
    CapsLog.shown, hat, CapsOn]
  simp [heven]

/-- The code's character is the reference's, or it is a letter and Caps Lock is wrong. -/
theorem Tracks.handleDisp_eq (h : Tracks bytes keys) (hb : b ≠ scs1PressedBackspace)
    (hcaps : ¬ (IsLetterKey b ∧ CapsWrong bytes)) :
    handleDisp keys (keycode b) = (typedChar bytes b).getD 0 := by
  rw [handleDisp_modifiers, decode_eq _ _ hb, h.shiftPressed_eq, typedChar]
  by_cases hletter : IsLetterKey b
  · rw [h.caps_right fun hwrong => hcaps ⟨hletter, hwrong⟩]
  · rw [decode_caps _ _ _ hletter]

theorem Tracks.handleDisp_letter (h : Tracks bytes keys) (hb : IsLetterKey b)
    (hcaps : CapsWrong bytes) :
    ∃ c, typedChar bytes b = some c ∧ c ≠ newline ∧ handleDisp keys (keycode b) ≠ c ∧
      handleDisp keys (keycode b) ≠ 0 ∧ handleDisp keys (keycode b) ≠ newline := by
  have hne : b ≠ scs1PressedBackspace := by
    unfold IsLetterKey at hb
    unfold scs1PressedBackspace
    omega
  obtain ⟨c, c', hc, hc', hdiff, hline, hline'⟩ :=
    decode_letter (decide (ShiftHeld bytes)) (decide (CapsOn bytes)) hb
  have hdisp : handleDisp keys (keycode b) = c' := by
    rw [handleDisp_modifiers, decode_eq _ _ hne, h.shiftPressed_eq, h.caps_wrong hcaps, hc']
    rfl
  have hzero : c' ≠ 0 := by
    rintro rfl
    exact decode_ne_zero _ _ b hc'
  rw [hdisp]
  exact ⟨c, hc, hline, Ne.symm hdiff, hzero, hline'⟩

end Tracks

end Mp3Kernel
