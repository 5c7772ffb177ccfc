/-
  The table of key states and the keys of the keyboard.

  A prefix byte and the byte behind it are not a key's (`unprefixed`). Of the others
  `handle_keypress` keeps each key's last event (`LastIsMake`) and, for Caps Lock, a toggle,
  which it means to flip on a press and leave alone while the key is held. `Tracks` is what it
  does keep: a repeat of Caps Lock stores 1, whatever the toggle was.

  * `key_states_iff`: the sequences after which the table says what the keyboard does.
-/
import Mp3Kernel.Proofs.LineBuffer

namespace Mp3Kernel

/-! ## The keyboard -/

/-- The bytes that are no prefix and not behind one; `behind` is for the first of them. -/
def unprefixed : Bool → List Nat → List Nat
  | _, [] => []
  | behind, b :: bytes =>
    if b = scs1Multibyte then unprefixed true bytes
    else if behind then unprefixed false bytes
    else b :: unprefixed false bytes

/-- `b` is the make or the release of key `k`. -/
def OfKey (k b : Nat) : Prop := b = k ∨ b = scs1KeypressReleaseOffset + k

instance (k b : Nat) : Decidable (OfKey k b) := inferInstanceAs (Decidable (_ ∨ _))

/-- The last event of key `k` is a make. -/
def LastIsMake (bytes : List Nat) (k : Nat) : Prop :=
  ((unprefixed false bytes).filter fun b => OfKey k b).getLast? = some k

/-- What has been made of Caps Lock: its presses, repeats left out, whether it is held, and how
    many presses there were at its last repeat. -/
structure CapsLog where
  presses : Nat
  held : Bool
  atRepeat : Option Nat

def CapsLog.event (log : CapsLog) (b : Nat) : CapsLog :=
  if b = scs1PressedCapslock then
    if log.held then { log with atRepeat := some log.presses }
    else { log with presses := log.presses + 1, held := true }
  else if b = scs1ReleasedCapslock then { log with held := false }
  else log

def capsLog (bytes : List Nat) : CapsLog :=
  (unprefixed false bytes).foldl CapsLog.event ⟨0, false, none⟩

/-- The table says of every key what the keyboard does. -/
structure StatesRight (bytes : List Nat) (keys : Keyboard) : Prop where
  keyState : ∀ k, 0 < k → k ≤ scs1PressedF11 → k ≠ scs1PressedCapslock →
    (keys.keyState k = true ↔ LastIsMake bytes k)
  caps : keys.keyState scs1PressedCapslock = true ↔ (capsLog bytes).presses % 2 = 1

/-- `handle_keypress` has had the bytes, one after the other; the kernel does as it likes
    between them. -/
inductive Processed : Keyboard → List Nat → Keyboard → Prop
  | nil (keys : Keyboard) : Processed keys [] keys
  | cons {k k' : Kernel} {keys keys' last : Keyboard} {b : Nat} {bytes : List Nat}
      (h : handleKeypress k keys b = some (k', keys')) (hrest : Processed keys' bytes last) :
      Processed keys (b :: bytes) last

theorem Processed.foldl {keys last : Keyboard} {bytes : List Nat}
    (h : Processed keys bytes last) : last = bytes.foldl scanKey keys := by
  induction h with
  | nil => rfl
  | cons h _ ih =>
    obtain ⟨_, _, he⟩ := Option.map_eq_some_iff.mp h
    obtain ⟨-, rfl⟩ := Prod.mk.inj he
    rw [ih, List.foldl_cons]

/-! ## One byte more -/

theorem unprefixed_concat (behind : Bool) (bytes : List Nat) (b : Nat) :
    unprefixed behind (bytes ++ [b]) = unprefixed behind bytes ++
      if b = scs1Multibyte ∨ bytes.getLast?.elim behind (· == scs1Multibyte) = true then []
      else [b] := by
  induction bytes generalizing behind with
  | nil => cases behind <;> simp [unprefixed]
  | cons a bytes ih =>
    have hlast : (a :: bytes).getLast?.elim behind (· == scs1Multibyte) =
        bytes.getLast?.elim (a == scs1Multibyte) (· == scs1Multibyte) := by
      cases h : bytes.getLast? with
      | none => simp [List.getLast?_cons, h]
      | some c => simp [List.getLast?_cons, h]
    rw [hlast, List.cons_append]
    by_cases ha : a = scs1Multibyte
    · simp only [unprefixed, ih, ha, beq_self_eq_true, if_true]
    · have hbeq : (a == scs1Multibyte) = false := by simpa using ha
      cases behind <;> simp [unprefixed, if_neg ha, ih, hbeq]

/-- Behind `bytes`, `b` is not a prefix and has none. -/
def Unprefixed (bytes : List Nat) (b : Nat) : Prop :=
  b ≠ scs1Multibyte ∧ bytes.getLast? ≠ some scs1Multibyte

theorem unprefixed_own {bytes : List Nat} {b : Nat} (h : Unprefixed bytes b) :
    unprefixed false (bytes ++ [b]) = unprefixed false bytes ++ [b] := by
  have hlast : bytes.getLast?.elim false (· == scs1Multibyte) = false := by
    cases hl : bytes.getLast? with
    | none => rfl
    | some c =>
      have hc : c ≠ scs1Multibyte := fun he => h.2 (he ▸ hl)
      simpa using hc
  rw [unprefixed_concat, hlast, if_neg]
  simp [h.1]

theorem unprefixed_skipped {bytes : List Nat} {b : Nat} (h : ¬ Unprefixed bytes b) :
    unprefixed false (bytes ++ [b]) = unprefixed false bytes := by
  rw [unprefixed_concat, if_pos, List.append_nil]
  by_cases hb : b = scs1Multibyte
  · exact Or.inl hb
  · right
    have hlast : bytes.getLast? = some scs1Multibyte := by
      by_contra hl
      exact h ⟨hb, hl⟩
    simp [hlast]

theorem lastIsMake_own {bytes : List Nat} {b : Nat} (h : Unprefixed bytes b) (k : Nat) :
    LastIsMake (bytes ++ [b]) k ↔ if OfKey k b then b = k else LastIsMake bytes k := by
  unfold LastIsMake
  rw [unprefixed_own h, List.filter_append]
  by_cases hb : OfKey k b
  · simp [hb]
  · simp [hb]

theorem capsLog_own {bytes : List Nat} {b : Nat} (h : Unprefixed bytes b) :
    capsLog (bytes ++ [b]) = (capsLog bytes).event b := by
  simp [capsLog, unprefixed_own h]

/-! ## What the code keeps -/

/-- Caps Lock is right up to its last repeat: that made it 1. -/
def CapsLog.shown (log : CapsLog) : Bool :=
  (log.presses % 2 == 1) != log.atRepeat.any (· % 2 == 0)

structure Tracks (bytes : List Nat) (keys : Keyboard) : Prop where
  multiByte : keys.multiByte = true ↔ bytes.getLast? = some scs1Multibyte
  keyState : ∀ k, 0 < k → k ≤ scs1PressedF11 → k ≠ scs1PressedCapslock →
    (keys.keyState k = true ↔ LastIsMake bytes k)
  held : keys.capsLockRepeat = (capsLog bytes).held
  caps : keys.keyState scs1PressedCapslock = (capsLog bytes).shown

theorem tracks_reset : Tracks [] resetKeyboard where
  multiByte := by decide
  keyState := by simp [resetKeyboard, LastIsMake, unprefixed]
  held := rfl
  caps := rfl

section Steps

variable {bytes : List Nat} {keys : Keyboard} {b : Nat}

/-- A prefix and the byte behind it change no key. -/
theorem Tracks.prefixed (h : Tracks bytes keys) (hb : ¬ Unprefixed bytes b) :
    Tracks (bytes ++ [b]) (scanKey keys b) := by
  have hkeys : scanKey keys b = { keys with multiByte := decide (b = scs1Multibyte) } := by
    by_cases hm : b = scs1Multibyte
    · simp [scanKey, hm]
    · have hlast : bytes.getLast? = some scs1Multibyte := by
        by_contra hl
        exact hb ⟨hm, hl⟩
      simp [scanKey, hm, h.multiByte.mpr hlast]
  rw [hkeys]
  constructor
  · simp
  · intro k hpos hle hne
    unfold LastIsMake
    rw [unprefixed_skipped hb]
    exact h.keyState k hpos hle hne
  · unfold capsLog
    rw [unprefixed_skipped hb]
    exact h.held
  · unfold capsLog
    rw [unprefixed_skipped hb]
    exact h.caps

/-- What an event of a key does to the key states. -/
theorem scanKey_own (h : Tracks bytes keys) (hb : Unprefixed bytes b) :
    scanKey keys b =
      if 0 < b ∧ b < scs1PressedF12 then pressKey keys b
      else if scs1KeypressReleaseOffset < b ∧ b ≤ scs1ReleasedF12 then releaseKey keys b
      else keys := by
  have hm : ¬ keys.multiByte = true := fun hm => hb.2 (h.multiByte.mp hm)
  unfold scanKey
  rw [if_neg hb.1, if_neg hm]

theorem releaseKey_multiByte (keys : Keyboard) (b : Nat) :
    (releaseKey keys b).multiByte = keys.multiByte := by
  unfold releaseKey
  split <;> rfl

/-- An own byte is no prefix for the next one. -/
theorem Tracks.multiByte_own (h : Tracks bytes keys) (hb : Unprefixed bytes b) {keys' : Keyboard}
    (hkeys : keys'.multiByte = keys.multiByte) :
    keys'.multiByte = true ↔ (bytes ++ [b]).getLast? = some scs1Multibyte := by
  rw [hkeys, h.multiByte]
  simp [hb.1, hb.2]

/-- A press that is not one of Caps Lock. -/
theorem Tracks.press (h : Tracks bytes keys) (hb : Unprefixed bytes b) (hpos : 0 < b)
    (hlt : b < scs1PressedF12) (hne : b ≠ scs1PressedCapslock) :
    Tracks (bytes ++ [b]) (pressKey keys b) := by
  have hpress : pressKey keys b =
      { keys with keyState := Function.update keys.keyState b true } := by
    unfold pressKey
    rw [if_neg fun hc => hne hc.1]
  have hlog : capsLog (bytes ++ [b]) = capsLog bytes := by
    have hrel : b ≠ scs1ReleasedCapslock := by
      unfold scs1PressedF12 at hlt
      unfold scs1ReleasedCapslock
      omega
    simp [capsLog_own hb, CapsLog.event, hne, hrel]
  refine ⟨h.multiByte_own hb (pressKey_multiByte keys b), fun k hk hle hkne => ?_, ?_, ?_⟩
  · rw [lastIsMake_own hb, hpress]
    have hrel : b ≠ scs1KeypressReleaseOffset + k := by
      unfold scs1PressedF12 at hlt
      unfold scs1KeypressReleaseOffset
      omega
    by_cases hkb : k = b
    · subst hkb
      simp [OfKey]
    · have hof : ¬ OfKey k b := fun ho => ho.elim (fun he => hkb he.symm) hrel
      rw [if_neg hof, ← h.keyState k hk hle hkne]
      simp [Function.update_of_ne hkb]
  · rw [hlog, hpress]
    exact h.held
  · rw [hlog, hpress, ← h.caps]
    exact Function.update_of_ne (Ne.symm hne) ..

/-- A press of Caps Lock flips it, and a repeat makes it 1. -/
theorem Tracks.pressCaps (h : Tracks bytes keys) (hb : Unprefixed bytes scs1PressedCapslock) :
    Tracks (bytes ++ [scs1PressedCapslock]) (pressKey keys scs1PressedCapslock) := by
  refine ⟨h.multiByte_own hb (pressKey_multiByte _ _), fun k hk hle hkne => ?_, ?_, ?_⟩
  · have hof : ¬ OfKey k scs1PressedCapslock := by
      rintro (he | he)
      · exact hkne he.symm
      · unfold scs1PressedCapslock scs1KeypressReleaseOffset at he
        omega
    rw [lastIsMake_own hb, if_neg hof, pressKey_keyState_ne keys hkne]
    exact h.keyState k hk hle hkne
  · rw [capsLog_own hb]
    cases hheld : (capsLog bytes).held <;>
      simp [pressKey, CapsLog.event, h.held, hheld]
  · have hcaps := h.caps
    rw [capsLog_own hb]
    cases hheld : (capsLog bytes).held with
    | false =>
      simp only [pressKey, CapsLog.event, h.held, hheld, hcaps, CapsLog.shown]
      simp
      grind
    | true =>
      simp [pressKey, CapsLog.event, h.held, hheld, CapsLog.shown]
      grind

/-- A release that is not one of Caps Lock. -/
theorem Tracks.release (h : Tracks bytes keys) (hb : Unprefixed bytes b)
    (hlo : scs1KeypressReleaseOffset < b) (hne : b ≠ scs1ReleasedCapslock) :
    Tracks (bytes ++ [b]) (releaseKey keys b) := by
  have hrel : releaseKey keys b = { keys with
      keyState := Function.update keys.keyState (b - scs1KeypressReleaseOffset) false } := by
    unfold releaseKey
    rw [if_neg hne]
  have hcaps : b ≠ scs1PressedCapslock := by
    unfold scs1KeypressReleaseOffset at hlo
    unfold scs1PressedCapslock
    omega
  have hlog : capsLog (bytes ++ [b]) = capsLog bytes := by
    simp [capsLog_own hb, CapsLog.event, hne, hcaps]
  refine ⟨h.multiByte_own hb (releaseKey_multiByte keys b), fun k hk hle hkne => ?_, ?_, ?_⟩
  · rw [lastIsMake_own hb, hrel]
    have hmake : b ≠ k := by
      unfold scs1KeypressReleaseOffset at hlo
      unfold scs1PressedF11 at hle
      omega
    by_cases hkb : b = scs1KeypressReleaseOffset + k
    · have hidx : b - scs1KeypressReleaseOffset = k := by omega
      rw [if_pos (show OfKey k b from Or.inr hkb), hidx]
      simp [hmake]
    · have hof : ¬ OfKey k b := fun ho => ho.elim hmake hkb
      have hidx : k ≠ b - scs1KeypressReleaseOffset := by omega
      rw [if_neg hof, ← h.keyState k hk hle hkne]
      simp [Function.update_of_ne hidx]
  · rw [hlog, hrel]
    exact h.held
  · have hidx : scs1PressedCapslock ≠ b - scs1KeypressReleaseOffset := by
      unfold scs1ReleasedCapslock at hne
      unfold scs1PressedCapslock
      unfold scs1KeypressReleaseOffset at hlo ⊢
      omega
    rw [hlog, hrel, ← h.caps]
    simp only [Function.update_of_ne hidx]

theorem Tracks.releaseCaps (h : Tracks bytes keys) (hb : Unprefixed bytes scs1ReleasedCapslock) :
    Tracks (bytes ++ [scs1ReleasedCapslock]) (releaseKey keys scs1ReleasedCapslock) := by
  have hlog : capsLog (bytes ++ [scs1ReleasedCapslock]) =
      { capsLog bytes with held := false } := by
    have hne : scs1ReleasedCapslock ≠ scs1PressedCapslock := by decide
    simp [capsLog_own hb, CapsLog.event, hne]
  have hkeys : releaseKey keys scs1ReleasedCapslock = { keys with capsLockRepeat := false } := by
    simp [releaseKey]
  rw [hkeys]
  refine ⟨h.multiByte_own hb rfl, fun k hk hle hkne => ?_, ?_, ?_⟩
  · have hof : ¬ OfKey k scs1ReleasedCapslock := by
      unfold scs1PressedF11 at hle
      unfold scs1PressedCapslock at hkne
      unfold OfKey scs1ReleasedCapslock scs1KeypressReleaseOffset
      omega
    rw [lastIsMake_own hb, if_neg hof]
    exact h.keyState k hk hle hkne
  · rw [hlog]
  · rw [hlog]
    exact h.caps

/-- A byte that is no key's. -/
theorem Tracks.other (h : Tracks bytes keys) (hb : Unprefixed bytes b)
    (hpress : ¬ (0 < b ∧ b < scs1PressedF12))
    (hrel : ¬ (scs1KeypressReleaseOffset < b ∧ b ≤ scs1ReleasedF12)) :
    Tracks (bytes ++ [b]) keys := by
  unfold scs1PressedF12 at hpress
  unfold scs1KeypressReleaseOffset scs1ReleasedF12 at hrel
  have hlog : capsLog (bytes ++ [b]) = capsLog bytes := by
    have h1 : b ≠ scs1PressedCapslock := by
      unfold scs1PressedCapslock
      omega
    have h2 : b ≠ scs1ReleasedCapslock := by
      unfold scs1ReleasedCapslock
      omega
    simp [capsLog_own hb, CapsLog.event, h1, h2]
  refine ⟨h.multiByte_own hb rfl, fun k hk hle hkne => ?_, ?_, ?_⟩
  · have hof : ¬ OfKey k b := by
      unfold scs1PressedF11 at hle
      unfold OfKey scs1KeypressReleaseOffset
      omega
    rw [lastIsMake_own hb, if_neg hof]
    exact h.keyState k hk hle hkne
  · rw [hlog]
    exact h.held
  · rw [hlog]
    exact h.caps

/-- The step. -/
theorem Tracks.step (h : Tracks bytes keys) (b : Nat) :
    Tracks (bytes ++ [b]) (scanKey keys b) := by
  by_cases hb : Unprefixed bytes b
  · rw [scanKey_own h hb]
    by_cases hpress : 0 < b ∧ b < scs1PressedF12
    · rw [if_pos hpress]
      by_cases hcaps : b = scs1PressedCapslock
      · subst hcaps
        exact h.pressCaps hb
      · exact h.press hb hpress.1 hpress.2 hcaps
    rw [if_neg hpress]
    by_cases hrel : scs1KeypressReleaseOffset < b ∧ b ≤ scs1ReleasedF12
    · rw [if_pos hrel]
      by_cases hcaps : b = scs1ReleasedCapslock
      · subst hcaps
        exact h.releaseCaps hb
      · exact h.release hb hrel.1 hcaps
    · rw [if_neg hrel]
      exact h.other hb hpress hrel
  · exact h.prefixed hb

end Steps

/-- The run. -/
theorem tracks_foldl (bytes : List Nat) : Tracks bytes (bytes.foldl scanKey resetKeyboard) := by
  induction bytes using List.reverseRecOn with
  | nil => exact tracks_reset
  | append_singleton bytes b ih =>
    rw [List.foldl_append]
    exact ih.step b

/-- From the reset on, whatever sequence of bytes `handle_keypress` has had: the table is right
    about every key but Caps Lock, and about that one exactly if it has not been repeated, or
    was pressed an odd number of times before its last repeat. -/
theorem key_states_iff {bytes : List Nat} {keys : Keyboard}
    (h : Processed resetKeyboard bytes keys) :
    StatesRight bytes keys ↔ ∀ n, (capsLog bytes).atRepeat = some n → n % 2 = 1 := by
  have ht := tracks_foldl bytes
  rw [← h.foldl] at ht
  have hcaps : (keys.keyState scs1PressedCapslock = true ↔ (capsLog bytes).presses % 2 = 1) ↔
      ∀ n, (capsLog bytes).atRepeat = some n → n % 2 = 1 := by
    rw [ht.caps, CapsLog.shown]
    cases (capsLog bytes).atRepeat with
    | none => simp
    | some n =>
      simp
      grind
  exact ⟨fun hr => hcaps.mp hr.caps, fun hn => ⟨ht.keyState, hcaps.mpr hn⟩⟩

/-! ## Caps Lock held twice -/

/-- A byte that does nothing but change the key states. -/
def Quiet (keys : Keyboard) (b : Nat) : Prop :=
  IsPress keys b → altPressed (pressKey keys b) = false ∧
    (pressKey keys b).keyState scs1PressedLeftctrl = false ∧
    (pressKey keys b).keyState scs1PressedBackspace = false ∧ handleDisp keys (keycode b) = 0

instance (keys : Keyboard) (b : Nat) : Decidable (Quiet keys b) := by
  unfold Quiet
  infer_instance

theorem Quiet.pressAction {keys : Keyboard} {b : Nat} (h : Quiet keys b) (k : Kernel) :
    Mp3Kernel.pressAction k keys b = .ignore := by
  unfold Mp3Kernel.pressAction
  by_cases hp : IsPress keys b
  · obtain ⟨halt, hctrl, hback, hdisp⟩ := h hp
    simp [hp, keyAction, halt, hctrl, hback, hdisp]
  · rw [if_neg hp]

theorem Quiet.processed {keys last : Keyboard} {b : Nat} {bytes : List Nat} (h : Quiet keys b)
    (k : Kernel) (hrest : Processed (scanKey keys b) bytes last) :
    Processed keys (b :: bytes) last := by
  have hstep : handleKeypress k keys b = some (k, scanKey keys b) := by
    simp [handleKeypress, h.pressAction k, KeyAction.apply]
  exact .cons hstep hrest

/-- Caps Lock pressed and released, then pressed and held: the second press turns it off, its
    repeat turns it on. -/
def capsHeld : List Nat :=
  [scs1PressedCapslock, scs1ReleasedCapslock, scs1PressedCapslock, scs1PressedCapslock]

theorem processed_capsHeld (k : Kernel) :
    Processed resetKeyboard capsHeld (capsHeld.foldl scanKey resetKeyboard) := by
  refine Quiet.processed (by decide) k ?_
  refine Quiet.processed (by decide) k ?_
  refine Quiet.processed (by decide) k ?_
  exact Quiet.processed (by decide) k (.nil _)

theorem caps_lock_repeated : ∃ keys, Processed resetKeyboard capsHeld keys ∧
    ¬ StatesRight capsHeld keys := by
  obtain ⟨k, -⟩ := booted_smallImage
  refine ⟨_, processed_capsHeld k, fun h => ?_⟩
  exact absurd (h.caps.mp (by decide)) (by decide)

/-- Held on its first press it stays on. -/
theorem caps_lock_once : ∃ keys, Processed resetKeyboard
    [scs1PressedCapslock, scs1PressedCapslock] keys ∧
    StatesRight [scs1PressedCapslock, scs1PressedCapslock] keys := by
  obtain ⟨k, -⟩ := booted_smallImage
  have hp : Processed resetKeyboard [scs1PressedCapslock, scs1PressedCapslock] _ :=
    Quiet.processed (by decide) k (Quiet.processed (by decide) k (.nil _))
  refine ⟨_, hp, (key_states_iff hp).mpr fun n hn => ?_⟩
  obtain rfl : 1 = n := Option.some.inj hn
  decide

end Mp3Kernel
