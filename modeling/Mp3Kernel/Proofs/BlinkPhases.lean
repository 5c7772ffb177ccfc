/-
  When a blink is on.

  A blink counts down its length and flips when the countdown is no longer positive as an i16,
  so a length of 0 or above 32768 lasts one tick (`ticks`). `phase` is a blink that has been on,
  or off, for some ticks; `tick_phase` is the step.

  * `blink_period`: on a blink's cell, as long as it has the cell to itself, the screen shows
    the first character for `ticks onLength` ticks, the second for `ticks offLength`, and so on.
-/
import Mp3Kernel.Proofs.Blinks
import Mathlib.Logic.Function.Iterate

namespace Mp3Kernel

/-! ## One blink -/

/-- How many ticks a length lasts. -/
def ticks (length : Nat) : Nat := if 0 < length ∧ length ≤ 32768 then length else 1

theorem ticks_pos (length : Nat) : 0 < ticks length := by
  unfold ticks
  split
  · rename_i h
    exact h.1
  · exact Nat.one_pos

/-- The blink that has been on, or off, for `j` ticks. -/
def Blink.phase (b : Blink) (on : Bool) (j : Nat) : Blink :=
  { b with status := on, countdown := (if on then b.onLength else b.offLength) - j }

theorem Blink.start_eq (b : Blink) : b.start = b.phase true 0 := rfl

theorem decw_pos {n : Nat} (hpos : 0 < n) (hn : n < 65536) : decw n = n - 1 := by
  unfold decw
  omega

theorem decw_zero : decw 0 = 65535 := by
  unfold decw
  rfl

/-- The countdown of a length that has been counted down `j` times already. -/
theorem waits_iff {length j : Nat} (hlength : length < 65536) (hj : j < ticks length) :
    0 < decw (length - j) ∧ decw (length - j) < 32768 ↔ j + 1 < ticks length := by
  unfold ticks at hj ⊢
  by_cases hle : 0 < length ∧ length ≤ 32768
  · rw [if_pos hle] at hj ⊢
    rw [decw_pos (by omega) (by omega)]
    omega
  · rw [if_neg hle] at hj ⊢
    obtain rfl : j = 0 := by omega
    rcases Nat.eq_zero_or_pos length with rfl | hpos
    · rw [decw_zero]
      omega
    · rw [Nat.sub_zero, decw_pos hpos hlength]
      omega

/-- The lengths are u16. -/
def Blink.Fits (b : Blink) : Prop := b.onLength < 65536 ∧ b.offLength < 65536

/-- The step. -/
theorem Blink.tick_phase {b : Blink} (hb : b.Fits) {on : Bool} {j : Nat}
    (hj : j < ticks (if on then b.onLength else b.offLength)) :
    (b.phase on j).tick =
      if j + 1 < ticks (if on then b.onLength else b.offLength) then b.phase on (j + 1)
      else b.phase (!on) 0 := by
  have hlength : (if on then b.onLength else b.offLength) < 65536 := by
    cases on
    · exact hb.2
    · exact hb.1
  have hwaits : (b.phase on j).decrement.Waits ↔ _ := waits_iff hlength hj
  have hpos : j + 1 < ticks (if on then b.onLength else b.offLength) →
      decw ((if on then b.onLength else b.offLength) - j) =
        (if on then b.onLength else b.offLength) - (j + 1) := by
    intro hnext
    have hw := (waits_iff hlength hj).mpr hnext
    have hle : j < if on then b.onLength else b.offLength := by
      by_contra hge
      rw [Nat.sub_eq_zero_of_le (Nat.le_of_not_lt hge), decw_zero] at hw
      omega
    rw [decw_pos (Nat.sub_pos_of_lt hle) (Nat.lt_of_le_of_lt (Nat.sub_le _ _) hlength),
      Nat.sub_sub]
  unfold Blink.tick
  by_cases hnext : j + 1 < ticks (if on then b.onLength else b.offLength)
  · rw [if_pos (hwaits.mpr hnext), if_pos hnext]
    rw [Blink.phase, decrement_mk, hpos hnext]
    rfl
  · rw [if_neg (mt hwaits.mp hnext), if_neg hnext, Blink.phase, decrement_mk]
    cases on <;> rfl

def Blink.period (b : Blink) : Nat := ticks b.onLength + ticks b.offLength

theorem Blink.period_pos (b : Blink) : 0 < b.period := Nat.add_pos_left (ticks_pos _) _

/-- The blink when `r` ticks of its period are over. -/
def Blink.inPeriod (b : Blink) (r : Nat) : Blink :=
  if r < ticks b.onLength then b.phase true r else b.phase false (r - ticks b.onLength)

theorem Blink.inPeriod_tick {b : Blink} (hb : b.Fits) {r : Nat} (hr : r < b.period) :
    (b.inPeriod r).tick = b.inPeriod (if r + 1 < b.period then r + 1 else 0) := by
  have hon := ticks_pos b.onLength
  have hoff := ticks_pos b.offLength
  unfold Blink.period at hr ⊢
  by_cases hphase : r < ticks b.onLength
  · have htick : (b.phase true r).tick =
        if r + 1 < ticks b.onLength then b.phase true (r + 1) else b.phase false 0 :=
      tick_phase hb hphase
    rw [if_pos (show r + 1 < _ by omega), Blink.inPeriod, if_pos hphase, htick, Blink.inPeriod]
    by_cases hnext : r + 1 < ticks b.onLength
    · rw [if_pos hnext, if_pos hnext]
    · rw [if_neg hnext, if_neg hnext, Nat.sub_eq_zero_of_le (by omega)]
  · have htick : (b.phase false (r - ticks b.onLength)).tick =
        if r - ticks b.onLength + 1 < ticks b.offLength then
          b.phase false (r - ticks b.onLength + 1) else b.phase true 0 :=
      tick_phase hb (show r - ticks b.onLength < ticks b.offLength by omega)
    rw [Blink.inPeriod, if_neg hphase, htick]
    by_cases hnext : r + 1 < ticks b.onLength + ticks b.offLength
    · rw [if_pos hnext, if_pos (by omega), Blink.inPeriod, if_neg (by omega),
        Nat.sub_add_comm (by omega)]
    · rw [if_neg hnext, if_neg (by omega), Blink.inPeriod, if_pos hon]

theorem succ_mod_period (n : Nat) {period : Nat} (h : 0 < period) :
    (n + 1) % period = if n % period + 1 < period then n % period + 1 else 0 := by
  have hlt := Nat.mod_lt n h
  rw [← Nat.mod_add_mod]
  split
  · rename_i hnext
    exact Nat.mod_eq_of_lt hnext
  · rw [show n % period + 1 = period by omega, Nat.mod_self]

/-- The run: where a blink is in its period after `n` ticks. -/
theorem Blink.tick_iterate {b : Blink} (hb : b.Fits) (n : Nat) :
    Blink.tick^[n] b.start = b.inPeriod (n % b.period) := by
  induction n with
  | zero => rw [Nat.zero_mod, Blink.inPeriod, if_pos (ticks_pos _), Function.iterate_zero_apply,
      Blink.start_eq]
  | succ n ih =>
    rw [Function.iterate_succ_apply', ih, inPeriod_tick hb (Nat.mod_lt n b.period_pos),
      succ_mod_period n b.period_pos]

/-! ## The screen -/

/-- What a blink shows. -/
def Blink.char (b : Blink) : UInt8 := if b.status then b.onChar else b.offChar

theorem decrement_char (b : Blink) : b.decrement.char = b.char := by
  cases b
  rw [decrement_mk, Blink.char, Blink.char]

theorem flip_char (b : Blink) : b.flip.char = if b.status then b.offChar else b.onChar := by
  cases hs : b.status <;> simp [Blink.char, Blink.flip, hs]

theorem Blink.tick_char (b : Blink) : b.tick.char =
    if b.decrement.Waits then b.char else if b.status then b.offChar else b.onChar := by
  rw [Blink.tick, apply_ite Blink.char, flip_char, decrement_char, decrement_status,
    decrement_offChar, decrement_onChar]

/-- A tick of a blink that the screen shows. -/
theorem draw_own {video : Nat → UInt8} {b : Blink} (h : video (b.location * 2) = b.char) :
    b.draw video (b.location * 2) = b.tick.char := by
  rw [b.tick_char]
  unfold Blink.draw
  split
  · exact h
  · exact Function.update_self ..

/-- The blinks leave an address alone at which none of them is. -/
theorem foldl_draw_apart {blinks : List Blink} {a : Nat} (h : ∀ b ∈ blinks, a ≠ b.location * 2)
    (video : Nat → UInt8) : blinks.foldl Blink.draw video a = video a := by
  induction blinks generalizing video with
  | nil => rfl
  | cons b blinks ih =>
    rw [List.forall_mem_cons] at h
    rw [List.foldl_cons, ih h.2]
    unfold Blink.draw
    split
    · rfl
    · exact Function.update_of_ne h.1 ..

/-- The blink `b` is the first one, and alone on its cell, which shows it. -/
structure ShowsAlone (s : Board) (b : Blink) : Prop where
  alone : ∃ rest, s.blinks = b :: rest ∧ ∀ c ∈ rest, c.location ≠ b.location
  video : s.video (b.location * 2) = b.char

theorem ShowsAlone.tick {s : Board} {b : Blink} (h : ShowsAlone s b) :
    ShowsAlone (s.step .tasklet).2 b.tick := by
  obtain ⟨⟨rest, hblinks, hrest⟩, hvideo⟩ := h
  constructor
  · refine ⟨rest.map Blink.tick, by simp [Board.step, hblinks], fun c hc => ?_⟩
    obtain ⟨d, hd, rfl⟩ := List.mem_map.mp hc
    rw [Blink.tick_location, Blink.tick_location]
    exact hrest d hd
  · simp only [Board.step, hblinks, List.foldl_cons, Blink.tick_location]
    rw [foldl_draw_apart fun c hc he => hrest c hc (by omega)]
    exact draw_own hvideo

/-- `n` ticks. -/
theorem ShowsAlone.ticks {s : Board} {b : Blink} (h : ShowsAlone s b) (n : Nat) :
    ShowsAlone (s.run (List.replicate n .tasklet)).2 (Blink.tick^[n] b) := by
  induction n generalizing s b with
  | zero => exact h
  | succ n ih =>
    rw [Function.iterate_succ_apply]
    exact ih h.tick

theorem showsAlone_add {s : Board} {b : Blink} (hloc : b.location < blinkCnt)
    (hroom : s.blinks.length < blinkCnt) (hfree : ∀ c ∈ s.blinks, c.location ≠ b.location) :
    ShowsAlone (s.step (.add b)).2 b.start := by
  rw [Board.step, if_pos ⟨hloc, hroom⟩]
  exact ⟨⟨s.blinks, rfl, hfree⟩, Function.update_self ..⟩

theorem Board.run_append (s : Board) (cmds cmds' : List BlinkCmd) :
    (s.run (cmds ++ cmds')).2 = ((s.run cmds).2.run cmds').2 := by
  induction cmds generalizing s with
  | nil => rfl
  | cons cmd cmds ih => exact ih (s.step cmd).2

theorem Blink.inPeriod_char (b : Blink) (r : Nat) :
    (b.inPeriod r).char = if r < ticks b.onLength then b.onChar else b.offChar := by
  unfold Blink.inPeriod
  split <;> rfl

theorem Blink.inPeriod_location (b : Blink) (r : Nat) : (b.inPeriod r).location = b.location := by
  unfold Blink.inPeriod
  split <;> rfl

/-- After every run in which nothing is added at location 0, a blink is added on a cell where
    there is none: `n` ticks later the cell shows what is due then. -/
theorem blink_period (video : Nat → UInt8) {fuel : Nat} (hfuel : blinkCnt < fuel)
    {cmds : List BlinkCmd} (hcmds : ∀ cmd ∈ cmds, cmd.NotAtZero) {b : Blink} (hb : b.Fits)
    (hpos : b.location ≠ 0) (hloc : b.location < blinkCnt)
    (hroom : (Board.run ⟨[], video⟩ cmds).2.blinks.length < blinkCnt)
    (hfree : ∀ c ∈ (Board.run ⟨[], video⟩ cmds).2.blinks, c.location ≠ b.location) (n : Nat) :
    ∃ replies s, mp1Run fuel (mp1Reset video) (cmds ++ .add b :: List.replicate n .tasklet) =
        some (replies, s) ∧
      s.video (b.location * 2) =
        if n % (ticks b.onLength + ticks b.offLength) < ticks b.onLength then b.onChar
        else b.offChar := by
  have hall : ∀ cmd ∈ cmds ++ .add b :: List.replicate n .tasklet, cmd.NotAtZero := by
    intro cmd hcmd
    rcases List.mem_append.mp hcmd with h | h
    · exact hcmds cmd h
    · rcases List.mem_cons.mp h with rfl | h
      · exact hpos
      · rw [List.eq_of_mem_replicate h]
        trivial
  obtain ⟨s, slots, hrun, h⟩ := run_reset video hfuel hall
  have hshows := (showsAlone_add hloc hroom hfree).ticks n
  refine ⟨_, s, hrun, ?_⟩
  have hcell := hshows.video
  rw [Blink.tick_iterate hb, Blink.inPeriod_char, Blink.inPeriod_location] at hcell
  rw [h.video, Board.run_append]
  exact hcell

/-- The letter of the program after 100 ticks: 9 of its second period of 13. -/
theorem blink_period_hundred : ∃ replies s,
    mp1Run (blinkCnt + 1) (mp1Reset fun _ => 0)
      ([] ++ .add ⟨540, 0x49, 0x4D, 7, 6, 0, false⟩ :: List.replicate 100 .tasklet) =
        some (replies, s) ∧
      s.video (540 * 2) = if 100 % (ticks 7 + ticks 6) < ticks 7 then 0x49 else 0x4D :=
  blink_period (fun _ => 0) (Nat.lt_succ_self _)
    (show ∀ cmd ∈ [], BlinkCmd.NotAtZero cmd from fun _ h => nomatch h)
    (b := ⟨540, 0x49, 0x4D, 7, 6, 0, false⟩) ⟨by decide, by decide⟩ (by decide) (by decide)
    (show 0 < blinkCnt by decide) (fun _ h => nomatch h) 100

end Mp3Kernel
