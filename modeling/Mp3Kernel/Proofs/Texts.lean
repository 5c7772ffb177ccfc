/-
  Texts in memory, and the text of a number.

  A text is the bytes before a terminator. `numeral` is the text of a number in a radix, and
  `itoa_text` says that `itoa` leaves it where it is right.
-/
import Mp3Kernel.Proofs.Numerals

namespace Mp3Kernel

/-! ## Texts -/

theorem textAt_nil {s : Nat → UInt8} : TextAt s [] ↔ s 0 = 0 := by
  constructor
  · intro h
    exact h 0 (Nat.le_refl 0)
  · intro h k hk
    rw [Nat.le_zero.mp hk]
    exact h

theorem textAt_cons {s : Nat → UInt8} {b : UInt8} {bytes : List UInt8} :
    TextAt s (b :: bytes) ↔ s 0 = b ∧ TextAt (fun j => s (j + 1)) bytes := by
  constructor
  · intro h
    exact ⟨h 0 (Nat.zero_le _), fun k hk => h (k + 1) (Nat.succ_le_succ hk)⟩
  · rintro ⟨h0, h⟩ k hk
    cases k with
    | zero => exact h0
    | succ k => exact h k (Nat.le_of_succ_le_succ hk)

/-- The first character of a text that starts at index `i`, and what is behind it. -/
theorem textAt_first {s : Nat → UInt8} {bytes : List UInt8} {i : Nat}
    (h : TextAt (fun j => s (j + i)) bytes) : s i = bytes.getD 0 0 := by
  simpa using h 0 (Nat.zero_le _)

theorem textAt_behind {s : Nat → UInt8} {b : UInt8} {bytes : List UInt8} {i : Nat}
    (h : TextAt (fun j => s (j + i)) (b :: bytes)) : TextAt (fun j => s (j + (i + 1))) bytes := by
  intro j hj
  rw [← (textAt_cons.mp h).2 j hj]
  exact congrArg s (by omega)

theorem strlenFrom_text {s : Nat → UInt8} {bytes : List UInt8} {fuel : Nat} (h : TextAt s bytes)
    (h0 : ∀ b ∈ bytes, b ≠ 0) (hfuel : bytes.length < fuel) :
    strlenFrom s fuel 0 = some bytes.length := by
  have hend : s bytes.length = 0 := by
    rw [h _ (Nat.le_refl _)]
    exact List.getD_eq_default _ _ (Nat.le_refl _)
  obtain ⟨m, hm, heq, hzero, -⟩ := strlenFrom_some hend fuel 0 (Nat.zero_le _) (by omega)
    fun k hk => absurd hk (Nat.not_lt_zero k)
  rcases Nat.lt_or_eq_of_le hm with hlt | rfl
  · rw [h m hm, List.getD_eq_getElem _ _ hlt] at hzero
    exact absurd hzero (h0 _ (List.getElem_mem _))
  · exact heq

theorem textAt_replicate_append {s : Nat → UInt8} {z : UInt8} {bytes : List UInt8} {n : Nat}
    (hz : ∀ j, j < n → s j = z) (h : TextAt (fun j => s (j + n)) bytes) :
    TextAt s (List.replicate n z ++ bytes) := by
  induction n generalizing s with
  | zero => exact h
  | succ n ih =>
    rw [List.replicate_succ, List.cons_append, textAt_cons]
    refine ⟨hz 0 (Nat.succ_pos n), ih (fun j hj => hz (j + 1) (Nat.succ_lt_succ hj)) ?_⟩
    intro j hj
    rw [← h j hj]
    exact congrArg s (by omega)

/-! ## Numbers -/

/-- Digits without leading zeros. -/
def numeral (radix n : Nat) : List UInt8 :=
  if n = 0 then [digitChar 0] else (Nat.digits radix n).reverse.map digitChar

theorem Numeral.text {radix value : Nat} {ds : List Nat} (h2 : 2 ≤ radix)
    (h : Numeral radix value ds) : ds.map digitChar = numeral radix value := by
  unfold numeral
  by_cases hhead : ds.head? = some 0
  · have hds := h.noLeadingZero hhead
    have hvalue := h.value
    rw [hds, List.reverse_singleton, Nat.ofDigits_singleton] at hvalue
    rw [if_pos hvalue.symm, hds]
    rfl
  · have hlast : ∀ hne : ds.reverse ≠ [], ds.reverse.getLast hne ≠ 0 := by
      intro hne h0
      apply hhead
      rw [List.getLast_reverse] at h0
      rw [List.head?_eq_some_head h.nonempty, h0]
    have hdigits : Nat.digits radix value = ds.reverse := by
      rw [← h.value]
      exact Nat.digits_ofDigits radix (by omega) _
        (fun d hd => h.digit d (List.mem_reverse.mp hd)) hlast
    have hne : value ≠ 0 := by
      rintro rfl
      rw [Nat.digits_zero] at hdigits
      exact h.nonempty (List.reverse_eq_nil_iff.mp hdigits.symm)
    rw [if_neg hne, hdigits, List.reverse_reverse]

theorem numeral_ne_zero (radix : Nat) (h2 : 2 ≤ radix) (h36 : radix ≤ 36) (n : Nat) :
    ∀ b ∈ numeral radix n, b ≠ 0 := by
  unfold numeral
  split_ifs with h0
  · simp [digitChar]
  · intro b hb
    obtain ⟨d, hd, rfl⟩ := List.mem_map.mp hb
    have hlt := Nat.digits_lt_base (by omega) (List.mem_reverse.mp hd)
    exact digitChar_ne_zero d (by omega)

theorem numeral_length_le (radix : Nat) {n k : Nat} (h2 : 2 ≤ radix) (hk : 0 < k) (hn : n < radix ^ k) :
    (numeral radix n).length ≤ k := by
  unfold numeral
  split_ifs
  · exact hk
  · rw [List.length_map, List.length_reverse]
    exact (Nat.digits_length_le_iff (by omega) n).mpr hn

/-- What `itoa` leaves where it is right. -/
theorem itoa_text (radix : Nat) {value fuel : Nat} (around : Int → UInt8) (buf : Nat → UInt8)
    (h2 : 2 ≤ radix) (h36 : radix ≤ 36) (hfuel : 33 ≤ fuel) (hval : value < u32)
    (h : value < 2147483648 ∨ radix ∣ value ∧ radix ∣ u32) :
    ∃ res, itoa around fuel value buf radix = some res ∧ TextAt res.buf (numeral radix value) := by
  by_cases h0 : value = 0
  · subst h0
    refine ⟨_, rfl, textAt_cons.mpr ⟨rfl, textAt_nil.mpr rfl⟩⟩
  · obtain ⟨res, hres, hreads, htext⟩ := itoa_indices h2 h36 hfuel h0 hval around buf
    have hindex : (i32 value).tmod radix = (value % radix : Nat) := by
      by_cases hlo : value < 2147483648
      · exact firstIndex_low radix hlo
      · obtain ⟨hdvd, hdvd32⟩ := h.resolve_left hlo
        rw [firstIndex_high radix (by omega) hval, Nat.mod_eq_zero_of_dvd hdvd,
          Nat.mod_eq_zero_of_dvd (Nat.dvd_sub hdvd32 hdvd)]
        rfl
    obtain ⟨ds, hds, hat⟩ := (itoa_faithful h2 h36 h0 hindex hreads htext).text
    rw [Int.toNat_natCast] at hds
    rw [hds.text h2] at hat
    exact ⟨res, hres, hat⟩

end Mp3Kernel
