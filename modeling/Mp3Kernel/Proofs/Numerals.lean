/-
  `itoa` and the positional notation of its value.

  The loop writes the digits from the last to the first, `strrev` turns them round. The digits
  are those of `Nat.digits` (`itoaLoop_digits`) but for the first turn: it takes the remainder
  of the value as an i32, so from 2^31 on the last digit comes from a negative number.

  * `itoa_faithful_iff`: the values and radixes `itoa` is right for.
-/
import Mp3Kernel.Base.Reversal
import Mp3Kernel.Model.Itoa
import Mathlib.Data.List.GetD
import Mathlib.Data.Nat.Digits.Lemmas
import Mathlib.Tactic.Common

namespace Mp3Kernel

open Base.Reversal

/-! ## Numerals -/

/-- The character of a digit. -/
def digitChar (d : Nat) : UInt8 := if d < 10 then 48 + UInt8.ofNat d else 55 + UInt8.ofNat d

/-- `ds` is the positional notation of `value`, most significant digit first. -/
structure Numeral (radix value : Nat) (ds : List Nat) : Prop where
  digit : ∀ d ∈ ds, d < radix
  value : Nat.ofDigits radix ds.reverse = value
  nonempty : ds ≠ []
  noLeadingZero : ds.head? = some 0 → ds = [0]

/-- The buffer holds the characters `bytes` and a terminator. -/
def TextAt (buf : Nat → UInt8) (bytes : List UInt8) : Prop :=
  ∀ k, k ≤ bytes.length → buf k = bytes.getD k 0

/-- Only digits of the radix are looked up, and the buffer holds the numeral of the value. -/
structure Faithful (value : Nat) (radix : Int) (res : ItoaResult) : Prop where
  inTable : ∀ i ∈ res.reads, 0 ≤ i ∧ i < radix
  text : ∃ ds, Numeral radix.toNat value ds ∧ TextAt res.buf (ds.map digitChar)

theorem numeral_zero {radix : Nat} (h : 2 ≤ radix) : Numeral radix 0 [0] := by
  refine ⟨fun d hd => ?_, by simp, by simp, fun _ => rfl⟩
  obtain rfl := List.mem_singleton.mp hd
  omega

theorem numeral_digits {radix value : Nat} (h : 2 ≤ radix) (hpos : 0 < value) :
    Numeral radix value (Nat.digits radix value).reverse := by
  have hne : Nat.digits radix value ≠ [] := Nat.digits_ne_nil_iff_ne_zero.mpr (by omega)
  refine ⟨fun d hd => Nat.digits_lt_base (by omega) (List.mem_reverse.mp hd), ?_, ?_, ?_⟩
  · rw [List.reverse_reverse, Nat.ofDigits_digits]
  · simpa using hne
  · intro h0
    rw [List.head?_reverse, List.getLast?_eq_getLast_of_ne_nil hne, Option.some.injEq] at h0
    exact absurd h0 (Nat.getLast_digit_ne_zero radix (by omega))

/-- The last digit is the remainder. -/
theorem Numeral.last_eq {radix value : Nat} {ds : List Nat} (h : Numeral radix value ds) :
    value % radix = ds.getLast h.nonempty := by
  have hlast := List.getLast_mem h.nonempty
  have hsplit : ds.reverse = ds.getLast h.nonempty :: ds.dropLast.reverse := by
    conv_lhs => rw [← List.dropLast_append_getLast h.nonempty]
    simp
  have hvalue := h.value
  rw [hsplit, Nat.ofDigits_cons] at hvalue
  rw [← Nat.mod_eq_of_lt (h.digit _ hlast), ← Nat.add_mul_mod_self_left (ds.getLast h.nonempty),
    hvalue]

theorem digitChar_ne_zero : ∀ d, d < 36 → digitChar d ≠ 0 := by decide

theorem digitChar_eq_zero_iff : ∀ d, d < 36 → (digitChar d = digitChar 0 ↔ d = 0) := by decide

theorem lookup_digit (around : Int → UInt8) {d : Nat} (hd : d < 36) :
    lookup around d = digitChar d := by
  have hchars : ∀ d, d < 36 → lookupChars.getD d 0 = digitChar d := by decide
  have hlen : lookupChars.length = 37 := rfl
  unfold lookup
  rw [if_pos ⟨Int.natCast_nonneg d, by rw [hlen]; omega⟩]
  exact hchars d hd

/-! ## strlen and strrev -/

/-- `strlen` stops at the first terminator. -/
theorem strlenFrom_some {s : Nat → UInt8} {n : Nat} (hn : s n = 0) (fuel len : Nat)
    (hlen : len ≤ n) (hfuel : n < len + fuel) (hlow : ∀ k, k < len → s k ≠ 0) :
    ∃ m, m ≤ n ∧ strlenFrom s fuel len = some m ∧ s m = 0 ∧ ∀ k, k < m → s k ≠ 0 := by
  induction fuel generalizing len with
  | zero => omega
  | succ fuel ih =>
    by_cases h0 : s len = 0
    · exact ⟨len, hlen, by simp [strlenFrom, h0], h0, hlow⟩
    · have hne : len ≠ n := fun he => h0 (he ▸ hn)
      simp only [strlenFrom, if_neg h0]
      refine ih (len + 1) (by omega) (by omega) fun k hk => ?_
      by_cases hkl : k = len
      · rw [hkl]
        exact h0
      · exact hlow k (by omega)

/-- The run of `strrev`'s loop, by induction on the turns allowed: each exchanges the ends of
    what is left. -/
theorem strrevLoop_reversed (fuel : Nat) (s : Nat → UInt8) (b n : Nat) (hfuel : n < fuel) :
    ∃ s', strrevLoop fuel s b (b + n - 1) = some s' ∧ Reversed s s' b n := by
  induction fuel generalizing s b n with
  | zero => omega
  | succ fuel ih =>
    by_cases hn : n ≤ 1
    · have hstop : ¬ (b : Int) < b + n - 1 := by omega
      exact ⟨s, by simp only [strrevLoop, if_neg hstop], Reversed.short s b hn⟩
    · obtain ⟨m, rfl⟩ : ∃ m, n = m + 2 := ⟨n - 2, by omega⟩
      have hgo : (b : Int) < b + (m + 2 : Nat) - 1 := by omega
      have hlast : (b + (m + 2 : Nat) - 1 : Int).toNat = b + m + 1 := by omega
      have hnext : (b + (m + 2 : Nat) - 1 - 1 : Int) = (b + 1 : Nat) + (m : Nat) - 1 := by omega
      obtain ⟨s', hs', hrev⟩ := ih (swap s b (b + m + 1)) (b + 1) m (by omega)
      refine ⟨s', ?_, hrev.wrap⟩
      simp only [strrevLoop, if_pos hgo, hlast, hnext, Int.toNat_natCast]
      rw [← hs']
      rfl

/-- `strrev` reverses what lies before the terminator. -/
theorem strrev_reversed {s : Nat → UInt8} {n fuel : Nat} (hn : s n = 0) (hfuel : n < fuel)
    (hsmall : n < 2147483648) :
    ∃ m s', m ≤ n ∧ strrev fuel s = some s' ∧ s m = 0 ∧ (∀ k, k < m → s k ≠ 0) ∧
      Reversed s s' 0 m := by
  obtain ⟨m, hm, hlen, h0, hne⟩ := strlenFrom_some hn fuel 0 (by omega) (by omega)
    (fun k hk => by omega)
  obtain ⟨s', hs', hrev⟩ := strrevLoop_reversed fuel s 0 m (by omega)
  have hi32 : i32 m = m := if_pos (by omega)
  refine ⟨m, s', hm, ?_, h0, hne, hrev⟩
  unfold strrev
  rw [hlen]
  show strrevLoop fuel s 0 (i32 m - 1) = some s'
  rw [hi32, ← hs']
  simp

/-! ## The loop -/

/-- From `st` to `st'` the characters at the indices `is` have been written, in that order. -/
structure Wrote (around : Int → UInt8) (is : List Int) (st st' : ItoaState) : Prop where
  newbuf : st'.newbuf = st.newbuf + is.length
  reads : st'.reads = is.reverse ++ st.reads
  cells : ∀ k, k < is.length → st'.buf (st.newbuf + k) = lookup around (is.getD k 0)
  kept : ∀ k, k < st.newbuf → st'.buf k = st.buf k

section Loop

variable {around : Int → UInt8} {radix : Nat} {st st' : ItoaState}

theorem Wrote.nil (around : Int → UInt8) (st : ItoaState) : Wrote around [] st st :=
  ⟨rfl, rfl, fun k hk => absurd hk (Nat.not_lt_zero k), fun _ _ => rfl⟩

/-- A turn, then the others. -/
theorem Wrote.cons {is : List Int} (h : Wrote around is (itoaStep around radix st) st') :
    Wrote around ((i32 st.newval).tmod radix :: is) st st' := by
  refine ⟨?_, ?_, fun k hk => ?_, fun k hk => ?_⟩
  · rw [h.newbuf, List.length_cons, Nat.add_comm is.length 1, ← Nat.add_assoc]
    rfl
  · rw [h.reads, List.reverse_cons, List.append_assoc]
    rfl
  · cases k with
    | zero =>
      show st'.buf st.newbuf = _
      rw [h.kept _ (Nat.lt_succ_self _)]
      exact Function.update_self ..
    | succ k =>
      have hcell := h.cells k (Nat.lt_of_succ_lt_succ hk)
      have hpos : (itoaStep around radix st).newbuf + k = st.newbuf + (k + 1) := by
        simp only [itoaStep]
        omega
      rw [hpos] at hcell
      rw [hcell, List.getD_cons_succ]
  · rw [h.kept k (Nat.lt_succ_of_lt hk)]
    exact Function.update_of_ne (Nat.ne_of_lt hk) ..

theorem itoaStep_newval (around : Int → UInt8) (h36 : radix ≤ 36) (st : ItoaState) :
    (itoaStep around radix st).newval = st.newval / radix := by
  have hcast : ((radix : Int) % u32).toNat = radix := by
    unfold u32
    omega
  simp only [itoaStep, hcast]

theorem itoaLoop_succ (h2 : 2 ≤ radix) (fuel : Nat) (hpos : st.newval ≠ 0) :
    itoaLoop around radix (fuel + 1) st = itoaLoop around radix fuel (itoaStep around radix st) := by
  have hr : (radix : Int) ≠ 0 := by omega
  simp only [itoaLoop, if_neg hpos, if_neg hr]

/-- The run on a value below 2^31, by induction on the turns allowed: the digits are written
    from the last on. -/
theorem itoaLoop_digits (around : Int → UInt8) (h2 : 2 ≤ radix) (h36 : radix ≤ 36) (fuel : Nat)
    (st : ItoaState) (hval : st.newval < 2147483648)
    (hfuel : (Nat.digits radix st.newval).length < fuel) :
    ∃ st', itoaLoop around radix fuel st = some st' ∧
      Wrote around ((Nat.digits radix st.newval).map fun d : Nat => (d : Int)) st st' := by
  induction fuel generalizing st with
  | zero => omega
  | succ fuel ih =>
    by_cases h0 : st.newval = 0
    · refine ⟨st, by simp [itoaLoop, h0], ?_⟩
      rw [h0, Nat.digits_zero]
      exact Wrote.nil around st
    · have hdigits := Nat.digits_def' (show 1 < radix by omega) (Nat.pos_of_ne_zero h0)
      have hnext := itoaStep_newval around h36 st
      rw [hdigits, List.length_cons] at hfuel
      obtain ⟨st', hst', hw⟩ := ih (itoaStep around radix st)
        (by rw [hnext]; exact Nat.lt_of_le_of_lt (Nat.div_le_self _ _) hval)
        (by rw [hnext]; omega)
      rw [hnext] at hw
      refine ⟨st', by rw [itoaLoop_succ h2 fuel h0, hst'], ?_⟩
      have hindex : (i32 st.newval).tmod radix = (st.newval % radix : Nat) := by
        rw [i32, if_pos hval, Int.ofNat_tmod]
      have hcons := hw.cons
      rw [hindex] at hcons
      rwa [hdigits, List.map_cons]

/-- The indices the loop reads for a value: the first one is the remainder of an i32. -/
def indices (radix value : Nat) : List Int :=
  (i32 value).tmod radix :: (Nat.digits radix (value / radix)).map fun d : Nat => (d : Int)

theorem digits_length_le (h2 : 2 ≤ radix) {n : Nat} (hn : n < 2147483648) :
    (Nat.digits radix n).length ≤ 31 := by
  rw [Nat.digits_length_le_iff (by omega)]
  calc n < 2 ^ 31 := hn
    _ ≤ radix ^ 31 := Nat.pow_le_pow_left h2 31

theorem div_radix_lt (h2 : 2 ≤ radix) {value : Nat} (hval : value < u32) :
    value / radix < 2147483648 := by
  have hle : value / radix ≤ value / 2 := Nat.div_le_div_left h2 (by decide)
  unfold u32 at hval
  omega

/-- The run on any value: its first turn, then one on less than 2^31. -/
theorem itoaLoop_indices (around : Int → UInt8) (h2 : 2 ≤ radix) (h36 : radix ≤ 36) {fuel : Nat}
    (hfuel : 33 ≤ fuel) (st : ItoaState) (hpos : st.newval ≠ 0) (hval : st.newval < u32) :
    ∃ st', itoaLoop around radix fuel st = some st' ∧
      Wrote around (indices radix st.newval) st st' := by
  obtain ⟨turns, rfl⟩ : ∃ turns, fuel = turns + 1 := ⟨fuel - 1, by omega⟩
  have hnext := itoaStep_newval around h36 st
  have hlt := div_radix_lt h2 hval
  have hlen := digits_length_le h2 hlt
  obtain ⟨st', hst', hw⟩ := itoaLoop_digits around h2 h36 turns
    (itoaStep around radix st) (by rw [hnext]; exact hlt) (by rw [hnext]; omega)
  rw [hnext] at hw
  exact ⟨st', by rw [itoaLoop_succ h2 turns hpos, hst'], hw.cons⟩

theorem length_indices_le (h2 : 2 ≤ radix) {value : Nat} (hval : value < u32) :
    (indices radix value).length ≤ 32 := by
  have hlen := digits_length_le h2 (div_radix_lt h2 hval)
  simp only [indices, List.length_cons, List.length_map]
  omega

end Loop

/-! ## itoa -/

section Call

variable {around : Int → UInt8} {radix value fuel : Nat} {buf : Nat → UInt8}

/-- What the reversed text reads. -/
theorem textAt_reversed {s s' : Nat → UInt8} {bytes : List UInt8}
    (hcells : ∀ k, k < bytes.length → s k = bytes.getD k 0) (h0 : s bytes.length = 0)
    (hrev : Reversed s s' 0 bytes.length) : TextAt s' bytes.reverse := by
  intro k hk
  rw [List.length_reverse] at hk
  rcases Nat.lt_or_eq_of_le hk with hlt | rfl
  · have hin := hrev.inside k hlt
    rw [Nat.zero_add, Nat.zero_add, hcells _ (by omega)] at hin
    rw [hin, List.getD_eq_getElem _ _ (by omega), List.getD_eq_getElem _ _ (by simpa using hlt),
      List.getElem_reverse]
  · rw [hrev.outside _ (Or.inr (by omega)), h0]
    exact (List.getD_eq_default _ _ (by simp)).symm

/-- The call: it reads the table at `indices`, and if there is no terminator among what it
    finds it leaves that, the other way round. -/
theorem itoa_indices (h2 : 2 ≤ radix) (h36 : radix ≤ 36) (hfuel : 33 ≤ fuel) (hpos : value ≠ 0)
    (hval : value < u32) (around : Int → UInt8) (buf : Nat → UInt8) :
    ∃ res, itoa around fuel value buf radix = some res ∧
      res.reads = (indices radix value).reverse ∧
      ((∀ i ∈ indices radix value, lookup around i ≠ 0) →
        TextAt res.buf ((indices radix value).map (lookup around)).reverse) := by
  obtain ⟨st, hst, hw⟩ := itoaLoop_indices around h2 h36 hfuel ⟨value, 0, buf, []⟩ hpos hval
  have hlen := length_indices_le h2 hval
  have hnewbuf : st.newbuf = (indices radix value).length := by
    rw [hw.newbuf]
    exact Nat.zero_add _
  have hend : Function.update st.buf st.newbuf 0 (indices radix value).length = 0 := by
    rw [← hnewbuf, Function.update_self]
  have hcells : ∀ k, k < (indices radix value).length →
      Function.update st.buf st.newbuf 0 k = lookup around ((indices radix value).getD k 0) := by
    intro k hk
    rw [Function.update_of_ne (by omega), ← hw.cells k hk]
    exact congrArg st.buf (Nat.zero_add k).symm
  obtain ⟨m, s', hm, hs', h0, hne, hrev⟩ := strrev_reversed hend
    (show (indices radix value).length < fuel by omega) (by omega)
  refine ⟨⟨s', st.reads⟩, ?_, ?_, fun hall => ?_⟩
  · simp only [itoa, if_neg hpos, hst, hs']
  · rw [hw.reads]
    exact List.append_nil _
  · have hmlen : m = (indices radix value).length := by
      by_contra hlt
      have hget := hcells m (by omega)
      rw [h0, List.getD_eq_getElem _ _ (by omega)] at hget
      exact hall _ (List.getElem_mem _) hget.symm
    subst hmlen
    rw [← List.length_map (lookup around)] at hrev hend
    refine textAt_reversed (fun k hk => ?_) hend hrev
    rw [List.length_map] at hk
    rw [hcells k hk, List.getD_eq_getElem _ _ hk, List.getD_eq_getElem _ _ (by simpa using hk),
      List.getElem_map]

/-! ### Right digits -/

/-- With the right remainder in the first turn the indices are the digits. -/
theorem indices_eq_digits (h2 : 2 ≤ radix) (hpos : value ≠ 0)
    (hindex : (i32 value).tmod radix = (value % radix : Nat)) :
    indices radix value = (Nat.digits radix value).map fun d : Nat => (d : Int) := by
  rw [indices, hindex, Nat.digits_def' (show 1 < radix by omega) (Nat.pos_of_ne_zero hpos),
    List.map_cons]

theorem itoa_faithful (h2 : 2 ≤ radix) (h36 : radix ≤ 36) (hpos : value ≠ 0) {res : ItoaResult}
    (hindex : (i32 value).tmod radix = (value % radix : Nat))
    (hreads : res.reads = (indices radix value).reverse)
    (htext : (∀ i ∈ indices radix value, lookup around i ≠ 0) →
      TextAt res.buf ((indices radix value).map (lookup around)).reverse) :
    Faithful value radix res := by
  have hdigit : ∀ d ∈ Nat.digits radix value, d < radix :=
    fun d hd => Nat.digits_lt_base (by omega) hd
  have hlookup : (Nat.digits radix value).map (fun d : Nat => lookup around d) =
      (Nat.digits radix value).map digitChar :=
    List.map_congr_left fun d hd => lookup_digit around (Nat.lt_of_lt_of_le (hdigit d hd) h36)
  rw [indices_eq_digits h2 hpos hindex] at hreads htext
  constructor
  · intro i hi
    rw [hreads] at hi
    obtain ⟨d, hd, rfl⟩ := List.mem_map.mp (List.mem_reverse.mp hi)
    have := hdigit d hd
    omega
  · refine ⟨(Nat.digits radix value).reverse, numeral_digits h2 (Nat.pos_of_ne_zero hpos), ?_⟩
    rw [List.map_map] at htext
    rw [List.map_reverse, ← hlookup]
    refine htext fun i hi => ?_
    obtain ⟨d, hd, rfl⟩ := List.mem_map.mp hi
    have hlt := Nat.lt_of_lt_of_le (hdigit d hd) h36
    rw [lookup_digit around hlt]
    exact digitChar_ne_zero d hlt

theorem firstIndex_low (radix : Nat) (hval : value < 2147483648) :
    (i32 value).tmod radix = (value % radix : Nat) := by
  rw [i32, if_pos hval, Int.ofNat_tmod]

/-- From 2^31 on the first remainder is that of a negative number. -/
theorem firstIndex_high (radix : Nat) (hlo : 2147483648 ≤ value) (hval : value < u32) :
    (i32 value).tmod radix = -((u32 - value) % radix : Nat) := by
  have hneg : i32 value = -((u32 - value : Nat) : Int) := by
    unfold u32 at hval ⊢
    unfold i32
    split <;> omega
  rw [hneg, Int.neg_tmod, Int.ofNat_tmod]

/-! ### Wrong digits -/

/-- A buffer holds one text. -/
theorem textAt_unique {s t : List UInt8} (hs : TextAt buf s) (ht : TextAt buf t)
    (hs0 : ∀ b ∈ s, b ≠ 0) (ht0 : ∀ b ∈ t, b ≠ 0) : s = t := by
  have hle : ∀ {s t : List UInt8}, TextAt buf s → TextAt buf t → (∀ b ∈ t, b ≠ 0) →
      t.length ≤ s.length := by
    intro s t hs ht ht0
    by_contra hlt
    have hend := hs s.length (Nat.le_refl _)
    rw [List.getD_eq_default _ _ (Nat.le_refl _), ht s.length (by omega),
      List.getD_eq_getElem _ _ (by omega)] at hend
    exact ht0 _ (List.getElem_mem _) hend
  refine List.ext_getElem (Nat.le_antisymm (hle ht hs hs0) (hle hs ht ht0)) fun k hk hk' => ?_
  have hcell := (hs k (Nat.le_of_lt hk)).symm.trans (ht k (Nat.le_of_lt hk'))
  rwa [List.getD_eq_getElem _ _ hk, List.getD_eq_getElem _ _ hk'] at hcell

/-- From 2^31 on a faithful result has 0 for its last digit, and the negative number of the
    first turn is a multiple of the radix. -/
theorem dvd_of_faithful (h2 : 2 ≤ radix) (h36 : radix ≤ 36) (hlo : 2147483648 ≤ value)
    (hval : value < u32) {res : ItoaResult}
    (hreads : res.reads = (indices radix value).reverse)
    (htext : (∀ i ∈ indices radix value, lookup around i ≠ 0) →
      TextAt res.buf ((indices radix value).map (lookup around)).reverse)
    (h : Faithful value radix res) : radix ∣ value ∧ radix ∣ u32 := by
  have hhigh := firstIndex_high radix hlo hval
  have hnonneg : 0 ≤ (i32 value).tmod radix := by
    refine (h.inTable _ ?_).1
    rw [hreads]
    exact List.mem_reverse.mpr (List.mem_cons_self ..)
  have hrest : (u32 - value) % radix = 0 := by omega
  have hfirst : (i32 value).tmod radix = (0 : Nat) := by omega
  -- so every index is a digit, and the text can be read
  have hmap : (indices radix value).map (lookup around) =
      digitChar 0 :: (Nat.digits radix (value / radix)).map digitChar := by
    rw [indices, hfirst, List.map_cons, List.map_map, lookup_digit around (by decide)]
    refine congrArg _ (List.map_congr_left fun d hd => ?_)
    exact lookup_digit around
      (Nat.lt_of_lt_of_le (Nat.digits_lt_base (by omega : 1 < radix) hd) h36)
  have hchars : ∀ b ∈ (indices radix value).map (lookup around), b ≠ 0 := by
    intro b hb
    rw [hmap] at hb
    rcases List.mem_cons.mp hb with rfl | hb
    · decide
    · obtain ⟨d, hd, rfl⟩ := List.mem_map.mp hb
      exact digitChar_ne_zero d
        (Nat.lt_of_lt_of_le (Nat.digits_lt_base (by omega : 1 < radix) hd) h36)
  obtain ⟨ds, hds, hat⟩ := h.text
  rw [Int.toNat_natCast] at hds
  have hsame : ds.map digitChar = ((indices radix value).map (lookup around)).reverse := by
    refine textAt_unique hat (htext fun i hi => hchars _ (List.mem_map_of_mem hi)) ?_ ?_
    · intro b hb
      obtain ⟨d, hd, rfl⟩ := List.mem_map.mp hb
      exact digitChar_ne_zero d (Nat.lt_of_lt_of_le (hds.digit d hd) h36)
    · exact fun b hb => hchars b (List.mem_reverse.mp hb)
  have hlast : digitChar (ds.getLast hds.nonempty) = digitChar 0 := by
    have hsome : (ds.map digitChar).getLast? = some (digitChar 0) := by
      rw [hsame, List.getLast?_reverse, hmap, List.head?_cons]
    rw [List.getLast?_map, List.getLast?_eq_getLast_of_ne_nil hds.nonempty, Option.map_some,
      Option.some.injEq] at hsome
    exact hsome
  have hlt : ds.getLast hds.nonempty < 36 :=
    Nat.lt_of_lt_of_le (hds.digit _ (List.getLast_mem hds.nonempty)) h36
  have hmod : value % radix = 0 := by
    rw [hds.last_eq]
    exact (digitChar_eq_zero_iff _ hlt).mp hlast
  have hdvd : radix ∣ value := Nat.dvd_of_mod_eq_zero hmod
  refine ⟨hdvd, ?_⟩
  have hsum := Nat.dvd_add (Nat.dvd_of_mod_eq_zero hrest) hdvd
  rwa [Nat.sub_add_cancel (Nat.le_of_lt hval)] at hsum

end Call

/-- `itoa` comes back, and it is right exactly for the values below 2^31 and, from there on,
    for those that the radix divides, with a radix that divides 2^32. -/
theorem itoa_faithful_iff (around : Int → UInt8) (fuel : Nat) (hfuel : 33 ≤ fuel) (value : Nat)
    (hval : value < u32) (buf : Nat → UInt8) (radix : Int) (h2 : 2 ≤ radix) (h36 : radix ≤ 36) :
    ∃ res, itoa around fuel value buf radix = some res ∧
      (Faithful value radix res ↔
        value < 2147483648 ∨ radix ∣ value ∧ radix ∣ u32) := by
  obtain ⟨r, rfl⟩ := Int.eq_ofNat_of_zero_le (show 0 ≤ radix by omega)
  have hr2 : 2 ≤ r := by omega
  have hr36 : r ≤ 36 := by omega
  rw [Int.natCast_dvd_natCast, Int.natCast_dvd_natCast]
  by_cases h0 : value = 0
  · subst h0
    refine ⟨_, rfl, iff_of_true ⟨fun i hi => (by cases hi), [0], ?_, fun k hk => ?_⟩
      (Or.inl (by decide))⟩
    · exact numeral_zero hr2
    · have hk2 : k = 0 ∨ k = 1 := by
        have hlen : ([0].map digitChar).length = 1 := rfl
        omega
      rcases hk2 with rfl | rfl <;> rfl
  · obtain ⟨res, hres, hreads, htext⟩ := itoa_indices hr2 hr36 hfuel h0 hval around buf
    refine ⟨res, hres, fun h => ?_, ?_⟩
    · by_cases hlo : value < 2147483648
      · exact Or.inl hlo
      · exact Or.inr (dvd_of_faithful hr2 hr36 (by omega) hval hreads htext h)
    · rintro (hlo | ⟨hdvd, hdvd32⟩)
      · exact itoa_faithful hr2 hr36 h0 (firstIndex_low r hlo) hreads htext
      · refine itoa_faithful hr2 hr36 h0 ?_ hreads htext
        by_cases hlo : value < 2147483648
        · exact firstIndex_low r hlo
        · rw [firstIndex_high r (by omega) hval, Nat.mod_eq_zero_of_dvd hdvd,
            Nat.mod_eq_zero_of_dvd (Nat.dvd_sub hdvd32 hdvd)]
          rfl

/-- 0x80000001 in hexadecimal: the first index is -15. -/
theorem itoa_outside_table : ∃ res, itoa (fun _ => 0) 33 0x80000001 (fun _ => 0) 16 = some res ∧
    ¬ Faithful 0x80000001 16 res := by
  refine ⟨_, rfl, fun h => ?_⟩
  have hindex : (-15 : Int) ∈ ((itoa (fun _ => 0) 33 0x80000001 (fun _ => 0) 16).elim []
      ItoaResult.reads) := by decide
  exact absurd (h.inTable (-15) hindex).1 (by decide)

/-- 2026 in decimal. -/
theorem itoa_decimal : ∃ res, itoa (fun _ => 0) 33 2026 (fun _ => 0) 10 = some res ∧
    Faithful 2026 10 res := by
  obtain ⟨res, hres, hiff⟩ := itoa_faithful_iff (fun _ => 0) 33 (by decide) 2026 (by decide)
    (fun _ => 0) 10 (by decide) (by decide)
  exact ⟨res, hres, hiff.mpr (Or.inl (by decide))⟩

end Mp3Kernel
