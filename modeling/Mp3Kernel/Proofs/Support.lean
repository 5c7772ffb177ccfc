/-
  The support routines of the user programs (ece391support.c).

  `ece391_itoa_text`: unlike `itoa` in the kernel, `ece391_itoa` is right for every u32 value
  and every radix its table has digits for. `ece391_strcmp_orders`: the sign of `ece391_strcmp`
  is the order of the strings by unsigned characters.
-/
import Mp3Kernel.Model.Programs
import Mp3Kernel.Proofs.Descriptors
import Mp3Kernel.Proofs.Texts

namespace Mp3Kernel.User

open Base.Reversal

/-! ## Comparing -/

/-- A string without terminators is compared with all of its characters or up to a difference. -/
theorem ece391StrncmpFrom_eq_zero {s1 s2 : Nat → UInt8} {n i : Nat}
    (h0 : ∀ k, k < n → s2 (i + k) ≠ 0) :
    ece391StrncmpFrom s1 s2 n i = 0 ↔ ∀ k, k < n → s1 (i + k) = s2 (i + k) := by
  induction n generalizing i with
  | zero => exact ⟨fun _ k hk => absurd hk (Nat.not_lt_zero k), fun _ => rfl⟩
  | succ n ih =>
    have hhere : s2 i ≠ 0 := h0 0 (Nat.succ_pos n)
    rw [ece391StrncmpFrom]
    split_ifs with heq hend
    · obtain rfl := hend.resolve_left fun hz => hhere (heq ▸ hz)
      refine ⟨fun _ k hk => ?_, fun _ => rfl⟩
      rw [Nat.lt_one_iff.mp hk]
      exact heq
    · have hnext : ∀ k, k < n → s2 (i + 1 + k) ≠ 0 := fun k hk => by
        rw [Nat.add_right_comm]
        exact h0 (k + 1) (Nat.succ_lt_succ hk)
      rw [ih hnext]
      constructor
      · intro h k hk
        cases k with
        | zero => exact heq
        | succ k =>
          have hk := h k (Nat.lt_of_succ_lt_succ hk)
          rwa [Nat.add_right_comm] at hk
      · intro h k hk
        rw [Nat.add_right_comm]
        exact h (k + 1) (Nat.succ_lt_succ hk)
    · have hne : (s1 i).toNat ≠ (s2 i).toNat := fun he => heq (UInt8.toNat_inj.mp he)
      exact ⟨fun hdiff => by omega, fun h => absurd (h 0 (Nat.succ_pos n)) heq⟩

theorem ece391StrcmpFrom_text {s1 s2 : Nat → UInt8} {a b : List UInt8} {fuel i : Nat}
    (h1 : TextAt (fun j => s1 (j + i)) a) (h2 : TextAt (fun j => s2 (j + i)) b)
    (ha : ∀ c ∈ a, c ≠ 0) (hb : ∀ c ∈ b, c ≠ 0) (hfuel : a.length < fuel) :
    ∃ r, ece391StrcmpFrom s1 s2 fuel i = some r ∧ (r = 0 ↔ a = b) ∧ (r < 0 ↔ a < b) := by
  induction fuel generalizing a b i with
  | zero => exact absurd hfuel (Nat.not_lt_zero _)
  | succ fuel ih =>
    rw [ece391StrcmpFrom, textAt_first h1, textAt_first h2]
    cases a with
    | nil =>
      cases b with
      | nil => exact ⟨0, rfl, by simp, by simp⟩
      | cons c b =>
        have hc : c ≠ 0 := hb c List.mem_cons_self
        have hpos : 0 < c.toNat := Nat.pos_of_ne_zero fun he => hc (UInt8.toNat_inj.mp he)
        refine ⟨((0 : UInt8).toNat : Int) - c.toNat, if_neg (Ne.symm hc), ?_, ?_⟩
        · simp only [UInt8.toNat_zero, List.nil_eq, reduceCtorEq, iff_false]
          omega
        · simp only [UInt8.toNat_zero, List.nil_lt_cons, iff_true]
          omega
    | cons d a =>
      have hd : d ≠ 0 := ha d List.mem_cons_self
      have hpos : 0 < d.toNat := Nat.pos_of_ne_zero fun he => hd (UInt8.toNat_inj.mp he)
      cases b with
      | nil =>
        refine ⟨(d.toNat : Int) - (0 : UInt8).toNat, if_neg hd, ?_, ?_⟩
        · simp only [UInt8.toNat_zero, reduceCtorEq, iff_false]
          omega
        · simp only [UInt8.toNat_zero, List.not_lt_nil, iff_false]
          omega
      | cons c b =>
        simp only [List.getD_cons_zero]
        by_cases hdc : d = c
        · subst hdc
          obtain ⟨r, hr, hzero, hneg⟩ := ih (textAt_behind h1) (textAt_behind h2) (fun c hc => ha c (.tail _ hc))
            (fun c hc => hb c (.tail _ hc)) (Nat.lt_of_succ_lt_succ hfuel)
          refine ⟨r, by rw [if_pos rfl, if_neg hd, hr], by rw [hzero]; simp, ?_⟩
          rw [hneg, List.cons_lt_cons_iff]
          simp
        · have hne : d.toNat ≠ c.toNat := fun he => hdc (UInt8.toNat_inj.mp he)
          refine ⟨(d.toNat : Int) - c.toNat, if_neg hdc, ?_, ?_⟩
          · simp only [List.cons.injEq, hdc, false_and, iff_false]
            omega
          · rw [List.cons_lt_cons_iff, UInt8.lt_iff_toNat_lt]
            simp only [hdc, false_and, or_false]
            omega

/-! ## Copying -/

/-- The copy of a string to an earlier place in its array: it is read before it is overwritten. -/
theorem ece391Strcpy_down {mem : Nat → UInt8} {dst src n fuel : Nat} (hlt : dst < src)
    (h0 : ∀ k, k < n → mem (src + k) ≠ 0) (hend : mem (src + n) = 0) (hfuel : n < fuel) :
    ece391Strcpy fuel mem dst src = some fun j =>
      if dst ≤ j ∧ j ≤ dst + n then mem (src + (j - dst)) else mem j := by
  induction n generalizing fuel mem dst src with
  | zero =>
    obtain ⟨fuel, rfl⟩ := Nat.exists_eq_succ_of_ne_zero (Nat.ne_of_gt hfuel)
    have hterm : mem src = 0 := hend
    rw [ece391Strcpy, if_pos hterm]
    refine congrArg some (funext fun j => ?_)
    by_cases hj : j = dst
    · subst hj
      rw [Function.update_self, if_pos ⟨Nat.le_refl _, Nat.le_refl _⟩, Nat.sub_self, Nat.add_zero]
    · rw [Function.update_of_ne hj, if_neg (by omega)]
  | succ n ih =>
    obtain ⟨fuel, rfl⟩ := Nat.exists_eq_succ_of_ne_zero (Nat.ne_of_gt (Nat.zero_lt_of_lt hfuel))
    have hbehind : ∀ k, Function.update mem dst (mem src) (src + 1 + k) = mem (src + (k + 1)) :=
      fun k => by rw [Function.update_of_ne (by omega), Nat.add_assoc, Nat.add_comm 1 k]
    have hfirst : mem src ≠ 0 := h0 0 (Nat.succ_pos n)
    rw [ece391Strcpy, if_neg hfirst, ih (Nat.succ_lt_succ hlt)
      (fun k hk => by rw [hbehind]; exact h0 (k + 1) (Nat.succ_lt_succ hk))
      (by rw [hbehind]; exact hend) (Nat.lt_of_succ_lt_succ hfuel)]
    refine congrArg some (funext fun j => ?_)
    rw [hbehind]
    by_cases hj : j = dst
    · subst hj
      rw [if_neg (by omega), if_pos (by omega), Function.update_self, Nat.sub_self, Nat.add_zero]
    · rw [Function.update_of_ne hj]
      split_ifs <;> first | rfl | omega | exact congrArg mem (by omega)

/-- `ece391_strcmp` on two strings. -/
theorem ece391_strcmp_orders {s1 s2 : Nat → UInt8} {fuel : Nat} {a b : CString}
    (h1 : TextAt s1 a.bytes) (h2 : TextAt s2 b.bytes) (hfuel : strlen a < fuel) :
    ∃ r, ece391Strcmp fuel s1 s2 = some r ∧ (r = 0 ↔ a.bytes = b.bytes) ∧
      (r < 0 ↔ a.bytes < b.bytes) :=
  ece391StrcmpFrom_text h1 h2 a.noNul b.noNul hfuel

theorem ece391_strcmp_orders_nameA : ∃ r, ece391Strcmp 6 shellCmd.get nameA.get = some r ∧
    (r = 0 ↔ shellCmd.bytes = nameA.bytes) ∧ (r < 0 ↔ shellCmd.bytes < nameA.bytes) :=
  ece391_strcmp_orders (fun _ _ => rfl) (fun _ _ => rfl) (by decide)

/-! ## Numbers -/

/-- The loop writes the digits from the last on. By induction on the turns allowed. -/
theorem ece391ItoaLoop_digits (around : Int → UInt8) {radix : Nat} (h2 : 2 ≤ radix)
    (h36 : radix ≤ 36) (fuel newval newbuf : Nat) (buf : Nat → UInt8)
    (hfuel : (Nat.digits radix newval).length < fuel) :
    ∃ buf', ece391ItoaLoop around radix fuel newval newbuf buf =
        some (newbuf + (Nat.digits radix newval).length, buf') ∧
      (∀ k, k < (Nat.digits radix newval).length →
        buf' (newbuf + k) = digitChar ((Nat.digits radix newval).getD k 0)) ∧
      ∀ k, k < newbuf → buf' k = buf k := by
  induction fuel generalizing newval newbuf buf with
  | zero => exact absurd hfuel (Nat.not_lt_zero _)
  | succ fuel ih =>
    have hradix : ((radix : Int) % u32).toNat = radix := by unfold u32; omega
    have hne : (radix : Int) % u32 ≠ 0 := by unfold u32; omega
    rw [ece391ItoaLoop, if_neg hne, hradix]
    by_cases h0 : newval = 0
    · subst h0
      refine ⟨buf, by simp, fun k hk => ?_, fun _ _ => rfl⟩
      rw [Nat.digits_zero] at hk
      exact absurd hk (Nat.not_lt_zero k)
    have hdigits := Nat.digits_def' (show 1 < radix by omega) (Nat.pos_of_ne_zero h0)
    rw [hdigits, List.length_cons] at hfuel ⊢
    have hlt : newval % radix < radix := Nat.mod_lt _ (by omega)
    have hword : i32 (newval % radix) = (newval % radix : Nat) := if_pos (by omega)
    rw [if_neg h0, hword]
    dsimp only
    rw [lookup_digit around (Nat.lt_of_lt_of_le hlt h36)]
    obtain ⟨buf', hloop, hcells, hkept⟩ := ih (newval / radix) (newbuf + 1)
      (Function.update buf newbuf (digitChar (newval % radix))) (Nat.lt_of_succ_lt_succ hfuel)
    refine ⟨buf', by rw [hloop, Nat.add_assoc, Nat.add_comm 1], fun k hk => ?_, fun k hk => ?_⟩
    · cases k with
      | zero =>
        rw [List.getD_cons_zero, Nat.add_zero, hkept newbuf (Nat.lt_succ_self newbuf)]
        exact Function.update_self ..
      | succ k =>
        rw [List.getD_cons_succ, ← hcells k (Nat.lt_of_succ_lt_succ hk)]
        exact congrArg buf' (by omega)
    · rw [hkept k (Nat.lt_succ_of_lt hk)]
      exact Function.update_of_ne (Nat.ne_of_lt hk) ..

/-- The check of `ece391_strrev` only leaves out a loop that would not turn. -/
theorem ece391Strrev_eq (fuel : Nat) (s : Nat → UInt8) : ece391Strrev fuel s = strrev fuel s := by
  unfold ece391Strrev strrev ece391Strlen
  cases hlen : strlenFrom s fuel 0 with
  | none => rfl
  | some len =>
    dsimp only
    split
    · rename_i hshort
      cases fuel with
      | zero => cases hlen
      | succ fuel => rw [strrevLoop, if_neg (by omega)]
    · rfl

/-- `ece391_itoa` leaves the numeral of any value in any radix the table has digits for. -/
theorem ece391_itoa_text (around : Int → UInt8) {radix fuel value : Nat} (h2 : 2 ≤ radix)
    (h36 : radix ≤ 36) (hval : value < u32) (hfuel : 33 ≤ fuel) (buf : Nat → UInt8) :
    ∃ buf', ece391Itoa around fuel value buf radix = some buf' ∧
      TextAt buf' (numeral radix value) := by
  unfold ece391Itoa numeral
  by_cases h0 : value = 0
  · rw [if_pos h0, if_pos h0]
    exact ⟨_, rfl, textAt_cons.mpr ⟨rfl, textAt_nil.mpr rfl⟩⟩
  rw [if_neg h0, if_neg h0]
  have hlen : (Nat.digits radix value).length ≤ 32 := by
    rw [Nat.digits_length_le_iff (by omega)]
    calc value < 2 ^ 32 := hval
      _ ≤ radix ^ 32 := Nat.pow_le_pow_left h2 32
  obtain ⟨buf', hloop, hcells, -⟩ := ece391ItoaLoop_digits around h2 h36 fuel value 0 buf (by omega)
  rw [hloop, Nat.zero_add]
  dsimp only
  rw [ece391Strrev_eq]
  have hlength : ((Nat.digits radix value).map digitChar).length =
      (Nat.digits radix value).length := List.length_map _
  rw [← hlength] at hlen hcells ⊢
  have hall : ∀ k, k < ((Nat.digits radix value).map digitChar).length →
      Function.update buf' ((Nat.digits radix value).map digitChar).length 0 k =
        ((Nat.digits radix value).map digitChar).getD k 0 := by
    intro k hk
    have hcell := hcells k hk
    rw [Nat.zero_add] at hcell
    rw [List.length_map] at hk
    rw [Function.update_of_ne (by omega), hcell, List.getD_eq_getElem _ _ hk,
      List.getD_eq_getElem _ _ (by rw [List.length_map]; exact hk), List.getElem_map]
  have hend : Function.update buf' ((Nat.digits radix value).map digitChar).length 0
      ((Nat.digits radix value).map digitChar).length = 0 := Function.update_self ..
  obtain ⟨m, s', hm, hrev, hm0, -, hreversed⟩ := strrev_reversed hend (show _ < fuel by omega)
    (by omega)
  have hmlen : m = ((Nat.digits radix value).map digitChar).length := by
    by_contra hne
    have hlt : m < ((Nat.digits radix value).map digitChar).length := by omega
    rw [hall m hlt, List.getD_eq_getElem _ _ hlt] at hm0
    obtain ⟨d, hd, he⟩ := List.mem_map.mp (List.getElem_mem hlt)
    have hdlt := Nat.digits_lt_base (by omega) hd
    exact digitChar_ne_zero d (by omega) (he.trans hm0)
  rw [hmlen] at hreversed
  refine ⟨s', hrev, ?_⟩
  rw [List.map_reverse]
  exact textAt_reversed hall hend hreversed

/-- A value `itoa` gets wrong. -/
theorem ece391_itoa_text_max : ∃ buf', ece391Itoa (fun _ => 0) 33 0xFFFFFFFF (fun _ => 0) 10 =
    some buf' ∧ TextAt buf' (numeral 10 0xFFFFFFFF) :=
  ece391_itoa_text (fun _ => 0) (by decide) (by decide) (by decide) (by decide) fun _ => 0

end Mp3Kernel.User
