/-
  What `printf` prints.

  `pieces` splits a format into text and conversions; it fails on a format that ends inside a
  conversion. `Renders` gives the text of the pieces, one stack word after the other. A number
  has a text where `itoa` gets it right, a string where it is terminated.

  `printf_renders`: `printf` prints the rendering and returns the length of the format.
  `printf_end_iff`: it stops at the end of its format exactly if that one can be split; else it
  goes on behind the terminator.
-/
import Mp3Kernel.Model.Printf
import Mp3Kernel.Proofs.Multiplex
import Mp3Kernel.Proofs.Texts

namespace Mp3Kernel

/-! ## Formats and their text -/

inductive Conversion where
  | percent
  | hex
  | padded
  | unsigned
  | signed
  | char
  | string
  /-- A specifier `printf` does not know prints nothing. -/
  | nothing
  deriving DecidableEq

inductive Piece where
  | text (c : UInt8)
  | conversion (c : Conversion)
  deriving DecidableEq

def conversionOf (alternate : Bool) (c : UInt8) : Conversion :=
  if c = ch '%' then .percent
  else if c = ch 'x' then if alternate then .padded else .hex
  else if c = ch 'u' then .unsigned
  else if c = ch 'd' then .signed
  else if c = ch 'c' then .char
  else if c = ch 's' then .string
  else .nothing

/-- From text on, or from inside a conversion, with or without a `#` so far. -/
def pieces : Option Bool → List UInt8 → Option (List Piece)
  | none, [] => some []
  | some _, [] => none
  | none, c :: cs =>
    if c = ch '%' then pieces (some false) cs
    else (pieces none cs).map fun ps => .text c :: ps
  | some alternate, c :: cs =>
    if c = ch '#' then pieces (some true) cs
    else (pieces none cs).map fun ps => .conversion (conversionOf alternate c) :: ps

/-- The text of a conversion of the word `w`. -/
inductive Converts (a : Args) (w : UInt32) : Conversion → List UInt8 → Prop
  | hex (h : w.toNat < 2147483648 ∨ 16 ∣ w.toNat) : Converts a w .hex (numeral 16 w.toNat)
  | padded (h : w.toNat < 2147483648 ∨ 16 ∣ w.toNat) : Converts a w .padded
      (List.replicate (8 - (numeral 16 w.toNat).length) (ch '0') ++ numeral 16 w.toNat)
  | unsigned (h : w.toNat < 2147483648) : Converts a w .unsigned (numeral 10 w.toNat)
  | natural (h : 0 ≤ i32 w.toNat) : Converts a w .signed (numeral 10 w.toNat)
  | negative (h : i32 w.toNat < 0) (hmin : i32 w.toNat ≠ -2147483648) :
      Converts a w .signed (ch '-' :: numeral 10 (i32 w.toNat).natAbs)
  | char : Converts a w .char [UInt8.ofNat w.toNat]
  | string {s : List UInt8} (h : TextAt (a.deref w) s) (h0 : ∀ b ∈ s, b ≠ 0) :
      Converts a w .string s

/-- The text of the pieces; the next word to convert is that at `esp`. -/
inductive Renders (a : Args) : Nat → List Piece → List UInt8 → Prop
  | nil (esp : Nat) : Renders a esp [] []
  | text {esp : Nat} {c : UInt8} {ps : List Piece} {out : List UInt8} (h : Renders a esp ps out) :
      Renders a esp (.text c :: ps) (c :: out)
  | percent {esp : Nat} {ps : List Piece} {out : List UInt8} (h : Renders a esp ps out) :
      Renders a esp (.conversion .percent :: ps) (ch '%' :: out)
  | nothing {esp : Nat} {ps : List Piece} {out : List UInt8} (h : Renders a esp ps out) :
      Renders a esp (.conversion .nothing :: ps) out
  | word {esp : Nat} {c : Conversion} {s : List UInt8} {ps : List Piece} {out : List UInt8}
      (hc : Converts a (a.word esp) c s) (h : Renders a (esp + 1) ps out) :
      Renders a esp (.conversion c :: ps) (s ++ out)

/-- One `putc` after the other. -/
def putAll : Kernel → List UInt8 → Option Kernel
  | k, [] => some k
  | k, c :: cs => (putc k c).bind fun k => putAll k cs

theorem putAll_append (k : Kernel) (s t : List UInt8) :
    putAll k (s ++ t) = (putAll k s).bind fun k => putAll k t := by
  induction s generalizing k with
  | nil => rfl
  | cons c s ih =>
    rw [List.cons_append, putAll, putAll, Option.bind_assoc]
    apply congrArg
    funext k'
    exact ih k'

/-! ## Strings -/

theorem putsFrom_text {s : Nat → UInt8} {bytes : List UInt8} {fuel index : Nat} (k : Kernel)
    (h : TextAt (fun j => s (j + index)) bytes) (h0 : ∀ b ∈ bytes, b ≠ 0)
    (hfuel : bytes.length < fuel) :
    putsFrom s fuel index k = (putAll k bytes).map fun k => (index + bytes.length, k) := by
  induction bytes generalizing fuel index k with
  | nil =>
    obtain ⟨fuel, rfl⟩ := Nat.exists_eq_succ_of_ne_zero (Nat.ne_of_gt hfuel)
    have hend : s index = 0 := textAt_first h
    simp only [putsFrom, hend, if_true, putAll, Option.map_some, List.length_nil, Nat.add_zero]
  | cons b bytes ih =>
    obtain ⟨fuel, rfl⟩ := Nat.exists_eq_succ_of_ne_zero (Nat.ne_of_gt (Nat.zero_lt_of_lt hfuel))
    have hb : s index = b := textAt_first h
    have hne : b ≠ 0 := h0 b List.mem_cons_self
    simp only [putsFrom, hb, if_neg hne, putAll, Option.bind_eq_bind, Option.map_bind,
      List.length_cons] at hfuel ⊢
    apply congrArg
    funext k'
    rw [ih k' (textAt_behind h) (fun b' hb' => h0 b' (List.mem_cons_of_mem b hb')) (by omega)]
    simp only [Function.comp_apply, Nat.add_assoc, Nat.add_comm 1]

theorem puts_text {s : Nat → UInt8} {bytes : List UInt8} {fuel : Nat} (k : Kernel)
    (h : TextAt s bytes) (h0 : ∀ b ∈ bytes, b ≠ 0) (hfuel : bytes.length < fuel) :
    puts fuel k s = (putAll k bytes).map fun k => (bytes.length, k) := by
  have hputs : putsFrom s fuel 0 k = (putAll k bytes).map fun k => (0 + bytes.length, k) :=
    putsFrom_text k h h0 hfuel
  rwa [Nat.zero_add] at hputs

/-! ## Conversions -/

variable {a : Args} {fuel esp : Nat} {k : Kernel}

theorem word_lt (a : Args) (esp : Nat) : (a.word esp).toNat < u32 := (a.word esp).toNat_lt

theorem putUnsigned_eq (radix : Nat) (h2 : 2 ≤ radix) (h36 : radix ≤ 36)
    (h : (a.word esp).toNat < 2147483648 ∨ radix ∣ (a.word esp).toNat ∧ radix ∣ u32)
    (hfuel : 33 ≤ fuel) (hlen : (numeral radix (a.word esp).toNat).length < fuel) (k : Kernel) :
    putUnsigned a fuel radix esp k = putAll k (numeral radix (a.word esp).toNat) := by
  obtain ⟨res, hres, htext⟩ := itoa_text radix a.around (a.stale esp) h2 h36 hfuel (word_lt a esp) h
  unfold putUnsigned
  rw [hres, Option.bind_eq_bind, Option.bind_some, puts_text k htext (numeral_ne_zero radix h2 h36 _) hlen]
  simp [Option.bind_map]

theorem padZeros_eq (n i : Nat) (convBuf : Nat → UInt8) (j : Nat) :
    padZeros n i convBuf j = if i ≤ j ∧ j < i + n then ch '0' else convBuf j := by
  induction n generalizing i convBuf with
  | zero => rw [padZeros, if_neg (by omega)]
  | succ n ih =>
    rw [padZeros, ih]
    by_cases hj : j = i
    · subst hj
      rw [if_neg (by omega), if_pos (by omega), Function.update_self]
    · rw [Function.update_of_ne hj]
      split_ifs <;> first | rfl | omega

theorem putPadded_eq (h : (a.word esp).toNat < 2147483648 ∨ 16 ∣ (a.word esp).toNat)
    (hfuel : 33 ≤ fuel) (k : Kernel) :
    putPadded a fuel esp k = putAll k (List.replicate (8 - (numeral 16 (a.word esp).toNat).length)
      (ch '0') ++ numeral 16 (a.word esp).toNat) := by
  have h16 : (2 : Nat) ≤ 16 := by decide
  have hval := word_lt a esp
  obtain ⟨res, hres, htext⟩ := itoa_text 16 a.around (fun j => a.stale esp (j + 8)) h16 (by decide)
    hfuel hval (h.imp_right fun hd => ⟨hd, by decide⟩)
  have hlen : (numeral 16 (a.word esp).toNat).length ≤ 8 :=
    numeral_length_le 16 h16 (by decide) (Nat.lt_of_lt_of_eq hval (by decide))
  have hne := numeral_ne_zero 16 h16 (by decide) (a.word esp).toNat
  unfold putPadded
  generalize numeral 16 (a.word esp).toNat = digits at *
  rw [show ((16 : Int)) = ((16 : Nat) : Int) from rfl, hres, Option.bind_eq_bind, Option.bind_some,
    strlenFrom_text htext hne (by omega), Option.bind_eq_bind, Option.bind_some]
  have hpadded : TextAt (fun j => padZeros (8 - digits.length) digits.length
      (fun j => if j < 8 then a.stale esp j else res.buf (j - 8)) (digits.length + j))
      (List.replicate (8 - digits.length) (ch '0') ++ digits) := by
    refine textAt_replicate_append (fun j hj => ?_) fun j hj => ?_
    · rw [padZeros_eq, if_pos (by omega)]
    · beta_reduce
      rw [padZeros_eq, if_neg (by omega), if_neg (by omega), ← htext j hj]
      exact congrArg res.buf (by omega)
  dsimp only
  rw [puts_text k hpadded ?_ (by rw [List.length_append, List.length_replicate]; omega)]
  · simp [Option.bind_map]
  · intro b hb
    rcases List.mem_append.mp hb with hb | hb
    · rw [List.eq_of_mem_replicate hb]
      decide
    · exact hne b hb

theorem putSigned_natural (h : 0 ≤ i32 (a.word esp).toNat) (hfuel : 33 ≤ fuel) (k : Kernel) :
    putSigned a fuel esp k = putAll k (numeral 10 (a.word esp).toNat) := by
  have hval := word_lt a esp
  have hlo : (a.word esp).toNat < 2147483648 := by
    unfold i32 at h
    unfold u32 at hval
    split_ifs at h <;> omega
  have hlen : (numeral 10 (a.word esp).toNat).length ≤ 10 :=
    numeral_length_le 10 (by decide) (by decide) (Nat.lt_of_lt_of_le hval (by decide))
  unfold putSigned
  dsimp only
  rw [if_neg (Int.not_lt.mpr h)]
  exact putUnsigned_eq 10 (by decide) (by decide) (Or.inl hlo) hfuel (by omega) k

theorem putSigned_negative (h : i32 (a.word esp).toNat < 0)
    (hmin : i32 (a.word esp).toNat ≠ -2147483648) (hfuel : 33 ≤ fuel) (k : Kernel) :
    putSigned a fuel esp k =
      putAll k (ch '-' :: numeral 10 (i32 (a.word esp).toNat).natAbs) := by
  have hval := word_lt a esp
  have habs : u32 - (a.word esp).toNat = (i32 (a.word esp).toNat).natAbs := by
    unfold i32 u32 at *
    split_ifs at * <;> omega
  have hlo : (i32 (a.word esp).toNat).natAbs < 2147483648 := by
    unfold i32 u32 at *
    split_ifs at * <;> omega
  obtain ⟨res, hres, htext⟩ := itoa_text 10 a.around (fun j => a.stale esp (j + 1))
    (by decide) (by decide) hfuel (Nat.lt_trans hlo (by decide)) (Or.inl hlo)
  have hlen : (numeral 10 (i32 (a.word esp).toNat).natAbs).length ≤ 10 :=
    numeral_length_le 10 (by decide) (by decide) (Nat.lt_trans hlo (by decide))
  have hne := numeral_ne_zero 10 (by decide) (by decide) (i32 (a.word esp).toNat).natAbs
  unfold putSigned
  dsimp only
  rw [if_pos h, habs]
  generalize numeral 10 (i32 (a.word esp).toNat).natAbs = digits at *
  have hsigned : TextAt (fun j => if j = 0 then ch '-' else res.buf (j - 1)) (ch '-' :: digits) :=
    textAt_cons.mpr ⟨rfl, fun j hj => htext j hj⟩
  rw [show ((10 : Int)) = ((10 : Nat) : Int) from rfl, hres, Option.bind_eq_bind, Option.bind_some,
    puts_text k hsigned ?_ (by rw [List.length_cons]; omega)]
  · simp [Option.bind_map]
  · intro b hb
    rcases List.mem_cons.mp hb with rfl | hb
    · decide
    · exact hne b hb

/-- A conversion other than `#` ends where it starts, and takes one word at most. -/
theorem formatChar_ends (format : Nat → UInt8) (a : Args) (fuel turns : Nat) (alternate : Bool)
    (buf esp : Nat) (h : format buf ≠ ch '#') : ∃ (f : Kernel → Option Kernel) (esp' : Nat),
      ∀ k, formatChar format a fuel (turns + 1) alternate buf esp k =
        (f k).map fun k => (buf, esp', k) := by
  unfold formatChar
  simp only [if_neg h]
  split_ifs
  · exact ⟨_, _, fun k => rfl⟩
  · exact ⟨_, _, fun k => rfl⟩
  · exact ⟨_, _, fun k => rfl⟩
  · exact ⟨_, _, fun k => rfl⟩
  · exact ⟨_, _, fun k => rfl⟩
  · exact ⟨_, _, fun k => rfl⟩
  · exact ⟨fun k => (puts fuel k (a.deref (a.word esp))).map Prod.snd, esp + 1, fun k => by
      rw [Option.map_map]
      rfl⟩
  · exact ⟨some, esp, fun k => rfl⟩

theorem formatChar_word {format : Nat → UInt8} {turns buf : Nat} {alternate : Bool}
    {c : Conversion} {s : List UInt8} (h : format buf ≠ ch '#')
    (hc : conversionOf alternate (format buf) = c) (hs : Converts a (a.word esp) c s)
    (hfuel : s.length + 33 ≤ fuel) (k : Kernel) :
    formatChar format a fuel (turns + 1) alternate buf esp k =
      (putAll k s).map fun k => (buf, esp + 1, k) := by
  unfold conversionOf at hc
  unfold formatChar
  dsimp only
  rw [if_neg h]
  split_ifs at hc with hpercent hx halt hu hd hchar hstring
  all_goals subst hc
  · cases hs
  · cases hs with
    | padded hlo =>
      rw [if_neg hpercent, if_pos hx, if_pos halt, putPadded_eq hlo (by omega)]
  · cases hs with
    | hex hlo =>
      have hput : putUnsigned a fuel (16 : Nat) esp k = putAll k (numeral 16 (a.word esp).toNat) :=
        putUnsigned_eq 16 (by decide) (by decide) (hlo.imp_right fun hdvd => ⟨hdvd, by decide⟩)
          (by omega) (by omega) k
      rw [if_neg hpercent, if_pos hx, if_neg halt, ← hput]
      rfl
  · cases hs with
    | unsigned hlo =>
      have hput : putUnsigned a fuel (10 : Nat) esp k = putAll k (numeral 10 (a.word esp).toNat) :=
        putUnsigned_eq 10 (by decide) (by decide) (Or.inl hlo) (by omega) (by omega) k
      rw [if_neg hpercent, if_neg hx, if_pos hu, ← hput]
      rfl
  · rw [if_neg hpercent, if_neg hx, if_neg hu, if_pos hd]
    cases hs with
    | natural h0 => rw [putSigned_natural h0 (by omega)]
    | negative hneg hmin => rw [putSigned_negative hneg hmin (by omega)]
  · cases hs with
    | char =>
      rw [if_neg hpercent, if_neg hx, if_neg hu, if_neg hd, if_pos hchar]
      simp [putAll]
  · cases hs with
    | string htext h0 =>
      rw [if_neg hpercent, if_neg hx, if_neg hu, if_neg hd, if_neg hchar, if_pos hstring,
        puts_text k htext h0 (by omega), Option.map_map]
      rfl
  · cases hs

theorem formatChar_percent {format : Nat → UInt8} {turns buf : Nat} {alternate : Bool}
    (hc : conversionOf alternate (format buf) = .percent) (k : Kernel) :
    formatChar format a fuel (turns + 1) alternate buf esp k =
      (putc k (ch '%')).map fun k => (buf, esp, k) := by
  unfold conversionOf at hc
  split_ifs at hc with hpercent
  unfold formatChar
  dsimp only
  rw [if_pos hpercent]

theorem formatChar_nothing {format : Nat → UInt8} {turns buf : Nat} {alternate : Bool}
    (h : format buf ≠ ch '#') (hc : conversionOf alternate (format buf) = .nothing) (k : Kernel) :
    formatChar format a fuel (turns + 1) alternate buf esp k = some (buf, esp, k) := by
  unfold conversionOf at hc
  split_ifs at hc with hpercent hx halt hu hd hchar hstring
  unfold formatChar
  dsimp only
  rw [if_neg hpercent, if_neg h, if_neg hx, if_neg hu, if_neg hd, if_neg hchar, if_neg hstring]

/-! ## printf -/

variable {format : Nat → UInt8} {ps : List Piece} {out cs : List UInt8}

/-- From an index on, the format reads `cs`. -/
def At (format : Nat → UInt8) (i : Nat) (cs : List UInt8) : Prop :=
  TextAt (fun j => format (i + j)) cs

theorem At.cons {i : Nat} {c : UInt8} (h : At format i (c :: cs)) :
    format i = c ∧ At format (i + 1) cs := by
  obtain ⟨hc, hcs⟩ := textAt_cons.mp h
  refine ⟨hc, fun j hj => ?_⟩
  rw [← hcs j hj]
  exact congrArg format (by omega)

theorem at_zero (h : TextAt format cs) : At format 0 cs := by
  intro j hj
  rw [← h j hj]
  exact congrArg format (Nat.zero_add j)

theorem At.nil {i : Nat} (h : At format i []) : format i = 0 := textAt_nil.mp h

/-- A character of text, and what comes behind it. -/
theorem printfLoop_text {i n turns : Nat} {c : UInt8} (hc : format i = c) (h0 : c ≠ 0)
    (hpercent : c ≠ ch '%') (hr : Renders a esp (.text c :: ps) out)
    (hafter : ∀ k' out', Renders a esp ps out' → out'.length ≤ out.length →
      printfLoop format a fuel turns (i + 1) esp k' = (putAll k' out').map fun k => (n, k)) :
    printfLoop format a fuel (turns + 1) i esp k = (putAll k out).map fun k => (n, k) := by
  rw [printfLoop, hc, if_neg h0, if_neg hpercent]
  cases hr with
  | text hr =>
    rw [putAll, Option.map_bind]
    apply congrArg
    funext k'
    exact hafter k' _ hr (Nat.le_succ _)

/-- The end of a conversion, and what comes behind it. -/
theorem formatChar_then {i n conv turns : Nat} {alternate : Bool} {cv : Conversion}
    (hhash : format i ≠ ch '#') (hcv : conversionOf alternate (format i) = cv)
    (hr : Renders a esp (.conversion cv :: ps) out) (hfuel : out.length + 33 ≤ fuel)
    (hafter : ∀ esp' k' out', Renders a esp' ps out' → out'.length ≤ out.length →
      printfLoop format a fuel turns (i + 1) esp' k' = (putAll k' out').map fun k => (n, k)) :
    ((formatChar format a fuel (conv + 1) alternate i esp k).bind fun r =>
      printfLoop format a fuel turns (r.1 + 1) r.2.1 r.2.2) =
    (putAll k out).map fun k => (n, k) := by
  cases hr with
  | percent hr =>
    rw [formatChar_percent hcv, Option.bind_map, putAll, Option.map_bind]
    apply congrArg
    funext k'
    exact hafter esp k' _ hr (Nat.le_succ _)
  | nothing hr =>
    rw [formatChar_nothing hhash hcv, Option.bind_some]
    exact hafter esp k _ hr (Nat.le_refl _)
  | word hconverts hr =>
    rw [List.length_append] at hfuel hafter
    rw [formatChar_word hhash hcv hconverts (by omega), Option.bind_map, putAll_append,
      Option.map_bind]
    apply congrArg
    funext k'
    exact hafter (esp + 1) k' _ hr (by omega)

/-- From text on, and from inside a conversion. -/
theorem printfLoop_renders (cs : List UInt8) (h0 : ∀ b ∈ cs, b ≠ 0) :
    ∀ (i esp turns : Nat) (k : Kernel) (ps : List Piece) (out : List UInt8), At format i cs →
      Renders a esp ps out → out.length + 33 ≤ fuel → cs.length < turns → turns ≤ fuel →
      (pieces none cs = some ps → printfLoop format a fuel turns i esp k =
        (putAll k out).map fun k => (i + cs.length, k)) ∧
      ∀ alternate conv, cs.length < conv → pieces (some alternate) cs = some ps →
        ((formatChar format a fuel conv alternate i esp k).bind fun r =>
          printfLoop format a fuel turns (r.1 + 1) r.2.1 r.2.2) =
        (putAll k out).map fun k => (i + cs.length, k) := by
  induction cs with
  | nil =>
    intro i esp turns k ps out hat hr hout hturns hle
    obtain ⟨turns, rfl⟩ := Nat.exists_eq_succ_of_ne_zero (Nat.ne_of_gt hturns)
    refine ⟨fun hp => ?_, fun alternate conv _ hp => nomatch hp⟩
    obtain rfl := Option.some.inj hp
    cases hr
    rw [printfLoop, if_pos hat.nil]
    rfl
  | cons c cs ih =>
    intro i esp turns k ps out hat hr hout hturns hle
    obtain ⟨hc, hrest⟩ := hat.cons
    have hih := ih fun b hb => h0 b (List.mem_cons_of_mem c hb)
    have hindex : i + 1 + cs.length = i + (c :: cs).length := by
      rw [List.length_cons]
      omega
    rw [List.length_cons] at hturns
    rw [← hindex]
    refine ⟨fun hp => ?_, fun alternate conv hconv hp => ?_⟩
    · obtain ⟨turns, rfl⟩ := Nat.exists_eq_succ_of_ne_zero (Nat.ne_of_gt (Nat.zero_lt_of_lt hturns))
      by_cases hpercent : c = ch '%'
      · rw [pieces, if_pos hpercent] at hp
        rw [printfLoop, hc, if_neg (h0 c List.mem_cons_self), if_pos hpercent]
        exact (hih (i + 1) esp turns k ps out hrest hr hout (by omega) (by omega)).2 false fuel
          (by omega) hp
      · rw [pieces, if_neg hpercent] at hp
        obtain ⟨ps', hps', rfl⟩ := Option.map_eq_some_iff.mp hp
        exact printfLoop_text hc (h0 c List.mem_cons_self) hpercent hr fun k' out' hr' hlen =>
          (hih (i + 1) esp turns k' ps' out' hrest hr' (by omega) (by omega) (by omega)).1 hps'
    · obtain ⟨conv, rfl⟩ := Nat.exists_eq_succ_of_ne_zero (Nat.ne_of_gt (Nat.zero_lt_of_lt hconv))
      rw [List.length_cons] at hconv
      by_cases hhash : c = ch '#'
      · rw [pieces, if_pos hhash] at hp
        rw [formatChar, hc, if_neg (by rw [hhash]; decide), if_pos hhash]
        exact (hih (i + 1) esp turns k ps out hrest hr hout (by omega) hle).2 true conv (by omega)
          hp
      · rw [pieces, if_neg hhash] at hp
        obtain ⟨ps', hps', rfl⟩ := Option.map_eq_some_iff.mp hp
        exact formatChar_then (by rw [hc]; exact hhash) (by rw [hc]) hr hout
          fun esp' k' out' hr' hlen =>
            (hih (i + 1) esp' turns k' ps' out' hrest hr' (by omega) (by omega) hle).1 hps'

/-- Where the format can be split and each conversion has a text, `printf` prints the rendering
    character by character and returns the length of the format. -/
theorem printf_renders {fmt : List UInt8} (k : Kernel) (hfmt : TextAt format fmt) (h0 : ∀ b ∈ fmt, b ≠ 0)
    (hp : pieces none fmt = some ps) (hr : Renders a 0 ps out)
    (hfuel : fmt.length < fuel ∧ out.length + 33 ≤ fuel) :
    printf fuel k format a = (putAll k out).map fun k => (fmt.length, k) := by
  have hloop := (printfLoop_renders fmt h0 0 0 fuel k ps out (at_zero hfmt) hr hfuel.2 hfuel.1
    (Nat.le_refl _)).1 hp
  rwa [Nat.zero_add] at hloop

/-! ## Where it stops -/

theorem formatChar_le {turns buf esp b e : Nat} {alternate : Bool} {k k' : Kernel}
    (h : formatChar format a fuel turns alternate buf esp k = some (b, e, k')) : buf ≤ b := by
  induction turns generalizing alternate buf with
  | zero => cases h
  | succ turns ih =>
    by_cases hhash : format buf = ch '#'
    · rw [formatChar, hhash, if_neg (by decide), if_pos rfl] at h
      exact Nat.le_of_succ_le (ih h)
    · obtain ⟨f, esp', hends⟩ := formatChar_ends format a fuel turns alternate buf esp hhash
      rw [hends] at h
      obtain ⟨k1, -, heq⟩ := Option.map_eq_some_iff.mp h
      exact Nat.le_of_eq (Prod.mk.inj heq).1

theorem printfLoop_le {turns i esp r : Nat} {k k' : Kernel}
    (h : printfLoop format a fuel turns i esp k = some (r, k')) : i ≤ r := by
  induction turns generalizing i esp k with
  | zero => cases h
  | succ turns ih =>
    rw [printfLoop] at h
    split_ifs at h
    · exact Nat.le_of_eq (Prod.mk.inj (Option.some.inj h)).1
    · obtain ⟨⟨b, e, k1⟩, hchar, h⟩ := Option.bind_eq_some_iff.mp h
      have hle := formatChar_le hchar
      have hle' := ih h
      omega
    · obtain ⟨k1, -, h⟩ := Option.bind_eq_some_iff.mp h
      exact Nat.le_of_succ_le (ih h)

/-- Where `printf` stops with a format that ends at `e`: there, or behind it. -/
def StopsAt (e r : Nat) (complete : Bool) : Prop := if complete = true then r = e else e < r

/-- From text on, and from inside a conversion. -/
theorem printfLoop_end (cs : List UInt8) (h0 : ∀ b ∈ cs, b ≠ 0) :
    ∀ (i esp turns r : Nat) (k k' : Kernel), At format i cs →
      (printfLoop format a fuel turns i esp k = some (r, k') →
        StopsAt (i + cs.length) r (pieces none cs).isSome) ∧
      ∀ alternate conv, ((formatChar format a fuel conv alternate i esp k).bind fun r =>
          printfLoop format a fuel turns (r.1 + 1) r.2.1 r.2.2) = some (r, k') →
        StopsAt (i + cs.length) r (pieces (some alternate) cs).isSome := by
  induction cs with
  | nil =>
    intro i esp turns r k k' hat
    refine ⟨fun h => ?_, fun alternate conv h => ?_⟩
    · cases turns with
      | zero => cases h
      | succ turns =>
        rw [printfLoop, if_pos hat.nil] at h
        exact (Prod.mk.inj (Option.some.inj h)).1.symm
    · obtain ⟨⟨b, e, k1⟩, hchar, h⟩ := Option.bind_eq_some_iff.mp h
      have hle := formatChar_le hchar
      have hle' := printfLoop_le h
      show i < r
      dsimp only at hle'
      omega
  | cons c cs ih =>
    intro i esp turns r k k' hat
    obtain ⟨hc, hrest⟩ := hat.cons
    have hih := ih fun b hb => h0 b (List.mem_cons_of_mem c hb)
    have hindex : i + (c :: cs).length = i + 1 + cs.length := by
      rw [List.length_cons]
      omega
    rw [hindex]
    refine ⟨fun h => ?_, fun alternate conv h => ?_⟩
    · cases turns with
      | zero => cases h
      | succ turns =>
        rw [printfLoop, hc, if_neg (h0 c List.mem_cons_self)] at h
        rw [pieces]
        split_ifs at h ⊢
        · exact (hih (i + 1) esp turns r k k' hrest).2 false fuel h
        · obtain ⟨k1, -, h⟩ := Option.bind_eq_some_iff.mp h
          rw [Option.isSome_map]
          exact (hih (i + 1) esp turns r k1 k' hrest).1 h
    · cases conv with
      | zero => cases h
      | succ conv =>
        rw [pieces]
        by_cases hhash : c = ch '#'
        · rw [formatChar, hc, if_neg (by rw [hhash]; decide), if_pos hhash] at h
          rw [if_pos hhash]
          exact (hih (i + 1) esp turns r k k' hrest).2 true conv h
        · obtain ⟨f, esp', hends⟩ := formatChar_ends format a fuel conv alternate i esp
            (by rw [hc]; exact hhash)
          rw [hends, Option.bind_map] at h
          obtain ⟨k1, -, h⟩ := Option.bind_eq_some_iff.mp h
          rw [if_neg hhash, Option.isSome_map]
          exact (hih (i + 1) esp' turns r k1 k' hrest).1 h

/-- `printf` stops at the end of its format exactly if that does not end inside a conversion.
    Otherwise the terminator counts as the specifier, and `printf` stops behind it. -/
theorem printf_end_iff {fmt : List UInt8} {r : Nat} {k k' : Kernel} (hfmt : TextAt format fmt)
    (h0 : ∀ b ∈ fmt, b ≠ 0) (h : printf fuel k format a = some (r, k')) :
    (r = fmt.length ↔ (pieces none fmt).isSome) ∧ (fmt.length < r ↔ (pieces none fmt).isNone) := by
  have hend := (printfLoop_end fmt h0 0 0 fuel r k k' (at_zero hfmt)).1 h
  rw [Nat.zero_add] at hend
  cases hp : pieces none fmt with
  | none =>
    have hlt : fmt.length < r := by simpa [StopsAt, hp] using hend
    exact ⟨iff_of_false (Nat.ne_of_gt hlt) (by simp), iff_of_true hlt rfl⟩
  | some ps =>
    have heq : r = fmt.length := by simpa [StopsAt, hp] using hend
    exact ⟨iff_of_true heq rfl, iff_of_false (by omega) (by simp)⟩

/-- "%", with a second terminator behind the first. -/
theorem printf_end_iff_percent :
    printf 3 resetKernel (fun j => [ch '%'].getD j 0) ⟨fun _ => 0, fun _ _ => 0, fun _ _ => 0,
        fun _ => 0⟩ = some (2, resetKernel) ∧
      (2 = [ch '%'].length ↔ (pieces none [ch '%']).isSome) ∧
      ([ch '%'].length < 2 ↔ (pieces none [ch '%']).isNone) := by
  have h : printf 3 resetKernel (fun j => [ch '%'].getD j 0) ⟨fun _ => 0, fun _ _ => 0,
      fun _ _ => 0, fun _ => 0⟩ = some (2, resetKernel) := rfl
  exact ⟨h, printf_end_iff (fun _ _ => rfl) (by decide +kernel) h⟩

/-! ## On the screen -/

/-- A process of the displayed terminal prints through the mappings it has. -/
theorem putc_paging {t : Fin 3} {k' : Kernel} {c : UInt8} (hk : Tidy k) (hrun : RunsOn k t)
    (ht : t = k.currentTerminal) (h : putc k c = some k') : k'.paging = k.paging := by
  obtain ⟨pa, hw, -⟩ := hk.drawable.window
  have hhid : hiddenTerminal k (some t) = none := by
    unfold hiddenTerminal
    rw [Option.filter_some, hk.drawable.id, ht, bne_self_eq_false, if_neg Bool.false_ne_true]
  have hchar : ∀ {c : UInt8}, c ≠ tab → putcChar k c = some k' → k'.paging = k.paging := by
    intro c htab h
    unfold putcChar at h
    rw [hrun.terminal, Option.bind_eq_bind, Option.bind_some, hhid] at h
    dsimp only at h
    split_ifs at h with h0
    · rw [← Option.some.inj h]
    · rw [putcBody_window hw hk.onScreen.x hk.onScreen.y h0 htab] at h
      rw [← Option.some.inj h]
      rfl
  unfold putc at h
  by_cases htab : c = tab
  · rw [if_pos htab, hrun.terminal, Option.bind_eq_bind, Option.bind_some, hhid] at h
    exact hchar (by decide) h
  · rw [if_neg htab] at h
    exact hchar htab h

/-- What is printed goes to the displayed terminal and to no other. -/
theorem putAll_drawn {t : Fin 3} {cs : List UInt8} (hk : Tidy k)
    (hterm : getRunningTerminal k = some (some t)) (hrun : t = k.currentTerminal → RunsOn k t) :
    ∃ k', putAll k cs = some k' ∧ Tidy k' ∧
      k'.logical k.currentTerminal =
        (cs.map Key.char).foldl reference (k.logical k.currentTerminal) ∧
      ∀ u, u ≠ k.currentTerminal → k'.logical u = k.logical u := by
  induction cs generalizing k with
  | nil => exact ⟨k, rfl, hk, rfl, fun _ _ => rfl⟩
  | cons c cs ih =>
    obtain ⟨k1, h1, hk1, hself, hother⟩ := echo_transparent hk hterm hrun c
    have hf := frame_putc h1
    have hcur : k1.currentTerminal = k.currentTerminal := hf.currentTerminal
    have hterm1 : getRunningTerminal k1 = some (some t) := by
      rw [getRunningTerminal_frame hf, hterm]
    have hrun1 : t = k1.currentTerminal → RunsOn k1 t := by
      intro ht
      rw [hcur] at ht
      have hpaging := putc_paging hk (hrun ht) ht h1
      have hsurface : k1.surface t = k.surface t := by
        unfold Kernel.surface
        rw [hcur]
      exact ⟨hterm1, by rw [hpaging, hsurface]; exact (hrun ht).video⟩
    obtain ⟨k', hrest, hk', hself', hother'⟩ := ih hk1 hterm1 hrun1
    rw [hcur] at hself' hother'
    refine ⟨k', ?_, hk', ?_, fun u hu => (hother' u hu).trans (hother u hu)⟩
    · rw [putAll, h1, Option.bind_some, hrest]
    · rw [hself', hself]
      rfl

/-- `printf` from a process: it returns the length of its format, and the displayed screen is
    what it was with the rendering printed on it. The other screens stay as they are. -/
theorem printf_drawn {fmt : List UInt8} {t : Fin 3} (hk : Tidy k)
    (hterm : getRunningTerminal k = some (some t)) (hrun : t = k.currentTerminal → RunsOn k t)
    (hfmt : TextAt format fmt) (h0 : ∀ b ∈ fmt, b ≠ 0) (hp : pieces none fmt = some ps)
    (hr : Renders a 0 ps out) (hfuel : fmt.length < fuel ∧ out.length + 33 ≤ fuel) :
    ∃ k', printf fuel k format a = some (fmt.length, k') ∧
      k'.logical k.currentTerminal =
        (out.map Key.char).foldl reference (k.logical k.currentTerminal) ∧
      ∀ u, u ≠ k.currentTerminal → k'.logical u = k.logical u := by
  obtain ⟨k', hputs, -, hself, hother⟩ := putAll_drawn hk hterm hrun
  refine ⟨k', ?_, hself, hother⟩
  rw [printf_renders k hfmt h0 hp hr hfuel, hputs]
  rfl

/-- "%#x" and "%d" of 14 and -14. -/
def twoNumbers : Args where
  word := fun i => if i = 0 then 14 else 4294967282
  deref := fun _ _ => 0
  stale := fun _ _ => 0
  around := fun _ => 0

def twoFormats : List UInt8 := [ch '%', ch '#', ch 'x', ch ' ', ch '%', ch 'd']

theorem renders_twoNumbers : Renders twoNumbers 0
    [.conversion .padded, .text (ch ' '), .conversion .signed]
    ([0x30, 0x30, 0x30, 0x30, 0x30, 0x30, 0x30, 0x45] ++ (ch ' ' :: ([ch '-', 0x31, 0x34] ++ []))) := by
  have hpadded : Converts twoNumbers (twoNumbers.word 0) .padded
      [0x30, 0x30, 0x30, 0x30, 0x30, 0x30, 0x30, 0x45] := by
    have h := Converts.padded (a := twoNumbers) (w := 14) (Or.inl (by decide))
    rwa [show numeral 16 (14 : UInt32).toNat = [0x45] by simp [numeral, digitChar]] at h
  have hsigned : Converts twoNumbers (twoNumbers.word 1) .signed [ch '-', 0x31, 0x34] := by
    have h := Converts.negative (a := twoNumbers) (w := 4294967282) (by decide) (by decide)
    rwa [show (i32 (4294967282 : UInt32).toNat).natAbs = 14 by decide,
      show numeral 10 14 = [0x31, 0x34] by simp [numeral, digitChar]] at h
  exact .word hpadded (.text (.word hsigned (.nil 2)))

theorem printf_drawn_twoNumbers : ∃ k k', Booted smallImage k ∧
    printf 60 k (fun j => twoFormats.getD j 0) twoNumbers = some (6, k') ∧
      k'.logical k.currentTerminal = ([0x30, 0x30, 0x30, 0x30, 0x30, 0x30, 0x30, 0x45, ch ' ', ch '-',
        0x31, 0x34].map Key.char).foldl reference (k.logical k.currentTerminal) ∧
      ∀ u, u ≠ k.currentTerminal → k'.logical u = k.logical u := by
  obtain ⟨k, hk⟩ := booted_smallImage
  have hfmt : TextAt (fun j => twoFormats.getD j 0) twoFormats := fun _ _ => rfl
  have h0 : ∀ b ∈ twoFormats, b ≠ 0 := by decide +kernel
  have hfuel : twoFormats.length < 60 ∧ 12 + 33 ≤ 60 := by decide
  obtain ⟨k', hprint⟩ := printf_drawn hk.tidy hk.runningTerminal (fun _ => hk.runsOn) hfmt h0 rfl
    renders_twoNumbers hfuel
  exact ⟨k, k', hk, hprint⟩

end Mp3Kernel
