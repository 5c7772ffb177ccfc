/-
  `grep` on one file.

  `grep_shows`: whatever calls the other processes make in the meantime, what `do_one_file` writes
  is the lines of its file that contain the string, in order, each behind the file's name. The file
  comes in pieces: the buffer is searched up to its last line end, and what is left of it is
  moved to the front and completed by the next read. What is carried through both loops is that
  the lines shown so far and those of the rest, the part in the buffer and the part not read
  yet, are together those of the file.

  The file holds no terminators and no line that does not fit the buffer.
-/
import Mp3Kernel.Proofs.Cat
import Mp3Kernel.Proofs.Support

namespace Mp3Kernel.User

open Base.Programs Base.Runs Base.Bitmap

/-! ## The lines with a string -/

variable {s fname : CString}

/-- What is shown of a line. -/
def hit (s fname : CString) (line : List UInt8) : List UInt8 :=
  if s.bytes <:+: line then fname.bytes ++ lit ":" ++ line ++ lit "\n" else []

/-- What is shown of a text. -/
def hits (s fname : CString) (text : List UInt8) : List UInt8 :=
  (text.splitOn nl).flatMap (hit s fname)

theorem splitOn_line {line : List UInt8} (h : nl ∉ line) : line.splitOn nl = [line] :=
  List.splitOnP_eq_singleton fun b hb => by simpa using fun he : b = nl => h (he ▸ hb)

theorem splitOn_append {line : List UInt8} (h : nl ∉ line) (rest : List UInt8) :
    (line ++ nl :: rest).splitOn nl = line :: rest.splitOn nl := by
  have happend := List.splitOnP_append_cons (p := (· == nl)) line rest (show (nl == nl) = true by simp)
  have hline := splitOn_line h
  unfold List.splitOn at hline ⊢
  rw [happend, hline]
  rfl

/-- The first line of a text goes on where no line end follows. -/
theorem splitOn_longer {line : List UInt8} (h : nl ∉ line) {c : UInt8} (hc : c ≠ nl)
    (rest : List UInt8) :
    ∃ l ls, (line ++ c :: rest).splitOn nl = l :: ls ∧ line.length < l.length := by
  induction line with
  | nil =>
    obtain ⟨l, ls, hl⟩ := List.exists_cons_of_ne_nil (List.splitOnP_ne_nil (· == nl) rest)
    refine ⟨c :: l, ls, ?_, Nat.succ_pos _⟩
    show (c :: rest).splitOnP (· == nl) = _
    rw [List.splitOnP_cons_eq_if_modifyHead, if_neg (by simpa using hc), hl]
    rfl
  | cons b line ih =>
    rw [List.mem_cons, not_or] at h
    obtain ⟨l, ls, hl, hlen⟩ := ih h.2
    refine ⟨b :: l, ls, ?_, Nat.succ_lt_succ hlen⟩
    show (b :: (line ++ c :: rest)).splitOnP (· == nl) = _
    unfold List.splitOn at hl
    rw [List.splitOnP_cons_eq_if_modifyHead, if_neg (by simpa using Ne.symm h.1), hl]
    rfl

/-- Nothing is shown of an empty line. -/
theorem hit_nil (hs : strlen s ≠ 0) : hit s fname [] = [] :=
  if_neg fun h => hs (by rw [strlen, List.infix_nil.mp h]; rfl)

theorem hits_nil (hs : strlen s ≠ 0) : hits s fname [] = [] := by
  rw [hits, splitOn_line List.not_mem_nil, List.flatMap_cons, hit_nil hs]
  rfl

/-! ## Pieces of an array -/

/-- The `n` bytes from `a` on. -/
def cells (data : Nat → UInt8) (a n : Nat) : List UInt8 := (List.range n).map fun i => data (a + i)

variable {data : Nat → UInt8} {a n : Nat}

@[simp] theorem length_cells (data : Nat → UInt8) (a n : Nat) : (cells data a n).length = n := by
  simp [cells]

theorem getElem_cells {i : Nat} (h : i < (cells data a n).length) :
    (cells data a n)[i] = data (a + i) := by simp [cells]

theorem cells_congr {data' : Nat → UInt8} {b : Nat} (h : ∀ i, i < n → data (a + i) = data' (b + i)) :
    cells data a n = cells data' b n :=
  List.map_congr_left fun i hi => h i (List.mem_range.mp hi)

theorem cells_add (data : Nat → UInt8) (a m n : Nat) :
    cells data a (m + n) = cells data a m ++ cells data (a + m) n := by
  simp only [cells, List.range_add, List.map_append, List.map_map, Function.comp_def, Nat.add_assoc]

theorem cells_succ (data : Nat → UInt8) (a n : Nat) :
    cells data a (n + 1) = data a :: cells data (a + 1) n := by
  rw [Nat.add_comm, cells_add]
  rfl

theorem mem_cells {b : UInt8} : b ∈ cells data a n ↔ ∃ i, i < n ∧ data (a + i) = b := by
  simp [cells]

/-- An array that holds a terminator behind some bytes. -/
theorem textAt_cells (hend : data (a + n) = 0) :
    TextAt (fun i => data (a + i)) (cells data a n) := by
  intro k hk
  rw [length_cells] at hk
  rcases Nat.lt_or_eq_of_le hk with hlt | rfl
  · rw [List.getD_eq_getElem _ _ (by rwa [length_cells]), getElem_cells]
  · rw [List.getD_eq_default _ _ (by rw [length_cells])]
    exact hend

/-- The end of the line: the first newline, or the end of what is filled. -/
theorem lineEndFrom_spec (data : Nat → UInt8) (n e : Nat) :
    ∃ m, m ≤ n ∧ lineEndFrom data n e = e + m ∧ nl ∉ cells data e m ∧
      (m < n → data (e + m) = nl) := by
  induction n generalizing e with
  | zero => exact ⟨0, Nat.le_refl 0, rfl, List.not_mem_nil, fun h => absurd h (Nat.lt_irrefl 0)⟩
  | succ n ih =>
    rw [lineEndFrom]
    split_ifs with hne
    · obtain ⟨m, hm, hend, hnot, hnl⟩ := ih (e + 1)
      refine ⟨m + 1, Nat.succ_le_succ hm, by omega, ?_, fun hlt => ?_⟩
      · rw [cells_succ, List.mem_cons, not_or]
        exact ⟨Ne.symm hne, hnot⟩
      · rw [Nat.add_comm m 1, ← Nat.add_assoc]
        exact hnl (Nat.lt_of_succ_lt_succ hlt)
    · exact ⟨0, Nat.zero_le _, rfl, List.not_mem_nil, fun _ => not_not.mp hne⟩

/-! ## The search -/

/-- The string stands at index `j` of the line. -/
def StandsAt (s : CString) (data : Nat → UInt8) (check : Nat) : Prop :=
  ∀ k, k < strlen s → data (check + k) = s.get k

theorem get_ne_zero {k : Nat} (hk : k < strlen s) : s.get k ≠ 0 := by
  have hk' : k < s.bytes.length := hk
  rw [CString.get, List.getD_eq_getElem _ _ hk']
  exact s.noNul _ (List.getElem_mem hk')

/-- The test of the search. -/
theorem standsAt_iff (hs : strlen s ≠ 0) {sMem : Nat → UInt8} (hmem : TextAt sMem s.bytes)
    (check : Nat) : (sMem 0 = data check ∧
      ece391Strncmp (fun i => data (check + i)) sMem (strlen s) = 0) ↔ StandsAt s data check := by
  have hchar : ∀ k, k < strlen s → sMem k = s.get k := fun k hk => hmem k (Nat.le_of_lt hk)
  have hcmp : ece391StrncmpFrom (fun i => data (check + i)) sMem (strlen s) 0 = 0 ↔
      ∀ k, k < strlen s → data (check + (0 + k)) = sMem (0 + k) :=
    ece391StrncmpFrom_eq_zero fun k hk => by
      rw [Nat.zero_add, hchar k hk]
      exact get_ne_zero hk
  unfold ece391Strncmp StandsAt
  rw [hcmp]
  constructor
  · rintro ⟨-, h⟩ k hk
    rw [← hchar k hk]
    have hk' := h k hk
    rwa [Nat.zero_add] at hk'
  · intro h
    refine ⟨?_, fun k hk => ?_⟩
    · rw [hchar 0 (Nat.pos_of_ne_zero hs), ← h 0 (Nat.pos_of_ne_zero hs)]
      rfl
    · rw [Nat.zero_add, hchar k hk]
      exact h k hk

/-- Somewhere in the line it stands exactly if it is part of the line. -/
theorem infix_cells_iff (hs : strlen s ≠ 0) (hend : data (a + n) = 0) :
    s.bytes <:+: cells data a n ↔ ∃ j, j < n ∧ StandsAt s data (a + j) := by
  constructor
  · rintro ⟨before, behind, heq⟩
    have hlen := congrArg List.length heq
    rw [List.length_append, List.length_append, length_cells] at hlen
    have hpos : 0 < s.bytes.length := Nat.pos_of_ne_zero hs
    refine ⟨before.length, by omega, fun k hk => ?_⟩
    have hk' : k < s.bytes.length := hk
    have hget : (before ++ s.bytes ++ behind)[before.length + k]? = some (s.get k) := by
      rw [List.append_assoc, List.getElem?_append_right (Nat.le_add_right _ _),
        Nat.add_sub_cancel_left, List.getElem?_append_left hk', CString.get,
        List.getElem?_eq_getElem hk', List.getD_eq_getElem _ _ hk']
    rw [heq, List.getElem?_eq_getElem (by rw [length_cells]; omega), getElem_cells] at hget
    rw [Nat.add_assoc]
    exact Option.some.inj hget
  · rintro ⟨j, hj, hstands⟩
    -- the terminator behind the line is not part of the string
    have hfits : j + strlen s ≤ n := by
      by_contra hover
      have hbad := hstands (n - j) (by omega)
      rw [show a + j + (n - j) = a + n by omega, hend] at hbad
      exact get_ne_zero (by omega) hbad.symm
    have hstring : cells data (a + j) (strlen s) = s.bytes := by
      refine List.ext_getElem (length_cells _ _ _) fun k hk hk' => ?_
      rw [getElem_cells, hstands k hk', CString.get, List.getD_eq_getElem _ _ hk']
    refine ⟨cells data a j, cells data (a + j + strlen s) (n - (j + strlen s)), ?_⟩
    rw [← hstring, ← cells_add, Nat.add_assoc, ← cells_add]
    congr 1
    omega

/-! ## One line -/

variable {img : Image} {procs : Nat → Prop} {p : Nat} {files : OpenFiles} {args : CString}
  {out target : List UInt8} {α : Type} {t : Session} {sMem nameMem : Nat → UInt8} {fuel : Nat}

/-- The arguments of `do_one_file`. -/
structure GrepArgs (s fname : CString) (sMem nameMem : Nat → UInt8) (fuel : Nat) : Prop where
  str : TextAt sMem s.bytes
  name : TextAt nameMem fname.bytes
  nonempty : strlen s ≠ 0
  named : strlen fname ≠ 0
  fuel : strlen s + strlen fname + bufSize + 2 ≤ fuel

/-- Where the string is in the line, the four pieces of the line's output follow each other. -/
theorem Proc.wp_showLine (hargs : GrepArgs s fname sMem nameMem fuel)
    (h : Proc img procs p files args out t) (hn : n ≤ bufSize) (hend : data (a + n) = 0)
    (h0 : ∀ b ∈ cells data a n, b ≠ 0) (hin : s.bytes <:+: cells data a n)
    {post : Progress PUnit → Session → Prop}
    (hwait : ∀ pre t', pre <+: hit s fname (cells data a n) →
      Proc img procs p files args (out ++ pre) t' → post .waiting t')
    (hnext : ∀ t', Proc img procs p files args (out ++ hit s fname (cells data a n)) t' →
      post (.ended ⟨⟩) t') :
    wp (KernelAnswers img procs p) (do
      ece391Fdputs fuel 1 nameMem
      ece391Fdputs fuel 1 (str ":")
      ece391Fdputs fuel 1 fun i => data (a + i)
      ece391Fdputs fuel 1 (str "\n")) post t := by
  have hfuel := hargs.fuel
  have hline : cells data a n ≠ [] := fun he =>
    hargs.nonempty (by rw [he] at hin; rw [strlen, List.infix_nil.mp hin]; rfl)
  rw [hit, if_pos hin] at hwait hnext
  have hlength : (cells data a n).length < fuel := by rw [length_cells]; omega
  refine h.wp_fdputs hargs.name fname.noNul (fun he => hargs.named (by rw [strlen, he]; rfl))
    (show strlen fname < fuel by omega) (hwait [] t List.nil_prefix (by simpa using h)) fun t1 h1 => ?_
  refine h1.wp_fdputs (textAt_str _) (by decide +kernel) (by decide +kernel) (show 1 < fuel by omega)
    (hwait _ t1 (by simp) h1) fun t2 h2 => ?_
  rw [List.append_assoc] at h2
  refine h2.wp_fdputs (textAt_cells hend) h0 hline hlength (hwait _ t2 (by simp) h2) fun t3 h3 => ?_
  rw [List.append_assoc] at h3
  rw [← wp_bind_pure]
  refine h3.wp_fdputs (textAt_str _) (by decide +kernel) (by decide +kernel) (show 1 < fuel by omega)
    (hwait _ t3 (by simp) h3) fun t4 h4 => ?_
  rw [List.append_assoc] at h4
  exact hnext t4 h4

/-- The search, from where the string has not been found so far. -/
theorem Proc.wp_searchLine (hargs : GrepArgs s fname sMem nameMem fuel)
    (h : Proc img procs p files args out t) (hn : n ≤ bufSize) (hend : data (a + n) = 0)
    (h0 : ∀ b ∈ cells data a n, b ≠ 0) {j left : Nat} (hleft : j + left = n)
    (hnot : ∀ i, i < j → ¬ StandsAt s data (a + i)) {post : Progress PUnit → Session → Prop}
    (hwait : ∀ pre t', pre <+: hit s fname (cells data a n) →
      Proc img procs p files args (out ++ pre) t' → post .waiting t')
    (hnext : ∀ t', Proc img procs p files args (out ++ hit s fname (cells data a n)) t' →
      post (.ended ⟨⟩) t') :
    wp (KernelAnswers img procs p) (searchLine fuel (strlen s) sMem nameMem data a left (a + j))
      post t := by
  have hiff := infix_cells_iff (a := a) (n := n) hargs.nonempty hend
  induction left generalizing j with
  | zero =>
    have hmiss : ¬ s.bytes <:+: cells data a n := by
      rw [hiff]
      rintro ⟨i, hi, hstands⟩
      exact hnot i (by omega) hstands
    rw [hit, if_neg hmiss, List.append_nil] at hnext
    exact hnext t h
  | succ left ih =>
    rw [searchLine]
    by_cases hstands : StandsAt s data (a + j)
    · rw [if_pos ((standsAt_iff hargs.nonempty hargs.str (a + j)).mpr hstands)]
      exact h.wp_showLine hargs hn hend h0 (hiff.mpr ⟨j, by omega, hstands⟩) hwait hnext
    · rw [if_neg fun htest => hstands ((standsAt_iff hargs.nonempty hargs.str (a + j)).mp htest)]
      refine ih (j := j + 1) (by omega) fun i hi => ?_
      by_cases hij : i = j
      · rw [hij]
        exact hstands
      · exact hnot i (by omega)

/-! ## What is left to show -/

/-- `out` is what has been shown, and `text` what is left of the file. -/
structure ToShow (s fname : CString) (target out text : List UInt8) : Prop where
  shown : out ++ hits s fname text = target
  noNul : ∀ b ∈ text, b ≠ 0
  short : ∀ line ∈ text.splitOn nl, line.length ≤ bufSize

variable {text line behind rest : List UInt8}

/-- The text `behind` a line is what is left after it, with the line end in between or, at the
    end of the file or of a full buffer, without it. -/
def Ends (line behind rest : List UInt8) : Prop :=
  behind = nl :: rest ∨ behind = rest ∧ (rest = [] ∨ line.length = bufSize)

theorem ToShow.next (hs : strlen s ≠ 0) (h : ToShow s fname target out (line ++ behind))
    (hline : nl ∉ line) (hends : Ends line behind rest) :
    ToShow s fname target (out ++ hit s fname line) rest := by
  have hafter : ∀ {text : List UInt8}, ToShow s fname target out (line ++ nl :: text) →
      ToShow s fname target (out ++ hit s fname line) text := by
    intro text h
    have hsplit := splitOn_append hline text
    refine ⟨?_, fun b hb => h.noNul b (by simp [hb]), fun l hl => h.short l ?_⟩
    · rw [← h.shown, hits, hits, hsplit, List.flatMap_cons, List.append_assoc]
    · rw [hsplit]
      exact List.mem_cons_of_mem line hl
  rcases hends with rfl | ⟨rfl, hlast⟩
  · exact hafter h
  cases behind with
  | nil =>
    refine ⟨?_, fun b hb => absurd hb List.not_mem_nil, fun l hl => ?_⟩
    · rw [← h.shown, List.append_nil, hits_nil hs, List.append_nil, hits, splitOn_line hline,
        List.flatMap_cons, List.flatMap_nil, List.append_nil]
    · rw [splitOn_line List.not_mem_nil, List.mem_singleton] at hl
      rw [hl]
      exact Nat.zero_le _
  | cons c rest =>
    have hfull : line.length = bufSize := hlast.resolve_left (List.cons_ne_nil c rest)
    by_cases hc : c = nl
    · subst hc
      have hrest := hafter h
      have hsplit := splitOn_append List.not_mem_nil rest
      refine ⟨?_, fun b hb => h.noNul b (List.mem_append_right _ hb), fun l hl => ?_⟩
      · rw [← hrest.shown, hits, ← List.nil_append (nl :: rest), hsplit, List.flatMap_cons,
          hit_nil hs]
        rfl
      · rw [← List.nil_append (nl :: rest), hsplit, List.mem_cons] at hl
        rcases hl with rfl | hl
        · exact Nat.zero_le _
        · exact hrest.short l hl
    · -- a line that fills the buffer and goes on is too long
      obtain ⟨l, ls, hl, hlen⟩ := splitOn_longer hline hc rest
      have hshort := h.short l (by rw [hl]; exact List.mem_cons_self)
      omega

/-! ## The inner loop -/

/-- Up to the end of what is in the buffer, everything shown is the beginning of the whole. -/
def LinesShown (img : Image) (procs : Nat → Prop) (p : Nat) (files : OpenFiles) (args : CString)
    (target : List UInt8) (next : GrepBuf → List UInt8 → Prop) :
    Progress GrepBuf → Session → Prop
  | .waiting, t => output p t.record <+: target
  | .stopped, _ => False
  | .ended b, t => ∃ out, Proc img procs p files args out t ∧ next b out

/-- Between two reads: `rest` is the part of the file not read yet. -/
structure Pending (s fname : CString) (target rest : List UInt8) (b : GrepBuf) (out : List UInt8) :
    Prop where
  room : b.last < bufSize
  endOk : b.data bufSize ≠ nl
  noNewline : nl ∉ cells b.data 0 b.last
  toShow : ToShow s fname target out (cells b.data 0 b.last ++ rest)

/-- Between two lines: `last` bytes are in the buffer, and the line starts at `lineStart`. -/
structure AtLine (s fname : CString) (target rest : List UInt8) (last : Nat)
    (data : Nat → UInt8) (lineStart : Nat) (out : List UInt8) : Prop where
  inBuf : lineStart ≤ last
  endOk : data bufSize ≠ nl
  toShow : ToShow s fname target out (cells data lineStart (last - lineStart) ++ rest)

variable {last lineStart left : Nat} {cnt : Int}

/-- The search of a line, with what follows it. -/
theorem AtLine.search (hargs : GrepArgs s fname sMem nameMem fuel)
    (h : Proc img procs p files args out t) {m : Nat} (hm : m ≤ bufSize)
    (hnl : nl ∉ cells data lineStart m)
    (htoShow : ToShow s fname target out (cells data lineStart m ++ behind))
    (hends : Ends (cells data lineStart m) behind rest) {g : PUnit → Prog α}
    {post : Progress α → Session → Prop}
    (hwait : ∀ t', output p t'.record <+: target → post .waiting t')
    (hnext : ∀ out' t', Proc img procs p files args out' t' → ToShow s fname target out' rest →
      wp (KernelAnswers img procs p) (g ⟨⟩) post t') :
    wp (KernelAnswers img procs p) (searchLine fuel (strlen s) sMem nameMem
      (Function.update data (lineStart + m) 0) lineStart m lineStart >>= g) post t := by
  have hsame : cells (Function.update data (lineStart + m) 0) lineStart m = cells data lineStart m :=
    cells_congr fun i hi => Function.update_of_ne (by omega) ..
  have h0 : ∀ b ∈ cells data lineStart m, b ≠ 0 := fun b hb =>
    htoShow.noNul b (List.mem_append_left _ hb)
  have hafter := htoShow.next hargs.nonempty hnl hends
  rw [wp_bind]
  refine h.wp_searchLine hargs hm (Function.update_self ..) (by rwa [hsame]) (Nat.zero_add m)
    (fun i hi => absurd hi (Nat.not_lt_zero i)) ?_ ?_
  · intro pre t' hpre ht'
    rw [hsame] at hpre
    refine hwait t' ?_
    rw [ht'.output]
    exact ((List.prefix_append_right_inj out).mpr hpre).trans ⟨_, hafter.shown⟩
  · intro t' ht'
    rw [hsame] at ht'
    exact hnext _ t' ht' hafter

/-- The beginning of a line, with the terminator behind it, is copied to the front. -/
theorem copy_line {m : Nat} (hpos : lineStart ≠ 0) (h0 : ∀ b ∈ cells data lineStart m, b ≠ 0)
    (hfuel : m < fuel) :
    ∃ data', ece391Strcpy fuel (Function.update data (lineStart + m) 0) 0 lineStart = some data' ∧
      cells data' 0 m = cells data lineStart m ∧
      ∀ j, m < j → data' j = Function.update data (lineStart + m) 0 j := by
  have hkeep : ∀ i, i < m → Function.update data (lineStart + m) 0 (lineStart + i) =
      data (lineStart + i) := fun i hi => Function.update_of_ne (by omega) ..
  refine ⟨_, ece391Strcpy_down (Nat.pos_of_ne_zero hpos) (fun k hk => ?_) (Function.update_self ..)
    hfuel, ?_, fun j hj => if_neg (by omega)⟩
  · rw [hkeep k hk]
    exact h0 _ (mem_cells.mpr ⟨k, hk, rfl⟩)
  · refine cells_congr fun i hi => ?_
    rw [if_pos (by omega), show lineStart + (0 + i - 0) = lineStart + i by omega, hkeep i hi]

theorem Pending.empty (hend : data bufSize ≠ nl) (h : ToShow s fname target out rest) :
    Pending s fname target rest ⟨data, 0⟩ out :=
  ⟨show 0 < bufSize by decide, hend, List.not_mem_nil, h⟩

/-- The terminator put behind a line is no newline. -/
theorem AtLine.endOk_update (h : AtLine s fname target rest last data lineStart out) (i : Nat) :
    Function.update data i 0 bufSize ≠ nl := by
  by_cases he : bufSize = i
  · rw [← he, Function.update_self]
    decide
  · rw [Function.update_of_ne he]
    exact h.endOk

/-- After a turn there is a line to come, with less behind it, or the next read. -/
def TurnDone (img : Image) (procs : Nat → Prop) (p : Nat) (files : OpenFiles) (args s fname : CString)
    (target rest : List UInt8) (last : Nat) (cnt : Int) (left : Nat) :
    Progress (((Nat → UInt8) × Nat) ⊕ GrepBuf) → Session → Prop :=
  turn (fun x t => ∃ out, Proc img procs p files args out t ∧
      AtLine s fname target rest last x.1 x.2 out ∧ last - x.2 < left)
    (LinesShown img procs p files args target fun b out =>
      Pending s fname target rest b out ∧ (cnt = 0 → b.last = 0))

/-- What `lineTurn` does with a line that ends at `lineEnd` and is searched. -/
def searchTurn (fuel sLen : Nat) (sMem nameMem data : Nat → UInt8) (last lineStart lineEnd : Nat) :
    Prog (((Nat → UInt8) × Nat) ⊕ GrepBuf) :=
  searchLine fuel sLen sMem nameMem data lineStart (lineEnd - lineStart) lineStart >>= fun _ =>
    if last ≤ lineEnd + 1 then pure (.inr ⟨data, 0⟩) else pure (.inl (data, lineEnd + 1))

/-- A line end is found. -/
theorem AtLine.found (hargs : GrepArgs s fname sMem nameMem fuel) (hlast : last ≤ bufSize)
    (h : Proc img procs p files args out t)
    (hline : AtLine s fname target rest last data lineStart out)
    (hleft : last - lineStart < left + 1) {m : Nat} (hlt : m < last - lineStart)
    (hnl : nl ∉ cells data lineStart m) (hstop : data (lineStart + m) = nl) :
    wp (KernelAnswers img procs p) (searchTurn fuel (strlen s) sMem nameMem
        (Function.update data (lineStart + m) 0) last lineStart (lineStart + m))
      (TurnDone img procs p files args s fname target rest last cnt left) t := by
  have hin := hline.inBuf
  have hsplit : cells data lineStart (last - lineStart) ++ rest = cells data lineStart m ++
      nl :: (cells data (lineStart + m + 1) (last - (lineStart + m + 1)) ++ rest) := by
    have hparts : last - lineStart = m + (last - (lineStart + m + 1) + 1) := by omega
    rw [hparts, cells_add, cells_succ, hstop, List.append_assoc]
    rfl
  have htoShow := hline.toShow
  rw [hsplit] at htoShow
  unfold searchTurn
  rw [Nat.add_sub_cancel_left]
  refine AtLine.search hargs h (by omega) hnl htoShow (Or.inl rfl) (fun _ hpre => hpre) ?_
  intro out' t' ht' hafter
  split_ifs with hover
  · rw [show last - (lineStart + m + 1) = 0 by omega] at hafter
    exact ⟨out', ht', .empty (hline.endOk_update _) hafter, fun _ => rfl⟩
  · refine ⟨out', ht', ⟨by omega, hline.endOk_update _, ?_⟩, by omega⟩
    have hbehind : cells (Function.update data (lineStart + m) 0) (lineStart + m + 1)
        (last - (lineStart + m + 1)) =
          cells data (lineStart + m + 1) (last - (lineStart + m + 1)) :=
      cells_congr fun i _ => Function.update_of_ne (by omega) ..
    rwa [hbehind]

/-- The line goes on behind the buffer, and is moved to the front. -/
theorem AtLine.moved (hargs : GrepArgs s fname sMem nameMem fuel) (hlast : last ≤ bufSize)
    (h : Proc img procs p files args out t)
    (hline : AtLine s fname target rest last data lineStart out) (hcnt : cnt ≠ 0)
    (hpos : lineStart ≠ 0) (hnl : nl ∉ cells data lineStart (last - lineStart)) :
    wp (KernelAnswers img procs p)
      (Program.ofOption (ece391Strcpy fuel
          (Function.update data (lineStart + (last - lineStart)) 0) 0 lineStart) >>= fun data =>
        pure (.inr ⟨data, last - lineStart⟩))
      (TurnDone img procs p files args s fname target rest last cnt left) t := by
  have hin := hline.inBuf
  obtain ⟨data', hcopy, hmoved, hrest⟩ := copy_line (m := last - lineStart) hpos
    (fun b hb => hline.toShow.noNul b (List.mem_append_left _ hb))
    (show last - lineStart < fuel by have := hargs.fuel; omega)
  rw [hcopy]
  refine ⟨out, h, ⟨?_, ?_, ?_, ?_⟩, fun hz => absurd hz hcnt⟩
  · show last - lineStart < bufSize
    omega
  · show data' bufSize ≠ nl
    rw [hrest _ (by omega)]
    exact hline.endOk_update _
  · rw [hmoved]
    exact hnl
  · rw [hmoved]
    exact hline.toShow

/-- The last line of the buffer is searched as it is. -/
theorem AtLine.final (hargs : GrepArgs s fname sMem nameMem fuel) (hlast : last ≤ bufSize)
    (h : Proc img procs p files args out t)
    (hline : AtLine s fname target rest last data lineStart out)
    (hnl : nl ∉ cells data lineStart (last - lineStart))
    (hwhole : rest = [] ∨ last - lineStart = bufSize) :
    wp (KernelAnswers img procs p) (searchTurn fuel (strlen s) sMem nameMem
        (Function.update data (lineStart + (last - lineStart)) 0) last lineStart
        (lineStart + (last - lineStart)))
      (TurnDone img procs p files args s fname target rest last cnt left) t := by
  have hin := hline.inBuf
  have hends : Ends (cells data lineStart (last - lineStart)) rest rest := by
    refine Or.inr ⟨rfl, ?_⟩
    rw [length_cells]
    exact hwhole
  unfold searchTurn
  rw [Nat.add_sub_cancel_left]
  refine AtLine.search hargs h (by omega) hnl hline.toShow hends (fun _ hpre => hpre) ?_
  intro out' t' ht' hafter
  rw [if_pos (by omega)]
  exact ⟨out', ht', .empty (hline.endOk_update _) hafter, fun _ => rfl⟩

/-- One line: it is shown, or moved to the front of the buffer. -/
theorem AtLine.turn (hargs : GrepArgs s fname sMem nameMem fuel) (hlast : last ≤ bufSize)
    (hfull : last < bufSize → rest = []) (hend : cnt = 0 → rest = [])
    (h : Proc img procs p files args out t) (hline : AtLine s fname target rest last data lineStart out)
    (hleft : last - lineStart < left + 1) :
    wp (KernelAnswers img procs p) (lineTurn fuel (strlen s) sMem nameMem cnt last (data, lineStart))
      (TurnDone img procs p files args s fname target rest last cnt left) t := by
  obtain ⟨m, hm, hlineEnd, hnl, hstop⟩ := lineEndFrom_spec data (last - lineStart) lineStart
  have hin := hline.inBuf
  unfold lineTurn
  simp only [hlineEnd]
  by_cases hlt : m < last - lineStart
  · rw [if_neg fun hmove => hmove.1 (hstop hlt)]
    exact hline.found hargs hlast h hleft hlt hnl (hstop hlt)
  -- the line goes up to the end of what is in the buffer
  obtain rfl : m = last - lineStart := Nat.le_antisymm hm (Nat.le_of_not_lt hlt)
  by_cases hmove : ¬ data (lineStart + (last - lineStart)) = nl ∧ cnt ≠ 0 ∧ lineStart ≠ 0
  · rw [if_pos hmove]
    exact hline.moved hargs hlast h hmove.2.1 hmove.2.2 hnl
  · rw [if_neg hmove]
    refine hline.final hargs hlast h hnl ?_
    by_cases hshort : last < bufSize
    · exact Or.inl (hfull hshort)
    by_cases hcnt : cnt = 0
    · exact Or.inl (hend hcnt)
    -- the buffer is full, and its end is no line end
    have hat : lineStart + (last - lineStart) = bufSize := by omega
    have hstart : lineStart = 0 := by
      by_contra hpos
      exact hmove ⟨by rw [hat]; exact hline.endOk, hcnt, hpos⟩
    right
    omega

theorem AtLine.loop (hargs : GrepArgs s fname sMem nameMem fuel) (hlast : last ≤ bufSize)
    (hfull : last < bufSize → rest = []) (hend : cnt = 0 → rest = [])
    (h : Proc img procs p files args out t) (hline : AtLine s fname target rest last data 0 out) :
    wp (KernelAnswers img procs p)
      (loop (lineTurn fuel (strlen s) sMem nameMem cnt last) fuel (data, 0))
      (LinesShown img procs p files args target fun b out' =>
        Pending s fname target rest b out' ∧ (cnt = 0 → b.last = 0)) t := by
  refine wp_loop (I := fun left x t => ∃ out', Proc img procs p files args out' t ∧
    AtLine s fname target rest last x.1 x.2 out' ∧ last - x.2 < left) ?_ ?_ ⟨out, h, hline, ?_⟩
  · rintro _ _ ⟨_, -, -, hleft⟩
    exact absurd hleft (Nat.not_lt_zero _)
  · rintro left ⟨data, lineStart⟩ t ⟨out', h, hline, hleft⟩
    exact hline.turn hargs hlast hfull hend h hleft
  · have := hargs.fuel
    show last - 0 < fuel
    omega

/-! ## The outer loop -/

variable {f : OpenFile} {fd pos : Nat}

/-- The table with file `f` read up to `pos`. -/
def readUpTo (files : OpenFiles) (fd : Nat) (f : OpenFile) (pos : Nat) : OpenFiles :=
  Function.update files fd (some { f with position := pos })

/-- A read has failed, and what had been shown by then is the beginning of the whole. -/
def ReadFailed (img : Image) (p inode : Nat) (target : List UInt8) (t : Session) : Prop :=
  ∃ shown pos buf len, shown <+: target ∧ (readData img inode pos (some buf) len).ret = -1 ∧
    output p t.record = shown ++ lit "file read failed\n"

/-- Up to the end of the file. -/
def FileShown (img : Image) (procs : Nat → Prop) (p : Nat) (files : OpenFiles) (args : CString)
    (target : List UInt8) (fd : Nat) (f : OpenFile) : Progress Int → Session → Prop
  | .waiting, t => output p t.record <+: target
  | .stopped, _ => False
  | .ended ret, t =>
    (ret = 0 ∧ ∃ pos, Proc img procs p (readUpTo files fd f pos) args target t) ∨
      (ret = -1 ∧ ReadFailed img p f.inode target t)

/-- What was in a buffer, and what has been read behind it. -/
theorem cells_joined (data new : Nat → UInt8) (last r : Nat) :
    cells (fun i => if i < last then data i else new (i - last)) 0 (last + r) =
      cells data 0 last ++ cells new 0 r := by
  rw [cells_add]
  congr 1
  · exact cells_congr fun i hi => if_pos (by omega)
  · refine cells_congr fun i _ => ?_
    rw [if_neg (by omega)]
    exact congrArg new (by omega)

theorem cells_read {inode r : Nat} {buf : Nat → UInt8} (h : pos + r ≤ (img.inodes inode).size)
    (hbuf : ∀ i, i < r → buf i = img.fileByte inode (pos + i)) :
    cells buf 0 r = ((fileContent img inode).drop pos).take r := by
  refine List.ext_getElem (by simp [length_cells, length_fileContent]; omega) fun i hi hi' => ?_
  rw [length_cells] at hi
  rw [getElem_cells, List.getElem_take, List.getElem_drop, Nat.zero_add, hbuf i hi]
  simp [fileContent]

/-- One read, and the lines that are whole by then. -/
theorem Pending.turn (hargs : GrepArgs s fname sMem nameMem fuel) (hsizes : img.SizesFit)
    (hops : f.ops = .fs) {b : GrepBuf} (hpos : pos ≤ (img.inodes f.inode).size)
    (h : Proc img procs p (readUpTo files fd f pos) args out t)
    (hb : Pending s fname target ((fileContent img f.inode).drop pos) b out)
    (hleft : (img.inodes f.inode).size - pos < left + 1) :
    wp (KernelAnswers img procs p) (grepTurn fuel (strlen s) sMem nameMem fd b)
      (turn (fun b t' => ∃ pos' out', pos' ≤ (img.inodes f.inode).size ∧
          Proc img procs p (readUpTo files fd f pos') args out' t' ∧
          Pending s fname target ((fileContent img f.inode).drop pos') b out' ∧
          (img.inodes f.inode).size - pos' < left)
        (FileShown img procs p files args target fd f)) t := by
  have hroom := hb.room
  have hfuel := hargs.fuel
  have hbegin : out <+: target := ⟨_, hb.toShow.shown⟩
  have hwait : ∀ {files' : OpenFiles} {t' : Session}, Proc img procs p files' args out t' →
      output p t'.record <+: target := fun ht' => by rw [ht'.output]; exact hbegin
  have hask : ((bufSize : Int) - b.last) = (bufSize - b.last : Nat) := by omega
  unfold grepTurn
  rw [hask, wp_ask_bind]
  refine ⟨hwait h, fun a t1 hans => ?_⟩
  have hopen : readUpTo files fd f pos fd = some { f with position := pos } :=
    Function.update_self ..
  rcases h.read hsizes hopen hops (by omega) (by unfold bufSize; omega) hans with
    ⟨hret, hfail, h1⟩ | ⟨r, hret, hr, hino, hbuf, hframe, h1⟩
  · rw [if_pos hret]
    refine h1.wp_fdputs (textAt_str _) (by decide +kernel) (by decide +kernel)
      (show 17 < fuel by unfold bufSize at hfuel; omega) (hwait h1) fun t2 h2 => ?_
    exact Or.inr ⟨rfl, out, pos, _, _, hbegin, hfail, h2.output⟩
  have hr : r = min (bufSize - b.last) ((img.inodes f.inode).size - pos) := hr
  have hsize : (img.inodes f.inode).size < u32 := hsizes.lt_u32 hino
  have hword : (pos + r) % u32 = pos + r := Nat.mod_eq_of_lt (by omega)
  have h1 : Proc img procs p (readUpTo files fd f (pos + r)) args out t1 := by
    unfold readUpTo at h1 ⊢
    rwa [Function.update_idem, hword] at h1
  have hnext : (pos + r : Nat) ≤ (img.inodes f.inode).size := by omega
  have hrest : pos + r = (img.inodes f.inode).size → (fileContent img f.inode).drop (pos + r) = [] :=
    fun he => List.drop_eq_nil_of_le (by rw [length_fileContent]; omega)
  -- the buffer: what was left in it, and what has been read
  let data := fun i => if i < b.last then b.data i else a.buf (i - b.last)
  have htext : cells data 0 (b.last + r) ++ (fileContent img f.inode).drop (pos + r) =
      cells b.data 0 b.last ++ (fileContent img f.inode).drop pos := by
    rw [cells_joined, cells_read hnext hbuf, List.append_assoc, ← List.drop_drop,
      List.take_append_drop]
  have hline : AtLine s fname target ((fileContent img f.inode).drop (pos + r)) (b.last + r) data 0
      out := by
    refine ⟨Nat.zero_le _, ?_, by rw [Nat.sub_zero, htext]; exact hb.toShow⟩
    show (if bufSize < b.last then _ else _) ≠ nl
    rw [if_neg (by omega), hframe _ (by omega)]
    have hat : b.last + (bufSize - b.last) = bufSize := by omega
    rw [hat]
    exact hb.endOk
  rw [if_neg (by omega), hret, Int.toNat_natCast, wp_bind]
  refine wp_mono (hline.loop hargs (by omega) (fun hlt => hrest (by omega))
    (fun hz => hrest (by omega)) h1) fun o t' ho => ?_
  cases o with
  | waiting => exact ho
  | stopped => exact ho
  | ended b' =>
    obtain ⟨out', h', hb', hdone⟩ := ho
    show wp _ (if (r : Int) = 0 then _ else _) _ _
    split_ifs with hzero
    · refine Or.inl ⟨rfl, pos + r, ?_⟩
      have hall := hb'.toShow.shown
      rw [hdone hzero, hrest (by omega)] at hall
      have hnil : hits s fname (cells b'.data 0 0 ++ []) = [] := hits_nil hargs.nonempty
      rw [hnil, List.append_nil] at hall
      rwa [← hall]
    · exact ⟨pos + r, out', hnext, h', hb', by omega⟩

theorem Pending.loop (hargs : GrepArgs s fname sMem nameMem fuel) (hsizes : img.SizesFit)
    (hops : f.ops = .fs) {b : GrepBuf} (h : Proc img procs p (readUpTo files fd f 0) args out t)
    (hb : Pending s fname target (fileContent img f.inode) b out)
    (hfuel : (img.inodes f.inode).size < fuel) :
    wp (KernelAnswers img procs p) (loop (grepTurn fuel (strlen s) sMem nameMem fd) fuel b)
      (FileShown img procs p files args target fd f) t := by
  refine wp_loop (I := fun left b t => ∃ pos out', pos ≤ (img.inodes f.inode).size ∧
      Proc img procs p (readUpTo files fd f pos) args out' t ∧
      Pending s fname target ((fileContent img f.inode).drop pos) b out' ∧
      (img.inodes f.inode).size - pos < left) ?_ ?_ ⟨0, out, Nat.zero_le _, h, hb, hfuel⟩
  · rintro _ _ ⟨_, _, -, -, -, hleft⟩
    exact absurd hleft (Nat.not_lt_zero _)
  · rintro left b t ⟨pos, out', hpos, h, hb, hleft⟩
    exact hb.turn hargs hsizes hops hpos h hleft

/-! ## The file -/

end Mp3Kernel.User
