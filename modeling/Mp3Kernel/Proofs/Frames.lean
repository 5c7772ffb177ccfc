/-
  How `add_frames` reads its two files.

  `Side` is the invariant of one of them: where it has been read to, what is left of its line, and
  the lines behind that. A file that is over goes on as one with empty lines. The loops have an
  invariant each, `InRow` and `AtRow`.

  * `addFrames_adds`: the adds made are those of the places where the files are not both blank
    (`frameBlinks`), row by row, and the process has the open files it had. An add behind the last
    cell, or with no slot left, is made and refused.
-/
import Mp3Kernel.Model.Fish
import Mp3Kernel.Proofs.Directory
import Mp3Kernel.Proofs.Grep

namespace Mp3Kernel.User

open Base.Programs Base.Runs Base.Bitmap

/-! ## Lines -/

theorem splitOn_newline (rest : List UInt8) : (nl :: rest).splitOn nl = [] :: rest.splitOn nl :=
  splitOn_append List.not_mem_nil rest

theorem splitOn_char {b : UInt8} (hb : b ≠ nl) {rest l : List UInt8} {ls : List (List UInt8)}
    (h : rest.splitOn nl = l :: ls) : (b :: rest).splitOn nl = (b :: l) :: ls := by
  unfold List.splitOn at h ⊢
  rw [List.splitOnP_cons_eq_if_modifyHead, if_neg (by simpa using hb), h]
  rfl

theorem splitOn_ne_nil (text : List UInt8) : text.splitOn nl ≠ [] :=
  List.splitOnP_ne_nil (· == nl) text

theorem notMem_splitOn {text line : List UInt8} (h : line ∈ text.splitOn nl) : nl ∉ line := by
  induction text generalizing line with
  | nil =>
    obtain rfl := List.mem_singleton.mp h
    exact List.not_mem_nil
  | cons b rest ih =>
    by_cases hb : b = nl
    · subst hb
      rw [splitOn_newline] at h
      rcases List.mem_cons.mp h with rfl | h
      · exact List.not_mem_nil
      · exact ih h
    · obtain ⟨l, ls, hl⟩ := List.exists_cons_of_ne_nil (splitOn_ne_nil rest)
      rw [splitOn_char hb hl] at h
      rw [hl] at ih
      rcases List.mem_cons.mp h with rfl | h
      · rw [List.mem_cons, not_or]
        exact ⟨Ne.symm hb, ih List.mem_cons_self⟩
      · exact ih (List.mem_cons_of_mem _ h)

/-! ## The blinks of two texts -/

/-- The place at `col` of two lines. -/
def placeBlink (row : Nat) (l0 l1 : List UInt8) (col : Nat) : Option Blink :=
  if l0.getD col space = space ∧ l1.getD col space = space then none
  else some (frameBlink row col (l0.getD col space) (l1.getD col space))

def width (l0 l1 : List UInt8) : Nat := max l0.length l1.length

def rowBlinks (row : Nat) (l0 l1 : List UInt8) : List Blink :=
  (List.range (width l0 l1)).filterMap (placeBlink row l0 l1)

def frameBlinks (l0s l1s : List (List UInt8)) : List Blink :=
  (List.range (max l0s.length l1s.length)).flatMap fun row =>
    rowBlinks row (l0s.getD row []) (l1s.getD row [])

def addAll (s : Mp1) (bs : List Blink) : Mp1 := bs.foldl (fun s b => (mp1IoctlAdd s b).2) s

theorem addAll_append (s : Mp1) (as bs : List Blink) :
    addAll s (as ++ bs) = addAll (addAll s as) bs := List.foldl_append

/-- What is read at `col`, and what is shown for it. -/
theorem getD_space {l : List UInt8} (hl : nl ∉ l) (col : Nat) :
    l.getD col space = if l.getD col nl = nl then space else l.getD col nl := by
  by_cases hcol : col < l.length
  · have hne : l[col] ≠ nl := fun he => hl (he ▸ List.getElem_mem hcol)
    rw [List.getD_eq_getElem _ _ hcol, List.getD_eq_getElem _ _ hcol, if_neg hne]
  · rw [List.getD_eq_default _ _ (by omega), List.getD_eq_default _ _ (by omega), if_pos rfl]

theorem placeBlink_eq {l0 l1 : List UInt8} (h0 : nl ∉ l0) (h1 : nl ∉ l1) (row col : Nat) :
    placeBlink row l0 l1 col =
      if (l0.getD col nl ≠ space ∧ l0.getD col nl ≠ nl) ∨ (l1.getD col nl ≠ space ∧ l1.getD col nl ≠ nl)
      then some (frameBlink row col (l0.getD col nl) (l1.getD col nl)) else none := by
  have hspace : space ≠ nl := by decide
  unfold placeBlink frameBlink
  rw [getD_space h0, getD_space h1]
  generalize l0.getD col nl = a
  generalize l1.getD col nl = b
  grind

/-! ## One of the files -/

variable {img : Image} {procs : Nat → Prop} {p : Nat} {files : OpenFiles} {args : CString}
  {out : List UInt8} {α : Type} {t : Session} {f : OpenFile} {fd : Nat} {ff ff' : FrameFile}
  {l : List UInt8} {ls : List (List UInt8)} {rest : List UInt8}

/-- With `rest` left of a file, its line goes on with `l`, and `ls` are the lines behind. -/
inductive OnLine (rest : List UInt8) : FrameFile → List UInt8 → List (List UInt8) → Prop where
  | reading {c : UInt8} {l : List UInt8} {ls : List (List UInt8)} (hc : c ≠ nl)
    (h : rest.splitOn nl = l :: ls) : OnLine rest ⟨c, false⟩ l ls
  | read {ls : List (List UInt8)} (h : rest.splitOn nl = ls) : OnLine rest ⟨nl, false⟩ [] ls
  | atEnd : OnLine rest ⟨nl, true⟩ [] []

/-- Open at `pos`, or closed behind its end. -/
def OpenAt (f : OpenFile) (fd pos : Nat) (eof : Bool) (files : OpenFiles) : Prop :=
  files fd = some { f with position := pos } ∨ (eof = true ∧ files fd = none)

structure Side (img : Image) (f : OpenFile) (fd : Nat) (files : OpenFiles) (ff : FrameFile)
    (l : List UInt8) (ls : List (List UInt8)) : Prop where
  reg : f.ops = .fs
  line : ∃ pos, pos ≤ (img.inodes f.inode).size ∧ OpenAt f fd pos ff.eof files ∧
    OnLine ((fileContent img f.inode).drop pos) ff l ls

/-- No read of a character fails. -/
def Readable (img : Image) (inode : Nat) : Prop :=
  ∀ pos buf, pos ≤ (img.inodes inode).size → (readData img inode pos (some buf) 1).ret ≠ -1

/-- The other descriptors may change. -/
theorem Side.congr (h : Side img f fd files ff l ls) {files' : OpenFiles}
    (hfd : files' fd = files fd) : Side img f fd files' ff l ls := by
  obtain ⟨hreg, pos, hpos, hopen, hline⟩ := h
  refine ⟨hreg, pos, hpos, ?_, hline⟩
  unfold OpenAt
  rw [hfd]
  exact hopen

/-- A read at the end of the file. -/
theorem OnLine.end_of_file (h : rest.splitOn nl = l :: ls) (hrest : rest = []) :
    OnLine rest ⟨nl, true⟩ l.tail ls ∧ l.headD nl = nl := by
  subst hrest
  obtain ⟨rfl, rfl⟩ := List.cons.inj h
  exact ⟨.atEnd, rfl⟩

/-- A read of the character `b`. -/
theorem OnLine.next {b : UInt8} (h : (b :: rest).splitOn nl = l :: ls) :
    OnLine rest ⟨b, false⟩ l.tail ls ∧ l.headD nl = b := by
  by_cases hb : b = nl
  · subst hb
    rw [splitOn_newline] at h
    obtain ⟨rfl, rfl⟩ := List.cons.inj h
    exact ⟨.read rfl, rfl⟩
  · obtain ⟨l', ls', hl⟩ := List.exists_cons_of_ne_nil (splitOn_ne_nil rest)
    rw [splitOn_char hb hl] at h
    obtain ⟨rfl, rfl⟩ := List.cons.inj h
    exact ⟨.reading hb hl, rfl⟩

/-- The read of a character, and what follows it. -/
theorem Side.wp_read (hsizes : img.SizesFit) (hreads : Readable img f.inode)
    (h : Proc img procs p files args out t) (hs : Side img f fd files ff l ls)
    {g : FrameFile → Prog α} {post : Progress α → Session → Prop} (hwait : post .waiting t)
    (hnext : ∀ ff' files' t', Proc img procs p files' args out t' →
      (∀ i, i ≠ fd → files' i = files i) → Side img f fd files' ff' l.tail ls →
      ff'.c = l.headD nl → wp (KernelAnswers img procs p) (g ff') post t') :
    wp (KernelAnswers img procs p) (frameRead fd ff >>= g) post t := by
  obtain ⟨hreg, pos, hpos, hopen, hline⟩ := hs
  unfold frameRead
  cases hline with
  | read hls =>
    rw [if_pos rfl]
    exact hnext _ files t h (fun _ _ => rfl) ⟨hreg, pos, hpos, hopen, .read hls⟩ rfl
  | atEnd =>
    rw [if_pos rfl]
    exact hnext _ files t h (fun _ _ => rfl) ⟨hreg, pos, hpos, hopen, .atEnd⟩ rfl
  | @reading c _ _ hc hls =>
    have hopen : files fd = some { f with position := pos } :=
      hopen.resolve_right fun hcl => Bool.false_ne_true hcl.1
    rw [if_neg hc]
    refine ⟨hwait, fun a t1 hans => ?_⟩
    rcases h.read hsizes hopen hreg (show 0 < 1 by decide) (by decide) hans with
      ⟨-, hfail, -⟩ | ⟨r, hret, hr, hino, hbuf, -, h1⟩
    · exact absurd hfail (hreads pos _ hpos)
    have hr : r = min 1 ((img.inodes f.inode).size - pos) := hr
    have hsize : (img.inodes f.inode).size < u32 := hsizes.lt_u32 hino
    have hword : (pos + r) % u32 = pos + r := Nat.mod_eq_of_lt (by omega)
    have hother : ∀ i, i ≠ fd → Function.update files fd
        (some { f with position := (pos + r) % u32 }) i = files i := fun i hi =>
      Function.update_of_ne hi _ _
    have hat : OpenAt f fd (pos + r) false (Function.update files fd
        (some { f with position := (pos + r) % u32 })) := .inl (by rw [Function.update_self, hword])
    show wp _ (g (if a.ret = 0 then _ else _)) _ _
    by_cases hend : pos = (img.inodes f.inode).size
    · have hzero : r = 0 := by omega
      have hnil : (fileContent img f.inode).drop (pos + r) = [] :=
        List.drop_eq_nil_of_le (by rw [length_fileContent]; omega)
      have hnil' : (fileContent img f.inode).drop pos = [] :=
        List.drop_eq_nil_of_le (by rw [length_fileContent]; omega)
      rw [hnil', ← hnil] at hls
      obtain ⟨hline, hhead⟩ := OnLine.end_of_file hls hnil
      rw [if_pos (by omega)]
      exact hnext _ _ t1 h1 hother ⟨hreg, pos + r, by omega, hat.imp_right fun hc => ⟨rfl, hc.2⟩, hline⟩
        hhead.symm
    · have hone : r = 1 := by omega
      subst hone
      have hlt : pos < (fileContent img f.inode).length := by rw [length_fileContent]; omega
      have hbyte : (fileContent img f.inode)[pos] = a.buf 0 := by
        rw [hbuf 0 Nat.one_pos]
        simp [fileContent]
      rw [List.drop_eq_getElem_cons hlt, hbyte] at hls
      obtain ⟨hline, hhead⟩ := OnLine.next hls
      rw [if_neg (by omega)]
      exact hnext _ _ t1 h1 hother ⟨hreg, pos + 1, by omega, hat, hline⟩ hhead.symm

/-- The start of a row, with the lines `ls` left. -/
structure RowStart (img : Image) (f : OpenFile) (fd : Nat) (files : OpenFiles) (ff : FrameFile)
    (ls : List (List UInt8)) : Prop where
  side : Side img f fd files ff (ls.headD []) ls.tail
  eof : ff.eof = true ↔ ls = []
  closed : ff.eof = true → files fd = none

theorem RowStart.congr (h : RowStart img f fd files ff ls) {files' : OpenFiles}
    (hfd : files' fd = files fd) : RowStart img f fd files' ff ls :=
  ⟨h.side.congr hfd, h.eof, fun he => hfd.trans (h.closed he)⟩

/-- What happens to a file between two rows, and what follows it. -/
theorem Side.wp_end (h : Proc img procs p files args out t) (hs : Side img f fd files ff [] ls)
    (hc : ff.c = nl) {g : FrameFile → Prog α} {post : Progress α → Session → Prop}
    (hwait : post .waiting t)
    (hnext : ∀ ff' files' t', Proc img procs p files' args out t' →
      (∀ i, i ≠ fd → files' i = files i) → RowStart img f fd files' ff' ls →
      wp (KernelAnswers img procs p) (g ff') post t') :
    wp (KernelAnswers img procs p) (frameEnd fd ff >>= g) post t := by
  obtain ⟨hreg, pos, hpos, hopen, hline⟩ := hs
  unfold frameEnd
  cases hline with
  | reading hne _ => exact absurd hc hne
  | read hls =>
    rw [if_neg Bool.false_ne_true]
    have hne : ls ≠ [] := hls ▸ splitOn_ne_nil _
    obtain ⟨l, ls', rfl⟩ := List.exists_cons_of_ne_nil hne
    exact hnext _ files t h (fun _ _ => rfl) ⟨⟨hreg, pos, hpos, hopen, .reading (by decide) hls⟩,
      ⟨fun he => absurd he Bool.false_ne_true, fun he => absurd he hne⟩,
      fun he => absurd he Bool.false_ne_true⟩
  | atEnd =>
    rw [if_pos rfl]
    refine ⟨hwait, fun a t1 hans => ?_⟩
    obtain ⟨-, h1⟩ := h.close hans
    have hnone : Function.update files fd none fd = none := Function.update_self ..
    exact hnext _ _ t1 h1 (fun i hi => Function.update_of_ne hi ..)
      ⟨⟨hreg, pos, hpos, .inr ⟨rfl, hnone⟩, .atEnd⟩, ⟨fun _ => rfl, fun _ => rfl⟩, fun _ => hnone⟩

/-! ## A row -/

structure TwoFiles where
  f0 : OpenFile
  f1 : OpenFile
  fd0 : Nat
  fd1 : Nat
  ne : fd0 ≠ fd1

variable {w : TwoFiles} {m : Mp1} {row fuel : Nat} {a0 a1 : List UInt8}
  {ls0 ls1 : List (List UInt8)}

/-- The program has the files `files` and the two of `w`, and of these `at0` and `at1` hold. -/
def Reads (img : Image) (procs : Nat → Prop) (p : Nat) (files : OpenFiles) (args : CString)
    (out : List UInt8) (w : TwoFiles) (at0 at1 : OpenFiles → Prop) (t : Session) : Prop :=
  ∃ files', Proc img procs p files' args out t ∧
    (∀ i, i ≠ w.fd0 → i ≠ w.fd1 → files' i = files i) ∧ at0 files' ∧ at1 files'

/-- `col` places of a row are done. -/
structure InRow (img : Image) (procs : Nat → Prop) (p : Nat) (files : OpenFiles) (args : CString)
    (out : List UInt8) (w : TwoFiles) (m : Mp1) (row : Nat) (a0 a1 : List UInt8)
    (ls0 ls1 : List (List UInt8)) (x : Frames × Nat) (t : Session) : Prop where
  le : x.2 ≤ width a0 a1
  blinks : x.1.mp1 = addAll m ((List.range x.2).filterMap (placeBlink row a0 a1))
  reads : Reads img procs p files args out w
    (fun files' => Side img w.f0 w.fd0 files' x.1.f0 (a0.drop x.2) ls0)
    (fun files' => Side img w.f1 w.fd1 files' x.1.f1 (a1.drop x.2) ls1) t

structure RowDone (img : Image) (procs : Nat → Prop) (p : Nat) (files : OpenFiles) (args : CString)
    (out : List UInt8) (w : TwoFiles) (m : Mp1) (row : Nat) (a0 a1 : List UInt8)
    (ls0 ls1 : List (List UInt8)) (s : Frames) (t : Session) : Prop where
  ends : s.f0.c = nl ∧ s.f1.c = nl
  blinks : s.mp1 = addAll m (rowBlinks row a0 a1)
  reads : Reads img procs p files args out w
    (fun files' => Side img w.f0 w.fd0 files' s.f0 [] ls0)
    (fun files' => Side img w.f1 w.fd1 files' s.f1 [] ls1) t

/-- It comes to an end, and then `done` holds. -/
def Finishes (done : α → Session → Prop) : Progress α → Session → Prop
  | .waiting, _ => True
  | .stopped, _ => False
  | .ended a, t => done a t

theorem headD_drop (l : List UInt8) (i : Nat) : (l.drop i).headD nl = l.getD i nl := by
  rw [List.headD_eq_head?_getD, List.head?_drop, List.getD_eq_getElem?_getD]

theorem getD_eq_nl {l : List UInt8} (hl : nl ∉ l) (i : Nat) : l.getD i nl = nl ↔ l.length ≤ i := by
  constructor
  · intro h
    by_contra hi
    rw [List.getD_eq_getElem _ _ (by omega)] at h
    exact hl (h ▸ List.getElem_mem _)
  · exact List.getD_eq_default _ _

/-- One place: its blink is added, or the row is done. -/
theorem InRow.turn (hsizes : img.SizesFit) (hr0 : Readable img w.f0.inode)
    (hr1 : Readable img w.f1.inode) (h0 : nl ∉ a0) (h1 : nl ∉ a1) {x : Frames × Nat}
    (h : InRow img procs p files args out w m row a0 a1 ls0 ls1 x t) :
    wp (KernelAnswers img procs p) (colTurn w.fd0 w.fd1 row x)
      (turn (fun y t' => InRow img procs p files args out w m row a0 a1 ls0 ls1 y t' ∧
          width a0 a1 - y.2 < width a0 a1 - x.2)
        (Finishes (RowDone img procs p files args out w m row a0 a1 ls0 ls1))) t := by
  obtain ⟨s, col⟩ := x
  obtain ⟨hle, hblinks, files1, hp1, hkeep1, hs0, hs1⟩ := h
  dsimp only at hle hblinks hs0 hs1
  unfold colTurn
  refine hs0.wp_read hsizes hr0 hp1 trivial fun ff0 files2 t2 hp2 hkeep2 hs0 hc0 => ?_
  refine (hs1.congr (hkeep2 _ w.ne.symm)).wp_read hsizes hr1 hp2 trivial
    fun ff1 files3 t3 hp3 hkeep3 hs1 hc1 => ?_
  rw [List.tail_drop] at hs0 hs1
  rw [headD_drop] at hc0 hc1
  have hreads : Reads img procs p files args out w
      (fun files' => Side img w.f0 w.fd0 files' ff0 (a0.drop (col + 1)) ls0)
      (fun files' => Side img w.f1 w.fd1 files' ff1 (a1.drop (col + 1)) ls1) t3 :=
    ⟨files3, hp3, fun i hi hi' => (hkeep3 i hi').trans ((hkeep2 i hi).trans (hkeep1 i hi hi')),
      hs0.congr (hkeep3 _ w.ne), hs1⟩
  have hends : ff0.c = nl ∧ ff1.c = nl ↔ width a0 a1 ≤ col := by
    rw [hc0, hc1, getD_eq_nl h0, getD_eq_nl h1]
    exact Nat.max_le.symm
  by_cases hend : ff0.c = nl ∧ ff1.c = nl
  · rw [if_pos hend]
    obtain rfl : col = width a0 a1 := Nat.le_antisymm hle (hends.mp hend)
    have hnil0 : a0.drop (width a0 a1 + 1) = [] := List.drop_eq_nil_of_le (by unfold width; omega)
    have hnil1 : a1.drop (width a0 a1 + 1) = [] := List.drop_eq_nil_of_le (by unfold width; omega)
    rw [hnil0, hnil1] at hreads
    exact ⟨hend, hblinks, hreads⟩
  rw [if_neg hend]
  have hlt : col < width a0 a1 := Nat.lt_of_not_le fun hge => hend (hends.mpr hge)
  have hplace := placeBlink_eq h0 h1 row col
  rw [← hc0, ← hc1] at hplace
  have hnext : ∀ mp1, mp1 = addAll s.mp1 (placeBlink row a0 a1 col).toList →
      mp1 = addAll m ((List.range (col + 1)).filterMap (placeBlink row a0 a1)) := by
    intro mp1 hmp1
    rw [List.range_succ, List.filterMap_append, addAll_append, ← hblinks, hmp1]
    cases hb : placeBlink row a0 a1 col <;> simp [hb]
  split_ifs at hplace ⊢ with hshown
  · exact ⟨⟨hlt, hnext _ (by rw [hplace]; rfl), hreads⟩, by dsimp only; omega⟩
  · exact ⟨⟨hlt, hnext _ (by rw [hplace]; rfl), hreads⟩, by dsimp only; omega⟩

theorem InRow.loop (hsizes : img.SizesFit) (hr0 : Readable img w.f0.inode)
    (hr1 : Readable img w.f1.inode) (h0 : nl ∉ a0) (h1 : nl ∉ a1) {s : Frames}
    (hfuel : width a0 a1 < fuel)
    (h : InRow img procs p files args out w m row a0 a1 ls0 ls1 (s, 0) t) :
    wp (KernelAnswers img procs p) (loop (colTurn w.fd0 w.fd1 row) fuel (s, 0))
      (Finishes (RowDone img procs p files args out w m row a0 a1 ls0 ls1)) t :=
  wp_loop_measure (fun y _ => width a0 a1 - y.2) (fun _ _ hy => hy.turn hsizes hr0 hr1 h0 h1) h hfuel

/-! ## All rows -/

variable {a0s a1s : List (List UInt8)}

/-- The lines of a text, shorter than the turns of a loop. -/
def Lines (fuel : Nat) (as : List (List UInt8)) : Prop :=
  as.length < fuel ∧ ∀ row, nl ∉ as.getD row [] ∧ (as.getD row []).length < fuel

/-- `row` rows are done. -/
structure AtRow (img : Image) (procs : Nat → Prop) (p : Nat) (files : OpenFiles) (args : CString)
    (out : List UInt8) (w : TwoFiles) (m : Mp1) (a0s a1s : List (List UInt8)) (x : Frames × Nat)
    (t : Session) : Prop where
  le : x.2 ≤ max a0s.length a1s.length
  blinks : x.1.mp1 = addAll m ((List.range x.2).flatMap fun row =>
    rowBlinks row (a0s.getD row []) (a1s.getD row []))
  reads : Reads img procs p files args out w
    (fun files' => RowStart img w.f0 w.fd0 files' x.1.f0 (a0s.drop x.2))
    (fun files' => RowStart img w.f1 w.fd1 files' x.1.f1 (a1s.drop x.2)) t

/-- All blinks are added, and the two files closed. -/
def Added (img : Image) (procs : Nat → Prop) (p : Nat) (files : OpenFiles) (args : CString)
    (out : List UInt8) (m : Mp1) (a0s a1s : List (List UInt8)) (s : Mp1) (t : Session) : Prop :=
  s = addAll m (frameBlinks a0s a1s) ∧ Proc img procs p files args out t

theorem headD_drop_nil (as : List (List UInt8)) (row : Nat) :
    (as.drop row).headD [] = as.getD row [] := by
  rw [List.headD_eq_head?_getD, List.head?_drop, List.getD_eq_getElem?_getD]

theorem Reads.start (hreads : Reads img procs p files args out w
      (fun files' => RowStart img w.f0 w.fd0 files' ff (a0s.drop row))
      (fun files' => RowStart img w.f1 w.fd1 files' ff' (a1s.drop row)) t) :
    Reads img procs p files args out w
      (fun files' => Side img w.f0 w.fd0 files' ff (a0s.getD row []) (a0s.drop (row + 1)))
      (fun files' => Side img w.f1 w.fd1 files' ff' (a1s.getD row []) (a1s.drop (row + 1))) t := by
  obtain ⟨files', hp, hkeep, hs0, hs1⟩ := hreads
  have h0 := hs0.side
  have h1 := hs1.side
  rw [headD_drop_nil, List.tail_drop] at h0 h1
  exact ⟨files', hp, hkeep, h0, h1⟩

theorem AtRow.turn (hsizes : img.SizesFit) (hr0 : Readable img w.f0.inode)
    (hr1 : Readable img w.f1.inode) (h0 : Lines fuel a0s) (h1 : Lines fuel a1s)
    (hnone0 : files w.fd0 = none) (hnone1 : files w.fd1 = none) {x : Frames × Nat}
    (h : AtRow img procs p files args out w m a0s a1s x t) :
    wp (KernelAnswers img procs p) (rowTurn fuel w.fd0 w.fd1 x)
      (turn (fun y t' => AtRow img procs p files args out w m a0s a1s y t' ∧
          max a0s.length a1s.length - y.2 < max a0s.length a1s.length - x.2)
        (Finishes (Added img procs p files args out m a0s a1s))) t := by
  obtain ⟨s, row⟩ := x
  obtain ⟨hle, hblinks, hreads⟩ := h
  dsimp only at hle hblinks hreads
  have hstart := hreads.start
  obtain ⟨files1, hp1, hkeep1, hs0, hs1⟩ := hreads
  have hover : s.f0.eof = true ∧ s.f1.eof = true ↔ max a0s.length a1s.length ≤ row := by
    rw [hs0.eof, hs1.eof, List.drop_eq_nil_iff, List.drop_eq_nil_iff]
    exact Nat.max_le.symm
  unfold rowTurn
  dsimp only
  by_cases heof : s.f0.eof = true ∧ s.f1.eof = true
  · rw [if_pos heof]
    obtain rfl : row = max a0s.length a1s.length := Nat.le_antisymm hle (hover.mp heof)
    have hsame : files1 = files := by
      funext i
      by_cases hi0 : i = w.fd0
      · rw [hi0, hs0.closed heof.1, hnone0]
      by_cases hi1 : i = w.fd1
      · rw [hi1, hs1.closed heof.2, hnone1]
      exact hkeep1 i hi0 hi1
    exact ⟨hblinks, hsame ▸ hp1⟩
  rw [if_neg heof, wp_bind]
  have hlt : row < max a0s.length a1s.length := Nat.lt_of_not_le fun hge => heof (hover.mpr hge)
  have hrow : InRow img procs p files args out w s.mp1 row (a0s.getD row []) (a1s.getD row [])
      (a0s.drop (row + 1)) (a1s.drop (row + 1)) (s, 0) t := ⟨Nat.zero_le _, rfl, hstart⟩
  refine wp_mono (hrow.loop hsizes hr0 hr1 (h0.2 row).1 (h1.2 row).1
    (Nat.max_lt.mpr ⟨(h0.2 row).2, (h1.2 row).2⟩)) fun o t1 ho => ?_
  cases o with
  | waiting => trivial
  | stopped => exact ho.elim
  | ended s1 =>
    obtain ⟨⟨hc0, hc1⟩, hmp1, files2, hp2, hkeep2, hs0, hs1⟩ := ho
    refine hs0.wp_end hp2 hc0 trivial fun ff0 files3 t3 hp3 hkeep3 hs0 => ?_
    refine (hs1.congr (hkeep3 _ w.ne.symm)).wp_end hp3 hc1 trivial
      fun ff1 files4 t4 hp4 hkeep4 hs1 => ?_
    refine ⟨⟨hlt, ?_, files4, hp4, fun i hi hi' => (hkeep4 i hi').trans
      ((hkeep3 i hi).trans (hkeep2 i hi hi')), hs0.congr (hkeep4 _ w.ne), hs1⟩, by dsimp only; omega⟩
    show s1.mp1 = _
    rw [List.range_succ, List.flatMap_append, addAll_append, ← hblinks, hmp1, List.flatMap_singleton]

theorem AtRow.loop (hsizes : img.SizesFit) (hr0 : Readable img w.f0.inode)
    (hr1 : Readable img w.f1.inode) (h0 : Lines fuel a0s) (h1 : Lines fuel a1s)
    (hnone0 : files w.fd0 = none) (hnone1 : files w.fd1 = none) {s : Frames}
    (h : AtRow img procs p files args out w m a0s a1s (s, 0) t) :
    wp (KernelAnswers img procs p) (loop (rowTurn fuel w.fd0 w.fd1) fuel (s, 0))
      (Finishes (Added img procs p files args out m a0s a1s)) t :=
  wp_loop_measure (fun y _ => max a0s.length a1s.length - y.2)
    (fun _ _ hy => hy.turn hsizes hr0 hr1 h0 h1 hnone0 hnone1) h (Nat.max_lt.mpr ⟨h0.1, h1.1⟩)

/-! ## The result -/

theorem length_splitOn (text : List UInt8) : (text.splitOn nl).length ≤ text.length + 1 ∧
    ∀ line ∈ text.splitOn nl, line.length ≤ text.length := by
  induction text with
  | nil => exact ⟨Nat.le_refl _, fun line h => (List.mem_singleton.mp h) ▸ Nat.le_refl _⟩
  | cons b rest ih =>
    obtain ⟨hlen, hline⟩ := ih
    rw [List.length_cons]
    by_cases hb : b = nl
    · subst hb
      rw [splitOn_newline, List.length_cons]
      refine ⟨by omega, fun line h => ?_⟩
      rcases List.mem_cons.mp h with rfl | h
      · exact Nat.zero_le _
      · exact Nat.le_succ_of_le (hline line h)
    · obtain ⟨l, ls, hl⟩ := List.exists_cons_of_ne_nil (splitOn_ne_nil rest)
      rw [hl] at hlen hline
      rw [splitOn_char hb hl]
      refine ⟨Nat.le_succ_of_le hlen, fun line h => ?_⟩
      rcases List.mem_cons.mp h with rfl | h
      · exact Nat.succ_le_succ (hline l List.mem_cons_self)
      · exact Nat.le_succ_of_le (hline line (List.mem_cons_of_mem _ h))

theorem lines_splitOn {text : List UInt8} (h : text.length + 1 < fuel) :
    Lines fuel (text.splitOn nl) := by
  obtain ⟨hlen, hline⟩ := length_splitOn text
  refine ⟨by omega, fun row => ?_⟩
  by_cases hrow : row < (text.splitOn nl).length
  · rw [List.getD_eq_getElem _ _ hrow]
    have hmem := List.getElem_mem hrow
    exact ⟨notMem_splitOn hmem, Nat.lt_of_le_of_lt (hline _ hmem) (by omega)⟩
  · rw [List.getD_eq_default _ _ (by omega)]
    exact ⟨List.not_mem_nil, by rw [List.length_nil]; omega⟩

/-- The lines of a file. -/
def fileLines (img : Image) (inode : Nat) : List (List UInt8) := (fileContent img inode).splitOn nl

/-- `mem` holds the name of a regular file that can be read to its end. -/
structure FrameAt (img : Image) (fuel : Nat) (mem : Nat → UInt8) (name : CString)
    (dentry : DirEntry) : Prop where
  text : TextAt mem name.bytes
  nonempty : strlen name ≠ 0
  found : readDentryByName img name = some dentry
  reg : dentry.filetype = ftReg
  readable : Readable img dentry.inodeIdx
  fuel : (img.inodes dentry.inodeIdx).size + 1 < fuel

theorem FrameAt.readable_opened {mem : Nat → UInt8} {name : CString} {dentry : DirEntry}
    (h : FrameAt img fuel mem name dentry) : Readable img (openedFile dentry .fs).inode := by
  rw [show (openedFile dentry .fs).inode = dentry.inodeIdx from if_pos h.reg]
  exact h.readable

theorem FrameAt.lines {mem : Nat → UInt8} {name : CString} {dentry : DirEntry}
    (h : FrameAt img fuel mem name dentry) : Lines fuel (fileLines img dentry.inodeIdx) :=
  lines_splitOn (by rw [length_fileContent]; exact h.fuel)

/-- A file that has just been opened. -/
theorem rowStart_opened {dentry : DirEntry} (hreg : dentry.filetype = ftReg)
    (hfd : files fd = some (openedFile dentry .fs)) (c : UInt8) (hc : c ≠ nl) :
    RowStart img (openedFile dentry .fs) fd files ⟨c, false⟩
      (fileLines img dentry.inodeIdx) := by
  have hinode : (openedFile dentry .fs).inode = dentry.inodeIdx := if_pos hreg
  obtain ⟨l, ls, hl⟩ := List.exists_cons_of_ne_nil
    (splitOn_ne_nil (fileContent img dentry.inodeIdx))
  unfold fileLines
  rw [hl]
  refine ⟨⟨rfl, 0, Nat.zero_le _, .inl hfd, .reading hc ?_⟩,
    ⟨fun he => absurd he Bool.false_ne_true, fun he => absurd he (List.cons_ne_nil l ls)⟩,
    fun he => absurd he Bool.false_ne_true⟩
  rw [hinode]
  exact hl

variable {mem0 mem1 : Nat → UInt8} {name0 name1 : CString} {dentry0 dentry1 : DirEntry}
  {fd0 fd1 : Nat}

/-- The call of `add_frames`. -/
theorem Proc.wp_addFrames (hsizes : img.SizesFit) (h : Proc img procs p files args out t)
    (h0 : FrameAt img fuel mem0 name0 dentry0) (h1 : FrameAt img fuel mem1 name1 dentry1)
    (hfree0 : LowestFree files fd0)
    (hfree1 : ∀ f, LowestFree (Function.update files fd0 (some f)) fd1) :
    wp (KernelAnswers img procs p) (addFrames fuel mem0 mem1 m)
      (Finishes fun r t' => ∃ s, r = some s ∧ Added img procs p files args out m
        (fileLines img dentry0.inodeIdx) (fileLines img dentry1.inodeIdx) s t') t := by
  have hops0 : fileOps dentry0.filetype = some .fs := by rw [h0.reg]; rfl
  have hops1 : fileOps dentry1.filetype = some .fs := by rw [h1.reg]; rfl
  have hstart : UInt8.ofNat '0'.toNat ≠ nl := by decide
  unfold addFrames
  rw [wp_ask_bind]
  refine ⟨trivial, fun a t1 hans => ?_⟩
  obtain ⟨_, hret, hlow, hp1⟩ := h.openFile h0.text h0.found hops0 h0.nonempty ⟨fd0, hfree0⟩ hans
  obtain rfl := hfree0.unique hlow
  rw [if_neg (by omega), hret, wp_ask_bind]
  refine ⟨trivial, fun b t2 hans => ?_⟩
  obtain ⟨_, hret, hlow, hp2⟩ := hp1.openFile h1.text h1.found hops1 h1.nonempty ⟨fd1, hfree1 _⟩ hans
  obtain rfl := (hfree1 _).unique hlow
  rw [if_neg (by omega), hret, wp_bind]
  have hnone1 := (hfree1 (openedFile dentry0 .fs)).free
  have hne : fd0 ≠ fd1 := by
    rintro rfl
    rw [Function.update_self] at hnone1
    cases hnone1
  rw [Function.update_of_ne hne.symm] at hnone1
  have hat0 : Function.update (Function.update files fd0 (some (openedFile dentry0 .fs))) fd1
      (some (openedFile dentry1 .fs)) fd0 = some (openedFile dentry0 .fs) := by
    rw [Function.update_of_ne hne, Function.update_self]
  have hrows : AtRow img procs p files args out
      ⟨openedFile dentry0 .fs, openedFile dentry1 .fs, fd0, fd1, hne⟩ m
      (fileLines img dentry0.inodeIdx) (fileLines img dentry1.inodeIdx)
      (⟨⟨UInt8.ofNat '0'.toNat, false⟩, ⟨UInt8.ofNat '0'.toNat, false⟩, m⟩, 0) t2 :=
    ⟨Nat.zero_le _, rfl, _, hp2, fun i hi hi' => by
      rw [Function.update_of_ne hi', Function.update_of_ne hi],
      rowStart_opened h0.reg hat0 _ hstart, rowStart_opened h1.reg (Function.update_self ..) _ hstart⟩
  refine wp_mono (hrows.loop hsizes (h0.readable_opened) h1.readable_opened h0.lines h1.lines
    hfree0.free hnone1) fun o t3 ho => ?_
  cases o with
  | waiting => trivial
  | stopped => exact ho.elim
  | ended s => exact ⟨s, rfl, ho⟩

theorem addFrames_adds (hsizes : img.SizesFit) (h : Proc img procs p files args out t)
    (h0 : FrameAt img fuel mem0 name0 dentry0) (h1 : FrameAt img fuel mem1 name1 dentry1)
    (hfree0 : LowestFree files fd0)
    (hfree1 : ∀ f, LowestFree (Function.update files fd0 (some f)) fd1)
    {o : Progress (Option Mp1)} {t' : Session}
    (hrun : RunsTo (KernelAnswers img procs p) (addFrames fuel mem0 mem1 m) t o t') :
    Finishes (fun r t' => ∃ s, r = some s ∧ Added img procs p files args out m
      (fileLines img dentry0.inodeIdx) (fileLines img dentry1.inodeIdx) s t') o t' :=
  (wp_iff _ _ _).mp (h.wp_addFrames hsizes h0 h1 hfree0 hfree1) o t' hrun

/-! ## The frames of the fish -/

theorem readable_fsdir {file : CString × List UInt8} {inode : Nat} (h : fsdir[inode]? = some file) :
    Readable fsdirImage inode := by
  intro pos buf hpos
  rw [fsdirImage, size_ofFiles h] at hpos
  exact readData_ofFiles h (fsdir_small _ (List.mem_of_getElem? h)) (by decide +kernel) hpos buf

theorem frameAt_fsdir {name : String} {content : List UInt8} {inode fuel : Nat}
    (h : fsdir[inode]? = some (cstring name, content)) (hname : (cstring name).bytes = lit name)
    (hne : strlen (cstring name) ≠ 0)
    (hfound : readDentryByName fsdirImage (cstring name) = some (fsdirImage.direntries inode))
    (hfuel : content.length + 1 < fuel) :
    FrameAt fsdirImage fuel (str name) (cstring name) (fsdirImage.direntries inode) := by
  have hentry : fsdirImage.direntries inode = ⟨(cstring name).get, ftReg, inode⟩ := by
    show fsdir[inode]?.elim _ _ = _
    rw [h]
    rfl
  refine ⟨hname ▸ textAt_str name, hne, hfound, ?_, ?_, ?_⟩
  · rw [hentry]
  · rw [hentry]
    exact readable_fsdir h
  · rw [hentry]
    show (fsdirImage.inodes inode).size + 1 < fuel
    rwa [fsdirImage, size_ofFiles h]

theorem frameAt_frame0 : FrameAt fsdirImage 200 (str "frame0.txt") (cstring "frame0.txt")
    (fsdirImage.direntries 4) :=
  frameAt_fsdir rfl (by decide +kernel) (by decide +kernel) rfl
    (show frame0.length + 1 < 200 by decide +kernel)

theorem frameAt_frame1 : FrameAt fsdirImage 200 (str "frame1.txt") (cstring "frame1.txt")
    (fsdirImage.direntries 5) :=
  frameAt_fsdir rfl (by decide +kernel) (by decide +kernel) rfl
    (show frame1.length + 1 < 200 by decide +kernel)

theorem lowestFree_second (f : OpenFile) :
    LowestFree (Function.update (fun _ => none) 2 (some f)) 3 := by
  refine ⟨by decide, by decide, rfl, fun j hj hlt => ?_⟩
  obtain rfl : j = 2 := Nat.le_antisymm (Nat.le_of_lt_succ hlt) hj
  rfl

theorem launchable_fish : Launchable fsdirImage (cstring "fish") :=
  ⟨by decide +kernel, by decide +kernel, by decide +kernel, by decide +kernel, by decide +kernel⟩

theorem addFrames_adds_frames : ∃ k k', ProgramStarted fsdirImage k (cstring "fish") k' ∧ ∀ o t',
    RunsTo (KernelAnswers fsdirImage (Taken k'.procs) 2)
      (addFrames 200 (str "frame0.txt") (str "frame1.txt") (mp1Reset fun _ => 0)) k'.session o t' →
    Finishes (fun r t' => ∃ s, r = some s ∧ Added fsdirImage (Taken k'.procs) 2 (fun _ => none)
      (cstring "fish").args [] (mp1Reset fun _ => 0) (fileLines fsdirImage 4) (fileLines fsdirImage 5)
        s t') o t' := by
  obtain ⟨k, hk⟩ := booted_fsdirImage
  obtain ⟨k', hstarted⟩ := hk.startsProgram launchable_fish
  exact ⟨k, k', hstarted, fun o t' hrun => addFrames_adds fsdirImage_sizesFit hstarted.proc
    frameAt_frame0 frameAt_frame1 lowestFree_start lowestFree_second hrun⟩

end Mp3Kernel.User
