/-
  Listing a directory, and the sizes of the callers' buffers.

  `dir_read` gives the name of the entry at `dir_read_count`, or 0 once the counter has reached
  the number of inodes (`dirRead_entry`, `dirRead_past`).

  * `listing_call_iff`: after `dir_open` call `n` is right, it gives entry `n` or 0 behind the
    last entry and stays in the 63 slots, exactly if the counter is on the same side of
    `inodeCnt` as `n` is of `direntryCnt`, or in the unused slots.
  * `listed_name_found`: a name that is listed is found again.
  * `read_within`: a `read` of a file or a directory keeps to the size of the buffer, but for a
    file read with size 0, which is a read of the whole file.
-/
import Mp3Kernel.Proofs.Names
import Mp3Kernel.Proofs.Directory
import Mp3Kernel.Proofs.ReadData

namespace Mp3Kernel

variable {img : Image} {s : Files} {nbytes : Int}

/-! ## dir_read -/

theorem nameLen_filename (d : DirEntry) : nameLen d.filename = d.name.bytes.length := rfl

theorem DirEntry.name_eq_map (d : DirEntry) :
    d.name.bytes = (List.range d.name.bytes.length).map d.filename := by
  have hpre := List.takeWhile_prefix (l := (List.range fsFnameLen).map d.filename) (· ≠ 0)
  have heq : d.name.bytes = ((List.range fsFnameLen).map d.filename).take d.name.bytes.length :=
    List.prefix_iff_eq_take.mp hpre
  rw [← List.map_take, List.take_range, Nat.min_eq_left d.name_length] at heq
  exact heq

theorem DirEntry.name_eq_nil {d : DirEntry} (h : d.filename 0 = 0) : d.name.bytes = [] := by
  unfold DirEntry.name CString.ofBytes fsFnameLen
  dsimp only
  rw [List.range_eq_range', List.range'_succ, List.map_cons,
    List.takeWhile_cons_of_neg (by simp [h])]

/-- At an entry the call gives its name. -/
theorem dirRead_entry {d : DirEntry} (stale buf : Nat → UInt8)
    (hd : readDentryByIndex img s.dirReadCount = some d)
    (hbytes : 32 ≤ nbytes) :
    (dirRead img s stale buf nbytes).ret = some (d.name.bytes.length : Int) ∧
      (dirRead img s stale buf nbytes).bytes = d.name.bytes := by
  have hlen := d.name_length
  unfold fsFnameLen at hlen
  have hmin : min (min nbytes 32) (d.name.bytes.length : Int) = d.name.bytes.length := by omega
  unfold dirRead
  simp only [hd, Option.elim_some, nameLen_filename, hmin]
  rw [if_neg (by omega)]
  refine ⟨rfl, ?_⟩
  unfold Outcome.bytes
  simp only [Option.isNone_some, Bool.false_eq_true, if_false, Option.getD_some, Int.toNat_natCast,
    Option.elim_some]
  calc _ = (List.range d.name.bytes.length).map d.filename :=
        List.map_congr_left fun i hi =>
          if_pos (Int.ofNat_lt.mpr (List.mem_range.mp hi))
    _ = d.name.bytes := d.name_eq_map.symm

/-- Behind the last inode it returns 0. -/
theorem dirRead_past (stale buf : Nat → UInt8)
    (hnone : readDentryByIndex img s.dirReadCount = none) (hbytes : 0 ≤ nbytes) :
    (dirRead img s stale buf nbytes).ret = some 0 := by
  unfold dirRead
  simp only [hnone, Option.isNone_none, if_true]
  rw [if_neg (by omega)]

theorem readDentryByIndex_lt {i : Nat} (h : i < img.fsStats.inodeCnt) :
    readDentryByIndex img i = some (img.direntries i) :=
  if_neg (by omega)

theorem readDentryByIndex_ge {i : Nat} (h : img.fsStats.inodeCnt ≤ i) :
    readDentryByIndex img i = none :=
  if_pos h

theorem dirRead_count (img : Image) (s : Files) (stale buf : Nat → UInt8) (nbytes : Int) :
    (dirRead img s stale buf nbytes).files.dirReadCount = (s.dirReadCount + 1) % u32 := by
  unfold dirRead
  dsimp only
  split <;> rfl

/-! ## Listing -/

/-- A call of `dir_read`: the kernel it is made in, what lies on its stack, and the buffer. -/
structure DirCall where
  kernel : Kernel
  stale : Nat → UInt8
  buf : Nat → UInt8
  nbytes : Int

/-- The calls of one reader from the counter on, each with the state it is made in. Between two
    of them anything may happen to the kernel. -/
def dirReads (img : Image) (count : Nat) : List DirCall → List (Files × Outcome)
  | [] => []
  | c :: cs =>
    let s : Files := ⟨c.kernel, count⟩
    let o := dirRead img s c.stale c.buf c.nbytes
    (s, o) :: dirReads img o.files.dirReadCount cs

/-- `dir_open`, then the calls. -/
def listing (img : Image) (s : Files) (calls : List DirCall) : List (Files × Outcome) :=
  (openDriver s .dir).elim [] fun (_, s) => dirReads img s.dirReadCount calls

/-- Call `n` does what a complete listing takes. -/
structure ListsNext (img : Image) (n : Nat) (s : Files) (o : Outcome) : Prop where
  entry : n < img.fsStats.direntryCnt →
    o.ret = some ((img.direntries n).name.bytes.length : Int) ∧
      o.bytes = (img.direntries n).name.bytes
  finished : img.fsStats.direntryCnt ≤ n → o.ret = some 0
  inDirectory : (readDentryByIndex img s.dirReadCount).isSome → s.dirReadCount < fsMaxDirEntries

/-- Call `n` of the run is made at counter `count + n`. -/
theorem dirReads_get {count n : Nat} (hcount : count < u32) {calls : List DirCall} {o : Outcome}
    (h : (dirReads img count calls)[n]? = some (s, o)) :
    s.dirReadCount = (count + n) % u32 ∧ ∃ c, c ∈ calls ∧
      o = dirRead img s c.stale c.buf c.nbytes := by
  induction calls generalizing count n with
  | nil => cases h
  | cons c cs ih =>
    cases n with
    | zero =>
      obtain ⟨rfl, rfl⟩ := Prod.mk.inj (Option.some.inj h)
      exact ⟨(Nat.mod_eq_of_lt hcount).symm, c, List.mem_cons_self, rfl⟩
    | succ n =>
      rw [dirReads, List.getElem?_cons_succ, dirRead_count] at h
      obtain ⟨hs, c', hc', ho⟩ := ih (Nat.mod_lt _ (by decide)) h
      refine ⟨?_, c', List.mem_cons_of_mem c hc', ho⟩
      rw [hs, Nat.mod_add_mod, Nat.add_assoc, Nat.add_comm 1 n]

/-- A call that finds an inode returns the name of its entry. -/
theorem listsNext_inode {n : Nat} {d : DirEntry} (stale buf : Nat → UInt8)
    (hd : readDentryByIndex img s.dirReadCount = some d) (hbytes : 32 ≤ nbytes) :
    ListsNext img n s (dirRead img s stale buf nbytes) ↔
      (n < img.fsStats.direntryCnt → d.name.bytes = (img.direntries n).name.bytes) ∧
      (img.fsStats.direntryCnt ≤ n → d.name.bytes = []) ∧
      s.dirReadCount < fsMaxDirEntries := by
  obtain ⟨hret, hgot⟩ := dirRead_entry stale buf hd hbytes
  constructor
  · intro h
    refine ⟨fun hn => hgot.symm.trans (h.entry hn).2, fun hn => ?_,
      h.inDirectory (by rw [hd]; rfl)⟩
    have hempty := Int.ofNat.inj (Option.some.inj (hret.symm.trans (h.finished hn)))
    exact List.length_eq_zero_iff.mp hempty
  · rintro ⟨hentry, hend, hin⟩
    refine ⟨fun hn => ?_, fun hn => ?_, fun _ => hin⟩
    · rw [hret, hgot, hentry hn]
      exact ⟨rfl, rfl⟩
    · rw [hret, hend hn]
      rfl

/-- A call that finds none says that the listing is over. -/
theorem listsNext_past {n : Nat} (stale buf : Nat → UInt8)
    (hnone : readDentryByIndex img s.dirReadCount = none) (hbytes : 0 ≤ nbytes)
    (hname : n < img.fsStats.direntryCnt → (img.direntries n).name.bytes ≠ []) :
    ListsNext img n s (dirRead img s stale buf nbytes) ↔ img.fsStats.direntryCnt ≤ n := by
  have hret := dirRead_past stale buf hnone hbytes
  constructor
  · intro h
    by_contra hlt
    have hentry := (h.entry (Nat.not_le.mp hlt)).1
    have hempty := Int.ofNat.inj (Option.some.inj (hret.symm.trans hentry))
    exact hname (Nat.not_le.mp hlt) (List.length_eq_zero_iff.mp hempty.symm)
  · intro hn
    refine ⟨fun hlt => absurd hn (Nat.not_le.mpr hlt), fun _ => hret, fun hsome => ?_⟩
    rw [hnone] at hsome
    cases hsome

/-- After `dir_open` call `n` is right exactly if there is an inode for entry `n`, or, behind
    the last entry, none for the counter or an unused slot. -/
theorem listing_call_iff (img : Image) (hcnt : img.fsStats.direntryCnt ≤ 62)
    (hnames : ∀ i, i < img.fsStats.direntryCnt → (img.direntries i).name.bytes ≠ [])
    (hunused : ∀ i, img.fsStats.direntryCnt ≤ i → i < fsMaxDirEntries →
      ∀ j, j < fsFnameLen → (img.direntries i).filename j = 0)
    (s0 : Files) (calls : List DirCall) (hbytes : ∀ c ∈ calls, 32 ≤ c.nbytes) (n : Nat)
    {s : Files} {o : Outcome} (hcall : (listing img s0 calls)[n]? = some (s, o)) :
    ListsNext img n s o ↔
      (n < img.fsStats.direntryCnt → n < img.fsStats.inodeCnt) ∧
      (img.fsStats.direntryCnt ≤ n → img.fsStats.inodeCnt ≤ n % u32 ∨
        (img.fsStats.direntryCnt ≤ n % u32 ∧ n % u32 < fsMaxDirEntries)) := by
  obtain ⟨hcount, c, hc, rfl⟩ := dirReads_get (show 0 < u32 by decide) hcall
  rw [show 0 + n = n from Nat.zero_add n] at hcount
  have hsize := hbytes c hc
  have hlow : n < img.fsStats.direntryCnt → n % u32 = n := fun hn =>
    Nat.mod_eq_of_lt (by unfold u32; omega)
  rcases Nat.lt_or_ge (n % u32) img.fsStats.inodeCnt with hino | hino
  · have hd : readDentryByIndex img s.dirReadCount = some (img.direntries (n % u32)) := by
      rw [hcount]
      exact readDentryByIndex_lt hino
    rw [listsNext_inode c.stale c.buf hd hsize, hcount]
    constructor
    · rintro ⟨-, hend, hin⟩
      refine ⟨fun hn => hlow hn ▸ hino, fun hn => Or.inr ⟨?_, hin⟩⟩
      -- an entry in use has a name to return
      by_contra hlt
      exact hnames _ (Nat.not_le.mp hlt) (hend hn)
    · rintro ⟨-, hbehind⟩
      refine ⟨fun hn => by rw [hlow hn], fun hn => ?_, ?_⟩
      · rcases hbehind hn with hle | ⟨hle, hlt⟩
        · omega
        · exact DirEntry.name_eq_nil (hunused _ hle hlt 0 (by decide))
      · rcases Nat.lt_or_ge n img.fsStats.direntryCnt with hn | hn
        · have := hlow hn
          unfold fsMaxDirEntries
          omega
        · rcases hbehind hn with hle | ⟨-, hlt⟩
          · omega
          · exact hlt
  · have hd : readDentryByIndex img s.dirReadCount = none := by
      rw [hcount]
      exact readDentryByIndex_ge hino
    rw [listsNext_past c.stale c.buf hd (by omega) (hnames n)]
    constructor
    · intro hn
      exact ⟨fun hlt => absurd hn (Nat.not_le.mpr hlt), fun _ => Or.inl hino⟩
    · rintro ⟨hentry, -⟩
      by_contra hlt
      have hn := Nat.not_le.mp hlt
      have := hlow hn
      have := hentry hn
      omega

theorem dirImage_unused (i : Nat) (hi : dirImage.fsStats.direntryCnt ≤ i) (j : Nat) :
    (dirImage.direntries i).filename j = 0 := by
  have hge : 2 ≤ i := hi
  have hdir : i ≠ 1 := by omega
  have hshell : i ≠ 0 := by omega
  simp [dirImage, smallImage, hdir, hshell]

/-- A call with room for a name. -/
def nameCall : DirCall := ⟨resetKernel, fun _ => 0, fun _ => 1, 32⟩

theorem listing_call_first : ∃ s o, (listing dirImage ⟨resetKernel, 5⟩ [nameCall])[0]? = some (s, o) ∧
    ListsNext dirImage 0 s o :=
  ⟨_, _, rfl, (listing_call_iff dirImage (by decide) (by decide)
    (fun i hi _ j _ => dirImage_unused i hi j) _ [nameCall] (by decide) 0 rfl).mpr
      ⟨fun _ => by decide, fun h => absurd h (by decide)⟩⟩

/-- `dirImage` as an image with one inode: the directory has none of its own. -/
def oneInode : Image := { dirImage with fsStats := ⟨2, 1, 1⟩ }

/-- The second of two entries is not listed, because there is one inode only. -/
theorem listing_stops_early :
    (∀ i, i < oneInode.fsStats.direntryCnt → (oneInode.direntries i).name.bytes ≠ []) ∧
    (∀ i, oneInode.fsStats.direntryCnt ≤ i → i < fsMaxDirEntries →
      ∀ j, j < fsFnameLen → (oneInode.direntries i).filename j = 0) ∧
    ∃ s o, (listing oneInode ⟨resetKernel, 0⟩ [nameCall, nameCall])[1]? = some (s, o) ∧
      o.ret = some 0 ∧ ¬ ListsNext oneInode 1 s o := by
  refine ⟨by decide, fun i hi _ j _ => dirImage_unused i hi j, _, _, rfl, by decide, fun h => ?_⟩
  have hret := (h.entry (by decide)).1
  revert hret
  decide

/-! ## Listed names -/

theorem CString.ofBytes_terminated (s : CString) : CString.ofBytes (s.bytes ++ [0]) = s := by
  refine CString.eq_iff.mpr ?_
  unfold CString.ofBytes
  dsimp only
  rw [List.takeWhile_append_of_pos fun b hb => by simpa using s.noNul b hb]
  simp

/-- What `dir_read` gives for slot `i`, with a NUL behind it, is found by name: at the first slot
    that bears the name, which is slot `i` if names are unique. -/
theorem listed_name_found (img : Image) {i : Nat} (hslot : i < fsMaxDirEntries)
    (hino : i < img.fsStats.inodeCnt) (s : Files) (hcount : s.dirReadCount = i)
    (stale buf : Nat → UInt8) {nbytes : Int} (hbytes : 32 ≤ nbytes) :
    ∃ j, j ≤ i ∧ FirstNamed img (img.direntries i).name j ∧
      readDentryByName img (CString.ofBytes ((dirRead img s stale buf nbytes).bytes ++ [0])) =
        some (img.direntries j) ∧
      ((∀ l, l < fsMaxDirEntries → (img.direntries l).name = (img.direntries i).name → l = i) →
        j = i) := by
  have hd : readDentryByIndex img s.dirReadCount = some (img.direntries i) := by
    rw [hcount]
    exact readDentryByIndex_lt hino
  obtain ⟨j, hj, hfirst⟩ := FirstNamed.exists_le (rfl : (img.direntries i).name = _)
  refine ⟨j, hj, hfirst, ?_, fun huniq => huniq j (by omega) hfirst.named⟩
  rw [(dirRead_entry stale buf hd hbytes).2, CString.ofBytes_terminated]
  exact hfirst.found (by omega)

theorem listed_name_found_second : ∃ j, j ≤ 1 ∧
    readDentryByName smallImage (CString.ofBytes
      ((dirRead smallImage ⟨resetKernel, 1⟩ (fun _ => 0) (fun _ => 0) 32).bytes ++ [0])) =
        some (smallImage.direntries j) := by
  obtain ⟨j, hj, -, hfound, -⟩ := listed_name_found smallImage (i := 1) (by decide) (by decide)
    ⟨resetKernel, 1⟩ rfl (fun _ => 0) (fun _ => 0) (show (32 : Int) ≤ 32 by decide)
  exact ⟨j, hj, hfound⟩

/-! ## Sizes -/

/-- The outcome of a `read` into `buf` that keeps to `size` bytes. -/
structure KeepsTo (size : Int) (buf : Nat → UInt8) (o : Outcome) : Prop where
  ret : ∀ r, o.ret = some r → r ≤ size
  frame : ∀ b, o.buf = some b → ∀ i : Nat, size ≤ i → b i = buf i

theorem dirRead_keepsTo (img : Image) (s : Files) (stale buf : Nat → UInt8) {nbytes : Int}
    (hbytes : 0 ≤ nbytes) : KeepsTo nbytes buf (dirRead img s stale buf nbytes) := by
  unfold dirRead
  dsimp only
  split
  · refine ⟨fun r hr => ?_, fun b hb i _ => by rw [← Option.some.inj hb]⟩
    have := Option.some.inj hr
    omega
  · refine ⟨fun r hr => ?_, fun b hb i hi => ?_⟩
    · have hret := Option.some.inj hr
      split at hret <;> omega
    · rw [← Option.some.inj hb]
      exact if_neg (by omega)

/-- A read of a file keeps to the length it asks for. -/
theorem fileRead_keepsTo {fd : Nat} (huse : (s.fd fd).inUse = true) (buf : Nat → UInt8)
    {size : Int} (hsize : ((if nbytes = 0 then (img.inodes (s.fd fd).inode).size
      else (nbytes % u32).toNat : Nat) : Int) ≤ size) :
    KeepsTo size buf (fileRead img s fd buf nbytes) := by
  obtain ⟨hret, b', hbuf, hkept⟩ := readData_bounded img (s.fd fd).inode (s.fd fd).filePosition
    (if nbytes = 0 then (img.inodes (s.fd fd).inode).size else (nbytes % u32).toNat) buf
  rw [fileRead_eq huse]
  refine ⟨fun r hr => ?_, fun b hb i hi => ?_⟩
  · exact Int.le_trans (Option.some.inj hr ▸ hret) hsize
  · obtain rfl := Option.some.inj (hbuf.symm.trans hb)
    exact hkept i (by omega)

/-- The descriptor is open, with these operations. -/
theorem checkFd_open {fd : Int} (hge : 0 ≤ fd) (hlt : fd < fdCnt)
    (huse : (s.fd fd.toNat).inUse = true) (hbytes : 0 ≤ nbytes) :
    checkFd s fd nbytes = (s.fd fd.toNat).jumptable := by
  unfold checkFd
  refine if_neg ?_
  rw [huse]
  simp only [Bool.not_true, Bool.false_eq_true, or_false]
  omega

/-- For every image, open file or directory and position, `read` keeps to the size of the buffer.
    A size of 0 asks for the whole of a file: then it keeps to the size of the file. -/
theorem read_within (img : Image) (s : Files) {fd : Int} (hge : 0 ≤ fd) (hlt : fd < fdCnt)
    (huse : (s.fd fd.toNat).inUse = true)
    (hkind : (s.fd fd.toNat).jumptable = some .fs ∨ (s.fd fd.toNat).jumptable = some .dir)
    (stale buf : Nat → UInt8) {nbytes : Int} (hbytes : 0 ≤ nbytes) :
    ∃ o, readCall img s fd stale (some buf) nbytes = some o ∧ o.ret.isSome ∧
      ((s.fd fd.toNat).jumptable = some .dir ∨ 0 < nbytes → KeepsTo nbytes buf o) ∧
      ((s.fd fd.toNat).jumptable = some .fs → nbytes = 0 →
        KeepsTo (img.inodes (s.fd fd.toNat).inode).size buf o) := by
  have hcheck := checkFd_open hge hlt huse hbytes
  rcases hkind with hops | hops
  · refine ⟨fileRead img s fd.toNat buf nbytes, ?_, ?_, fun h => ?_, fun _ hzero => ?_⟩
    · unfold readCall
      rw [hcheck, hops]
      rfl
    · rw [fileRead_eq huse]
      rfl
    · refine fileRead_keepsTo huse buf ?_
      have hpos : 0 < nbytes := h.resolve_left (by rw [hops]; decide)
      rw [if_neg (by omega)]
      unfold u32
      omega
    · refine fileRead_keepsTo huse buf ?_
      rw [if_pos hzero]
  · refine ⟨dirRead img s stale buf nbytes, ?_, ?_, fun _ => dirRead_keepsTo img s stale buf hbytes,
      fun h => absurd (hops.symm.trans h) (by decide)⟩
    · unfold readCall
      rw [hcheck, hops]
      rfl
    · unfold dirRead
      dsimp only
      split
      · rfl
      · rfl

/-- A process with the first file of `smallImage` open as descriptor 2. -/
def shellOpen : Files :=
  let desc := (openedFile (smallImage.direntries 0) .fs).desc
  ⟨{ resetKernel with pcbs := fun _ => { emptyPcb with fds := fun _ => desc } }, 0⟩

theorem read_within_shell : ∃ o,
    readCall smallImage shellOpen 2 (fun _ => 0) (some fun _ => 1) 4 = some o ∧
      KeepsTo 4 (fun _ => 1) o := by
  obtain ⟨o, hcall, -, hkeeps, -⟩ := read_within smallImage shellOpen (show (0 : Int) ≤ 2 by decide)
    (by decide) rfl (Or.inl rfl) (fun _ => 0) (fun _ => 1) (show (0 : Int) ≤ 4 by decide)
  exact ⟨o, hcall, hkeeps (Or.inr (by decide))⟩

/-- With size 0 all 28 bytes of the file are stored. -/
theorem read_of_zero : ∃ o,
    readCall smallImage shellOpen 2 (fun _ => 0) (some fun _ => 1) 0 = some o ∧
      o.ret = some 28 ∧ ¬ KeepsTo 0 (fun _ => 1) o := by
  refine ⟨_, rfl, by decide, fun h => ?_⟩
  have hret := h.ret 28 (by decide)
  revert hret
  decide

end Mp3Kernel
