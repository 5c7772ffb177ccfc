/-
  `read_data` against the flat view of a file.

  The flat view (`fileByte`) is `BlockFile.elem` over the inode's block index. The loop
  carries a cursor into it; `ReadInv` says where the cursor is, that the bytes stored so
  far are the file's, and that every block dereferenced so far has an index below
  `datablkCnt`. `readStep_inv` is the step, `readLoop_inv` the run.

  * `readData_exact`: a non-negative result is `min length (size - offset)` and the buffer
    holds exactly those bytes of the file.
  * `readData_total_iff`: on a well-formed image the call fails on exactly the requests
    `ReadFits` leaves out. Two guards fail on legal requests: the one that bounds the
    requested end by `direntryCnt` blocks, and the one that checks the slot after the
    block just finished.
-/
import Mp3Kernel.Base.BlockFile
import Mp3Kernel.Model.Fs
import Mathlib.Tactic.Common

namespace Mp3Kernel

open Base.BlockFile

/-! ## Images and their files -/

/-- Every inode's size fits its block index. -/
def Image.SizesFit (img : Image) : Prop :=
  ∀ i, i < img.fsStats.inodeCnt → (img.inodes i).size ≤ fsInodeDataLen * fsBlkSize

/-- Every block index that covers a file's size names a data block of the image. -/
def Image.BlocksFit (img : Image) : Prop :=
  ∀ i, i < img.fsStats.inodeCnt → ∀ k, k * fsBlkSize < (img.inodes i).size →
    (img.inodes i).data k < img.fsStats.datablkCnt

theorem Image.SizesFit.lt_u32 {img : Image} (h : img.SizesFit) {i : Nat}
    (hi : i < img.fsStats.inodeCnt) : (img.inodes i).size < u32 :=
  Nat.lt_of_le_of_lt (h i hi) (by decide)

/-- Byte `k` of the file of `inode`. -/
def Image.fileByte (img : Image) (inode k : Nat) : UInt8 :=
  elem fsBlkSize (fun i => img.datablks ((img.inodes inode).data i)) k

/-! ## One turn of the loop -/

/-- What holds before each turn, for a call at `offset` into `buf₀`. -/
structure ReadInv (img : Image) (inode offset : Nat) (buf₀ : Nat → UInt8)
    (st : ReadState) : Prop where
  cursor : pos fsBlkSize st.datablkIdx st.datablkOffset = offset + st.reads
  inBlk : st.datablkOffset < fsBlkSize
  inFile : offset + st.reads ≤ (img.inodes inode).size
  blkOk : (img.inodes inode).data st.datablkIdx < img.fsStats.datablkCnt
  copied : Copied buf₀ (img.fileByte inode) offset st.reads st.buf
  blksOk : ∀ b ∈ st.blks, b < img.fsStats.datablkCnt

/-- The slot after the block that holds byte `k` is looked at after that byte is read, and
    names no block of the image. -/
def Image.BadSlotAfter (img : Image) (inode k : Nat) : Prop :=
  (k + 1) % fsBlkSize = 0 ∧
    img.fsStats.datablkCnt ≤ (img.inodes inode).data ((k + 1) / fsBlkSize)

section Step

variable {img : Image} {inode offset : Nat} {buf₀ : Nat → UInt8} {st : ReadState}

/-- No u32 sum of the loop wraps: the cursor stays in the file. -/
theorem ReadInv.no_wrap (h : ReadInv img inode offset buf₀ st)
    (hsize : (img.inodes inode).size < u32) :
    (st.reads + offset) % u32 = offset + st.reads := by
  have := h.inFile
  rw [Nat.mod_eq_of_lt (by omega), Nat.add_comm]

/-- Looking at a slot is a trace only. -/
theorem ReadInv.look (h : ReadInv img inode offset buf₀ st) :
    ReadInv img inode offset buf₀ st.look :=
  ⟨h.cursor, h.inBlk, h.inFile, h.blkOk, h.copied, h.blksOk⟩

/-- The byte the turn copies is the file's next byte. -/
theorem ReadInv.next_byte (h : ReadInv img inode offset buf₀ st) :
    img.datablks ((img.inodes inode).data st.datablkIdx) st.datablkOffset =
      img.fileByte inode (offset + st.reads) := by
  unfold Image.fileByte
  rw [← h.cursor, elem_pos _ _ _ _ h.inBlk]

theorem ReadInv.copied_next (h : ReadInv img inode offset buf₀ st) :
    Copied buf₀ (img.fileByte inode) offset (st.reads + 1)
      (Function.update st.buf st.reads
        (img.datablks ((img.inodes inode).data st.datablkIdx) st.datablkOffset)) := by
  rw [h.next_byte]
  exact h.copied.store

theorem ReadInv.blksOk_next (h : ReadInv img inode offset buf₀ st) :
    ∀ b ∈ (img.inodes inode).data st.datablkIdx :: st.blks, b < img.fsStats.datablkCnt := by
  intro b hb
  rcases List.mem_cons.mp hb with rfl | hb
  · exact h.blkOk
  · exact h.blksOk b hb

/-- Finishing a block puts the cursor on a multiple of the block size. -/
theorem ReadInv.next_block (h : ReadInv img inode offset buf₀ st)
    (hend : fsBlkSize ≤ st.datablkOffset + 1) :
    pos fsBlkSize (st.datablkIdx + 1) 0 = offset + (st.reads + 1) := by
  have hlast : st.datablkOffset + 1 = fsBlkSize := by
    have := h.inBlk
    omega
  rw [pos_next_block _ _ _ hlast, h.cursor, Nat.add_assoc]

/-- A bad slot after byte `offset + reads` is the check the turn makes on finishing a block. -/
theorem ReadInv.badSlotAfter_iff (h : ReadInv img inode offset buf₀ st) :
    img.BadSlotAfter inode (offset + st.reads) ↔
      fsBlkSize ≤ st.datablkOffset + 1 ∧
        img.fsStats.datablkCnt ≤ (img.inodes inode).data (st.datablkIdx + 1) := by
  have hblk := h.inBlk
  unfold Image.BadSlotAfter
  by_cases hend : fsBlkSize ≤ st.datablkOffset + 1
  · have hpos : offset + st.reads + 1 = pos fsBlkSize (st.datablkIdx + 1) 0 :=
      (h.next_block hend).symm
    have hbs : 0 < fsBlkSize := by decide
    rw [hpos, pos_mod _ _ _ hbs, pos_div _ _ _ hbs]
    simp [hend]
  · have hlt : st.datablkOffset + 1 < fsBlkSize := by omega
    have hpos : offset + st.reads + 1 = pos fsBlkSize st.datablkIdx (st.datablkOffset + 1) := by
      rw [pos_next_off, h.cursor]
    rw [hpos, pos_mod _ _ _ hlt]
    constructor
    · rintro ⟨h0, _⟩
      omega
    · rintro ⟨h1, _⟩
      exact absurd h1 hend

/-- The turn: it returns at the end of the file with the bytes read, it returns -1 on a bad
    slot after a byte it has stored, or it goes on with one more byte. -/
theorem readStep_inv (h : ReadInv img inode offset buf₀ st)
    (hsize : (img.inodes inode).size < u32) :
    (readStep img inode offset st = .error (st.look.finish st.reads) ∧
      offset + st.reads = (img.inodes inode).size) ∨
    (∃ res, readStep img inode offset st = .error res ∧ res.ret = -1 ∧
      offset + st.reads < (img.inodes inode).size ∧
      img.BadSlotAfter inode (offset + st.reads) ∧
      ∀ b ∈ res.blks, b < img.fsStats.datablkCnt) ∨
    (∃ st', readStep img inode offset st = .ok st' ∧ ReadInv img inode offset buf₀ st' ∧
      st'.reads = st.reads + 1 ∧ offset + st.reads < (img.inodes inode).size ∧
      ¬ img.BadSlotAfter inode (offset + st.reads)) := by
  have hin := h.inFile
  have hblk := h.inBlk
  by_cases heof : (img.inodes inode).size ≤ (st.reads + offset) % u32
  · left
    have hs : readStep img inode offset st = .error (st.look.finish st.reads) := if_pos heof
    rw [h.no_wrap hsize] at heof
    exact ⟨hs, by omega⟩
  have hlt : offset + st.reads < (img.inodes inode).size := by
    rw [h.no_wrap hsize] at heof
    omega
  have hstep : readStep img inode offset st =
      if fsBlkSize ≤ st.datablkOffset + 1 then
        if img.fsStats.datablkCnt ≤ (img.inodes inode).data (st.datablkIdx + 1) then
          .error ((st.look.store img ((img.inodes inode).data st.datablkIdx)).nextBlk.look.finish
            (-1))
        else .ok (st.look.store img ((img.inodes inode).data st.datablkIdx)).nextBlk.look
      else .ok (st.look.store img ((img.inodes inode).data st.datablkIdx)).nextOffset :=
    if_neg heof
  right
  by_cases hend : fsBlkSize ≤ st.datablkOffset + 1
  · rw [if_pos hend] at hstep
    by_cases hbad : img.fsStats.datablkCnt ≤ (img.inodes inode).data (st.datablkIdx + 1)
    · rw [if_pos hbad] at hstep
      exact Or.inl ⟨_, hstep, rfl, hlt, h.badSlotAfter_iff.mpr ⟨hend, hbad⟩, h.blksOk_next⟩
    · rw [if_neg hbad] at hstep
      have hnext : offset + (st.reads + 1) ≤ (img.inodes inode).size := by omega
      exact Or.inr ⟨_, hstep,
        ⟨h.next_block hend, (by decide : 0 < fsBlkSize), hnext, Nat.lt_of_not_le hbad,
          h.copied_next, h.blksOk_next⟩,
        rfl, hlt, fun hs => hbad (h.badSlotAfter_iff.mp hs).2⟩
  · rw [if_neg hend] at hstep
    have hpos : pos fsBlkSize st.datablkIdx (st.datablkOffset + 1) = offset + (st.reads + 1) := by
      rw [pos_next_off, h.cursor, Nat.add_assoc]
    have hnext : offset + (st.reads + 1) ≤ (img.inodes inode).size := by omega
    exact Or.inr ⟨_, hstep,
      ⟨hpos, Nat.lt_of_not_le hend, hnext, h.blkOk, h.copied_next, h.blksOk_next⟩,
      rfl, hlt, fun hs => hend (h.badSlotAfter_iff.mp hs).1⟩

end Step

/-! ## The whole loop -/

/-- What a finished loop of at most `n` turns promises, from `reads` bytes on. -/
structure ReadDone (img : Image) (inode offset : Nat) (buf₀ : Nat → UInt8) (upto : Nat)
    (res : ReadResult) : Prop where
  exact : 0 ≤ res.ret → res.ret = (min upto ((img.inodes inode).size - offset) : Nat) ∧
    ∃ buf, res.buf = some buf ∧
      Copied buf₀ (img.fileByte inode) offset res.ret.toNat buf
  blksOk : ∀ b ∈ res.blks, b < img.fsStats.datablkCnt
  fails : res.ret = -1 ∨ 0 ≤ res.ret

theorem ReadInv.finish {img : Image} {inode offset : Nat} {buf₀ : Nat → UInt8}
    {st : ReadState} (h : ReadInv img inode offset buf₀ st) (upto : Nat)
    (hupto : st.reads = min upto ((img.inodes inode).size - offset)) :
    ReadDone img inode offset buf₀ upto (st.finish st.reads) := by
  refine ⟨fun _ => ⟨?_, st.buf, rfl, ?_⟩, h.blksOk, Or.inr (Int.natCast_nonneg _)⟩
  · simp only [ReadState.finish]
    rw [hupto]
  · simpa only [ReadState.finish, Int.toNat_natCast] using h.copied

/-- The run: by induction on the turns left, each turn by `readStep_inv`. -/
theorem readLoop_inv {img : Image} {inode offset : Nat} {buf₀ : Nat → UInt8}
    (hsize : (img.inodes inode).size < u32) (n : Nat) (st : ReadState)
    (h : ReadInv img inode offset buf₀ st) :
    ReadDone img inode offset buf₀ (st.reads + n) (readLoop img inode offset n st) := by
  induction n generalizing st with
  | zero =>
    refine h.finish _ ?_
    have := h.inFile
    omega
  | succ n ih =>
    have hin := h.inFile
    rcases readStep_inv h hsize with ⟨hs, heof⟩ | ⟨res, hs, hret, -, -, hblks⟩ |
      ⟨st', hs, h', hreads, hlt, -⟩
    · simp only [readLoop, hs]
      have hupto : st.reads = min (st.reads + (n + 1)) ((img.inodes inode).size - offset) := by
        omega
      exact h.look.finish _ hupto
    · simp only [readLoop, hs]
      exact ⟨fun h0 => by omega, hblks, Or.inl hret⟩
    · simp only [readLoop, hs]
      have := ih st' h'
      rwa [hreads, Nat.add_right_comm, Nat.add_assoc] at this

/-- The loop fails exactly when one of the bytes it stores has a bad slot after it. -/
theorem readLoop_fails_iff {img : Image} {inode offset : Nat} {buf₀ : Nat → UInt8}
    (hsize : (img.inodes inode).size < u32) (n : Nat) (st : ReadState)
    (h : ReadInv img inode offset buf₀ st) :
    (readLoop img inode offset n st).ret = -1 ↔
      ∃ k, offset + st.reads ≤ k ∧ k < offset + st.reads + n ∧ k < (img.inodes inode).size ∧
        img.BadSlotAfter inode k := by
  induction n generalizing st with
  | zero =>
    simp only [readLoop, ReadState.finish]
    constructor
    · intro h0
      omega
    · rintro ⟨k, h1, h2, -⟩
      omega
  | succ n ih =>
    rcases readStep_inv h hsize with ⟨hs, heof⟩ | ⟨res, hs, hret, hlt, hbad, -⟩ |
      ⟨st', hs, h', hreads, hlt, hgood⟩
    · simp only [readLoop, hs, ReadState.finish]
      constructor
      · intro h0
        omega
      · rintro ⟨k, h1, -, h3, -⟩
        omega
    · simp only [readLoop, hs]
      exact ⟨fun _ => ⟨_, Nat.le_refl _, by omega, hlt, hbad⟩, fun _ => hret⟩
    · simp only [readLoop, hs]
      rw [ih st' h', hreads]
      constructor
      · rintro ⟨k, h1, h2, h3, h4⟩
        exact ⟨k, by omega, by omega, h3, h4⟩
      · rintro ⟨k, h1, h2, h3, h4⟩
        -- the byte just stored has a good slot after it, so `k` is a later one
        have hk : k ≠ offset + st.reads := fun he => hgood (he ▸ h4)
        exact ⟨k, by omega, by omega, h3, h4⟩

/-- What a step that is not the last one keeps of the buffer, and what one that is leaves. -/
theorem readStep_bounded (img : Image) (inode offset : Nat) (st : ReadState) :
    (∃ res buf, readStep img inode offset st = .error res ∧ res.ret ≤ st.reads ∧
      res.buf = some buf ∧ ∀ i, st.reads < i → buf i = st.buf i) ∨
    ∃ st', readStep img inode offset st = .ok st' ∧ st'.reads = st.reads + 1 ∧
      ∀ i, st.reads < i → st'.buf i = st.buf i := by
  have hframe : ∀ b i, st.reads < i → Function.update st.buf st.reads b i = st.buf i :=
    fun b i hi => Function.update_of_ne (by omega) b st.buf
  unfold readStep
  dsimp only
  split
  · exact Or.inl ⟨_, st.buf, rfl, Int.le_refl _, rfl, fun _ _ => rfl⟩
  split
  · split
    · have hret : (-1 : Int) ≤ st.reads := by omega
      exact Or.inl ⟨_, _, rfl, hret, rfl, hframe _⟩
    · exact Or.inr ⟨_, rfl, rfl, hframe _⟩
  · exact Or.inr ⟨_, rfl, rfl, hframe _⟩

/-- Whatever the image, the loop stores nothing past the length asked for. -/
theorem readLoop_bounded (img : Image) (inode offset n : Nat) (st : ReadState) :
    (readLoop img inode offset n st).ret ≤ (st.reads + n : Nat) ∧
      ∃ buf, (readLoop img inode offset n st).buf = some buf ∧
        ∀ i, st.reads + n ≤ i → buf i = st.buf i := by
  induction n generalizing st with
  | zero => exact ⟨Int.le_refl _, st.buf, rfl, fun _ _ => rfl⟩
  | succ n ih =>
    rcases readStep_bounded img inode offset st with
      ⟨res, buf, hs, hret, hbuf, hframe⟩ | ⟨st', hs, hreads, hframe⟩
    · simp only [readLoop, hs]
      exact ⟨by omega, buf, hbuf, fun i hi => hframe i (by omega)⟩
    · simp only [readLoop, hs]
      obtain ⟨hret, buf, hbuf, hkept⟩ := ih st'
      rw [hreads] at hret hkept
      refine ⟨by omega, buf, hbuf, fun i hi => ?_⟩
      rw [hkept i (by omega), hframe i (by omega)]

/-! ## read_data -/

/-- The state the loop starts from, once the guards have passed. -/
def readStart (offset : Nat) (buf : Nat → UInt8) : ReadState :=
  ReadState.look ⟨0, offset / fsBlkSize, offset % fsBlkSize, buf, [], []⟩

/-- The request passes every guard in front of the loop. -/
structure ReadGuards (img : Image) (inode offset length : Nat) : Prop where
  inodeOk : inode < img.fsStats.inodeCnt
  inFile : offset < (img.inodes inode).size
  spanOk : (offset + length) % u32 < (img.fsStats.direntryCnt * fsBlkSize) % u32
  blkOk : (img.inodes inode).data (offset / fsBlkSize) < img.fsStats.datablkCnt

theorem readInv_start {img : Image} {inode offset length : Nat} (buf : Nat → UInt8)
    (h : ReadGuards img inode offset length) :
    ReadInv img inode offset buf (readStart offset buf) := by
  have hoff := h.inFile
  have hmod : offset % fsBlkSize < fsBlkSize := Nat.mod_lt _ (by decide)
  refine ⟨pos_self fsBlkSize offset, hmod, Nat.le_of_lt hoff, h.blkOk, Copied.zero _ _ _, ?_⟩
  intro b hb
  cases hb

/-- The call is the guards, then the loop: what each outcome of the guards returns. -/
theorem readData_cases (img : Image) (inode offset length : Nat) (buf : Nat → UInt8)
    (hlen : length < 2147483648) :
    (ReadGuards img inode offset length ∧ readData img inode offset (some buf) length =
      readLoop img inode offset length (readStart offset buf)) ∨
    (inode < img.fsStats.inodeCnt ∧ (img.inodes inode).size ≤ offset ∧
      readData img inode offset (some buf) length = ⟨0, some buf, 0, [], []⟩) ∨
    (¬ ReadGuards img inode offset length ∧
      ¬ (inode < img.fsStats.inodeCnt ∧ (img.inodes inode).size ≤ offset) ∧
      (readData img inode offset (some buf) length).ret = -1 ∧
      (readData img inode offset (some buf) length).blks = []) := by
  have hturns : (i32 length).toNat = length := by
    simp [i32, hlen]
  unfold readData
  dsimp only
  by_cases hino : img.fsStats.inodeCnt ≤ inode
  · right; right
    rw [if_pos hino]
    exact ⟨fun h => by have := h.inodeOk; omega, fun h => by omega, rfl, rfl⟩
  rw [if_neg hino]
  by_cases hoff : (img.inodes inode).size ≤ offset
  · right; left
    rw [if_pos hoff]
    exact ⟨by omega, hoff, rfl⟩
  rw [if_neg hoff]
  by_cases hspan : (img.fsStats.direntryCnt * fsBlkSize) % u32 ≤ (offset + length) % u32
  · right; right
    rw [if_pos hspan]
    exact ⟨fun h => by have := h.spanOk; omega, fun h => hoff h.2, rfl, rfl⟩
  rw [if_neg hspan]
  by_cases hblk : img.fsStats.datablkCnt ≤ (img.inodes inode).data (offset / fsBlkSize)
  · right; right
    rw [if_pos hblk]
    exact ⟨fun h => by have := h.blkOk; omega, fun h => hoff h.2, rfl, rfl⟩
  left
  rw [if_neg hblk, hturns]
  exact ⟨⟨Nat.lt_of_not_le hino, Nat.lt_of_not_le hoff, Nat.lt_of_not_le hspan,
    Nat.lt_of_not_le hblk⟩, rfl⟩

/-- For every image and request: at most `length` is returned, and the buffer from there on is
    as it was. -/
theorem readData_bounded (img : Image) (inode offset length : Nat) (buf : Nat → UInt8) :
    (readData img inode offset (some buf) length).ret ≤ length ∧
      ∃ buf', (readData img inode offset (some buf) length).buf = some buf' ∧
        ∀ i, length ≤ i → buf' i = buf i := by
  have hturns : (i32 length).toNat ≤ length := by
    unfold i32
    split <;> omega
  have hfail : ∀ ret : Int, ret ≤ 0 → ret ≤ length ∧
      ∃ buf', some buf = some buf' ∧ ∀ i, length ≤ i → buf' i = buf i :=
    fun ret hret => ⟨by omega, buf, rfl, fun _ _ => rfl⟩
  unfold readData
  dsimp only
  split
  · exact hfail (-1) (by decide)
  split
  · exact hfail 0 (by decide)
  split
  · exact hfail (-1) (by decide)
  split
  · exact hfail (-1) (by decide)
  obtain ⟨hret, buf', hbuf, hkept⟩ := readLoop_bounded img inode offset (i32 length).toNat
    (readStart offset buf)
  have hreads : (readStart offset buf).reads + (i32 length).toNat = (i32 length).toNat :=
    Nat.zero_add _
  rw [hreads] at hret hkept
  exact ⟨Int.le_trans hret (Int.ofNat_le.mpr hturns), buf', hbuf, fun i hi => hkept i (by omega)⟩

/-- What is returned is -1 or the number of bytes stored. -/
theorem readStep_reads {img : Image} {inode offset : Nat} {st : ReadState} {res : ReadResult}
    (h : readStep img inode offset st = .error res) : res.ret = -1 ∨ res.ret = res.reads := by
  unfold readStep at h
  dsimp only at h
  split at h
  · obtain rfl := Except.error.inj h
    exact Or.inr rfl
  split at h
  · split at h
    · obtain rfl := Except.error.inj h
      exact Or.inl rfl
    · cases h
  · cases h

theorem readLoop_reads (img : Image) (inode offset n : Nat) (st : ReadState) :
    (readLoop img inode offset n st).ret = -1 ∨
      (readLoop img inode offset n st).ret = (readLoop img inode offset n st).reads := by
  induction n generalizing st with
  | zero => exact Or.inr rfl
  | succ n ih =>
    cases hs : readStep img inode offset st with
    | error res =>
      simp only [readLoop, hs]
      exact readStep_reads hs
    | ok st' =>
      simp only [readLoop, hs]
      exact ih st'

theorem readData_reads (img : Image) (inode offset length : Nat) (buf : Nat → UInt8) :
    (readData img inode offset (some buf) length).ret = -1 ∨
      (readData img inode offset (some buf) length).ret =
        (readData img inode offset (some buf) length).reads := by
  unfold readData
  dsimp only
  split
  · exact Or.inl rfl
  split
  · exact Or.inr rfl
  split
  · exact Or.inl rfl
  split
  · exact Or.inl rfl
  · exact readLoop_reads img inode offset _ _

/-- A call fails, or it serves what there is of the request. -/
theorem readData_served (img : Image) (inode offset length : Nat)
    (hsize : inode < img.fsStats.inodeCnt → (img.inodes inode).size < u32)
    (hlen : length < 2147483648) (buf : Nat → UInt8) :
    (readData img inode offset (some buf) length).ret = -1 ∨ inode < img.fsStats.inodeCnt ∧
      ∃ r buf', (readData img inode offset (some buf) length).ret = (r : Nat) ∧
        (readData img inode offset (some buf) length).buf = some buf' ∧
        r = min length ((img.inodes inode).size - offset) ∧
        (∀ k, k < r → buf' k = img.fileByte inode (offset + k)) ∧
        (∀ k, r ≤ k → buf' k = buf k) := by
  rcases readData_cases img inode offset length buf hlen with
    ⟨hg, heq⟩ | ⟨hino, hoff, heq⟩ | ⟨-, -, hret, -⟩
  · have hdone := readLoop_inv (hsize hg.inodeOk) length _ (readInv_start buf hg)
    rw [← heq] at hdone
    refine hdone.fails.imp id fun h0 => ⟨hg.inodeOk, ?_⟩
    obtain ⟨hr, buf', hbuf, hcopied⟩ := hdone.exact h0
    rw [hr, Int.toNat_natCast] at hcopied
    have hreads : (readStart offset buf).reads + length = length := Nat.zero_add _
    rw [hreads] at hr hcopied
    exact ⟨_, buf', hr, hbuf, rfl, hcopied.filled, hcopied.frame⟩
  · rw [heq]
    exact Or.inr ⟨hino, 0, buf, rfl, rfl, by omega, fun k hk => by omega, fun _ _ => rfl⟩
  · exact Or.inl hret

/-- A call that does not fail returns `min length (size - offset)` (0 from the end of the
    file on), leaves exactly that many bytes of the file in the buffer and touches nothing
    past them. Failing or not, it reads no block at or above `datablkCnt`. -/
theorem readData_exact (img : Image) (hsizes : img.SizesFit) (inode offset length : Nat)
    (hlen : length < 2147483648) (buf : Nat → UInt8) :
    (0 ≤ (readData img inode offset (some buf) length).ret →
      ∃ r buf', (readData img inode offset (some buf) length).ret = (r : Nat) ∧
        (readData img inode offset (some buf) length).buf = some buf' ∧
        r = min length ((img.inodes inode).size - offset) ∧
        (∀ k, k < r → buf' k = img.fileByte inode (offset + k)) ∧
        (∀ k, r ≤ k → buf' k = buf k)) ∧
    ∀ b ∈ (readData img inode offset (some buf) length).blks, b < img.fsStats.datablkCnt := by
  refine ⟨fun h0 => ((readData_served img inode offset length hsizes.lt_u32 hlen buf).resolve_left
    (by omega)).2, ?_⟩
  rcases readData_cases img inode offset length buf hlen with
    ⟨hg, heq⟩ | ⟨-, -, heq⟩ | ⟨-, -, -, hblks⟩
  · rw [heq]
    exact (readLoop_inv (hsizes.lt_u32 hg.inodeOk) length _ (readInv_start buf hg)).blksOk
  · rw [heq]
    intro b hb
    cases hb
  · rw [hblks]
    intro b hb
    cases hb

/-- An image with a file of 10 bytes and a file of exactly one block, in that order; the slot
    after the second file's only block holds 7, which names no block. -/
def twoFiles : Image where
  fsStats := ⟨2, 2, 2⟩
  direntries := fun _ => ⟨fun _ => 0, 2, 0⟩
  inodes := fun i => if i = 0 then ⟨10, fun _ => 0⟩ else ⟨4096, fun k => if k = 0 then 1 else 7⟩
  datablks := fun _ k => UInt8.ofNat k

theorem twoFiles_sizesFit : twoFiles.SizesFit := by
  intro i _
  by_cases hi : i = 0 <;> simp [twoFiles, hi, fsInodeDataLen, fsBlkSize]

theorem twoFiles_blocksFit : twoFiles.BlocksFit := by
  intro i _ k hk
  have hk0 : k = 0 := by
    by_cases hi : i = 0 <;> simp only [twoFiles, hi, fsBlkSize, if_true, if_false] at hk <;> omega
  by_cases hi : i = 0 <;> simp [twoFiles, hi, hk0]

/-- A short read: 100 bytes asked for from byte 2 of the file of 10. -/
theorem readData_exact_shortRead :
    ∃ r buf', (readData twoFiles 0 2 (some fun _ => 255) 100).ret = (r : Nat) ∧
      (readData twoFiles 0 2 (some fun _ => 255) 100).buf = some buf' ∧
      r = min 100 ((twoFiles.inodes 0).size - 2) ∧
      (∀ k, k < r → buf' k = twoFiles.fileByte 0 (2 + k)) ∧ ∀ k, r ≤ k → buf' k = 255 :=
  (readData_exact twoFiles twoFiles_sizesFit 0 2 100 (by decide) fun _ => 255).1 (by decide)

/-- The requests `read_data` serves on a well-formed image: those from the end of the file
    on, and those that end below `direntryCnt` blocks and do not reach the end of a file
    that exactly fills its last block while the slot after it names no block. -/
def Image.ReadFits (img : Image) (inode offset length : Nat) : Prop :=
  (img.inodes inode).size ≤ offset ∨
    (offset + length < (img.fsStats.direntryCnt * fsBlkSize) % u32 ∧
      ¬ ((img.inodes inode).size % fsBlkSize = 0 ∧ (img.inodes inode).size ≤ offset + length ∧
        img.fsStats.datablkCnt ≤ (img.inodes inode).data ((img.inodes inode).size / fsBlkSize)))

/-- On a well-formed image the only slot that can be bad is the one after the last block. -/
theorem badSlotAfter_iff_last {img : Image} {inode k : Nat} (hblks : img.BlocksFit)
    (hino : inode < img.fsStats.inodeCnt) (hk : k < (img.inodes inode).size) :
    img.BadSlotAfter inode k ↔ k + 1 = (img.inodes inode).size ∧
      (img.inodes inode).size % fsBlkSize = 0 ∧
      img.fsStats.datablkCnt ≤ (img.inodes inode).data ((img.inodes inode).size / fsBlkSize) := by
  unfold Image.BadSlotAfter
  constructor
  · rintro ⟨hmod, hbad⟩
    have hlast : k + 1 = (img.inodes inode).size := by
      by_contra hne
      have hmul : (k + 1) / fsBlkSize * fsBlkSize = k + 1 := Nat.div_mul_cancel
        (Nat.dvd_of_mod_eq_zero hmod)
      have := hblks inode hino ((k + 1) / fsBlkSize) (by omega)
      omega
    exact ⟨hlast, hlast ▸ hmod, hlast ▸ hbad⟩
  · rintro ⟨hlast, hmod, hbad⟩
    rw [hlast]
    exact ⟨hmod, hbad⟩

/-- On a well-formed image `read_data` avoids -1 on exactly the requests of `ReadFits`. -/
theorem readData_total_iff (img : Image) (hsizes : img.SizesFit) (hblks : img.BlocksFit)
    (inode offset length : Nat) (hino : inode < img.fsStats.inodeCnt)
    (hlen : length < 2147483648) (buf : Nat → UInt8) :
    (readData img inode offset (some buf) length).ret ≠ -1 ↔
      img.ReadFits inode offset length := by
  have hsize := hsizes inode hino
  unfold Image.ReadFits
  rcases readData_cases img inode offset length buf hlen with
    ⟨hg, heq⟩ | ⟨-, hoff, heq⟩ | ⟨hg, hoff, hret, -⟩
  · have hoff := hg.inFile
    have hwrap : (offset + length) % u32 = offset + length := by
      unfold fsInodeDataLen fsBlkSize at hsize
      unfold u32
      omega
    have hspan := hg.spanOk
    rw [hwrap] at hspan
    rw [heq, Ne, readLoop_fails_iff (hsizes.lt_u32 hino) length _ (readInv_start buf hg)]
    constructor
    · intro hgood
      refine Or.inr ⟨hspan, fun ⟨hmod, hend, hbad⟩ => hgood ?_⟩
      refine ⟨(img.inodes inode).size - 1, ?_, ?_, by omega, ?_⟩
      · simp only [readStart, ReadState.look]
        omega
      · simp only [readStart, ReadState.look]
        omega
      · rw [badSlotAfter_iff_last hblks hino (by omega)]
        exact ⟨by omega, hmod, hbad⟩
    · rintro (h | ⟨-, hgood⟩)
      · omega
      · rintro ⟨k, -, hk, hksize, hbad⟩
        rw [badSlotAfter_iff_last hblks hino hksize] at hbad
        obtain ⟨hlast, hmod, hdata⟩ := hbad
        simp only [readStart, ReadState.look] at hk
        exact hgood ⟨hmod, by omega, hdata⟩
  · rw [heq]
    simp [hoff]
  · have hlt : offset < (img.inodes inode).size := by
      by_contra h
      exact hoff ⟨hino, by omega⟩
    have hwrap : (offset + length) % u32 = offset + length := by
      unfold fsInodeDataLen fsBlkSize at hsize
      unfold u32
      omega
    have hcover : offset / fsBlkSize * fsBlkSize < (img.inodes inode).size :=
      Nat.lt_of_le_of_lt (Nat.div_mul_le_self _ _) hlt
    have hblk := hblks inode hino (offset / fsBlkSize) hcover
    simp only [hret, ne_eq, not_true_eq_false, false_iff, not_or, Nat.not_le]
    refine ⟨hlt, fun hfit => hg ⟨hino, hlt, ?_, hblk⟩⟩
    rw [hwrap]
    exact hfit.1

/-- Both guards fail on legal requests: 8192 bytes asked of the 10-byte file, where the
    directory has two entries, and the last 6 bytes of the one-block file. -/
theorem readData_fails_on_wellFormed :
    twoFiles.SizesFit ∧ twoFiles.BlocksFit ∧
      (readData twoFiles 0 0 (some fun _ => 0) 8192).ret = -1 ∧
      (readData twoFiles 1 4090 (some fun _ => 0) 6).ret = -1 :=
  ⟨twoFiles_sizesFit, twoFiles_blocksFit, by decide, by decide⟩

theorem readData_total_twoFiles : (readData twoFiles 0 0 (some fun _ => 0) 8191).ret ≠ -1 :=
  (readData_total_iff twoFiles twoFiles_sizesFit twoFiles_blocksFit 0 0 8191 (by decide)
    (by decide) _).mpr (Or.inr ⟨by decide, by decide⟩)

end Mp3Kernel
