/-
  The slots of an inode's block index that `read_data` looks at.

  Each turn looks at the slot of the byte it is about to copy, and at the slot of the byte
  behind it once a block is finished. A read therefore looks at the slots of all positions
  from `offset` to where it stops, that position included (`readLoop_slots`), and stops at the
  end of the file at the latest.

  * `slots_owned_iff`: these are slots of the file, unless the read gets to the end of a file
    that exactly fills its last block. The position there is the first of a block the file does
    not have; for a file of `fsInodeDataLen` blocks it is past the end of the array.
-/
import Mp3Kernel.Proofs.ReadData

namespace Mp3Kernel

open Base.BlockFile

/-- `k` is the slot of a position from `offset` to `upto`. -/
def SlotTo (offset upto k : Nat) : Prop :=
  ∃ j, offset ≤ j ∧ j ≤ upto ∧ k = j / fsBlkSize

theorem slotTo_self (offset k : Nat) : SlotTo offset offset k ↔ k = offset / fsBlkSize := by
  constructor
  · rintro ⟨j, h1, h2, rfl⟩
    rw [Nat.le_antisymm h2 h1]
  · intro hk
    exact ⟨offset, Nat.le_refl _, Nat.le_refl _, hk⟩

theorem slotTo_succ {offset upto : Nat} (h : offset ≤ upto) (k : Nat) :
    SlotTo offset (upto + 1) k ↔ SlotTo offset upto k ∨ k = (upto + 1) / fsBlkSize := by
  constructor
  · rintro ⟨j, h1, h2, hk⟩
    rcases Nat.lt_or_eq_of_le h2 with hlt | rfl
    · exact Or.inl ⟨j, h1, Nat.le_of_lt_succ hlt, hk⟩
    · exact Or.inr hk
  · rintro (⟨j, h1, h2, hk⟩ | hk)
    · exact ⟨j, h1, Nat.le_succ_of_le h2, hk⟩
    · exact ⟨upto + 1, Nat.le_succ_of_le h, Nat.le_refl _, hk⟩

theorem slotTo_last {offset upto : Nat} (h : offset ≤ upto) :
    SlotTo offset upto (upto / fsBlkSize) :=
  ⟨upto, h, Nat.le_refl _, rfl⟩

/-! ## One turn -/

/-- A turn that goes on has looked at the slot it started in and the one it goes on in. -/
theorem readStep_ok_slots {img : Image} {inode offset : Nat} {st st' : ReadState}
    (hs : readStep img inode offset st = .ok st') (k : Nat) :
    k ∈ st'.slots ↔ k ∈ st.slots ∨ k = st.datablkIdx ∨ k = st'.datablkIdx := by
  unfold readStep at hs
  dsimp only at hs
  split at hs
  · cases hs
  split at hs
  · split at hs
    · cases hs
    · obtain rfl := Except.ok.inj hs
      simp only [ReadState.look, ReadState.nextBlk, ReadState.store, List.mem_cons]
      tauto
  · obtain rfl := Except.ok.inj hs
    simp only [ReadState.look, ReadState.nextOffset, ReadState.store, List.mem_cons]
    tauto

/-- A turn that returns has looked at the slot it started in, and at the next one if that is
    why it returns. -/
theorem readStep_error_slots {img : Image} {inode offset : Nat} {st : ReadState}
    {res : ReadResult} (hs : readStep img inode offset st = .error res) (k : Nat) :
    k ∈ res.slots ↔
      k ∈ st.slots ∨ k = st.datablkIdx ∨ res.ret = -1 ∧ k = st.datablkIdx + 1 := by
  unfold readStep at hs
  dsimp only at hs
  split at hs
  · obtain rfl := Except.error.inj hs
    have hret : (st.reads : Int) ≠ -1 := by omega
    simp only [ReadState.finish, ReadState.look, List.mem_cons, hret, false_and, or_false]
    exact or_comm
  split at hs
  · split at hs
    · obtain rfl := Except.error.inj hs
      simp only [ReadState.finish, ReadState.look, ReadState.nextBlk, ReadState.store,
        List.mem_cons, true_and]
      tauto
    · cases hs
  · cases hs

section Run

variable {img : Image} {inode offset : Nat} {buf₀ : Nat → UInt8} {st : ReadState}

/-- The cursor is in the slot of the next byte. -/
theorem ReadInv.datablkIdx_eq (h : ReadInv img inode offset buf₀ st) :
    st.datablkIdx = (offset + st.reads) / fsBlkSize := by
  rw [← h.cursor, pos_div _ _ _ h.inBlk]

/-- Where a turn starts, the slots up to there have been looked at. -/
def Looked (offset : Nat) (st : ReadState) : Prop :=
  ∀ k, k ∈ st.slots ↔ SlotTo offset (offset + st.reads) k

/-- A turn that goes on has looked at one position more. -/
theorem Looked.next {st' : ReadState} (hl : Looked offset st)
    (h : ReadInv img inode offset buf₀ st) (h' : ReadInv img inode offset buf₀ st')
    (hreads : st'.reads = st.reads + 1) (hs : readStep img inode offset st = .ok st') :
    Looked offset st' := by
  intro k
  have hcur : SlotTo offset (offset + st.reads) st.datablkIdx := by
    rw [h.datablkIdx_eq]
    exact slotTo_last (Nat.le_add_right _ _)
  rw [readStep_ok_slots hs, hl k, h'.datablkIdx_eq, hreads, ← Nat.add_assoc,
    slotTo_succ (Nat.le_add_right _ _)]
  constructor
  · rintro (hk | rfl | hk)
    · exact Or.inl hk
    · exact Or.inl hcur
    · exact Or.inr hk
  · rintro (hk | hk)
    · exact Or.inl hk
    · exact Or.inr (Or.inr hk)

/-- A turn that returns at the end of the file has looked at nothing new. -/
theorem Looked.atEof {res : ReadResult} (hl : Looked offset st)
    (h : ReadInv img inode offset buf₀ st) (hret : res.ret ≠ -1)
    (hs : readStep img inode offset st = .error res) (k : Nat) :
    k ∈ res.slots ↔ SlotTo offset (offset + st.reads) k := by
  rw [readStep_error_slots hs, hl k]
  constructor
  · rintro (hk | rfl | ⟨hbad, -⟩)
    · exact hk
    · rw [h.datablkIdx_eq]
      exact slotTo_last (Nat.le_add_right _ _)
    · exact absurd hbad hret
  · exact Or.inl

/-- A turn that returns on a bad slot has looked at that one too. -/
theorem Looked.atBadSlot {res : ReadResult} (hl : Looked offset st)
    (h : ReadInv img inode offset buf₀ st) (hret : res.ret = -1)
    (hbad : img.BadSlotAfter inode (offset + st.reads))
    (hs : readStep img inode offset st = .error res) (k : Nat) :
    k ∈ res.slots ↔ SlotTo offset (offset + st.reads + 1) k := by
  have hnext : st.datablkIdx + 1 = (offset + st.reads + 1) / fsBlkSize := by
    rw [Nat.add_assoc, ← h.next_block (h.badSlotAfter_iff.mp hbad).1,
      pos_div _ _ _ (by decide)]
  rw [readStep_error_slots hs, hl k, slotTo_succ (Nat.le_add_right _ _), hnext]
  constructor
  · rintro (hk | rfl | ⟨-, hk⟩)
    · exact Or.inl hk
    · rw [h.datablkIdx_eq]
      exact Or.inl (slotTo_last (Nat.le_add_right _ _))
    · exact Or.inr hk
  · rintro (hk | hk)
    · exact Or.inl hk
    · exact Or.inr (Or.inr ⟨hret, hk⟩)

/-- The run, by induction on the turns left: on a well-formed image the loop looks at the slots
    of all positions up to where it stops. -/
theorem readLoop_slots (hsize : (img.inodes inode).size < u32) (hblks : img.BlocksFit)
    (hino : inode < img.fsStats.inodeCnt) (n : Nat) (h : ReadInv img inode offset buf₀ st)
    (hl : Looked offset st) (k : Nat) :
    k ∈ (readLoop img inode offset n st).slots ↔
      SlotTo offset (min (offset + st.reads + n) (img.inodes inode).size) k := by
  induction n generalizing st with
  | zero =>
    have hin := h.inFile
    rw [Nat.add_zero, Nat.min_eq_left hin]
    exact hl k
  | succ n ih =>
    have hin := h.inFile
    rcases readStep_inv h hsize with ⟨hs, heof⟩ | ⟨res, hs, hret, hlt, hbad, -⟩ |
      ⟨st', hs, h', hreads, hlt, -⟩
    · have hnat : (st.look.finish st.reads).ret ≠ -1 := by
        simp only [ReadState.finish]
        omega
      simp only [readLoop, hs]
      rw [hl.atEof h hnat hs k, Nat.min_eq_right (by omega), heof]
    · -- on a well-formed image a bad slot is the one behind the last block
      have hlast := ((badSlotAfter_iff_last hblks hino hlt).mp hbad).1
      simp only [readLoop, hs]
      rw [hl.atBadSlot h hret hbad hs k, Nat.min_eq_right (by omega), hlast]
    · simp only [readLoop, hs]
      have hupto : offset + st'.reads + n = offset + st.reads + (n + 1) := by omega
      rw [ih h' (hl.next h h' hreads hs), hupto]

end Run

/-! ## The call -/

theorem looked_start (offset : Nat) (buf : Nat → UInt8) : Looked offset (readStart offset buf) := by
  intro k
  simp only [readStart, ReadState.look, Nat.add_zero, slotTo_self, List.mem_cons,
    List.not_mem_nil, or_false]

/-- Only at the end of a file that fills its last block is the slot of a position not one of the
    file's. -/
theorem slotsTo_owned_iff {size offset upto : Nat} (hoff : offset < size) :
    (∀ k, SlotTo offset (min upto size) k → k * fsBlkSize < size) ↔
      ¬ (size % fsBlkSize = 0 ∧ size ≤ upto) := by
  constructor
  · rintro howned ⟨hmod, hend⟩
    have hslot : SlotTo offset (min upto size) (size / fsBlkSize) :=
      ⟨size, Nat.le_of_lt hoff, by omega, rfl⟩
    have hlt := howned _ hslot
    rw [Nat.div_mul_cancel (Nat.dvd_of_mod_eq_zero hmod)] at hlt
    exact Nat.lt_irrefl _ hlt
  · rintro hnot k ⟨j, -, hj, rfl⟩
    have hle : j / fsBlkSize * fsBlkSize ≤ j := Nat.div_mul_le_self _ _
    by_contra hge
    have hj' : j = size := by omega
    subst hj'
    have hmul : j / fsBlkSize * fsBlkSize = j := by omega
    refine hnot ⟨?_, by omega⟩
    rw [← hmul]
    exact Nat.mul_mod_left _ _

/-- A request on a well-formed image, by what the guards make of it: the slots looked at. -/
theorem readData_slots {img : Image} (hsizes : img.SizesFit) (hblks : img.BlocksFit)
    {inode offset length : Nat} (hino : inode < img.fsStats.inodeCnt)
    (hlen : length < 2147483648) (buf : Nat → UInt8) :
    (offset < (img.inodes inode).size ∧
      offset + length < (img.fsStats.direntryCnt * fsBlkSize) % u32 ∧
      ∀ k, k ∈ (readData img inode offset (some buf) length).slots ↔
        SlotTo offset (min (offset + length) (img.inodes inode).size) k) ∨
    (¬ (offset < (img.inodes inode).size ∧
        offset + length < (img.fsStats.direntryCnt * fsBlkSize) % u32) ∧
      (readData img inode offset (some buf) length).slots = []) := by
  have hsize := hsizes inode hino
  have hturns : (i32 length).toNat = length := by
    simp [i32, hlen]
  unfold readData
  dsimp only
  rw [if_neg (Nat.not_le_of_lt hino)]
  by_cases hoff : (img.inodes inode).size ≤ offset
  · rw [if_pos hoff]
    exact Or.inr ⟨fun h => by omega, rfl⟩
  have hwrap : (offset + length) % u32 = offset + length := by
    unfold fsInodeDataLen fsBlkSize at hsize
    unfold u32
    omega
  rw [if_neg hoff, hwrap]
  by_cases hspan : (img.fsStats.direntryCnt * fsBlkSize) % u32 ≤ offset + length
  · rw [if_pos hspan]
    exact Or.inr ⟨fun h => by omega, rfl⟩
  have hcover : offset / fsBlkSize * fsBlkSize < (img.inodes inode).size :=
    Nat.lt_of_le_of_lt (Nat.div_mul_le_self _ _) (Nat.lt_of_not_le hoff)
  have hblk := hblks inode hino (offset / fsBlkSize) hcover
  rw [if_neg hspan, if_neg (Nat.not_le_of_lt hblk), hturns]
  have hguards : ReadGuards img inode offset length :=
    ⟨hino, Nat.lt_of_not_le hoff, by rw [hwrap]; exact Nat.lt_of_not_le hspan, hblk⟩
  refine Or.inl ⟨hguards.inFile, Nat.lt_of_not_le hspan, fun k => ?_⟩
  exact readLoop_slots (hsizes.lt_u32 hino) hblks hino length (readInv_start buf hguards)
    (looked_start offset buf) k

/-- On a well-formed image every slot looked at is one of the file's, and so in the array, on
    exactly the requests that do not get to the end of a file which fills its last block. -/
theorem slots_owned_iff (img : Image) (hsizes : img.SizesFit) (hblks : img.BlocksFit)
    (inode offset length : Nat) (hino : inode < img.fsStats.inodeCnt)
    (hlen : length < 2147483648) (buf : Option (Nat → UInt8)) :
    (∀ k ∈ (readData img inode offset buf length).slots,
      k * fsBlkSize < (img.inodes inode).size ∧ k < fsInodeDataLen) ↔
    ¬ (buf ≠ none ∧ offset < (img.inodes inode).size ∧
        offset + length < (img.fsStats.direntryCnt * fsBlkSize) % u32 ∧
        (img.inodes inode).size % fsBlkSize = 0 ∧
        (img.inodes inode).size ≤ offset + length) := by
  have hsize := hsizes inode hino
  have hfits : ∀ k, k * fsBlkSize < (img.inodes inode).size → k < fsInodeDataLen :=
    fun k hk => Nat.lt_of_mul_lt_mul_right (Nat.lt_of_lt_of_le hk hsize)
  cases buf with
  | none =>
    refine iff_of_true ?_ fun h => h.1 rfl
    intro k hk
    cases hk
  | some buf =>
    rcases readData_slots hsizes hblks hino hlen buf with ⟨hoff, hspan, hslots⟩ | ⟨hnot, hslots⟩
    · have howned : (∀ k, SlotTo offset (min (offset + length) (img.inodes inode).size) k →
          k * fsBlkSize < (img.inodes inode).size) ↔ _ := slotsTo_owned_iff hoff
      constructor
      · rintro hall ⟨-, -, -, hmod, hend⟩
        exact howned.mp (fun k hk => (hall k ((hslots k).mpr hk)).1) ⟨hmod, hend⟩
      · intro hcond k hk
        have hlt := howned.mpr (fun h => hcond ⟨nofun, hoff, hspan, h⟩) k ((hslots k).mp hk)
        exact ⟨hlt, hfits k hlt⟩
    · refine iff_of_true ?_ fun h => hnot ⟨h.2.1, h.2.2.1⟩
      intro k hk
      rw [hslots] at hk
      cases hk

/-- The last 6 bytes of a file of one block: its second slot is looked at. -/
theorem slot_behind_file : twoFiles.SizesFit ∧ twoFiles.BlocksFit ∧
    1 < twoFiles.fsStats.inodeCnt ∧
    ¬ ∀ k ∈ (readData twoFiles 1 4090 (some fun _ => 0) 6).slots,
      k * fsBlkSize < (twoFiles.inodes 1).size ∧ k < fsInodeDataLen :=
  ⟨twoFiles_sizesFit, twoFiles_blocksFit, by decide, by decide⟩

/-- One byte less, and the read stays in the file's only slot. -/
theorem slots_owned_short : (readData twoFiles 1 4090 (some fun _ => 0) 5).ret = 5 ∧
    ∀ k ∈ (readData twoFiles 1 4090 (some fun _ => 0) 5).slots,
      k * fsBlkSize < (twoFiles.inodes 1).size ∧ k < fsInodeDataLen :=
  ⟨by decide, (slots_owned_iff twoFiles twoFiles_sizesFit twoFiles_blocksFit 1 4090 5 (by decide)
    (by decide) _).mpr (by decide)⟩

end Mp3Kernel
