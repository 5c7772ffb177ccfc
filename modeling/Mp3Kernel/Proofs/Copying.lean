/-
  What the assembly string routines of lib.c leave in memory.

  Whatever the alignment, the double-word loops do what one byte after the other would do.
  `memmove` copies any two areas, `memcpy` those where the destination does not start inside
  the source. The direction flag is set before each string instruction, so what an earlier
  `memmove` left in it does not matter.
-/
import Mp3Kernel.Model.MemOps
import Mp3Kernel.Proofs.Boot

namespace Mp3Kernel.Lib

open Base.Areas

variable {c cpu : Cpu} {edi esi n size value ecx : Nat} {al : UInt8}

@[simp] theorem Cpu.cld_df : c.cld.df = false := rfl
@[simp] theorem Cpu.cld_mem : c.cld.mem = c.mem := rfl
@[simp] theorem Cpu.std_df : c.std.df = true := rfl
@[simp] theorem Cpu.std_mem : c.std.mem = c.mem := rfl

/-! ## rep stos, rep movs -/

/-- The bytes of a little-endian value. -/
def byteAt (value j : Nat) : UInt8 := UInt8.ofNat (value / 256 ^ j)

theorem store_eq :
    c.store edi size value = { c with mem := tiled c.mem edi size 1 (byteAt value) } := by
  unfold Cpu.store
  congr 1
  funext a
  unfold tiled byteAt
  rw [Nat.one_mul]
  split_ifs with ha
  · rw [Nat.mod_eq_of_lt (by omega : a - edi < size)]
  · rfl

theorem repStos_eq (hdf : c.df = false) :
    repStos size value n edi c =
      (edi + n * size, { c with mem := tiled c.mem edi size n (byteAt value) }) := by
  induction n generalizing edi c with
  | zero => simp [repStos]
  | succ n ih =>
    have hnext : c.next edi size = edi + size := by simp [Cpu.next, hdf]
    rw [repStos, hnext, ih (by simpa [Cpu.store] using hdf), store_eq]
    simp only [tiled_succ, Prod.mk.injEq, and_true]
    rw [Nat.succ_mul]
    omega

theorem repMovs_up (hdf : c.df = false) (h : edi ≤ esi ∨ esi + n * size ≤ edi) :
    repMovs size n edi esi c =
      (edi + n * size, esi + n * size, { c with mem := copied c.mem edi esi (n * size) }) := by
  induction n generalizing edi esi c with
  | zero => simp [repMovs]
  | succ n ih =>
    have hn : (n + 1) * size = size + n * size := by rw [Nat.succ_mul, Nat.add_comm]
    have hedi : c.next edi size = edi + size := by simp [Cpu.next, hdf]
    have hesi : c.next esi size = esi + size := by simp [Cpu.next, hdf]
    have hdf' : ({ c with mem := copied c.mem edi esi size } : Cpu).df = false := hdf
    rw [hn] at h
    rw [repMovs, hedi, hesi, ih hdf' (by omega)]
    simp only [copied_append h, hn, Nat.add_assoc]

/-- Downwards, from the last byte on. -/
theorem repMovs_down (hdf : c.df = true) (h : esi < edi) :
    (repMovs 1 n (edi + n - 1) (esi + n - 1) c).2.2 =
      { c with mem := copied c.mem edi esi n } := by
  induction n generalizing c with
  | zero => simp [repMovs]
  | succ n ih =>
    have hedi : c.next (edi + (n + 1) - 1) 1 = edi + n - 1 := by simp [Cpu.next, hdf]
    have hesi : c.next (esi + (n + 1) - 1) 1 = esi + n - 1 := by simp [Cpu.next, hdf]
    have hdf' : ({ c with mem := copied c.mem (edi + n) (esi + n) 1 } : Cpu).df = true := hdf
    rw [repMovs, hedi, hesi, Nat.add_succ_sub_one, Nat.add_succ_sub_one, ih hdf']
    simp only [copied_prepend h.le]

/-! ## Up to the alignment, and the rest -/

theorem memsetTop_eq (al : UInt8) (ecx edi : Nat) (c : Cpu) :
    ∃ i ≤ ecx, memsetTop al ecx edi c =
      (ecx - i, edi + i, { c with mem := filled c.mem edi i al }) := by
  induction ecx generalizing edi c with
  | zero => exact ⟨0, le_rfl, by simp [memsetTop]⟩
  | succ ecx ih =>
    unfold memsetTop
    split
    · exact ⟨0, Nat.zero_le _, by simp⟩
    · obtain ⟨i, hi, heq⟩ := ih (edi + 1) { c with mem := Function.update c.mem edi al }
      refine ⟨1 + i, by omega, ?_⟩
      rw [heq, ← filled_one, filled_append]
      simp only [Nat.add_assoc, Prod.mk.injEq, and_true]
      omega

theorem memsetBottom_eq :
    memsetBottom al ecx edi c = { c with mem := filled c.mem edi ecx al } := by
  induction ecx generalizing edi c with
  | zero => simp [memsetBottom]
  | succ ecx ih => rw [memsetBottom, ih, ← filled_one, filled_append, Nat.add_comm 1]

theorem memcpyTop_eq (h : edi ≤ esi ∨ esi + ecx ≤ edi) (c : Cpu) :
    ∃ i ≤ ecx, memcpyTop ecx edi esi c =
      (ecx - i, edi + i, esi + i, { c with mem := copied c.mem edi esi i }) := by
  induction ecx generalizing edi esi c with
  | zero => exact ⟨0, le_rfl, by simp [memcpyTop]⟩
  | succ ecx ih =>
    unfold memcpyTop
    split
    · exact ⟨0, Nat.zero_le _, by simp⟩
    · obtain ⟨i, hi, heq⟩ :=
        @ih (edi + 1) (esi + 1) (by omega) { c with mem := Function.update c.mem edi (c.mem esi) }
      refine ⟨1 + i, by omega, ?_⟩
      rw [heq, ← copied_one, copied_append (by omega)]
      simp only [Nat.add_assoc, Prod.mk.injEq, and_true]
      omega

theorem memcpyBottom_eq (h : edi ≤ esi ∨ esi + ecx ≤ edi) :
    memcpyBottom ecx edi esi c = { c with mem := copied c.mem edi esi ecx } := by
  induction ecx generalizing edi esi c with
  | zero => simp [memcpyBottom]
  | succ ecx ih =>
    rw [memcpyBottom, ih (by omega), ← copied_one, copied_append (by omega), Nat.add_comm 1]

/-! ## memset -/

/-- `c << 24 | c << 16 | c << 8 | c` for a byte `c`. -/
theorem byteAt_spread {b j : Nat} (hb : b < 256) (hj : j < 4) :
    byteAt (b <<< 24 ||| b <<< 16 ||| b <<< 8 ||| b) j = UInt8.ofNat b := by
  have hall : ∀ b < 256, ∀ j < 4,
      byteAt (b <<< 24 ||| b <<< 16 ||| b <<< 8 ||| b) j = UInt8.ofNat b := by
    decide +kernel
  exact hall b hb j hj

/-- The register holds the byte four times: AL is the byte, and so is each byte that `stosl`
    stores. -/
theorem memset_eq (cpu : Cpu) (s n : Nat) {c : Int} {b : Nat} (hb : b < 256)
    (hc : (c % 256).toNat = b) :
    ∃ df, memset cpu s c n = ⟨filled cpu.mem s n (UInt8.ofNat b), df⟩ := by
  have hal : UInt8.ofNat (b <<< 24 ||| b <<< 16 ||| b <<< 8 ||| b) = UInt8.ofNat b := by
    simpa [byteAt] using byteAt_spread hb (Nat.zero_lt_succ 3)
  unfold memset
  simp only [hc, hal]
  obtain ⟨i, hi, htop⟩ := memsetTop_eq (UInt8.ofNat b) n s cpu
  simp only [htop]
  split_ifs with hdone
  · have hin : i = n := by omega
    exact ⟨cpu.df, by rw [hin]⟩
  · have hsplit : i + ((n - i) / 4 * 4 + (n - i) % 4) = n := by omega
    refine ⟨false, ?_⟩
    rw [repStos_eq Cpu.cld_df, memsetBottom_eq, tiled_const fun j => byteAt_spread hb]
    simp only [Cpu.cld_mem, Cpu.cld_df, filled_append, Nat.add_assoc, hsplit]

/-- For every alignment and length, `memset` fills its area with the low byte of `c` and
    touches nothing else; `memset_word` and `memset_dword` lay down `n` copies of the two or
    four low bytes of `c`. -/
theorem memset_fills (cpu : Cpu) (s : Nat) (c : Int) (n : Nat) :
    (memset cpu s c n).mem = filled cpu.mem s n (UInt8.ofNat (c % 256).toNat) ∧
      (memsetWord cpu s c n).mem = tiled cpu.mem s 2 n (byteAt (c % u32).toNat) ∧
      (memsetDword cpu s c n).mem = tiled cpu.mem s 4 n (byteAt (c % u32).toNat) := by
  refine ⟨?_, ?_, ?_⟩
  · obtain ⟨df, heq⟩ := memset_eq cpu s n (by omega) (Eq.refl (c % 256).toNat)
    rw [heq]
  · rw [memsetWord, repStos_eq Cpu.cld_df, Cpu.cld_mem]
  · rw [memsetDword, repStos_eq Cpu.cld_df, Cpu.cld_mem]

/-! ## memcpy, memmove -/

/-- `memcpy` goes upwards: right for every alignment and length unless the destination starts
    inside the source. -/
theorem memcpy_copies (cpu : Cpu) {dest src n : Nat} (h : dest ≤ src ∨ src + n ≤ dest) :
    (memcpy cpu dest src n).mem = copied cpu.mem dest src n := by
  unfold memcpy
  obtain ⟨i, hi, htop⟩ := memcpyTop_eq h cpu
  simp only [htop]
  split_ifs with hdone
  · have hin : i = n := by omega
    rw [hin]
  · have hsplit : i + ((n - i) / 4 * 4 + (n - i) % 4) = n := by omega
    rw [repMovs_up Cpu.cld_df (by omega)]
    simp only [Cpu.cld_mem]
    rw [memcpyBottom_eq (by omega)]
    simp only
    rw [copied_append (by omega), copied_append (by omega), hsplit]

-- one byte behind the source, the copy reads what it has written
example : (memcpy ⟨UInt8.ofNat, false⟩ 5 4 2).mem 6 = 4 := by decide

/-- `memmove` copies any two areas, in whichever direction does not overwrite what is still to
    be read, and leaves the direction flag set when it went downwards. -/
theorem memmove_copies (cpu : Cpu) (dest src n : Nat) :
    memmove cpu dest src n = ⟨copied cpu.mem dest src n, decide (src < dest)⟩ := by
  unfold memmove
  split_ifs with h
  · rw [repMovs_up Cpu.cld_df (Or.inl h)]
    simp [Cpu.cld, h]
  · rw [repMovs_down Cpu.std_df (by omega)]
    simp [Cpu.std]
    omega

theorem phys_video_reset (j : Nat) (hj : j < 4096) :
    resetKernel.paging.phys (video + j) = some (video + j) :=
  initPaging_phys layoutAt (by unfold video; omega) (by unfold video mb4; omega)

/-- The terminal code's `memmove` and `memcpy`, which read all of the source first, are these
    loops run on physical memory, whatever the direction flag holds. -/
theorem copies_refine (df : Bool) (n : Nat) {k : Kernel} {dest src d s : Nat}
    (hd : k.paging.phys dest = some d) (hs : k.paging.phys src = some s) :
    Mp3Kernel.memmove k dest src n = some (k.setMem (memmove ⟨k.mem, df⟩ d s n).mem) ∧
      (d ≤ s ∨ s + n ≤ d →
        Mp3Kernel.memcpy k dest src n = some (k.setMem (memcpy ⟨k.mem, df⟩ d s n).mem)) := by
  refine ⟨?_, fun h => ?_⟩
  · rw [memmove_copies]
    exact memcpy_eq n hd hs
  · rw [memcpy_copies _ h]
    exact memcpy_eq n hd hs

/-- `scroll_up` on the screen of a kernel about to start its first shell. -/
theorem copies_refine_scroll :
    Mp3Kernel.memmove resetKernel video (video + 160) 3840 =
        some (resetKernel.setMem (memmove ⟨resetKernel.mem, true⟩ video (video + 160) 3840).mem) ∧
      (video ≤ video + 160 ∨ video + 160 + 3840 ≤ video →
        Mp3Kernel.memcpy resetKernel video (video + 160) 3840 =
          some (resetKernel.setMem
            (memcpy ⟨resetKernel.mem, true⟩ video (video + 160) 3840).mem)) :=
  copies_refine true 3840 (phys_video_reset 0 (by decide)) (phys_video_reset 160 (by decide))

end Mp3Kernel.Lib
