/-
  Looking a name up in the directory.

  The name of an entry is what its 32 bytes hold up to the first NUL, all 32 without one.
  `strncmp_eq_zero_iff` says that the bounded compare is equality with that name for a string
  of at most 32 characters. The scan then finds the first of the 63 slots that bears the name
  (`readDentryByName_cases`).

  `lookup_exact_iff`: the lookup is exact, a name being found if and only if one of the first
  `direntryCnt` entries bears it, on exactly the names no slot behind those entries bears on
  its own. The scan goes through all 63 slots, so the empty name finds an unused one.
-/
import Mp3Kernel.Proofs.Boot
import Mathlib.Data.Nat.Find

namespace Mp3Kernel

/-! ## Strings -/

theorem CString.eq_iff {s t : CString} : s = t ↔ s.bytes = t.bytes := by
  constructor
  · rintro rfl
    rfl
  · intro h
    obtain ⟨_, _⟩ := s
    obtain ⟨_, _⟩ := t
    cases h
    rfl

instance decEqCString : DecidableEq CString :=
  fun _ _ => decidable_of_iff _ CString.eq_iff.symm

theorem CString.get_of_lt {s : CString} {i : Nat} (h : i < s.bytes.length) :
    s.get i = s.bytes[i] := by
  unfold CString.get
  rw [List.getD_eq_getElem?_getD, List.getElem?_eq_getElem h, Option.getD_some]

theorem CString.get_ne_zero {s : CString} {i : Nat} (h : i < s.bytes.length) : s.get i ≠ 0 := by
  rw [CString.get_of_lt h]
  exact s.noNul _ (List.getElem_mem h)

theorem CString.get_of_le {s : CString} {i : Nat} (h : s.bytes.length ≤ i) : s.get i = 0 := by
  unfold CString.get
  rw [List.getD_eq_getElem?_getD, List.getElem?_eq_none h, Option.getD_none]

theorem i8_sub_eq_zero {a b : UInt8} : i8 a - i8 b = 0 ↔ a = b := by
  have ha := a.toNat_lt
  have hb := b.toNat_lt
  rw [← UInt8.toNat_inj]
  unfold i8
  split <;> split <;> omega

/-- From index `i` on `strncmp` finds no difference if and only if what is left of the string is
    what the area holds up to its first NUL. -/
theorem strncmpFrom_eq_zero_iff (s : CString) (area : Nat → UInt8) {i n : Nat}
    (hi : i ≤ s.bytes.length) (hn : s.bytes.length ≤ i + n) :
    strncmpFrom s.get area i n = 0 ↔
      s.bytes.drop i = ((List.range' i n).map area).takeWhile (· ≠ 0) := by
  induction n generalizing i with
  | zero =>
    rw [List.drop_of_length_le (by omega)]
    exact ⟨fun _ => rfl, fun _ => rfl⟩
  | succ n ih =>
    rw [strncmpFrom, List.range'_succ, List.map_cons]
    rcases Nat.lt_or_eq_of_le hi with hlt | heq
    · have hne := CString.get_ne_zero hlt
      rw [List.drop_eq_getElem_cons hlt, ← CString.get_of_lt hlt]
      by_cases hbyte : s.get i = area i
      · have hgo : ¬ (s.get i ≠ area i ∨ s.get i = 0) := fun h => h.elim (· hbyte) hne
        rw [if_neg hgo, ih hlt (by omega), List.takeWhile_cons_of_pos (by simpa [← hbyte] using hne),
          hbyte, List.cons.injEq]
        exact (and_iff_right rfl).symm
      · rw [if_pos (Or.inl hbyte), i8_sub_eq_zero]
        refine ⟨fun h => absurd h hbyte, fun h => ?_⟩
        -- the area ends here or goes on with another byte
        by_cases hend : area i = 0
        · rw [List.takeWhile_cons_of_neg (by simp [hend])] at h
          cases h
        · rw [List.takeWhile_cons_of_pos (by simpa using hend), List.cons.injEq] at h
          exact h.1
    · have hzero : s.get i = 0 := CString.get_of_le (by omega)
      rw [if_pos (Or.inr hzero), i8_sub_eq_zero, hzero, List.drop_of_length_le (by omega)]
      constructor
      · intro h
        rw [List.takeWhile_cons_of_neg (by simp [← h])]
      · intro h
        by_contra hne
        rw [List.takeWhile_cons_of_pos (by simpa using Ne.symm hne)] at h
        cases h

/-! ## Names of entries -/

/-- The name of an entry: its bytes up to the first NUL, all of them without one. -/
def DirEntry.name (d : DirEntry) : CString :=
  CString.ofBytes ((List.range fsFnameLen).map d.filename)

theorem DirEntry.name_length (d : DirEntry) : d.name.bytes.length ≤ fsFnameLen := by
  have h := (List.takeWhile_sublist (l := (List.range fsFnameLen).map d.filename) (· ≠ 0)).length_le
  rwa [List.length_map, List.length_range] at h

theorem strncmp_eq_zero_iff {fname : CString} (hlen : strlen fname ≤ fsFnameLen) (d : DirEntry) :
    strncmp fname.get d.filename fsFnameLen = 0 ↔ d.name = fname := by
  unfold strncmp
  rw [strncmpFrom_eq_zero_iff fname d.filename (Nat.zero_le _) (by simpa [strlen] using hlen),
    ← List.range_eq_range', List.drop_zero, CString.eq_iff]
  exact eq_comm

/-- The test of the scan. -/
theorem matches_iff (fname : CString) (d : DirEntry) :
    (strlen fname ≤ fsFnameLen ∧ strncmp fname.get d.filename fsFnameLen = 0) ↔
      d.name = fname := by
  constructor
  · rintro ⟨hlen, hcmp⟩
    exact (strncmp_eq_zero_iff hlen d).mp hcmp
  · intro h
    have hlen : strlen fname ≤ fsFnameLen := h ▸ d.name_length
    exact ⟨hlen, (strncmp_eq_zero_iff hlen d).mpr h⟩

/-! ## The scan -/

/-- Slot `j` is the first that bears the name. -/
structure FirstNamed (img : Image) (fname : CString) (j : Nat) : Prop where
  named : (img.direntries j).name = fname
  least : ∀ i, i < j → (img.direntries i).name ≠ fname

variable {img : Image} {fname : CString}

/-- A slot that bears the name has a first one at or before it. -/
theorem FirstNamed.exists_le {j : Nat} (h : (img.direntries j).name = fname) :
    ∃ i, i ≤ j ∧ FirstNamed img fname i := by
  have hex : ∃ i, (img.direntries i).name = fname := ⟨j, h⟩
  exact ⟨Nat.find hex, Nat.find_min' hex h, Nat.find_spec hex, fun i hi => Nat.find_min hex hi⟩

theorem FirstNamed.le {i j : Nat} (h : FirstNamed img fname j)
    (hi : (img.direntries i).name = fname) : j ≤ i := by
  by_contra hlt
  exact h.least i (by omega) hi

theorem FirstNamed.unique {i j : Nat} (hi : FirstNamed img fname i) (hj : FirstNamed img fname j) :
    i = j :=
  Nat.le_antisymm (hi.le hj.named) (hj.le hi.named)

theorem findDentry_cases (img : Image) (fname : CString) (i n : Nat) :
    (findDentry img fname i n = none ∧
      ∀ j, i ≤ j → j < i + n → (img.direntries j).name ≠ fname) ∨
    ∃ j, i ≤ j ∧ j < i + n ∧ findDentry img fname i n = some (img.direntries j) ∧
      (img.direntries j).name = fname ∧ ∀ l, i ≤ l → l < j → (img.direntries l).name ≠ fname := by
  induction n generalizing i with
  | zero => exact Or.inl ⟨rfl, fun j _ _ => by omega⟩
  | succ n ih =>
    rw [findDentry]
    by_cases hhere : (img.direntries i).name = fname
    · rw [if_pos ((matches_iff fname _).mpr hhere)]
      exact Or.inr ⟨i, Nat.le_refl _, by omega, rfl, hhere, fun l _ _ => by omega⟩
    rw [if_neg fun h => hhere ((matches_iff fname _).mp h)]
    have hnext : ∀ l, i ≤ l → ¬ i + 1 ≤ l → (img.direntries l).name ≠ fname := by
      intro l hl hle
      obtain rfl : l = i := by omega
      exact hhere
    rcases ih (i + 1) with ⟨hnone, hno⟩ | ⟨j, hj, hlt, hsome, hnamed, hleast⟩
    · refine Or.inl ⟨hnone, fun j hj hlt => ?_⟩
      by_cases hle : i + 1 ≤ j
      · exact hno j hle (by omega)
      · exact hnext j hj hle
    · refine Or.inr ⟨j, by omega, by omega, hsome, hnamed, fun l hl hlt => ?_⟩
      by_cases hle : i + 1 ≤ l
      · exact hleast l hle hlt
      · exact hnext l hl hle

/-- The lookup gives the first of the 63 slots that bears the name. -/
theorem readDentryByName_cases (img : Image) (fname : CString) :
    (readDentryByName img fname = none ∧
      ∀ j, j < fsMaxDirEntries → (img.direntries j).name ≠ fname) ∨
    ∃ j, j < fsMaxDirEntries ∧ FirstNamed img fname j ∧
      readDentryByName img fname = some (img.direntries j) := by
  rcases findDentry_cases img fname 0 fsMaxDirEntries with
    ⟨hnone, hno⟩ | ⟨j, -, hlt, hsome, hnamed, hleast⟩
  · exact Or.inl ⟨hnone, fun j hj => hno j (Nat.zero_le _) (by omega)⟩
  · exact Or.inr ⟨j, by omega, ⟨hnamed, fun i hi => hleast i (Nat.zero_le _) hi⟩, hsome⟩

theorem FirstNamed.found {j : Nat} (h : FirstNamed img fname j) (hj : j < fsMaxDirEntries) :
    readDentryByName img fname = some (img.direntries j) := by
  rcases readDentryByName_cases img fname with ⟨-, hno⟩ | ⟨i, -, hfirst, hsome⟩
  · exact absurd h.named (hno j hj)
  · rwa [h.unique hfirst]

/-! ## Exactness -/

/-- The lookup finds the name if and only if one of the entries bears it, and then the first of
    them; otherwise it fails and leaves the destination `dentry` alone. -/
structure LookupExact (img : Image) (fname : CString) (dentry : DirEntry) : Prop where
  found : (readDentryByNameTo img fname (some dentry)).1 = 0 ↔
    strlen fname ≤ fsFnameLen ∧
      ∃ i, i < img.fsStats.direntryCnt ∧ (img.direntries i).name = fname
  first : ∀ i, i < img.fsStats.direntryCnt → FirstNamed img fname i →
    readDentryByNameTo img fname (some dentry) = (0, some (img.direntries i))
  missing : (readDentryByNameTo img fname (some dentry)).1 ≠ 0 →
    readDentryByNameTo img fname (some dentry) = (-1, some dentry)

theorem readDentryByNameTo_none (dentry : DirEntry) (h : readDentryByName img fname = none) :
    readDentryByNameTo img fname (some dentry) = (-1, some dentry) := by
  unfold readDentryByNameTo
  rw [h]

theorem readDentryByNameTo_some (dentry : DirEntry) {d : DirEntry} (h : readDentryByName img fname = some d) :
    readDentryByNameTo img fname (some dentry) = (0, some d) := by
  unfold readDentryByNameTo
  rw [h]

/-- The lookup is exact on the names that no slot from `direntryCnt` on bears without one of
    the entries bearing it too. -/
theorem lookup_exact_iff (img : Image) (hcnt : img.fsStats.direntryCnt ≤ fsMaxDirEntries)
    (fname : CString) (dentry : DirEntry) :
    LookupExact img fname dentry ↔
      ∀ j, img.fsStats.direntryCnt ≤ j → j < fsMaxDirEntries →
        (img.direntries j).name = fname →
        ∃ i, i < img.fsStats.direntryCnt ∧ (img.direntries i).name = fname := by
  constructor
  · intro h j _ hj hnamed
    obtain ⟨i, hi, hfirst⟩ := FirstNamed.exists_le hnamed
    have hzero : (readDentryByNameTo img fname (some dentry)).1 = 0 := by
      rw [readDentryByNameTo_some dentry (hfirst.found (by omega))]
    exact (h.found.mp hzero).2
  · intro h
    rcases readDentryByName_cases img fname with ⟨hnone, hno⟩ | ⟨j, hj, hfirst, hsome⟩
    · have hto := readDentryByNameTo_none dentry hnone
      refine ⟨?_, fun i hi hnamed => absurd hnamed.named (hno i (by omega)), fun _ => hto⟩
      rw [hto]
      constructor
      · intro h0
        cases h0
      · rintro ⟨-, i, hi, hnamed⟩
        exact absurd hnamed (hno i (by omega))
    · have hto := readDentryByNameTo_some dentry hsome
      have hentry : j < img.fsStats.direntryCnt := by
        by_contra hge
        obtain ⟨i, hi, hnamed⟩ := h j (by omega) hj hfirst.named
        exact hge (Nat.lt_of_le_of_lt (hfirst.le hnamed) hi)
      refine ⟨?_, ?_, fun hne => absurd (congrArg Prod.fst hto) hne⟩
      · rw [hto]
        have hlen : strlen fname ≤ fsFnameLen := hfirst.named ▸ DirEntry.name_length _
        exact ⟨fun _ => ⟨hlen, j, hentry, hfirst.named⟩, fun _ => rfl⟩
      · intro i _ hi
        rw [hto, hi.unique hfirst]

/-- The name of the second file of `smallImage`. -/
def nameOfSecond : CString := (smallImage.direntries 1).name

theorem lookup_exact_second : LookupExact smallImage nameOfSecond ⟨fun _ => 0, 0, 0⟩ :=
  (lookup_exact_iff smallImage (by decide) nameOfSecond _).mpr fun _ _ _ _ =>
    ⟨1, by decide, rfl⟩

/-- The empty name finds slot 2 of an image with two entries. -/
theorem empty_name_found : smallImage.fsStats.direntryCnt ≤ fsMaxDirEntries ∧
    (readDentryByNameTo smallImage ⟨[], by simp⟩ (some ⟨fun _ => 1, 1, 1⟩)).1 = 0 ∧
    ¬ LookupExact smallImage ⟨[], by simp⟩ ⟨fun _ => 1, 1, 1⟩ := by
  have hzero : (readDentryByNameTo smallImage ⟨[], by simp⟩ (some ⟨fun _ => 1, 1, 1⟩)).1 = 0 := by
    decide
  refine ⟨by decide, hzero, fun h => ?_⟩
  obtain ⟨-, i, hi, hnamed⟩ := h.found.mp hzero
  revert i
  decide

end Mp3Kernel
