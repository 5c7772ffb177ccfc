/-
  The command of `execute` and the arguments `getargs` gives.

  A command is cut into its first word and its arguments (`CString.word`, `CString.args`), the
  spaces around them left out. `parseCmd_eq` is the copying loop as stores of these parts one
  after the other: the word, a space with the arguments and their NUL behind it if there is
  one, and the NUL that ends the word.

  * `parse_in_buffer_iff`: these stores stay in the 128 bytes of the buffer exactly if the word,
    the space and the arguments are fewer than 128 bytes.
  * `args_survive`: what a launched process gets from `getargs` are the arguments.
-/
import Mp3Kernel.Proofs.Launch
import Mp3Kernel.Proofs.Names
import Mathlib.Data.List.GetD

namespace Mp3Kernel

/-! ## Commands -/

/-- A command from its first non-space character on. -/
def CString.trimmed (ucmd : CString) : List UInt8 := ucmd.bytes.dropWhile (· = space)

/-- What is left behind the first word. -/
def CString.rest (ucmd : CString) : List UInt8 := ucmd.trimmed.dropWhile (· ≠ space)

theorem CString.noNul_trimmed (ucmd : CString) : ∀ b ∈ ucmd.trimmed, b ≠ 0 :=
  fun b hb => ucmd.noNul b ((List.dropWhile_sublist _).subset hb)

/-- The first word. -/
def CString.word (ucmd : CString) : CString where
  bytes := ucmd.trimmed.takeWhile (· ≠ space)
  noNul := fun b hb => ucmd.noNul_trimmed b ((List.takeWhile_sublist _).subset hb)

/-- The arguments. -/
def CString.args (ucmd : CString) : CString where
  bytes := ucmd.rest.dropWhile (· = space)
  noNul := fun b hb => ucmd.noNul_trimmed b
    ((List.dropWhile_sublist _).subset ((List.dropWhile_sublist _).subset hb))

/-! ## Stores in a row -/

/-- The bytes stored from `j` on. -/
def CmdBuf.storeAll (cmd : CmdBuf) (j : Nat) : List UInt8 → CmdBuf
  | [] => cmd
  | b :: bs => (cmd.store j b).storeAll (j + 1) bs

variable {cmd : CmdBuf} {ucmd : CString}

theorem CmdBuf.strcpy_eq (cmd : CmdBuf) (j : Nat) (bs : List UInt8) :
    cmd.strcpy j bs = cmd.storeAll j (bs ++ [0]) := by
  induction bs generalizing cmd j with
  | nil => rfl
  | cons b bs ih => exact ih (cmd.store j b) (j + 1)

/-- Storing twice at one place is storing the last byte. -/
theorem CmdBuf.store_store (cmd : CmdBuf) (j : Nat) (a b : UInt8) :
    (cmd.store j a).store j b = cmd.store j b := by
  unfold store
  by_cases hj : j < argsSize
  · simp only [if_pos hj, Function.update_idem]
  · simp only [if_neg hj]

theorem CmdBuf.store_overrun (cmd : CmdBuf) (j : Nat) (b : UInt8) :
    (cmd.store j b).overrun = false ↔ cmd.overrun = false ∧ j < argsSize := by
  unfold store
  by_cases hj : j < argsSize
  · rw [if_pos hj]
    exact (and_iff_left hj).symm
  · rw [if_neg hj]
    exact ⟨fun h => (nomatch h), fun h => absurd h.2 hj⟩

theorem CmdBuf.storeAll_overrun (cmd : CmdBuf) (j : Nat) (bs : List UInt8) :
    (cmd.storeAll j bs).overrun = false ↔
      cmd.overrun = false ∧ ∀ i, i < bs.length → j + i < argsSize := by
  induction bs generalizing cmd j with
  | nil => exact (and_iff_left fun i hi => absurd hi (Nat.not_lt_zero i)).symm
  | cons b bs ih =>
    rw [storeAll, ih, store_overrun, and_assoc, and_congr_right_iff]
    intro _
    constructor
    · rintro ⟨hj, hall⟩ i hi
      cases i with
      | zero => exact hj
      | succ i =>
        have := hall i (by simpa using hi)
        omega
    · intro hall
      refine ⟨hall 0 (by simp), fun i hi => ?_⟩
      have := hall (i + 1) (by simpa using hi)
      omega

/-- Bytes that fit are there, the others are as they were. -/
theorem CmdBuf.storeAll_bytes (cmd : CmdBuf) {j : Nat} {bs : List UInt8}
    (hfit : j + bs.length ≤ argsSize) (i : Nat) :
    (cmd.storeAll j bs).bytes i =
      if j ≤ i ∧ i < j + bs.length then bs.getD (i - j) 0 else cmd.bytes i := by
  induction bs generalizing cmd j with
  | nil => exact (if_neg fun h => by have := h.2; simp at this; omega).symm
  | cons b bs ih =>
    rw [List.length_cons] at hfit ⊢
    rw [storeAll, ih _ (by omega)]
    have hstore : (cmd.store j b).bytes = Function.update cmd.bytes j b := by
      unfold store
      rw [if_pos (by omega)]
    rw [hstore]
    by_cases hij : i = j
    · subst hij
      rw [if_neg (by omega), if_pos (by omega), Function.update_self, Nat.sub_self]
      rfl
    · rw [Function.update_of_ne hij]
      by_cases hin : j + 1 ≤ i ∧ i < j + 1 + bs.length
      · obtain ⟨d, rfl⟩ := Nat.exists_eq_add_of_le hin.1
        rw [if_pos hin, if_pos (by omega), show j + 1 + d - (j + 1) = d by omega,
          show j + 1 + d - j = d + 1 by omega]
        rfl
      · rw [if_neg hin, if_neg (by omega)]

/-! ## The copying loop -/

/-- What the loop stores behind the word. -/
def tail (rest : List UInt8) : List UInt8 :=
  if rest = [] then [] else space :: rest.dropWhile (· = space) ++ [0]

/-- A run of spaces becomes one. -/
theorem skipSpaces_cons (bs : List UInt8) :
    skipSpaces (space :: bs) = space :: bs.dropWhile (· = space) := by
  induction bs with
  | nil => rfl
  | cons b bs ih =>
    rw [skipSpaces]
    by_cases hb : b = space
    · rw [if_pos hb, hb, ih, List.dropWhile_cons_of_pos (by simp)]
    · rw [if_neg hb, List.dropWhile_cons_of_neg (by simpa using hb)]

theorem parseLoop_eq (cmd : CmdBuf) (j : Nat) (bs : List UInt8) :
    parseLoop cmd j bs = (cmd.storeAll j
      (bs.takeWhile (· ≠ space) ++ tail (bs.dropWhile (· ≠ space))),
      j + (bs.takeWhile (· ≠ space)).length) := by
  induction bs generalizing cmd j with
  | nil => rfl
  | cons b bs ih =>
    rw [parseLoop]
    by_cases hb : b = space
    · subst hb
      rw [if_pos rfl, List.takeWhile_cons_of_neg (by simp), List.dropWhile_cons_of_neg (by simp),
        skipSpaces_cons, tail, if_neg (List.cons_ne_nil _ _),
        List.dropWhile_cons_of_pos (by simp)]
      -- the NUL stored first is overwritten by the space
      show ((cmd.store j 0).store j space |>.strcpy (j + 1) _, j) = _
      rw [CmdBuf.store_store, CmdBuf.strcpy_eq]
      rfl
    · rw [if_neg hb, List.takeWhile_cons_of_pos (by simpa using hb),
        List.dropWhile_cons_of_pos (by simpa using hb), ih, List.length_cons, Nat.add_assoc,
        Nat.add_comm 1]
      rfl

theorem drop_strnonspace (ucmd : CString) :
    ucmd.bytes.drop (strnonspace ucmd) = ucmd.trimmed := by
  have happ := List.takeWhile_append_dropWhile (p := fun b => decide (b = space)) (l := ucmd.bytes)
  exact (congrArg (List.drop (strnonspace ucmd)) happ.symm).trans List.drop_left

/-- The buffer of a command: its parts stored in a row, then the NUL behind the word. -/
theorem parseCmd_eq (ucmd : CString) :
    parseCmd ucmd = ((CmdBuf.mk (fun _ => 0) false).storeAll 0
      (ucmd.word.bytes ++ tail ucmd.rest)).store ucmd.word.bytes.length 0 := by
  unfold parseCmd
  rw [drop_strnonspace, parseLoop_eq, Nat.zero_add]
  rfl

theorem tail_length (ucmd : CString) : (tail ucmd.rest).length =
    if ucmd.rest = [] then 0 else ucmd.args.bytes.length + 2 := by
  unfold tail CString.args
  split
  · rfl
  · simp

/-- Parsing a command stays in the buffer exactly if its first word and its arguments, with a
    space between them, and their NUL fit into it. -/
theorem parse_in_buffer_iff (ucmd : CString) :
    (parseCmd ucmd).overrun = false ↔
      ucmd.word.bytes.length + (if ucmd.rest = [] then 0 else 1 + ucmd.args.bytes.length) <
        argsSize := by
  have hlen := tail_length ucmd
  rw [parseCmd_eq, CmdBuf.store_overrun, CmdBuf.storeAll_overrun, List.length_append, hlen]
  constructor
  · rintro ⟨⟨-, hall⟩, hword⟩
    split
    · omega
    · rename_i hrest
      rw [if_neg hrest] at hall
      have := hall (ucmd.word.bytes.length + (ucmd.args.bytes.length + 1)) (by omega)
      omega
  · intro h
    refine ⟨⟨rfl, fun i hi => ?_⟩, by omega⟩
    split at h <;> split at hi <;> first | contradiction | omega

/-- 128 characters without a space. -/
def longWord : CString := ⟨List.replicate 128 0x61, fun b hb => by
  rw [List.eq_of_mem_replicate hb]
  decide⟩

theorem parse_overruns : (parseCmd longWord).overrun = true := by
  decide

/-! ## What the buffer holds -/

/-- Bytes stored in an empty buffer are read back, with NULs behind them. -/
theorem storeAll_empty {bs : List UInt8} (hfit : bs.length ≤ argsSize) (i : Nat) :
    ((CmdBuf.mk (fun _ => 0) false).storeAll 0 bs).bytes i = bs.getD i 0 := by
  rw [CmdBuf.storeAll_bytes _ (by omega)]
  split
  · rfl
  · rw [List.getD_eq_default _ _ (by omega)]

theorem getD_terminated (bs : List UInt8) (i : Nat) : (bs ++ [0]).getD i 0 = bs.getD i 0 := by
  by_cases hi : i < bs.length
  · exact List.getD_append bs [0] 0 i hi
  · rw [List.getD_append_right bs [0] 0 i (by omega), List.getD_eq_default bs 0 (by omega)]
    cases i - bs.length with
    | zero => rfl
    | succ d => rfl

theorem getD_map_range (f : Nat → UInt8) {i n : Nat} (hi : i < n) :
    ((List.range n).map f).getD i 0 = f i := by
  simp [List.getD_eq_getElem?_getD, hi]

/-- What is stored behind the word are the arguments, from its second byte on. -/
theorem tail_getD (ucmd : CString) (i : Nat) :
    (tail ucmd.rest).getD (i + 1) 0 = ucmd.args.bytes.getD i 0 := by
  show _ = (ucmd.rest.dropWhile (· = space)).getD i 0
  unfold tail
  split
  · rename_i hrest
    rw [hrest]
    rfl
  · exact getD_terminated _ i

/-- A command that fits: its word, a NUL, its arguments, and NULs to the end of the buffer. -/
theorem parse_bytes (hshort : (parseCmd ucmd).overrun = false) (i : Nat) :
    (parseCmd ucmd).bytes i = (ucmd.word.bytes ++ 0 :: ucmd.args.bytes).getD i 0 := by
  have hfit := (parse_in_buffer_iff ucmd).mp hshort
  have hlen : (ucmd.word.bytes ++ tail ucmd.rest).length ≤ argsSize := by
    rw [List.length_append, tail_length]
    split at hfit <;> split <;> first | contradiction | omega
  have hstored : (parseCmd ucmd).bytes =
      Function.update (fun i => (ucmd.word.bytes ++ tail ucmd.rest).getD i 0)
        ucmd.word.bytes.length 0 := by
    rw [parseCmd_eq, ← funext (storeAll_empty hlen)]
    unfold CmdBuf.store
    rw [if_pos (by omega)]
  rw [hstored]
  rcases Nat.lt_trichotomy i ucmd.word.bytes.length with hlt | rfl | hgt
  · rw [Function.update_of_ne (by omega), List.getD_append _ _ _ _ hlt,
      List.getD_append _ _ _ _ hlt]
  · rw [Function.update_self, List.getD_append_right _ _ _ _ (Nat.le_refl _), Nat.sub_self]
    rfl
  · obtain ⟨d, rfl⟩ := Nat.exists_eq_add_of_lt hgt
    rw [Function.update_of_ne (by omega), List.getD_append_right _ _ _ _ (by omega),
      List.getD_append_right _ _ _ _ (by omega),
      show ucmd.word.bytes.length + d + 1 - ucmd.word.bytes.length = d + 1 by omega, tail_getD]
    rfl

/-- An area that starts with a string and its terminator, or ends with the string. -/
theorem takeWhile_eq_of_getD {area bytes : List UInt8} (hno : ∀ b ∈ bytes, b ≠ 0)
    (hlen : bytes.length ≤ area.length)
    (h : ∀ i, i ≤ bytes.length → i < area.length → area.getD i 0 = bytes.getD i 0) :
    area.takeWhile (· ≠ 0) = bytes := by
  induction area generalizing bytes with
  | nil => exact (List.eq_nil_of_length_eq_zero (Nat.le_zero.mp hlen)).symm
  | cons a area ih =>
    have hhead := h 0 (Nat.zero_le _) (Nat.succ_pos _)
    cases bytes with
    | nil => exact List.takeWhile_cons_of_neg (by simpa using hhead)
    | cons b bytes =>
      obtain rfl : a = b := hhead
      rw [List.takeWhile_cons_of_pos (by simpa using hno a List.mem_cons_self),
        ih (fun b hb => hno b (List.mem_cons_of_mem a hb)) (Nat.le_of_succ_le_succ hlen)
          fun i hi hlt => h (i + 1) (Nat.succ_le_succ hi) (Nat.succ_lt_succ hlt)]

theorem CString.ofBytes_eq {s : CString} {area : List UInt8}
    (hlen : s.bytes.length ≤ area.length)
    (h : ∀ i, i ≤ s.bytes.length → i < area.length → area.getD i 0 = s.get i) :
    CString.ofBytes area = s :=
  CString.eq_iff.mpr (takeWhile_eq_of_getD s.noNul hlen h)

/-- The name looked up is the first word. -/
theorem parseCmd_name (hshort : (parseCmd ucmd).overrun = false) :
    (parseCmd ucmd).name = ucmd.word := by
  have hfit := (parse_in_buffer_iff ucmd).mp hshort
  refine CString.ofBytes_eq ?_ fun i hle hi => ?_
  · rw [List.length_map, List.length_range]
    omega
  · rw [List.length_map, List.length_range] at hi
    rw [getD_map_range _ hi, parse_bytes hshort]
    rcases Nat.lt_or_eq_of_le hle with hlt | rfl
    · exact List.getD_append _ _ _ _ hlt
    · rw [List.getD_append_right _ _ _ _ (Nat.le_refl _), Nat.sub_self,
        CString.get_of_le (Nat.le_refl _)]
      rfl

/-! ## getargs -/

/-- The arguments of a process, as `execute` sets them up for a command. -/
structure HasCommand (pcb : Pcb) (ucmd : CString) : Prop where
  raw : ∀ i, i < argsSize → pcb.rawArgv i = (parseCmd ucmd).bytes i
  argv1 : pcb.argv1 = strlen (parseCmd ucmd).name + 1

theorem hasCommand_initPcb (old : Pcb) (ucmd : CString) (pid esp ebp : Nat) :
    HasCommand (initPcb old (parseCmd ucmd) pid esp ebp) ucmd :=
  ⟨fun _ hi => if_pos hi, rfl⟩

theorem HasCommand.sameButLinks {pcb pcb' : Pcb} (h : HasCommand pcb ucmd)
    (hpcb : SameButLinks pcb pcb') : HasCommand pcb' ucmd := by
  obtain ⟨_, _, _, rfl⟩ := hpcb
  exact ⟨h.raw, h.argv1⟩

/-- `argv[1]` is the argument string. -/
theorem HasCommand.argString {pcb : Pcb} (h : HasCommand pcb ucmd)
    (hshort : (parseCmd ucmd).overrun = false) : Mp3Kernel.argString pcb = ucmd.args := by
  have hfit := (parse_in_buffer_iff ucmd).mp hshort
  have hargv1 : pcb.argv1 = ucmd.word.bytes.length + 1 := by
    rw [h.argv1, parseCmd_name hshort]
    rfl
  have hargs : ucmd.args.bytes.length ≤ argsSize - pcb.argv1 := by
    rw [hargv1]
    split at hfit
    · rename_i hrest
      have hnil : ucmd.args.bytes = [] := by
        show ucmd.rest.dropWhile _ = []
        rw [hrest]
        rfl
      rw [hnil]
      exact Nat.zero_le _
    · omega
  unfold Mp3Kernel.argString
  have hlen : (((List.range argsSize).map pcb.rawArgv).drop pcb.argv1).length =
      argsSize - pcb.argv1 := by
    rw [List.length_drop, List.length_map, List.length_range]
  refine CString.ofBytes_eq (hlen ▸ hargs) fun i _ hi => ?_
  rw [hlen] at hi
  rw [List.getD_eq_getElem?_getD, List.getElem?_drop, ← List.getD_eq_getElem?_getD,
    getD_map_range _ (by omega), h.raw _ (by omega), parse_bytes hshort, hargv1,
    List.getD_append_right _ _ _ _ (by omega),
    show ucmd.word.bytes.length + 1 + i - ucmd.word.bytes.length = i + 1 by omega]
  rfl

/-- The process that an `execute` has started has its command. -/
theorem Execution.hasCommand {fs : Image} {k loaded k' : Kernel} {esp ebp pid entry : Nat}
    {p : Paging} (h : Execution fs k ucmd esp ebp pid p loaded k' entry) :
    HasCommand (getCurrentPcb k') ucmd := by
  obtain ⟨t, pcbs, -, hpcbs, rfl⟩ := startProcess_some h.start
  show HasCommand (pcbs loaded.runningPid) ucmd
  have hprepared : (preparedState loaded (parseCmd ucmd) esp ebp t).pcbs loaded.runningPid =
      initPcb (loaded.pcbs loaded.runningPid) (parseCmd ucmd) loaded.runningPid esp ebp :=
    Function.update_self _ _ _
  have hinit := hasCommand_initPcb (loaded.pcbs loaded.runningPid) ucmd loaded.runningPid esp ebp
  rw [← hprepared] at hinit
  rw [← hpcbs]
  exact hinit.sameButLinks (linkParent_sameButLinks _ _ _ _)

/-- When a command is launched, the name looked up is its first word, and `getargs` in the new
    process gives its arguments: -1 if there are none, else as much of them and their NUL as
    there is room for. -/
theorem args_survive {fs : Image} {k k' : Kernel} {ucmd : CString} {esp ebp entry : Nat}
    (h : execute fs k (some ucmd) esp ebp = .launched k' entry) :
    (parseCmd ucmd).name = ucmd.word ∧
      ∀ (buf : Nat → UInt8) (n : Int), 0 ≤ n →
        (ucmd.args.bytes = [] → getargs k' (some buf) n = (-1, some buf)) ∧
        (ucmd.args.bytes ≠ [] → getargs k' (some buf) n =
          (0, some fun i => if i < min (ucmd.args.bytes.length + 1) n.toNat then
            (ucmd.args.bytes ++ [0]).getD i 0 else buf i)) := by
  obtain ⟨cmd, pid, p, loaded, hcmd, hx⟩ := execution_of_execute h
  obtain rfl := Option.some.inj hcmd
  have hargs := hx.hasCommand.argString hx.short
  refine ⟨parseCmd_name hx.short, fun buf n hn => ⟨fun hnil => ?_, fun hne => ?_⟩⟩
  · have hzero : ucmd.args.get 0 = 0 := CString.get_of_le (by simp [hnil])
    unfold getargs
    dsimp only
    rw [hargs, if_pos (Or.inr hzero)]
  · have hpos := List.length_pos_of_ne_nil hne
    have hgo : ¬ (n < 0 ∨ ucmd.args.get 0 = 0) := by
      rintro (hneg | hzero)
      · omega
      · exact CString.get_ne_zero hpos hzero
    unfold getargs
    dsimp only
    rw [hargs, if_neg hgo]
    unfold CString.get strlen
    simp only [getD_terminated]

theorem Booted.nextPid {fs : Image} {k : Kernel} (h : Booted fs k) :
    allocPid k.procs = some 1 :=
  allocPid_eq (by decide) (fun ht => absurd ((h.spec.procs 1).mp ht) (by decide)) fun q hq =>
    (h.spec.procs q).mpr (by omega)

/-- "shell  -a". -/
def shellArgs : CString := ⟨[0x73, 0x68, 0x65, 0x6C, 0x6C, 0x20, 0x20, 0x2D, 0x61], by simp⟩

theorem args_survive_shell : ∃ k k' entry, Booted smallImage k ∧
    execute smallImage k (some shellArgs) 0 0 = .launched k' entry ∧
    ∀ buf, getargs k' (some buf) 2 = (0, some fun i => if i < 2 then [0x2D, 0x61, 0].getD i 0
      else buf i) := by
  obtain ⟨k, hk⟩ := booted_smallImage
  have hl : Launchable smallImage shellArgs :=
    ⟨by decide, by decide, by decide, by decide, by decide⟩
  obtain ⟨k', entry, hexec⟩ := execute_of_launchable hl hk.spec.last hk.nextPid 0 0
  exact ⟨k, k', entry, hk, hexec, fun buf =>
    ((args_survive hexec).2 buf 2 (by decide)).2 (by decide)⟩

end Mp3Kernel
