/-
  `cat` shows its file.

  `cat_shows`: whatever calls on their descriptors the other processes make in the meantime, what
  `cat` has written is the beginning of its file, and where it ends it has written all of it, or
  the kernel has refused one of its reads. The loop carries how far it has read.
-/
import Mp3Kernel.Proofs.Started

namespace Mp3Kernel.User

open Base.Programs Base.Runs Base.Bitmap

variable {img : Image} {procs : Nat → Prop} {p : Nat} {files : OpenFiles} {args : CString}
  {out : List UInt8} {α : Type} {t : Session} {f : OpenFile} {fd fuel : Nat}

/-! ## The file -/

/-- The bytes of a file. -/
def fileContent (img : Image) (inode : Nat) : List UInt8 :=
  (List.range (img.inodes inode).size).map (img.fileByte inode)

theorem length_fileContent (img : Image) (inode : Nat) :
    (fileContent img inode).length = (img.inodes inode).size := by
  rw [fileContent, List.length_map, List.length_range]

theorem take_fileContent {inode n : Nat} (h : n ≤ (img.inodes inode).size) :
    (fileContent img inode).take n = (List.range n).map (img.fileByte inode) := by
  rw [fileContent, ← List.map_take, List.take_range, Nat.min_eq_left h]

theorem fileContent_fsdir {file : CString × List UInt8} {inode : Nat}
    (h : fsdir[inode]? = some file) : fileContent fsdirImage inode = file.2 := by
  have hsmall := fsdir_small _ (List.mem_of_getElem? h)
  unfold fileContent fsdirImage
  rw [size_ofFiles h]
  refine List.ext_getElem (by simp) fun j _ hj => ?_
  rw [List.getElem_map, List.getElem_range, fileByte_ofFiles h (by omega),
    List.getD_eq_getElem _ _ hj]

/-- The bytes a read gives continue those before it. -/
theorem take_fileContent_add {inode n r : Nat} {buf : Nat → UInt8}
    (h : n + r ≤ (img.inodes inode).size)
    (hbuf : ∀ k, k < r → buf k = img.fileByte inode (n + k)) :
    (fileContent img inode).take n ++ (List.range r).map buf =
      (fileContent img inode).take (n + r) := by
  rw [take_fileContent (Nat.le_of_add_right_le h), take_fileContent h, List.range_add,
    List.map_append, List.map_map]
  congr 1
  exact List.map_congr_left fun k hk => hbuf k (List.mem_range.mp hk)

/-! ## Rules -/

theorem textAt_str (s : String) : TextAt (str s) (lit s) := fun _ _ => rfl

/-- `ece391_fdputs` to the screen, and what follows it. -/
theorem Proc.wp_fdputs (h : Proc img procs p files args out t) {text : Nat → UInt8}
    {bytes : List UInt8} (htext : TextAt text bytes) (h0 : ∀ b ∈ bytes, b ≠ 0) (hne : bytes ≠ [])
    (hfuel : bytes.length < fuel) {g : PUnit → Prog α} {post : Progress α → Session → Prop}
    (hwait : post .waiting t)
    (hnext : ∀ t', Proc img procs p files args (out ++ bytes) t' →
      wp (KernelAnswers img procs p) (g ⟨⟩) post t') :
    wp (KernelAnswers img procs p) (ece391Fdputs fuel 1 text >>= g) post t := by
  have hlen : ece391Strlen fuel text = some bytes.length := strlenFrom_text htext h0 hfuel
  have hbytes : (List.range bytes.length).map text = bytes := by
    refine List.ext_getElem (by simp) fun k hk hk' => ?_
    rw [List.getElem_map, List.getElem_range, htext k (Nat.le_of_lt hk'),
      List.getD_eq_getElem _ _ hk']
  unfold ece391Fdputs
  rw [hlen]
  refine ⟨hwait, fun a t' hans => hnext t' ?_⟩
  have hwrite := (h.write (List.length_pos_iff.mpr hne) hans).2
  rwa [hbytes] at hwrite

/-! ## The loop -/

/-- A file of process `p` has been read up to `n`, and what has been read is on the screen. -/
structure Shown (img : Image) (procs : Nat → Prop) (p : Nat) (files : OpenFiles) (args : CString)
    (out : List UInt8) (fd : Nat) (f : OpenFile) (n : Nat) (t : Session) : Prop where
  inFile : n ≤ (img.inodes f.inode).size
  proc : Proc img procs p (Function.update files fd (some { f with position := n })) args
    (out ++ (fileContent img f.inode).take n) t

/-- How far `cat` has come. -/
def CatShown (img : Image) (p inode : Nat) (out : List UInt8) : Progress Int → Session → Prop
  | .waiting, t => ∃ n, output p t.record = out ++ (fileContent img inode).take n
  | .stopped, _ => False
  | .ended ret, t =>
    (ret = 0 ∧ output p t.record = out ++ fileContent img inode) ∨
      ret = 3 ∧ ∃ n buf, (readData img inode n (some buf) 1024).ret = -1 ∧
        output p t.record = out ++ (fileContent img inode).take n ++ lit "file read failed\n"

theorem Shown.waiting {n : Nat} (h : Shown img procs p files args out fd f n t) :
    CatShown img p f.inode out .waiting t := ⟨n, h.proc.output⟩

/-- One turn shows the next 1024 bytes, or what is left. -/
theorem Shown.turn (hsizes : img.SizesFit) (hops : f.ops = .fs) (hfuel : 32 ≤ fuel) {n left : Nat}
    (h : Shown img procs p files args out fd f n t)
    (hleft : (img.inodes f.inode).size - n < left + 1) (buf : Nat → UInt8) :
    wp (KernelAnswers img procs p) (catTurn fuel fd buf)
      (turn (fun _ t' => ∃ n', Shown img procs p files args out fd f n' t' ∧
        (img.inodes f.inode).size - n' < left) (CatShown img p f.inode out)) t := by
  unfold catTurn
  rw [wp_ask_bind]
  refine ⟨h.waiting, fun a t1 hans => ?_⟩
  have hopen : Function.update files fd (some { f with position := n }) fd = _ :=
    Function.update_self ..
  rcases h.proc.read hsizes hopen hops (show 0 < 1024 by decide) (by decide) hans with
    ⟨hret, hfail, h1⟩ | ⟨r, hret, hr, hino, hbuf, -, h1⟩
  · rw [if_neg (by omega), if_pos hret]
    refine h1.wp_fdputs (textAt_str _) (by decide +kernel) (by decide +kernel)
      (Nat.lt_of_lt_of_le (by decide) hfuel) ⟨n, h1.output⟩ fun t2 h2 => ?_
    exact Or.inr ⟨rfl, n, buf, hfail, h2.output⟩
  have hin := h.inFile
  have hr' : r = min 1024 ((img.inodes f.inode).size - n) := hr
  by_cases hend : r = 0
  · rw [if_pos (by omega)]
    have hall : n = (fileContent img f.inode).length := by
      rw [length_fileContent]
      omega
    refine Or.inl ⟨rfl, ?_⟩
    rw [h1.output, hall, List.take_length]
  · rw [if_neg (by omega), if_neg (by omega), hret, wp_ask_bind]
    refine ⟨⟨n, h1.output⟩, fun w t2 hwans => ?_⟩
    obtain ⟨hw, h2⟩ := h1.write (Nat.pos_of_ne_zero hend) hwans
    rw [if_neg (by omega)]
    have hsize : (img.inodes f.inode).size < u32 := hsizes.lt_u32 hino
    have hword : (n + r) % u32 = n + r := Nat.mod_eq_of_lt (by omega)
    refine ⟨n + r, ⟨by omega, ?_⟩, by omega⟩
    rw [Function.update_idem] at h2
    rwa [List.append_assoc, take_fileContent_add (by omega) hbuf, hword] at h2

theorem Shown.loop (hsizes : img.SizesFit) (hops : f.ops = .fs) {n : Nat}
    (h : Shown img procs p files args out fd f n t)
    (hfuel : (img.inodes f.inode).size + 32 ≤ fuel) (buf : Nat → UInt8) :
    wp (KernelAnswers img procs p) (loop (catTurn fuel fd) fuel buf)
      (CatShown img p f.inode out) t := by
  refine wp_loop (I := fun left _ t => ∃ n, Shown img procs p files args out fd f n t ∧
    (img.inodes f.inode).size - n < left) ?_ ?_ ⟨n, h, by omega⟩
  · rintro _ s ⟨_, -, hleft⟩
    exact absurd hleft (Nat.not_lt_zero _)
  · rintro left x s ⟨m, hm, hleft⟩
    exact hm.turn hsizes hops (by omega) hleft x

/-! ## The program -/

/-- The arguments fit the buffers of the programs. -/
theorem strlen_argString (pcb : Pcb) : strlen (argString pcb) ≤ 128 := by
  refine (List.takeWhile_prefix _).length_le.trans ?_
  rw [List.length_drop, List.length_map, List.length_range]
  exact Nat.sub_le _ _

/-- `cat` with the name of a regular file, among the other processes of `procs`. -/
theorem cat_shows (hsizes : img.SizesFit) (h : Proc img procs p files args out t)
    (hargs : strlen args ≠ 0) {dentry : DirEntry} (hfound : readDentryByName img args = some dentry)
    (hreg : dentry.filetype = ftReg) (hfree : ∃ fd, LowestFree files fd)
    (hfuel : (img.inodes dentry.inodeIdx).size + 32 ≤ fuel) (buf : Nat → UInt8) {o : Progress Int}
    {t' : Session} (hrun : RunsTo (KernelAnswers img procs p) (cat fuel buf) t o t') :
    CatShown img p dentry.inodeIdx out o t' := by
  have hlen : strlen args < 1024 := by
    rw [← h.args]
    exact Nat.lt_of_le_of_lt (strlen_argString _) (by decide)
  have hops : fileOps dentry.filetype = some .fs := by rw [hreg]; rfl
  have hinode : (openedFile dentry .fs).inode = dentry.inodeIdx := if_pos hreg
  have hnothing : ∀ {files' : OpenFiles} {s : Session}, Proc img procs p files' args out s →
      CatShown img p dentry.inodeIdx out .waiting s := fun hs => ⟨0, by simpa using hs.output⟩
  refine (wp_iff _ _ _).mp ?_ o t' hrun
  unfold cat
  rw [wp_ask_bind]
  refine ⟨hnothing h, fun a t1 hans => ?_⟩
  obtain ⟨hret, htext, h1⟩ := h.getargs hargs hlen hans
  rw [if_neg (not_not_intro hret), wp_ask_bind]
  refine ⟨hnothing h1, fun d t2 hopens => ?_⟩
  obtain ⟨fd, hfd, -, h2⟩ := h1.openFile htext hfound hops hargs hfree hopens
  rw [if_neg (by omega), hfd, ← hinode]
  have hstart : Shown img procs p files args out fd (openedFile dentry .fs) 0 t2 :=
    ⟨Nat.zero_le _, by rw [List.take_zero, List.append_nil]; exact h2⟩
  exact hstart.loop hsizes rfl (by rw [hinode]; exact hfuel) a.buf

theorem launchable_cat : Launchable fsdirImage (cstring "cat water.txt") :=
  ⟨by decide +kernel, by decide +kernel, by decide +kernel, by decide +kernel, by decide +kernel⟩

/-- A file that takes two reads, between two shells. -/
theorem cat_shows_water : ∃ k k', ProgramStarted fsdirImage k (cstring "cat water.txt") k' ∧ ∀ o t',
    RunsTo (KernelAnswers fsdirImage (Taken k'.procs) 2) (cat 2000 fun _ => 0) k'.session o t' →
      CatShown fsdirImage 2 6 [] o t' := by
  obtain ⟨k, hk⟩ := booted_fsdirImage
  obtain ⟨k', hstarted⟩ := hk.startsProgram launchable_cat
  refine ⟨k, k', hstarted, fun o t' hrun => ?_⟩
  have hfound : readDentryByName fsdirImage (cstring "cat water.txt").args =
      some (fsdirImage.direntries 6) := rfl
  exact cat_shows fsdirImage_sizesFit hstarted.proc (by decide +kernel) hfound rfl
    ⟨2, lowestFree_start⟩ (by decide +kernel) (fun _ => 0) hrun

end Mp3Kernel.User
