/-
  The animation of the fish program.

  `ShowsAll` is a board whose blinks have a cell each: it is kept by adding a blink on a cell of
  its own and by a tick. The blinks of two frames that fit the right half of the screen are in
  order of their places (`pairwise_frameBlinks`), so no two have the same.

  * `fish_animates`: once `add_frames` has returned, the right half shows the first frame for 15
    ticks, the second for 15, and so on, and the rest of the memory does not change.
-/
import Mp3Kernel.Proofs.BlinkPhases
import Mp3Kernel.Proofs.Frames

namespace Mp3Kernel

variable {video : Nat → UInt8} {s : Board} {b : Blink} {bs : List Blink}

/-! ## Blinks with a cell each -/

theorem foldl_draw_own (hnodup : (bs.map Blink.location).Nodup) (hb : b ∈ bs)
    (hshown : video (b.location * 2) = b.char) :
    bs.foldl Blink.draw video (b.location * 2) = b.tick.char := by
  induction bs generalizing video with
  | nil => cases hb
  | cons c bs ih =>
    rw [List.map_cons, List.nodup_cons] at hnodup
    rw [List.foldl_cons]
    rcases List.mem_cons.mp hb with rfl | hb
    · rw [foldl_draw_apart fun d hd he => hnodup.1 (List.mem_map.mpr ⟨d, hd, by omega⟩)]
      exact draw_own hshown
    · have hne : b.location ≠ c.location := fun he => hnodup.1 (List.mem_map.mpr ⟨b, hb, he⟩)
      refine ih hnodup.2 hb ?_
      have hdraw : [c].foldl Blink.draw video (b.location * 2) = video (b.location * 2) := by
        refine foldl_draw_apart (fun d hd he => hne ?_) video
        rw [List.mem_singleton.mp hd] at he
        omega
      rw [List.foldl_cons, List.foldl_nil] at hdraw
      exact hdraw.trans hshown

/-- The blinks of a board have a cell each, which shows them; the rest of the screen is `video`. -/
structure ShowsAll (video : Nat → UInt8) (s : Board) (bs : List Blink) : Prop where
  blinks : s.blinks = bs
  nodup : (bs.map Blink.location).Nodup
  shown : ∀ b ∈ bs, s.video (b.location * 2) = b.char
  others : ∀ a, (∀ b ∈ bs, a ≠ b.location * 2) → s.video a = video a

theorem ShowsAll.tick (h : ShowsAll video s bs) :
    ShowsAll video (s.step .tasklet).2 (bs.map Blink.tick) := by
  have hlocation : (bs.map Blink.tick).map Blink.location = bs.map Blink.location := by
    rw [List.map_map]
    refine List.map_congr_left fun b _ => ?_
    rw [Function.comp_apply, b.tick_location]
  refine ⟨congrArg (List.map Blink.tick) h.blinks, hlocation ▸ h.nodup, fun b hb => ?_,
    fun a ha => ?_⟩
  · obtain ⟨c, hc, rfl⟩ := List.mem_map.mp hb
    show s.blinks.foldl Blink.draw s.video _ = _
    rw [h.blinks, c.tick_location]
    exact foldl_draw_own h.nodup hc (h.shown c hc)
  · have ha : ∀ b ∈ bs, a ≠ b.location * 2 := by
      intro b hb
      rw [← b.tick_location]
      exact ha b.tick (List.mem_map_of_mem hb)
    show s.blinks.foldl Blink.draw s.video a = _
    rw [h.blinks, foldl_draw_apart ha]
    exact h.others a ha

theorem Blink.tick_iterate_location (b : Blink) (n : Nat) :
    (Blink.tick^[n] b).location = b.location := by
  induction n with
  | zero => rfl
  | succ n ih => rw [Function.iterate_succ_apply', Blink.tick_location, ih]

theorem ShowsAll.ticks (h : ShowsAll video s bs) (n : Nat) :
    ShowsAll video (s.run (List.replicate n .tasklet)).2 (bs.map Blink.tick^[n]) := by
  induction n generalizing s bs with
  | zero => exact (List.map_id bs).symm ▸ h
  | succ n ih =>
    have hn := ih h.tick
    rwa [List.map_map] at hn

/-- Different places on the screen are not more than the array has structures. -/
theorem length_lt_of_nodup {b : Blink} (hnodup : ((b :: bs).map Blink.location).Nodup)
    (hlt : ∀ c ∈ b :: bs, c.location < blinkCnt) : bs.length < blinkCnt := by
  have hsub : (b :: bs).map Blink.location ⊆ List.range blinkCnt := by
    intro a ha
    obtain ⟨c, hc, rfl⟩ := List.mem_map.mp ha
    exact List.mem_range.mpr (hlt c hc)
  simpa using (hnodup.subperm hsub).length_le

theorem ShowsAll.add (h : ShowsAll video s bs) (hnodup : ((b :: bs).map Blink.location).Nodup)
    (hlt : ∀ c ∈ b :: bs, c.location < blinkCnt) :
    ShowsAll video (s.step (.add b)).2 (b.start :: bs) := by
  have hroom : s.blinks.length < blinkCnt := h.blinks ▸ length_lt_of_nodup hnodup hlt
  have hapart : ∀ c ∈ bs, c.location * 2 ≠ b.location * 2 := fun c hc he =>
    (List.nodup_cons.mp hnodup).1 (List.mem_map.mpr ⟨c, hc, by omega⟩)
  rw [Board.step, if_pos ⟨hlt b List.mem_cons_self, hroom⟩]
  refine ⟨congrArg (b.start :: ·) h.blinks, hnodup, fun c hc => ?_, fun a ha => ?_⟩
  · rcases List.mem_cons.mp hc with rfl | hc
    · exact Function.update_self ..
    · exact (Function.update_of_ne (hapart c hc) ..).trans (h.shown c hc)
  · rw [List.forall_mem_cons] at ha
    exact (Function.update_of_ne ha.1 ..).trans (h.others a ha.2)

theorem ShowsAll.adds (h : ShowsAll video s bs) {cs : List Blink}
    (hnodup : ((cs.reverse ++ bs).map Blink.location).Nodup)
    (hlt : ∀ c ∈ cs.reverse ++ bs, c.location < blinkCnt) :
    ShowsAll video (s.run (cs.map .add)).2 ((cs.map Blink.start).reverse ++ bs) := by
  induction cs generalizing s bs with
  | nil => exact h
  | cons c cs ih =>
    have hmid : (c :: cs).reverse ++ bs = cs.reverse ++ c :: bs := by simp
    rw [hmid] at hnodup hlt
    have hsub : (c :: bs).Sublist (cs.reverse ++ c :: bs) := List.sublist_append_right ..
    have h1 := h.add (b := c) (hnodup.sublist (hsub.map _)) fun d hd => hlt d (hsub.subset hd)
    have hstart : (cs.reverse ++ c.start :: bs).map Blink.location =
        (cs.reverse ++ c :: bs).map Blink.location := by
      rw [List.map_append, List.map_append]
      rfl
    have hrun := ih h1 (hstart ▸ hnodup) fun d hd => ?_
    · have hlist : ((c :: cs).map Blink.start).reverse ++ bs =
          (cs.map Blink.start).reverse ++ c.start :: bs := by simp
      rw [hlist]
      exact hrun
    · obtain ⟨e, he, hloc⟩ := List.mem_map.mp (hstart ▸ List.mem_map_of_mem hd)
      exact hloc ▸ hlt e he

namespace User

open Base.Programs Base.Bitmap

/-! ## The blinks of two frames -/

variable {l0s l1s : List (List UInt8)} {row col : Nat}

/-- The frame fits the right half of the screen. -/
structure FitsHalf (ls : List (List UInt8)) : Prop where
  rows : ls.length ≤ 25
  cols : ∀ row, (ls.getD row []).length ≤ 40

def charAt (ls : List (List UInt8)) (row col : Nat) : UInt8 := (ls.getD row []).getD col space

theorem mem_frameBlinks {b : Blink} : b ∈ frameBlinks l0s l1s ↔
    ∃ row < max l0s.length l1s.length, ∃ col < width (l0s.getD row []) (l1s.getD row []),
      placeBlink row (l0s.getD row []) (l1s.getD row []) col = some b := by
  simp [frameBlinks, rowBlinks]

theorem placeBlink_location {row col : Nat} {l0 l1 : List UInt8} {b : Blink}
    (hrow : row < 25) (hcol : col < 40) (h : placeBlink row l0 l1 col = some b) :
    b.location = row * 80 + col + 40 := by
  unfold placeBlink at h
  split at h
  · cases h
  · obtain rfl := Option.some.inj h
    exact Nat.mod_eq_of_lt (by omega)

theorem width_le (h0 : FitsHalf l0s) (h1 : FitsHalf l1s) (row : Nat) :
    width (l0s.getD row []) (l1s.getD row []) ≤ 40 := Nat.max_le.mpr ⟨h0.cols row, h1.cols row⟩

theorem height_le (h0 : FitsHalf l0s) (h1 : FitsHalf l1s) : max l0s.length l1s.length ≤ 25 :=
  Nat.max_le.mpr ⟨h0.rows, h1.rows⟩

/-- The blinks are in the order of their places. -/
theorem pairwise_frameBlinks (h0 : FitsHalf l0s) (h1 : FitsHalf l1s) :
    (frameBlinks l0s l1s).Pairwise fun b c => b.location < c.location := by
  have hheight := height_le h0 h1
  unfold frameBlinks rowBlinks
  refine List.pairwise_flatMap.mpr ⟨fun row hrow => ?_, ?_⟩
  · have hwidth := width_le h0 h1 row
    have hrow := List.mem_range.mp hrow
    refine List.pairwise_filterMap.mpr ?_
    refine List.pairwise_lt_range.imp_of_mem fun {i j} hi hj hlt b hb c hc => ?_
    rw [placeBlink_location (by omega) (by have := List.mem_range.mp hi; omega) hb,
      placeBlink_location (by omega) (by have := List.mem_range.mp hj; omega) hc]
    omega
  · refine List.pairwise_lt_range.imp_of_mem fun {i j} hi hj hlt b hb c hc => ?_
    obtain ⟨col, hcol, hb⟩ := List.mem_filterMap.mp hb
    obtain ⟨col', hcol', hc⟩ := List.mem_filterMap.mp hc
    have hwidth := width_le h0 h1 i
    have hwidth' := width_le h0 h1 j
    have hi := List.mem_range.mp hi
    have hj := List.mem_range.mp hj
    rw [placeBlink_location (by omega) (by have := List.mem_range.mp hcol; omega) hb,
      placeBlink_location (by omega) (by have := List.mem_range.mp hcol'; omega) hc]
    have := List.mem_range.mp hcol
    omega

theorem nodup_frameBlinks (h0 : FitsHalf l0s) (h1 : FitsHalf l1s) :
    ((frameBlinks l0s l1s).map Blink.location).Nodup :=
  List.pairwise_map.mpr ((pairwise_frameBlinks h0 h1).imp fun hlt => Nat.ne_of_lt hlt)

theorem frameBlinks_location (h0 : FitsHalf l0s) (h1 : FitsHalf l1s) {b : Blink}
    (hb : b ∈ frameBlinks l0s l1s) : b.location ≠ 0 ∧ b.location < blinkCnt := by
  obtain ⟨row, hrow, col, hcol, hb⟩ := mem_frameBlinks.mp hb
  have hheight := height_le h0 h1
  have hwidth := width_le h0 h1 row
  rw [placeBlink_location (by omega) (by omega) hb]
  unfold blinkCnt
  omega

/-! ## The screen -/

/-- What the frames show after `n` ticks, on a screen that was `video`. -/
structure Animates (l0s l1s : List (List UInt8)) (video : Nat → UInt8) (n : Nat)
    (shown : Nat → UInt8) : Prop where
  place : ∀ row col, row < 25 → col < 40 →
    shown ((row * 80 + col + 40) * 2) =
      if charAt l0s row col = space ∧ charAt l1s row col = space then
        video ((row * 80 + col + 40) * 2)
      else if n % 30 < 15 then charAt l0s row col else charAt l1s row col
  others : ∀ a, (∀ row col, row < 25 → col < 40 → a ≠ (row * 80 + col + 40) * 2) →
    shown a = video a

theorem charAt_blank {ls : List (List UInt8)} {row col : Nat}
    (h : ls.length ≤ row ∨ (ls.getD row []).length ≤ col) : charAt ls row col = space := by
  unfold charAt
  rcases h with h | h
  · rw [List.getD_eq_default _ _ h]
    rfl
  · exact List.getD_eq_default _ _ h

theorem placeBlink_char {b : Blink} (h0 : ∀ row, nl ∉ l0s.getD row [])
    (h1 : ∀ row, nl ∉ l1s.getD row [])
    (h : placeBlink row (l0s.getD row []) (l1s.getD row []) col = some b) (n : Nat) :
    (Blink.tick^[n] b.start).char =
      if n % 30 < 15 then charAt l0s row col else charAt l1s row col := by
  have hchar : ∀ ls : List (List UInt8), (∀ row, nl ∉ ls.getD row []) → charAt ls row col ≠ nl := by
    intro ls hls he
    unfold charAt at he
    rw [getD_space (hls row)] at he
    split at he
    · cases he
    · exact absurd he ‹_›
  unfold placeBlink at h
  split at h
  · cases h
  · obtain rfl := Option.some.inj h
    rw [Blink.tick_iterate ⟨show 15 < 65536 by decide, show 15 < 65536 by decide⟩, Blink.inPeriod_char]
    show (if n % (ticks 15 + ticks 15) < ticks 15 then if charAt l0s row col = nl then _ else _
      else if charAt l1s row col = nl then _ else _) = _
    rw [if_neg (hchar l0s h0), if_neg (hchar l1s h1)]
    rfl

theorem animates_of_showsAll (h0 : FitsHalf l0s) (h1 : FitsHalf l1s)
    (hn0 : ∀ row, nl ∉ l0s.getD row []) (hn1 : ∀ row, nl ∉ l1s.getD row []) {n : Nat} {s : Board}
    {video : Nat → UInt8}
    (h : ShowsAll video s (((frameBlinks l0s l1s).map Blink.start).reverse.map Blink.tick^[n])) :
    Animates l0s l1s video n s.video := by
  have hmem : ∀ c, c ∈ ((frameBlinks l0s l1s).map Blink.start).reverse.map Blink.tick^[n] ↔
      ∃ b ∈ frameBlinks l0s l1s, Blink.tick^[n] b.start = c := by
    intro c
    simp
  have hlocation : ∀ b : Blink, (Blink.tick^[n] b.start).location = b.location := fun b =>
    b.start.tick_iterate_location n
  constructor
  · intro row col hrow hcol
    by_cases hblank : charAt l0s row col = space ∧ charAt l1s row col = space
    · rw [if_pos hblank]
      refine h.others _ fun c hc he => ?_
      obtain ⟨b, hb, rfl⟩ := (hmem c).mp hc
      obtain ⟨row', hrow', col', hcol', hplace⟩ := mem_frameBlinks.mp hb
      have hheight := height_le h0 h1
      have hwidth := width_le h0 h1 row'
      rw [hlocation, placeBlink_location (by omega) (by omega) hplace] at he
      obtain rfl : row' = row := by omega
      obtain rfl : col' = col := by omega
      have hnone : placeBlink row' (l0s.getD row' []) (l1s.getD row' []) col' = none :=
        if_pos hblank
      rw [hnone] at hplace
      cases hplace
    · rw [if_neg hblank]
      have hplace : placeBlink row (l0s.getD row []) (l1s.getD row []) col = some _ := if_neg hblank
      have hin : row < max l0s.length l1s.length ∧
          col < width (l0s.getD row []) (l1s.getD row []) := by
        by_contra hout
        refine hblank ⟨charAt_blank ?_, charAt_blank ?_⟩ <;> unfold width at hout <;> omega
      have hb := mem_frameBlinks.mpr ⟨row, hin.1, col, hin.2, hplace⟩
      have hshown := h.shown _ ((hmem _).mpr ⟨_, hb, rfl⟩)
      rwa [hlocation, placeBlink_location hrow hcol hplace, placeBlink_char hn0 hn1 hplace] at hshown
  · intro a ha
    refine h.others a fun c hc => ?_
    obtain ⟨b, hb, rfl⟩ := (hmem c).mp hc
    obtain ⟨row, hrow, col, hcol, hplace⟩ := mem_frameBlinks.mp hb
    have hheight := height_le h0 h1
    have hwidth := width_le h0 h1 row
    rw [hlocation, placeBlink_location (by omega) (by omega) hplace]
    exact ha row col (by omega) (by omega)

/-! ## The result -/

theorem mp1Run_adds {turns : Nat} {s s' : Mp1} {bs : List Blink} {cmds : List BlinkCmd}
    {replies : List BlinkReply} (h : mp1Run turns s (bs.map .add ++ cmds) = some (replies, s')) :
    ∃ replies', mp1Run turns (addAll s bs) cmds = some (replies', s') := by
  induction bs generalizing s replies with
  | nil => exact ⟨replies, h⟩
  | cons b bs ih =>
    have hcons : mp1Run turns s (.add b :: (bs.map .add ++ cmds)) =
        (mp1Run turns (mp1IoctlAdd s b).2 (bs.map .add ++ cmds)).bind fun r =>
          some (.ret (mp1IoctlAdd s b).1 :: r.1, r.2) := rfl
    obtain ⟨r, hrun, h⟩ := Option.bind_eq_some_iff.mp (hcons.symm.trans h)
    obtain ⟨-, rfl⟩ := Prod.mk.inj (Option.some.inj h)
    exact ih hrun

/-- The blinks of two frames on the screen `video`, and `n` ticks. -/
theorem frameBlinks_animate (h0 : FitsHalf l0s) (h1 : FitsHalf l1s)
    (hn0 : ∀ row, nl ∉ l0s.getD row []) (hn1 : ∀ row, nl ∉ l1s.getD row []) {turns : Nat}
    (hturns : blinkCnt < turns) (video : Nat → UInt8) (n : Nat) :
    ∃ replies s', mp1Run turns (addAll (mp1Reset video) (frameBlinks l0s l1s))
      (List.replicate n .tasklet) = some (replies, s') ∧ Animates l0s l1s video n s'.video := by
  have hall : ∀ cmd ∈ (frameBlinks l0s l1s).map BlinkCmd.add ++ List.replicate n .tasklet,
      cmd.NotAtZero := by
    intro cmd hcmd
    rcases List.mem_append.mp hcmd with hcmd | hcmd
    · obtain ⟨b, hb, rfl⟩ := List.mem_map.mp hcmd
      exact (frameBlinks_location h0 h1 hb).1
    · rw [List.eq_of_mem_replicate hcmd]
      trivial
  obtain ⟨s', slots, hrun, h⟩ := run_reset video hturns hall
  obtain ⟨replies, hrun⟩ := mp1Run_adds hrun
  refine ⟨replies, s', hrun, ?_⟩
  have hempty : ShowsAll video ⟨[], video⟩ [] :=
    ⟨rfl, List.nodup_nil, fun _ hb => absurd hb List.not_mem_nil, fun _ _ => rfl⟩
  have hnodup : (((frameBlinks l0s l1s).reverse ++ []).map Blink.location).Nodup := by
    rw [List.append_nil, List.map_reverse]
    exact List.nodup_reverse.mpr (nodup_frameBlinks h0 h1)
  have hlt : ∀ b ∈ (frameBlinks l0s l1s).reverse ++ [], b.location < blinkCnt := by
    rw [List.append_nil]
    exact fun b hb => (frameBlinks_location h0 h1 (List.mem_reverse.mp hb)).2
  have hadded := hempty.adds hnodup hlt
  rw [List.append_nil] at hadded
  rw [h.video, Board.run_append]
  exact animates_of_showsAll h0 h1 hn0 hn1 (hadded.ticks n)

variable {img : Image} {procs : Nat → Prop} {p fuel turns fd0 fd1 : Nat} {files : OpenFiles}
  {args name0 name1 : CString} {out : List UInt8} {t t' : Session} {mem0 mem1 : Nat → UInt8}
  {dentry0 dentry1 : DirEntry} {video : Nat → UInt8} {o : Progress (Option Mp1)}

theorem fish_animates (hsizes : img.SizesFit) (h : Proc img procs p files args out t)
    (h0 : FrameAt img fuel mem0 name0 dentry0) (h1 : FrameAt img fuel mem1 name1 dentry1)
    (hfits0 : FitsHalf (fileLines img dentry0.inodeIdx))
    (hfits1 : FitsHalf (fileLines img dentry1.inodeIdx)) (hfree0 : LowestFree files fd0)
    (hfree1 : ∀ f, LowestFree (Function.update files fd0 (some f)) fd1) (hturns : blinkCnt < turns)
    (hrun : RunsTo (KernelAnswers img procs p) (addFrames fuel mem0 mem1 (mp1Reset video)) t o t') :
    Finishes (fun r _ => ∃ s, r = some s ∧ ∀ n, ∃ replies s',
      mp1Run turns s (List.replicate n .tasklet) = some (replies, s') ∧
        Animates (fileLines img dentry0.inodeIdx) (fileLines img dentry1.inodeIdx) video n s'.video)
      o t' := by
  have hadds := (wp_iff _ _ _).mp (h.wp_addFrames hsizes h0 h1 hfree0 hfree1) o t' hrun
  cases o with
  | waiting => trivial
  | stopped => exact hadds.elim
  | ended r =>
    obtain ⟨s, hr, hs, -⟩ := hadds
    refine ⟨s, hr, fun n => ?_⟩
    rw [hs]
    exact frameBlinks_animate hfits0 hfits1 (fun row => (h0.lines.2 row).1)
      (fun row => (h1.lines.2 row).1) hturns video n

theorem fitsHalf_of_lines {ls : List (List UInt8)} (hrows : ls.length ≤ 25)
    (hcols : ∀ l ∈ ls, l.length ≤ 40) : FitsHalf ls := by
  refine ⟨hrows, fun row => ?_⟩
  by_cases hrow : row < ls.length
  · rw [List.getD_eq_getElem _ _ hrow]
    exact hcols _ (List.getElem_mem hrow)
  · rw [List.getD_eq_default _ _ (by omega)]
    exact Nat.zero_le _

theorem fitsHalf_fsdir {file : CString × List UInt8} {inode : Nat} (h : fsdir[inode]? = some file)
    (hrows : (file.2.splitOn nl).length ≤ 25) (hcols : ∀ l ∈ file.2.splitOn nl, l.length ≤ 40) :
    FitsHalf (fileLines fsdirImage inode) := by
  rw [fileLines, fileContent_fsdir h]
  exact fitsHalf_of_lines hrows hcols

theorem fitsHalf_frame0 : FitsHalf (fileLines fsdirImage 4) :=
  fitsHalf_fsdir (show fsdir[4]? = some (cstring "frame0.txt", frame0) from rfl)
    (by decide +kernel) (by decide +kernel)

theorem fitsHalf_frame1 : FitsHalf (fileLines fsdirImage 5) :=
  fitsHalf_fsdir (show fsdir[5]? = some (cstring "frame1.txt", frame1) from rfl)
    (by decide +kernel) (by decide +kernel)

theorem fish_animates_frames : ∃ k k', ProgramStarted fsdirImage k (cstring "fish") k' ∧ ∀ o t',
    RunsTo (KernelAnswers fsdirImage (Taken k'.procs) 2)
      (addFrames 200 (str "frame0.txt") (str "frame1.txt") (mp1Reset fun _ => 0)) k'.session o t' →
    Finishes (fun r _ => ∃ s, r = some s ∧ ∀ n, ∃ replies s',
      mp1Run (blinkCnt + 1) s (List.replicate n .tasklet) = some (replies, s') ∧
        Animates (fileLines fsdirImage 4) (fileLines fsdirImage 5) (fun _ => 0) n s'.video) o t' := by
  obtain ⟨k, hk⟩ := booted_fsdirImage
  obtain ⟨k', hstarted⟩ := hk.startsProgram launchable_fish
  refine ⟨k, k', hstarted, fun o t' hrun => ?_⟩
  have h0 : (fsdirImage.direntries 4).inodeIdx = 4 := rfl
  have h1 : (fsdirImage.direntries 5).inodeIdx = 5 := rfl
  rw [← h0, ← h1]
  exact fish_animates fsdirImage_sizesFit hstarted.proc frameAt_frame0 frameAt_frame1
    (h0.symm ▸ fitsHalf_frame0) (h1.symm ▸ fitsHalf_frame1) lowestFree_start lowestFree_second
    (Nat.lt_succ_self _) hrun

end User

end Mp3Kernel
