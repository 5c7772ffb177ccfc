/-
  The list of blinks against a list.

  `Board` is what the list is for: the blinks, the last one added first, and the screen.
  `Represents` ties the linked list to it. The structures on the list are exactly the slots of
  the array that are not free, which is what `mp1_malloc` and `mp1_free` need; it holds as long
  as nothing is added at location 0, the mark of a free slot.

  * `blinks_refine`: every run without location 0 returns, and answers as the board does.
  * `blink_loops`: a blink that is added behind one at location 0 takes the same slot and is
    linked to itself; from then on the tasklet does not return.
-/
import Mp3Kernel.Base.Runs
import Mp3Kernel.Model.Blink
import Mathlib.Data.List.Perm.Subperm

namespace Mp3Kernel

open Base.LinkedList Base.Runs

/-! ## The board -/

structure Board where
  blinks : List Blink
  video : Nat → UInt8

def Blink.tick (b : Blink) : Blink :=
  if b.decrement.Waits then b.decrement else b.decrement.flip

def Blink.draw (video : Nat → UInt8) (b : Blink) : Nat → UInt8 :=
  if b.decrement.Waits then video
  else Function.update video (b.location * 2) (if b.status then b.offChar else b.onChar)

def Blink.isAt (location : Nat) (b : Blink) : Bool := b.location == location

def Board.step (s : Board) : BlinkCmd → BlinkReply × Board
  | .add b =>
    if b.location < blinkCnt ∧ s.blinks.length < blinkCnt then
      (.ret 0, ⟨b.start :: s.blinks, Function.update s.video (b.location * 2) b.onChar⟩)
    else (.ret (-1), s)
  | .remove arg =>
    match s.blinks.find? (Blink.isAt (arg % 65536)) with
    | none => (.ret (-1), s)
    | some _ => (.ret 0, ⟨s.blinks.eraseP (Blink.isAt (arg % 65536)), s.video⟩)
  | .find location =>
    match s.blinks.find? (Blink.isAt location) with
    | none => (.found (-1) none, s)
    | some b => (.found 0 (some b), s)
  | .sync arg =>
    match s.blinks.find? (Blink.isAt (arg / 65536 % 65536)),
      s.blinks.find? (Blink.isAt (arg % 65536)) with
    | some a, some d =>
      (.ret 0, ⟨s.blinks.replaceF fun b =>
          if b.isAt (arg % 65536) then some (a.copyPhase b) else none,
        Function.update s.video (d.location * 2) d.offChar⟩)
    | _, _ => (.ret (-1), s)
  | .tasklet => (.done, ⟨s.blinks.map Blink.tick, s.blinks.foldl Blink.draw s.video⟩)

/-- The replies to the calls `cmds`, and the board after them. -/
def Board.run (s : Board) : List BlinkCmd → List BlinkReply × Board
  | [] => ([], s)
  | cmd :: cmds =>
    let (reply, s) := s.step cmd
    let (replies, s) := s.run cmds
    (reply :: replies, s)

/-- Nothing is added at location 0. -/
def BlinkCmd.NotAtZero : BlinkCmd → Prop
  | .add b => b.location ≠ 0
  | _ => True

/-! ## The list represents the board -/

structure Represents (s : Mp1) (board : Board) (slots : List Nat) : Prop where
  linked : Linked s.next s.listHead slots
  blinks : slots.map (fun a => (s.blinkArray a).toBlink) = board.blinks
  inArray : ∀ a ∈ slots, a < blinkCnt
  used : ∀ a, a < blinkCnt → (a ∈ slots ↔ (s.blinkArray a).location ≠ 0)
  video : s.video = board.video

section Fields

variable (s : Mp1) (a c : Nat) (b : Blink) (cell q : Option Nat) (ch : UInt8)

@[simp] theorem setBlink_next : (s.setBlink a b).next = s.next := by
  funext c
  by_cases hc : c = a
  · subst hc
    simp [Mp1.next, Mp1.setBlink]
  · simp [Mp1.next, Mp1.setBlink, hc]

@[simp] theorem setBlink_listHead : (s.setBlink a b).listHead = s.listHead := rfl
@[simp] theorem setBlink_video : (s.setBlink a b).video = s.video := rfl

theorem setBlink_toBlink : ((s.setBlink a b).blinkArray c).toBlink =
    if c = a then b else (s.blinkArray c).toBlink := by
  by_cases hc : c = a
  · simp [Mp1.setBlink, hc]
  · simp [Mp1.setBlink, hc]

@[simp] theorem mp1Poke_blinkArray : (mp1Poke s ch a).blinkArray = s.blinkArray := rfl
@[simp] theorem mp1Poke_next : (mp1Poke s ch a).next = s.next := rfl
@[simp] theorem mp1Poke_listHead : (mp1Poke s ch a).listHead = s.listHead := rfl
@[simp] theorem mp1Poke_video : (mp1Poke s ch a).video = Function.update s.video a ch := rfl

@[simp] theorem setCell_next : (s.setCell cell q).next = setLink s.next cell q := by
  funext c
  cases cell with
  | none => rfl
  | some e =>
    by_cases hc : c = e
    · subst hc
      simp [Mp1.next, Mp1.setCell, setLink]
    · simp [Mp1.next, Mp1.setCell, setLink, hc]

@[simp] theorem setCell_listHead : (s.setCell cell q).listHead = setHead s.listHead cell q := by
  cases cell <;> rfl

@[simp] theorem setCell_video : (s.setCell cell q).video = s.video := by
  cases cell <;> rfl

@[simp] theorem setCell_toBlink :
    ((s.setCell cell q).blinkArray c).toBlink = (s.blinkArray c).toBlink := by
  cases cell with
  | none => rfl
  | some e =>
    by_cases hc : c = e
    · simp [Mp1.setCell, hc]
    · simp [Mp1.setCell, hc]

@[simp] theorem insert_next :
    (s.insert a b).next = Function.update s.next a s.listHead := by
  simp [Mp1.insert]

@[simp] theorem insert_listHead : (s.insert a b).listHead = some a := rfl
@[simp] theorem insert_video : (s.insert a b).video = s.video := rfl

theorem insert_toBlink : ((s.insert a b).blinkArray c).toBlink =
    if c = a then b else (s.blinkArray c).toBlink := by
  rw [Mp1.insert, setCell_toBlink, setCell_toBlink, setBlink_toBlink]

end Fields

section Board

variable {s : Mp1} {board : Board} {slots : List Nat} {fuel : Nat}

theorem Represents.length_le (h : Represents s board slots) : slots.length ≤ blinkCnt := by
  have hsub : slots ⊆ List.range blinkCnt := fun a ha => List.mem_range.mpr (h.inArray a ha)
  simpa using (h.linked.nodup.subperm hsub).length_le

theorem Represents.length_blinks (h : Represents s board slots) :
    board.blinks.length = slots.length := by
  rw [← h.blinks, List.length_map]

/-- The first structure at a location, and the first blink. -/
theorem Represents.findHelper (h : Represents s board slots) (hfuel : blinkCnt < fuel)
    (location : Nat) : mp1FindHelper fuel s location =
      some (slots.find? fun a => (s.blinkArray a).isAt location) :=
  find_linked _ h.linked (Nat.lt_of_le_of_lt h.length_le hfuel)

theorem Represents.find? (h : Represents s board slots) (location : Nat) :
    board.blinks.find? (Blink.isAt location) =
      (slots.find? fun a => (s.blinkArray a).isAt location).map
        fun a => (s.blinkArray a).toBlink := by
  rw [← h.blinks, List.find?_map]
  rfl

/-! ### The tasklet -/

/-- A constructor applied: the kernel need not compare the two countdowns. -/
theorem decrement_mk (location : Nat) (onChar offChar : UInt8) (onLength offLength countdown : Nat)
    (status : Bool) :
    Blink.decrement ⟨location, onChar, offChar, onLength, offLength, countdown, status⟩ =
      ⟨location, onChar, offChar, onLength, offLength, decw countdown, status⟩ := rfl

theorem decrement_location (b : Blink) : b.decrement.location = b.location := by
  cases b
  rw [decrement_mk]

theorem decrement_status (b : Blink) : b.decrement.status = b.status := by
  cases b
  rw [decrement_mk]

theorem decrement_onChar (b : Blink) : b.decrement.onChar = b.onChar := by
  cases b
  rw [decrement_mk]

theorem decrement_offChar (b : Blink) : b.decrement.offChar = b.offChar := by
  cases b
  rw [decrement_mk]

theorem flip_location (b : Blink) : b.flip.location = b.location := rfl

theorem withVideo_next (s : Mp1) (video : Nat → UInt8) : { s with video := video }.next = s.next := rfl

theorem taskletTurn_eq (s : Mp1) (a : Nat) : taskletTurn s a =
    { s.setBlink a (s.blinkArray a).tick with
      video := (s.blinkArray a).draw s.video } := by
  have hstatus := decrement_status (s.blinkArray a).toBlink
  have hon := decrement_onChar (s.blinkArray a).toBlink
  have hoff := decrement_offChar (s.blinkArray a).toBlink
  have hloc := decrement_location (s.blinkArray a).toBlink
  simp only [taskletTurn, Blink.tick, Blink.draw, ← hstatus, ← hon, ← hoff, ← hloc]
  generalize (s.blinkArray a).toBlink.decrement = d
  by_cases hw : d.Waits
  · simp only [if_pos hw, Mp1.setBlink]
  · simp only [if_neg hw, Mp1.setBlink, mp1Poke, Mp1.next, Function.update_self,
      Function.update_idem]

theorem taskletTurn_next (s : Mp1) (a : Nat) : (taskletTurn s a).next = s.next := by
  rw [taskletTurn_eq, withVideo_next, setBlink_next]

theorem taskletTurn_toBlink (s : Mp1) (a c : Nat) : ((taskletTurn s a).blinkArray c).toBlink =
    if c = a then (s.blinkArray a).tick else (s.blinkArray c).toBlink := by
  rw [taskletTurn_eq]
  exact setBlink_toBlink ..

/-- The loop: every structure on the list ticks once. -/
theorem foldl_taskletTurn (s : Mp1) {slots : List Nat} (h : slots.Nodup) :
    (slots.foldl taskletTurn s).listHead = s.listHead ∧
      (slots.foldl taskletTurn s).next = s.next ∧
      (∀ c, ((slots.foldl taskletTurn s).blinkArray c).toBlink =
        if c ∈ slots then (s.blinkArray c).tick else (s.blinkArray c).toBlink) ∧
      (slots.foldl taskletTurn s).video =
        (slots.map fun a => (s.blinkArray a).toBlink).foldl Blink.draw s.video := by
  induction slots generalizing s with
  | nil => simp
  | cons a slots ih =>
    obtain ⟨ha, hnodup⟩ := List.nodup_cons.mp h
    obtain ⟨hhead, hnext, hblinks, hvideo⟩ := ih (taskletTurn s a) hnodup
    refine ⟨?_, ?_, fun c => ?_, ?_⟩
    · rw [List.foldl_cons, hhead, taskletTurn_eq]
      rfl
    · rw [List.foldl_cons, hnext, taskletTurn_next]
    · rw [List.foldl_cons, hblinks, taskletTurn_toBlink]
      by_cases hc : c = a
      · subst hc
        simp [ha]
      · simp [hc]
    · rw [List.foldl_cons, hvideo, List.map_cons, List.foldl_cons]
      have hrest : slots.map (fun c => ((taskletTurn s a).blinkArray c).toBlink) =
          slots.map fun c => (s.blinkArray c).toBlink := by
        refine List.map_congr_left fun c hc => ?_
        have hca : c ≠ a := fun he => ha (he ▸ hc)
        rw [taskletTurn_toBlink, if_neg hca]
      rw [hrest, taskletTurn_eq]

theorem Blink.tick_location (b : Blink) : b.tick.location = b.location := by
  rw [← decrement_location b]
  unfold Blink.tick
  split
  · rfl
  · exact flip_location _

theorem Represents.tasklet (h : Represents s board slots) (hfuel : blinkCnt < fuel) :
    ∃ s', mp1RtcTasklet fuel s = some s' ∧
      Represents s' ⟨board.blinks.map Blink.tick, board.blinks.foldl Blink.draw board.video⟩
        slots := by
  obtain ⟨hhead, hnext, hblinks, hvideo⟩ := foldl_taskletTurn s h.linked.nodup
  refine ⟨_, walk_linked taskletTurn_next h.linked (Nat.lt_of_le_of_lt h.length_le hfuel), ?_⟩
  constructor
  · rw [hnext, hhead]
    exact h.linked
  · rw [← h.blinks, List.map_map]
    refine List.map_congr_left fun a ha => ?_
    rw [hblinks, if_pos ha, Function.comp_apply]
  · exact h.inArray
  · intro a ha
    rw [h.used a ha, hblinks]
    split
    · rw [Blink.tick_location]
    · exact Iff.rfl
  · rw [hvideo, h.blinks, h.video]

/-! ### Adding -/

/-- A slot is free exactly while the list is not full. -/
theorem Represents.malloc (h : Represents s board slots) :
    if board.blinks.length < blinkCnt then ∃ a, mp1Malloc s = some a ∧ a < blinkCnt ∧ a ∉ slots
    else mp1Malloc s = none := by
  rw [h.length_blinks]
  by_cases hfull : slots.length < blinkCnt
  · rw [if_pos hfull]
    cases hm : mp1Malloc s with
    | none =>
      -- then every slot is on the list
      have hsub : List.range blinkCnt ⊆ slots := by
        intro a ha
        have hloc := List.find?_eq_none.mp hm a ha
        exact (h.used a (List.mem_range.mp ha)).mpr (by simpa using hloc)
      have hlen := (List.nodup_range.subperm hsub).length_le
      rw [List.length_range] at hlen
      exact absurd hfull (Nat.not_lt_of_le hlen)
    | some a =>
      have ha := List.mem_range.mp (List.mem_of_find?_eq_some hm)
      have hloc : (s.blinkArray a).location = 0 := by simpa using List.find?_some hm
      exact ⟨a, rfl, ha, fun hc => (h.used a ha).mp hc hloc⟩
  · rw [if_neg hfull]
    have hsub : slots ⊆ List.range blinkCnt := fun a ha => List.mem_range.mpr (h.inArray a ha)
    have hperm := (h.linked.nodup.subperm hsub).perm_of_length_le (by
      rw [List.length_range]
      exact Nat.le_of_not_lt hfull)
    refine List.find?_eq_none.mpr fun a ha => ?_
    have hloc := (h.used a (List.mem_range.mp ha)).mp (hperm.mem_iff.mpr ha)
    simpa using hloc

/-- A structure that was free is put in front. -/
theorem Represents.insert (h : Represents s board slots) {a : Nat} (hlt : a < blinkCnt)
    (hfree : a ∉ slots) {b : Blink} (hb : b.location ≠ 0) (c : UInt8) (offset : Nat) :
    Represents (mp1Poke (s.insert a b) c offset)
      ⟨b :: board.blinks, Function.update board.video offset c⟩ (a :: slots) := by
  have hne : ∀ d ∈ slots, d ≠ a := by
    rintro d hd rfl
    exact hfree hd
  constructor
  · simpa using h.linked.push hfree
  · simp only [List.map_cons, mp1Poke_blinkArray, insert_toBlink, if_true]
    rw [List.map_congr_left fun d hd => if_neg (hne d hd), h.blinks]
  · simpa using ⟨hlt, h.inArray⟩
  · intro d hd
    rw [mp1Poke_blinkArray, insert_toBlink, List.mem_cons]
    by_cases hda : d = a
    · simpa [hda] using hb
    · simpa [hda] using h.used d hd
  · simp [h.video]

theorem Represents.add (h : Represents s board slots) {b : Blink} (hb : b.location ≠ 0) :
    ∃ r s' slots', mp1IoctlAdd s b = (r, s') ∧ (board.step (.add b)).1 = .ret r ∧
      Represents s' (board.step (.add b)).2 slots' := by
  have hmalloc := h.malloc
  unfold Board.step mp1IoctlAdd
  by_cases hloc : b.location < blinkCnt
  · by_cases hroom : board.blinks.length < blinkCnt
    · rw [if_pos hroom] at hmalloc
      obtain ⟨a, ha, hlt, hfree⟩ := hmalloc
      simp only [ha, hloc, hroom, Nat.not_le_of_lt hloc, and_self, if_true, if_false]
      exact ⟨0, _, a :: slots, rfl, rfl, h.insert (b := b.start) hlt hfree hb _ _⟩
    · rw [if_neg hroom] at hmalloc
      simp only [hmalloc, hroom, Nat.not_le_of_lt hloc, and_false, if_false]
      exact ⟨-1, s, slots, rfl, rfl, h⟩
  · simp only [hloc, Nat.le_of_not_lt hloc, false_and, if_true, if_false]
    exact ⟨-1, s, slots, rfl, rfl, h⟩

/-! ### Removing -/

theorem mp1Free_next_of_ne (s : Mp1) {a c : Nat} (hc : c ≠ a) : (mp1Free s a).next c = s.next c := by
  simp [Mp1.next, mp1Free, hc]

theorem mp1Free_toBlink (s : Mp1) (a c : Nat) : ((mp1Free s a).blinkArray c).toBlink =
    if c = a then ⟨0, 0, 0, 0, 0, 0, false⟩ else (s.blinkArray c).toBlink := by
  by_cases hc : c = a
  · simp [mp1Free, hc]
  · simp [mp1Free, hc]

/-- The structure `a` is taken out of the list and freed. -/
theorem Represents.unlink {as bs : List Nat} {a : Nat}
    (h : Represents s board (as ++ a :: bs)) {test : Blink → Bool}
    (ha : test (s.blinkArray a).toBlink = true)
    (has : ∀ c ∈ as, test (s.blinkArray c).toBlink = false) :
    Represents (mp1Free (s.setCell as.getLast? (s.next a)) a) ⟨board.blinks.eraseP test, board.video⟩
      (as ++ bs) := by
  have hmem : a ∉ as ++ bs := (List.nodup_cons.mp (List.perm_middle.nodup_iff.mp h.linked.nodup)).1
  have hne : ∀ c ∈ as ++ bs, c ≠ a := by
    rintro c hc rfl
    exact hmem hc
  have hdata : ∀ c, c ≠ a → ((mp1Free (s.setCell as.getLast? (s.next a)) a).blinkArray c).toBlink =
      (s.blinkArray c).toBlink := by
    intro c hc
    rw [mp1Free_toBlink, if_neg hc, setCell_toBlink]
  constructor
  · have hfrees : ∀ c ∈ as ++ bs, (mp1Free (s.setCell as.getLast? (s.next a)) a).next c =
        (s.setCell as.getLast? (s.next a)).next c := fun c hc => mp1Free_next_of_ne _ (hne c hc)
    refine Linked.congr ?_ hfrees
    show Linked _ (s.setCell _ _).listHead _
    rw [setCell_next, setCell_listHead]
    exact h.linked.unlink
  · have hmap : (as ++ bs).map (fun c => ((mp1Free (s.setCell as.getLast? (s.next a)) a).blinkArray
        c).toBlink) = (as ++ bs).map fun c => (s.blinkArray c).toBlink :=
      List.map_congr_left fun c hc => hdata c (hne c hc)
    rw [hmap, ← h.blinks, List.map_append, List.map_append, List.map_cons,
      List.eraseP_append_right, List.eraseP_cons_of_pos ha]
    simpa using has
  · intro c hc
    refine h.inArray c ?_
    rw [List.mem_append, List.mem_cons, or_left_comm]
    exact Or.inr (List.mem_append.mp hc)
  · intro c hc
    by_cases hca : c = a
    · subst hca
      rw [mp1Free_toBlink, if_pos rfl]
      simpa using hmem
    · rw [hdata c hca, ← h.used c hc]
      simp [hca]
  · show (s.setCell _ _).video = board.video
    rw [setCell_video, h.video]

theorem Represents.remove (h : Represents s board slots) (hfuel : blinkCnt < fuel) (arg : Nat) :
    ∃ r s' slots', mp1IoctlRemove fuel s arg = some (r, s') ∧
      (board.step (.remove arg)).1 = .ret r ∧
      Represents s' (board.step (.remove arg)).2 slots' := by
  have hfind := h.find? (arg % 65536)
  unfold mp1IoctlRemove Board.step
  rw [h.findHelper hfuel]
  cases hslot : slots.find? fun a => (s.blinkArray a).isAt (arg % 65536) with
  | none =>
    rw [hslot] at hfind
    simp only [hfind, Option.map_none]
    exact ⟨-1, s, slots, rfl, rfl, h⟩
  | some a =>
    rw [hslot] at hfind
    obtain ⟨ha, as, bs, rfl, has⟩ := List.find?_eq_some_iff_append.mp hslot
    have hlen := h.length_le
    rw [List.length_append] at hlen
    have hcell := findCell_linked h.linked (n := fuel) (by omega)
    simp only [hfind, Option.map_some, Option.bind_eq_bind, Option.bind_some, hcell]
    refine ⟨0, _, as ++ bs, rfl, rfl, h.unlink ha fun c hc => ?_⟩
    simpa using has c hc

/-! ### Synchronizing -/

theorem replaceF_append {α : Type} {f : α → Option α} {as bs : List α} {d e : α}
    (has : ∀ c ∈ as, f c = none) (hd : f d = some e) :
    (as ++ d :: bs).replaceF f = as ++ e :: bs := by
  induction as with
  | nil => simp [List.replaceF, hd]
  | cons a as ih =>
    rw [List.forall_mem_cons] at has
    simp [List.replaceF, has.1, ih has.2]

/-- The structure `d` is overwritten, but for its location. -/
theorem Represents.overwrite {as bs : List Nat} {d : Nat}
    (h : Represents s board (as ++ d :: bs)) {f : Blink → Option Blink} {b : Blink}
    (hloc : b.location = (s.blinkArray d).location) (hd : f (s.blinkArray d).toBlink = some b)
    (has : ∀ c ∈ as, f (s.blinkArray c).toBlink = none) (c : UInt8) (offset : Nat) :
    Represents (mp1Poke (s.setBlink d b) c offset)
      ⟨board.blinks.replaceF f, Function.update board.video offset c⟩ (as ++ d :: bs) := by
  have hmem : d ∉ as ++ bs := (List.nodup_cons.mp (List.perm_middle.nodup_iff.mp h.linked.nodup)).1
  have hkept : ∀ xs : List Nat, (∀ e ∈ xs, e ∈ as ++ bs) →
      xs.map (fun e => ((s.setBlink d b).blinkArray e).toBlink) =
        xs.map fun e => (s.blinkArray e).toBlink := by
    refine fun xs hxs => List.map_congr_left fun e he => ?_
    rw [setBlink_toBlink, if_neg]
    rintro rfl
    exact hmem (hxs e he)
  constructor
  · simpa using h.linked
  · have hreplaced : board.blinks.replaceF f = as.map (fun e => (s.blinkArray e).toBlink) ++
        b :: bs.map fun e => (s.blinkArray e).toBlink := by
      rw [← h.blinks, List.map_append, List.map_cons]
      exact replaceF_append (by simpa using has) hd
    rw [hreplaced, mp1Poke_blinkArray, List.map_append, List.map_cons, setBlink_toBlink,
      if_pos rfl, hkept as fun e he => List.mem_append_left _ he,
      hkept bs fun e he => List.mem_append_right _ he]
  · exact h.inArray
  · intro e he
    rw [h.used e he, mp1Poke_blinkArray, setBlink_toBlink]
    split
    · rename_i hed
      rw [hloc, hed]
    · exact Iff.rfl
  · simp [h.video]

theorem Represents.sync (h : Represents s board slots) (hfuel : blinkCnt < fuel) (arg : Nat) :
    ∃ r s', mp1IoctlSync fuel s arg = some (r, s') ∧ (board.step (.sync arg)).1 = .ret r ∧
      Represents s' (board.step (.sync arg)).2 slots := by
  have hsrc := h.find? (arg / 65536 % 65536)
  have hdst := h.find? (arg % 65536)
  unfold mp1IoctlSync Board.step
  rw [h.findHelper hfuel, h.findHelper hfuel]
  cases hslot : slots.find? fun a => (s.blinkArray a).isAt (arg / 65536 % 65536) with
  | none =>
    rw [hslot] at hsrc
    simp only [hsrc, Option.map_none]
    exact ⟨-1, s, rfl, rfl, h⟩
  | some a =>
    rw [hslot] at hsrc
    cases hslot' : slots.find? fun a => (s.blinkArray a).isAt (arg % 65536) with
    | none =>
      rw [hslot'] at hdst
      simp only [hsrc, hdst, Option.map_some, Option.map_none]
      exact ⟨-1, s, rfl, rfl, h⟩
    | some d =>
      rw [hslot'] at hdst
      obtain ⟨hd, as, bs, rfl, has⟩ := List.find?_eq_some_iff_append.mp hslot'
      simp only [hsrc, hdst, Option.map_some]
      have hpassed : ∀ c ∈ as, (s.blinkArray c).isAt (arg % 65536) = false := by simpa using has
      refine ⟨0, _, rfl, rfl, h.overwrite (b := (s.blinkArray a).copyPhase (s.blinkArray d).toBlink)
        rfl (if_pos hd) (fun c hc => if_neg ?_) _ _⟩
      rw [hpassed c hc]
      exact Bool.false_ne_true

/-! ### Runs -/

/-- One call. -/
theorem Represents.call (h : Represents s board slots) (hfuel : blinkCnt < fuel) {cmd : BlinkCmd}
    (hcmd : cmd.NotAtZero) : ∃ s' slots', mp1Call fuel s cmd = some ((board.step cmd).1, s') ∧
      Represents s' (board.step cmd).2 slots' := by
  cases cmd with
  | add b =>
    obtain ⟨r, s', slots', hcall, hret, h'⟩ := h.add hcmd
    exact ⟨s', slots', by simp [mp1Call, hcall, hret], h'⟩
  | remove arg =>
    obtain ⟨r, s', slots', hcall, hret, h'⟩ := h.remove hfuel arg
    exact ⟨s', slots', by simp [mp1Call, hcall, hret], h'⟩
  | find location =>
    have hfind := h.find? location
    refine ⟨s, slots, ?_, ?_⟩
    · rw [mp1Call, mp1IoctlFind, h.findHelper hfuel, Board.step, hfind]
      cases slots.find? fun a => (s.blinkArray a).isAt location <;> rfl
    · rw [Board.step]
      cases board.blinks.find? (Blink.isAt location) <;> exact h
  | sync arg =>
    obtain ⟨r, s', hcall, hret, h'⟩ := h.sync hfuel arg
    exact ⟨s', slots, by simp [mp1Call, hcall, hret], h'⟩
  | tasklet =>
    obtain ⟨s', hcall, h'⟩ := h.tasklet hfuel
    exact ⟨s', slots, by simp [mp1Call, hcall, Board.step], h'⟩

/-- The calls `cmds`. -/
theorem Represents.run (h : Represents s board slots) (hfuel : blinkCnt < fuel)
    {cmds : List BlinkCmd} (hcmds : ∀ cmd ∈ cmds, cmd.NotAtZero) : ∃ s' slots',
      mp1Run fuel s cmds = some ((board.run cmds).1, s') ∧
        Represents s' (board.run cmds).2 slots' := by
  induction cmds generalizing s board slots with
  | nil => exact ⟨s, slots, rfl, h⟩
  | cons cmd cmds ih =>
    rw [List.forall_mem_cons] at hcmds
    obtain ⟨s₁, slots₁, hcall, h₁⟩ := h.call hfuel hcmds.1
    obtain ⟨s₂, slots₂, hrun, h₂⟩ := ih h₁ hcmds.2
    exact ⟨s₂, slots₂, by simp [mp1Run, hcall, hrun, Board.run], h₂⟩

theorem represents_reset (video : Nat → UInt8) :
    Represents (mp1Reset video) ⟨[], video⟩ [] := by
  constructor <;> simp [mp1Reset]

/-! ### Location 0 -/

/-- A blink at location 0 leaves its slot free. -/
theorem mp1Malloc_insert {a : Nat} (ha : mp1Malloc s = some a) {b : Blink}
    (hb : b.location = 0) (c : UInt8) (offset : Nat) :
    mp1Malloc (mp1Poke (s.insert a b) c offset) = some a := by
  rw [← ha]
  unfold mp1Malloc
  have hloc : (s.blinkArray a).location = 0 := by simpa using List.find?_some ha
  refine congrArg (fun test => (List.range blinkCnt).find? test) (funext fun e => ?_)
  rw [mp1Poke_blinkArray, insert_toBlink]
  split
  · rename_i he
    rw [he, hb, hloc]
  · rfl

/-- The slot is taken again, while it is the head of the list. -/
theorem insert_loop {a : Nat} (b b' : Blink) (c c' : UInt8) (offset offset' n : Nat) :
    mp1RtcTasklet n
      (mp1Poke ((mp1Poke (s.insert a b) c offset).insert a b') c' offset') = none :=
  walk_loop taskletTurn_next (by simp) n

end Board

theorem run_reset (video : Nat → UInt8) {fuel : Nat} (hfuel : blinkCnt < fuel)
    {cmds : List BlinkCmd} (hcmds : ∀ cmd ∈ cmds, cmd.NotAtZero) :
    ∃ s slots, mp1Run fuel (mp1Reset video) cmds = some ((Board.run ⟨[], video⟩ cmds).1, s) ∧
      Represents s (Board.run ⟨[], video⟩ cmds).2 slots :=
  (represents_reset video).run hfuel hcmds

/-- Every run in which nothing is added at location 0 comes to its end, with the replies and
    the screen of the board. -/
theorem blinks_refine (video : Nat → UInt8) {fuel : Nat} (hfuel : blinkCnt < fuel)
    (cmds : List BlinkCmd) (hcmds : ∀ cmd ∈ cmds, cmd.NotAtZero) :
    ∃ s, mp1Run fuel (mp1Reset video) cmds = some ((Board.run ⟨[], video⟩ cmds).1, s) ∧
      s.video = (Board.run ⟨[], video⟩ cmds).2.video := by
  obtain ⟨s, slots, hrun, h⟩ := run_reset video hfuel hcmds
  exact ⟨s, hrun, h.video⟩

/-- A blink of the program, and 7 ticks of it. -/
theorem blinks_refine_seven : ∃ s,
    mp1Run (blinkCnt + 1) (mp1Reset fun _ => 0)
      (.add ⟨540, 0x49, 0x4D, 7, 6, 0, false⟩ :: List.replicate 7 .tasklet) =
        some ((Board.run ⟨[], fun _ => 0⟩
          (.add ⟨540, 0x49, 0x4D, 7, 6, 0, false⟩ :: List.replicate 7 .tasklet)).1, s) ∧
      s.video = (Board.run ⟨[], fun _ => 0⟩
        (.add ⟨540, 0x49, 0x4D, 7, 6, 0, false⟩ :: List.replicate 7 .tasklet)).2.video :=
  blinks_refine (fun _ => 0) (Nat.lt_succ_self _) _ (by simp [BlinkCmd.NotAtZero])

/-- After any such run, as long as there is room: a blink is added at location 0, then another
    one anywhere, and the tasklet does not return any more. -/
theorem blink_loops {video : Nat → UInt8} {fuel : Nat} (hfuel : blinkCnt < fuel)
    {cmds : List BlinkCmd} (hcmds : ∀ cmd ∈ cmds, cmd.NotAtZero) {replies : List BlinkReply}
    {s : Mp1} (hrun : mp1Run fuel (mp1Reset video) cmds = some (replies, s))
    (hroom : (Board.run ⟨[], video⟩ cmds).2.blinks.length < blinkCnt) {b b' : Blink}
    (hb : b.location = 0) (hb' : b'.location < blinkCnt) :
    ∃ s₁ s₂, mp1IoctlAdd s b = (0, s₁) ∧ mp1IoctlAdd s₁ b' = (0, s₂) ∧
      ∀ n, mp1RtcTasklet n s₂ = none := by
  obtain ⟨s', slots, hrun', h⟩ := run_reset video hfuel hcmds
  obtain ⟨-, rfl⟩ := Prod.mk.inj (Option.some.inj (hrun.symm.trans hrun'))
  have hmalloc := h.malloc
  rw [if_pos hroom] at hmalloc
  obtain ⟨a, ha, -, -⟩ := hmalloc
  have hin : b.location < blinkCnt := by
    rw [hb]
    decide
  have hfirst : mp1IoctlAdd s b =
      (0, mp1Poke (s.insert a b.start) b.onChar (b.location * 2)) := by
    rw [mp1IoctlAdd, if_neg (Nat.not_le_of_lt hin), ha]
  have hsecond : mp1IoctlAdd (mp1Poke (s.insert a b.start) b.onChar (b.location * 2)) b' =
      (0, mp1Poke ((mp1Poke (s.insert a b.start) b.onChar (b.location * 2)).insert a b'.start)
        b'.onChar (b'.location * 2)) := by
    rw [mp1IoctlAdd, if_neg (Nat.not_le_of_lt hb'), mp1Malloc_insert ha (b := b.start) hb]
  exact ⟨_, _, hfirst, hsecond, fun n => insert_loop ..⟩

/-- The first two blinks of a run. -/
theorem blink_loops_first : ∃ s₁ s₂ : Mp1,
    mp1IoctlAdd (mp1Reset fun _ => 0) ⟨0, 0x49, 0x4D, 7, 6, 0, false⟩ = (0, s₁) ∧
      mp1IoctlAdd s₁ ⟨540, 0x49, 0x4D, 7, 6, 0, false⟩ = (0, s₂) ∧
      ∀ n, mp1RtcTasklet n s₂ = none :=
  blink_loops (Nat.lt_succ_self blinkCnt)
    (show ∀ cmd ∈ [], BlinkCmd.NotAtZero cmd from fun _ h => nomatch h)
    (show mp1Run (blinkCnt + 1) (mp1Reset fun _ => 0) [] = some ([], mp1Reset fun _ => 0) from rfl)
    (show 0 < blinkCnt by decide) rfl (by decide)

end Mp3Kernel
