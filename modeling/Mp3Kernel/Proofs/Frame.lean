/-
  What the screen and mapping routines leave alone.

  Everything `putc`, `clear`, `restore_terminal` and the calls under them do to the kernel
  stays within memory, the cursors, the two video page entries and CR3. `Frame k k'` says so,
  and that CR3, if it was reloaded, holds the directory the running process's PCB names.
-/
import Mp3Kernel.Model.System

namespace Mp3Kernel

/-- Equal but for the cursor. -/
def SameTerminal (a b : Terminal) : Prop := ∃ x y, b = { a with screenX := x, screenY := y }

theorem SameTerminal.refl (a : Terminal) : SameTerminal a a := ⟨a.screenX, a.screenY, rfl⟩

theorem SameTerminal.trans {a b c : Terminal} (h : SameTerminal a b) (h' : SameTerminal b c) :
    SameTerminal a c := by
  obtain ⟨x, y, rfl⟩ := h
  obtain ⟨x', y', rfl⟩ := h'
  exact ⟨x', y', rfl⟩

theorem SameTerminal.fields {a b : Terminal} (h : SameTerminal a b) :
    b.pid = a.pid ∧ b.id = a.id ∧ b.running = a.running ∧ b.status = a.status ∧
      b.vidmap = a.vidmap ∧ b.vidMemBuf = a.vidMemBuf := by
  obtain ⟨x, y, rfl⟩ := h
  exact ⟨rfl, rfl, rfl, rfl, rfl, rfl⟩

section Fields

variable {a b : Terminal} (h : SameTerminal a b)

include h

theorem SameTerminal.pid : b.pid = a.pid := h.fields.1
theorem SameTerminal.id : b.id = a.id := h.fields.2.1
theorem SameTerminal.running : b.running = a.running := h.fields.2.2.1
theorem SameTerminal.status : b.status = a.status := h.fields.2.2.2.1
theorem SameTerminal.vidmap : b.vidmap = a.vidmap := h.fields.2.2.2.2.1
theorem SameTerminal.vidMemBuf : b.vidMemBuf = a.vidMemBuf := h.fields.2.2.2.2.2

end Fields

/-- The directory entries of the two areas `map_vid_mem` is called for. -/
def VideoDirEntry (i : Nat) : Prop := i = video / mb4 ∨ i = vidmapStart / mb4

structure Frame (k k' : Kernel) : Prop where
  pcbs : k'.pcbs = k.pcbs
  procs : k'.procs = k.procs
  runningPid : k'.runningPid = k.runningPid
  esp0 : k'.esp0 = k.esp0
  exception : k'.programExceptionOccured = k.programExceptionOccured
  currentTerminal : k'.currentTerminal = k.currentTerminal
  terminalToSwitchTo : k'.terminalToSwitchTo = k.terminalToSwitchTo
  currentSchedule : k'.currentSchedule = k.currentSchedule
  scheduleCounter : k'.scheduleCounter = k.scheduleCounter
  terminals : ∀ t, SameTerminal (k.terminals t) (k'.terminals t)
  layout : k'.paging.layout = k.paging.layout
  pgdir : ∀ proc i, ¬ VideoDirEntry i → k'.paging.pgdir proc i = k.paging.pgdir proc i
  cr3 : k'.paging.cr3 = k.paging.cr3 ∨
    k'.paging.cr3 = k.paging.layout.pgdirAddr ((getCurrentPcb k).pid % 256)

theorem Frame.refl (k : Kernel) : Frame k k :=
  ⟨rfl, rfl, rfl, rfl, rfl, rfl, rfl, rfl, rfl, fun _ => SameTerminal.refl _, rfl,
    fun _ _ _ => rfl, Or.inl rfl⟩

theorem Frame.currentPcb {k k' : Kernel} (h : Frame k k') : getCurrentPcb k' = getCurrentPcb k := by
  unfold getCurrentPcb
  rw [h.pcbs, h.runningPid]

theorem Frame.trans {k k' k'' : Kernel} (h : Frame k k') (h' : Frame k' k'') : Frame k k'' where
  pcbs := h'.pcbs.trans h.pcbs
  procs := h'.procs.trans h.procs
  runningPid := h'.runningPid.trans h.runningPid
  esp0 := h'.esp0.trans h.esp0
  exception := h'.exception.trans h.exception
  currentTerminal := h'.currentTerminal.trans h.currentTerminal
  terminalToSwitchTo := h'.terminalToSwitchTo.trans h.terminalToSwitchTo
  currentSchedule := h'.currentSchedule.trans h.currentSchedule
  scheduleCounter := h'.scheduleCounter.trans h.scheduleCounter
  terminals := fun t => (h.terminals t).trans (h'.terminals t)
  layout := h'.layout.trans h.layout
  pgdir := fun proc i hi => (h'.pgdir proc i hi).trans (h.pgdir proc i hi)
  cr3 := by
    rw [h.layout.symm, ← h.currentPcb]
    rcases h'.cr3 with h1 | h1
    · rw [h1, h.layout, h.currentPcb]
      exact h.cr3
    · exact Or.inr h1

/-! ## One routine at a time -/

variable {k k' : Kernel}

theorem frame_mem (k : Kernel) (mem : Nat → UInt8) : Frame k (k.setMem mem) :=
  { Frame.refl k with }

theorem frame_store {va : Nat} {b : UInt8} (h : store k va b = some k') : Frame k k' := by
  obtain ⟨pa, -, rfl⟩ := Option.map_eq_some_iff.mp h
  exact frame_mem k _

theorem frame_memcpy {dest src n : Nat} (h : memcpy k dest src n = some k') : Frame k k' := by
  obtain ⟨d, -, h⟩ := Option.bind_eq_some_iff.mp h
  obtain ⟨s, -, h⟩ := Option.bind_eq_some_iff.mp h
  obtain rfl := Option.some.inj h
  exact frame_mem k _

theorem frame_storeBytes {va n : Nat} {buf : Nat → UInt8} (h : storeBytes k va buf n = some k') :
    Frame k k' := by
  induction n generalizing k' with
  | zero =>
    obtain rfl := Option.some.inj h
    exact Frame.refl k
  | succ n ih =>
    obtain ⟨k1, h1, h2⟩ := Option.bind_eq_some_iff.mp h
    exact (ih h1).trans (frame_store h2)

theorem frame_putCell {base i : Nat} {c : UInt8} (h : putCell k base i c = some k') :
    Frame k k' := by
  obtain ⟨k1, h1, h2⟩ := Option.bind_eq_some_iff.mp h
  exact (frame_store h1).trans (frame_store h2)

theorem frame_fillCells {base i n : Nat} (h : fillCells k base i n = some k') : Frame k k' := by
  induction n generalizing k i with
  | zero =>
    obtain rfl := Option.some.inj h
    exact Frame.refl k
  | succ n ih =>
    obtain ⟨k1, h1, h2⟩ := Option.bind_eq_some_iff.mp h
    exact (frame_putCell h1).trans (ih h2)

theorem frame_scrollUp (h : scrollUp k = some k') : Frame k k' := by
  obtain ⟨k1, h1, h2⟩ := Option.bind_eq_some_iff.mp h
  exact (frame_memcpy h1).trans (frame_fillCells h2)

theorem frame_screen (k : Kernel) (x y : Nat) : Frame k { k with screenX := x, screenY := y } :=
  { Frame.refl k with }

theorem frame_setScreenXY (k : Kernel) (x y : Nat) : Frame k (setScreenXY k x y) := by
  unfold setScreenXY
  split
  · exact frame_screen k x y
  · exact Frame.refl k

theorem frame_setScreenX (k : Kernel) (x : Nat) : Frame k (setScreenX k x) := by
  unfold setScreenX
  split
  · exact frame_screen k x k.screenY
  · exact Frame.refl k

theorem frame_setTerminal (k : Kernel) (t : Fin 3) {term : Terminal}
    (h : SameTerminal (k.terminals t) term) : Frame k (k.setTerminal t term) :=
  { Frame.refl k with
    terminals := fun u => by
      rw [setTerminal_terminals]
      by_cases hu : u = t
      · subst hu
        rw [Function.update_self]
        exact h
      · rw [Function.update_of_ne hu]
        exact SameTerminal.refl _ }

theorem frame_setTerminalScreenXY (k : Kernel) (t : Fin 3) (x y : Nat) :
    Frame k (setTerminalScreenXY k t x y) := by
  unfold setTerminalScreenXY
  split
  · exact Frame.refl k
  · exact frame_setTerminal k t ⟨_, _, rfl⟩

theorem frame_swapPosition (k : Kernel) (t : Fin 3) : Frame k (swapPosition k t) :=
  (frame_setTerminal k k.currentTerminal ⟨_, _, rfl⟩).trans (frame_setScreenXY _ _ _)

/-- `map_vid_mem` writes one directory entry and loads CR3, if it does anything. -/
theorem mapVidMem_pgdir {p q : Paging} {proc va pa : Nat} (h : mapVidMem p proc va pa = some q) :
    q.layout = p.layout ∧ q.cr3 = p.layout.pgdirAddr proc ∧
      ∀ proc' i, i ≠ va / mb4 → q.pgdir proc' i = p.pgdir proc' i := by
  unfold mapVidMem at h
  split at h
  · cases h
  · obtain rfl := Option.some.inj h
    refine ⟨rfl, rfl, fun proc' i hi => ?_⟩
    show (p.setPde proc _ _).pgdir proc' i = _
    by_cases hp : proc' = proc
    · subst hp
      rw [Paging.setPde_pgdir_self, Function.update_of_ne hi]
    · rw [Paging.setPde_pgdir_of_ne _ _ _ _ hp]

/-- A remap of the running process. -/
theorem frame_remap (k : Kernel) (pa : Nat) {va : Nat} (hva : VideoDirEntry (va / mb4)) :
    Frame k (remap k (getCurrentPcb k).pid va pa) := by
  unfold remap
  cases hm : mapVidMem k.paging ((getCurrentPcb k).pid % 256) va pa with
  | none => exact Frame.refl k
  | some q =>
    obtain ⟨hl, hc, hd⟩ := mapVidMem_pgdir hm
    exact { Frame.refl k with
      layout := hl
      pgdir := fun proc i hi => hd proc i fun h => hi (h ▸ hva)
      cr3 := Or.inr hc }

theorem frame_remap_video (k : Kernel) (pa : Nat) :
    Frame k (remap k (getCurrentPcb k).pid video pa) := frame_remap k pa (Or.inl rfl)

theorem frame_nextRow (h : nextRow k = some k') : Frame k k' := by
  unfold nextRow at h
  split at h
  · obtain rfl := Option.some.inj h
    exact frame_screen k k.screenX _
  · exact frame_scrollUp h

theorem frame_wrapRow {x : Nat} (h : wrapRow k x = some k') : Frame k k' := by
  unfold wrapRow at h
  split at h
  · split at h
    · exact frame_scrollUp h
    · obtain rfl := Option.some.inj h
      exact frame_screen k k.screenX _
  · obtain rfl := Option.some.inj h
    exact Frame.refl k

theorem frame_stepBack (k : Kernel) : Frame k (stepBack k) := by
  unfold stepBack
  split
  · exact frame_setScreenXY _ _ _
  · exact frame_setScreenX _ _

theorem frame_putcBody {c : UInt8} (h : putcBody k c = some k') : Frame k k' := by
  unfold putcBody at h
  split at h
  · obtain ⟨k1, h1, h2⟩ := Option.bind_eq_some_iff.mp h
    obtain rfl := Option.some.inj h2
    exact (frame_nextRow h1).trans (frame_screen k1 0 k1.screenY)
  · split at h
    · exact (frame_stepBack k).trans (frame_putCell h)
    · obtain ⟨k1, h1, h⟩ := Option.bind_eq_some_iff.mp h
      obtain ⟨k2, h2, h3⟩ := Option.bind_eq_some_iff.mp h
      obtain rfl := Option.some.inj h3
      exact ((frame_putCell h1).trans (frame_wrapRow h2)).trans (frame_screen k2 _ k2.screenY)

theorem frame_putcChar {c : UInt8} (h : putcChar k c = some k') : Frame k k' := by
  obtain ⟨term, -, h⟩ := Option.bind_eq_some_iff.mp h
  split at h
  · obtain rfl := Option.some.inj h
    exact Frame.refl k
  · split at h
    · obtain ⟨k1, h1, h2⟩ := Option.bind_eq_some_iff.mp h
      obtain rfl := Option.some.inj h2
      exact ((frame_remap_video k video).trans (frame_putcBody h1)).trans (frame_remap_video k1 _)
    · exact frame_putcBody h

theorem frame_putc {c : UInt8} (h : putc k c = some k') : Frame k k' := by
  unfold putc at h
  split at h
  · obtain ⟨term, -, h⟩ := Option.bind_eq_some_iff.mp h
    split at h
    · exact (frame_remap_video k video).trans (frame_putcChar h)
    · exact frame_putcChar h
  · exact frame_putcChar h

theorem frame_clear (h : clear k = some k') : Frame k k' := by
  obtain ⟨term, -, h⟩ := Option.bind_eq_some_iff.mp h
  split at h
  · obtain ⟨k1, h1, h2⟩ := Option.bind_eq_some_iff.mp h
    obtain rfl := Option.some.inj h2
    refine Frame.trans ?_ (frame_setScreenXY _ _ _)
    refine Frame.trans ?_ (frame_setTerminalScreenXY _ _ _ _)
    exact ((frame_remap_video k video).trans (frame_fillCells h1)).trans (frame_remap_video k1 _)
  · obtain ⟨k1, h1, h2⟩ := Option.bind_eq_some_iff.mp h
    obtain rfl := Option.some.inj h2
    exact (frame_fillCells h1).trans (frame_setScreenXY _ _ _)

theorem frame_restoreTerminal {t : Fin 3} (h : restoreTerminal k t = some k') : Frame k k' := by
  obtain ⟨k1, h1, h⟩ := Option.bind_eq_some_iff.mp h
  obtain ⟨k2, h2, h3⟩ := Option.bind_eq_some_iff.mp h
  obtain rfl := Option.some.inj h3
  have hf : Frame (swapPosition k t) k2 :=
    ((frame_remap_video (swapPosition k t) video).trans (frame_memcpy h1)).trans (frame_memcpy h2)
  refine (frame_swapPosition k t).trans (hf.trans ?_)
  rw [← hf.currentPcb]
  exact frame_remap_video k2 _

theorem frame_setXY (k : Kernel) (t : Fin 3) (displayed : Prop) [Decidable displayed] (x y : Nat) :
    Frame k (if displayed then setScreenXY k x y else setTerminalScreenXY k t x y) := by
  split
  · exact frame_setScreenXY k x y
  · exact frame_setTerminalScreenXY k t x y

theorem frame_clearXY {t : Fin 3} {displayed : Prop} [Decidable displayed]
    (h : (if displayed then clearScreenXY k else clearTerminalScreenXY k t) = some k') :
    Frame k k' := by
  split at h <;> exact frame_putCell h

theorem frame_terminalPutc {t : Fin 3} {c : UInt8} (h : terminalPutc k t c = some k') :
    Frame k k' := by
  unfold terminalPutc terminalPutcChar at h
  dsimp only at h
  generalize (if c = tab then space else c) = c' at h
  generalize (if (k.terminals t).id = k.currentTerminal then k.screenX
    else (k.terminals t).screenX) = x at h
  generalize (if (k.terminals t).id = k.currentTerminal then k.screenY
    else (k.terminals t).screenY) = y at h
  split at h
  · obtain rfl := Option.some.inj h
    exact Frame.refl k
  split at h
  · split at h
    · obtain rfl := Option.some.inj h
      exact frame_setXY k _ _ _ _
    · obtain ⟨k1, h1, h2⟩ := Option.bind_eq_some_iff.mp h
      obtain rfl := Option.some.inj h2
      exact (frame_scrollUp h1).trans (frame_setXY k1 _ _ _ _)
  split at h
  · generalize (if x = 0 ∧ 0 < y then (numCols - 1, y - 1) else ((x + 65535) % 65536, y)) = pos at h
    exact (frame_setXY k _ _ _ _).trans (frame_clearXY h)
  obtain ⟨k1, h1, h⟩ := Option.bind_eq_some_iff.mp h
  refine (frame_putCell h1).trans ?_
  split at h
  · split at h
    · obtain ⟨k2, h2, h3⟩ := Option.bind_eq_some_iff.mp h
      obtain rfl := Option.some.inj h3
      exact (frame_scrollUp h2).trans (frame_setXY k2 _ _ _ _)
    · obtain rfl := Option.some.inj h
      exact frame_setXY k1 _ _ _ _
  · obtain rfl := Option.some.inj h
    exact frame_setXY k1 _ _ _ _

theorem frame_terminalPuts {t : Fin 3} {cs : List UInt8} (h : terminalPuts k t cs = some k') :
    Frame k k' := by
  induction cs generalizing k with
  | nil =>
    obtain rfl := Option.some.inj h
    exact Frame.refl k
  | cons c cs ih =>
    obtain ⟨k1, h1, h2⟩ := Option.bind_eq_some_iff.mp h
    exact (frame_terminalPutc h1).trans (ih h2)

theorem frame_terminalWrite {buf : Option (List UInt8)} {ret : Int}
    (h : terminalWrite k buf = some (ret, k')) : Frame k k' := by
  obtain ⟨term, -, h⟩ := Option.bind_eq_some_iff.mp h
  split at h
  · obtain ⟨k1, h1, h2⟩ := Option.bind_eq_some_iff.mp h
    obtain ⟨-, rfl⟩ := Prod.mk.inj (Option.some.inj h2)
    exact frame_terminalPuts h1
  · obtain ⟨-, rfl⟩ := Prod.mk.inj (Option.some.inj h)
    exact Frame.refl _

/-! ## A requested switch -/

/-- The last steps of a switch to `t`, which `restore_terminal` has prepared. -/
def showTerminal (k : Kernel) (t : Fin 3) : Kernel :=
  { k.setTerminal t { k.terminals t with status := .running } with
    currentTerminal := t, terminalToSwitchTo := none }

/-- A pending switch does nothing but clear the request, or it shows another terminal. -/
theorem pendingSwitch_cases (h : pendingSwitch k = some k') :
    (k' = { k with terminalToSwitchTo := none } ∧
      ∀ t, k.terminalToSwitchTo = some t → t = k.currentTerminal) ∨
    ∃ t k1, k.terminalToSwitchTo = some t ∧ t ≠ k.currentTerminal ∧
      restoreTerminal k t = some k1 ∧ k' = showTerminal k1 t := by
  unfold pendingSwitch at h
  cases hreq : k.terminalToSwitchTo with
  | none =>
    rw [hreq] at h
    obtain rfl := Option.some.inj h
    refine Or.inl ⟨?_, fun t ht => nomatch ht⟩
    cases k
    dsimp only at hreq
    rw [hreq]
  | some t =>
    rw [hreq] at h
    obtain ⟨k1, h1, h2⟩ := Option.bind_eq_some_iff.mp h
    obtain rfl := Option.some.inj h2
    unfold switchTerminal at h1
    rw [dif_pos t.isLt] at h1
    split at h1
    · rename_i hcur
      obtain rfl := Option.some.inj h1
      refine Or.inl ⟨rfl, fun u hu => ?_⟩
      rw [← Option.some.inj hu]
      exact (Fin.ext hcur).symm
    · rename_i hcur
      obtain ⟨k2, hrestore, hk1⟩ := Option.bind_eq_some_iff.mp h1
      obtain rfl := Option.some.inj hk1
      exact Or.inr ⟨t, k2, rfl, fun he => hcur (by rw [he]), hrestore, rfl⟩

end Mp3Kernel
