/-
  What a process sees of the screens: a window.

  With its own directory loaded, every page below 4MB is mapped to itself but the one at
  VIDEO, which goes to one of the screens, and page 0. So the terminals' buffers are where
  they are, and a remap moves the window to another screen. `restoreTerminal_eq` is the exact
  effect of a switch seen from there.
-/
import Mp3Kernel.Proofs.Mapping
import Mp3Kernel.Proofs.Memory

namespace Mp3Kernel

open Base.PageWalk

structure Window (p : Paging) (proc pa : Nat) : Prop where
  lt : proc < 8
  cr3 : p.cr3 = p.layout.pgdirAddr proc
  own : OwnTable p proc
  low : ∀ i, 0 < i → i < 1024 → i ≠ video / 4096 → MapsTo p proc i (i * 4096)
  video : MapsTo p proc (video / 4096) pa
  aligned : pa % 4096 = 0

variable {p : Paging} {proc pa : Nat}

theorem TaskBuilt.window {q : Paging} (h : TaskBuilt p q proc) (hproc : proc < 8) :
    Window q proc Mp3Kernel.video where
  lt := hproc
  cr3 := h.cr3.trans (by rw [h.layout])
  own := h.own
  low := by
    intro i hpos hlt _
    unfold MapsTo
    rw [h.tbl]
    unfold taskPgtbl
    rw [if_neg (by omega), if_pos (by unfold pgtblLen; omega)]
    rfl
  video := h.videoAt.2
  aligned := by decide

/-! ## Addresses -/

theorem Window.phys (h : Window p proc pa) {i a j : Nat} (hi : i < 1024)
    (hmap : MapsTo p proc i a) (ha : a % 4096 = 0) (hj : j < 4096) :
    p.phys (i * 4096 + j) = some (a + j) := by
  have hva : i * 4096 + j < mb4 := by
    unfold mb4
    omega
  have hdiv : (i * 4096 + j) / 4096 = i := by omega
  have hmod : (i * 4096 + j) % 4096 = j := by omega
  rw [phys_of_cr3 h.cr3, translate_of_mapsTo h.lt h.own hva ha (by rw [hdiv]; exact hmap),
    Option.map_some, hmod]

/-- VIDEO goes to the screen at `pa`. -/
theorem Window.area_video (h : Window p proc pa) : Area p Mp3Kernel.video pa 4096 := by
  intro j hj
  exact h.phys (i := Mp3Kernel.video / 4096) (by decide) h.video h.aligned hj

/-- The other pages are where they are. -/
theorem Window.area_low (h : Window p proc pa) {i : Nat} (hpos : 0 < i) (hi : i < 1024)
    (hne : i ≠ Mp3Kernel.video / 4096) : Area p (i * 4096) (i * 4096) 4096 := by
  intro j hj
  exact h.phys hi (h.low i hpos hi hne) (by omega) hj

theorem vidMemBufAddr_aligned : ∀ t : Fin 3, vidMemBufAddr t % 4096 = 0 := by decide

/-- A terminal's buffer is one of them. -/
theorem Window.area_buf (h : Window p proc pa) (t : Fin 3) :
    Area p (vidMemBufAddr t) (vidMemBufAddr t) 4096 := by
  have hpage : ∃ i, vidMemBufAddr t = i * 4096 ∧ 0 < i ∧ i < 1024 ∧
      i ≠ Mp3Kernel.video / 4096 := by
    refine ⟨vidMemBufAddr t / 4096, ?_⟩
    revert t
    decide
  obtain ⟨i, he, h1, h2, h3⟩ := hpage
  rw [he]
  exact h.area_low h1 h2 h3

/-! ## Remaps -/

/-- A remap moves the window. -/
theorem Window.remap {k : Kernel} (h : Window k.paging proc pa) (pa' : Nat)
    (ha : pa' % 4096 = 0) : ∃ q, remap k proc Mp3Kernel.video pa' = k.setPaging q ∧
      Window q proc pa' := by
  have hlt := h.lt
  unfold Mp3Kernel.remap
  rw [Nat.mod_eq_of_lt (by omega)]
  obtain ⟨q, hm⟩ := mapVidMem_some k.paging hlt Mp3Kernel.video pa'
  obtain ⟨hl, hc, -⟩ := mapVidMem_pgdir hm
  have hv := tablePage_mapVidMem_self hm
  rw [hm]
  refine ⟨q, rfl, hlt, hc.trans (by rw [hl]), hv.1, fun i hpos hi hne => ?_, hv.2, ha⟩
  unfold MapsTo
  rw [pgtblProc_mapVidMem hm fun hc => hne hc.2]
  exact h.low i hpos hi hne

/-! ## A switch -/

/-- Memory after a switch away from terminal `s` to terminal `t`. -/
def switchedMem (mem : Nat → UInt8) (s t : Fin 3) : Nat → UInt8 :=
  copyBytes (copyBytes mem (vidMemBufAddr s) video screenBytes) video (vidMemBufAddr t) screenBytes

/-- The running process's window is left on the buffer of the terminal switched away from. -/
theorem restoreTerminal_eq {k : Kernel} (t : Fin 3)
    (hw : Window k.paging (getCurrentPcb k).pid pa)
    (hbuf : ∀ u, (k.terminals u).vidMemBuf = vidMemBufAddr u) :
    ∃ q, restoreTerminal k t =
      some (((swapPosition k t).setMem (switchedMem k.mem k.currentTerminal t)).setPaging q) ∧
      Window q (getCurrentPcb k).pid (vidMemBufAddr k.currentTerminal) := by
  have hf := frame_swapPosition k t
  have hpaging : (swapPosition k t).paging = k.paging := by
    unfold swapPosition setScreenXY
    dsimp only
    split <;> rfl
  have hmem : (swapPosition k t).mem = k.mem := by
    unfold swapPosition setScreenXY
    dsimp only
    split <;> rfl
  have hbuf' : ((swapPosition k t).terminals t).vidMemBuf = vidMemBufAddr t := by
    rw [(hf.terminals t).vidMemBuf, hbuf]
  obtain ⟨k1, hk1⟩ : ∃ k1, k1 = swapPosition k t := ⟨_, rfl⟩
  rw [← hk1] at hf hpaging hmem hbuf' ⊢
  have hw1 : Window k1.paging (getCurrentPcb k1).pid pa := by
    rw [hpaging, hf.currentPcb]
    exact hw
  obtain ⟨q, hq, hwq⟩ := hw1.remap video (by decide)
  have hvideo : q.phys video = some video := by
    have h0 := hwq.area_video 0 (by decide)
    rw [Nat.add_zero] at h0
    exact h0
  have hbufs : ∀ u : Fin 3, q.phys (vidMemBufAddr u) = some (vidMemBufAddr u) := by
    intro u
    have h0 := hwq.area_buf u 0 (by decide)
    rw [Nat.add_zero] at h0
    exact h0
  have hsave := memcpy_eq (k := k1.setPaging q) screenBytes (hbufs k.currentTerminal) hvideo
  have hload := memcpy_eq (k := (k1.setPaging q).setMem (copyBytes (k1.setPaging q).mem
    (vidMemBufAddr k.currentTerminal) video screenBytes)) screenBytes hvideo (hbufs t)
  unfold restoreTerminal
  dsimp only
  rw [← hk1, hq, hbuf, hsave, Option.bind_eq_bind, Option.bind_some, setMem_terminals,
    setPaging_terminals, hbuf', hload, Option.bind_some]
  obtain ⟨r, hr, hwr⟩ := hwq.remap (k := ((k1.setPaging q).setMem
    (copyBytes (k1.setPaging q).mem (vidMemBufAddr k.currentTerminal) video screenBytes)).setMem
      (switchedMem k1.mem k.currentTerminal t)) _ (vidMemBufAddr_aligned k.currentTerminal)
  refine ⟨r, ?_, by rw [← hf.currentPcb]; exact hwr⟩
  rw [← hmem]
  exact congrArg some hr

/-- With a window, a pending switch is carried out. -/
theorem pendingSwitch_some {k : Kernel} (hw : Window k.paging (getCurrentPcb k).pid pa)
    (hbuf : ∀ u, (k.terminals u).vidMemBuf = vidMemBufAddr u) :
    ∃ k1, pendingSwitch k = some k1 := by
  unfold pendingSwitch
  cases hreq : k.terminalToSwitchTo with
  | none => exact ⟨k, rfl⟩
  | some t =>
    dsimp only
    unfold switchTerminal
    rw [dif_pos t.isLt]
    by_cases hcur : k.currentTerminal.val = t.val
    · rw [if_pos hcur]
      exact ⟨_, rfl⟩
    · rw [if_neg hcur]
      obtain ⟨q, hq, -⟩ := restoreTerminal_eq t hw hbuf
      dsimp only
      rw [hq]
      exact ⟨_, rfl⟩

end Mp3Kernel
