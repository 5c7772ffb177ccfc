/-
  Three terminals share one screen, and each has it for itself.

  The logical screen of a terminal is what video memory and the global cursor say if it is
  displayed, and else its buffer and its own cursor. A `Mux` is the kernel and what each
  terminal has been given to show so far. `multiplexing_transparent`: whatever is written,
  echoed and cleared and however often the terminals are switched, each logical screen is what
  the reference renderer makes of that terminal's input alone.

  A switch leaves the running process's VIDEO on the buffer of the terminal switched away
  from. The scheduler maps it again before the process next runs; an echo that came before
  that would go to the wrong screen (`echo_lost`), so VIDEO is assumed to be right for it.
-/
import Mp3Kernel.Proofs.Cursor

namespace Mp3Kernel

open Base Base.Runs

variable {fs : Image} {k k' : Kernel} {t : Fin 3} {c : UInt8}

/-! ## Logical screens -/

/-- Where the logical screen of a terminal lies. -/
def Kernel.surface (k : Kernel) (t : Fin 3) : Nat :=
  if t = k.currentTerminal then video else vidMemBufAddr t

def Kernel.logical (k : Kernel) (t : Fin 3) : Screen :=
  screenAt k.mem (k.surface t) (k.cursor t).1 (k.cursor t).2

/-- Screens at different pages do not overlap. -/
theorem outside_page {pa pb j : Nat} (ha : pa % 4096 = 0) (hb : pb % 4096 = 0) (hne : pa ≠ pb)
    (hj : j < screenBytes) : Outside pa (pb + j) := by
  unfold Outside
  unfold screenBytes numCols numRows at *
  omega

theorem vidMemBufAddr_inj {t u : Fin 3} (h : vidMemBufAddr t = vidMemBufAddr u) : t = u := by
  unfold vidMemBufAddr kb4 at h
  exact Fin.ext (by omega)

theorem video_ne_vidMemBufAddr (t : Fin 3) : video ≠ vidMemBufAddr t := by
  unfold vidMemBufAddr kb4
  omega

theorem surface_aligned (k : Kernel) (t : Fin 3) : k.surface t % 4096 = 0 := by
  unfold Kernel.surface
  split
  · rfl
  · exact vidMemBufAddr_aligned t

/-- Different terminals have different screens. -/
theorem surface_outside (k : Kernel) {t u : Fin 3} (hu : u ≠ t) {j : Nat} (hj : j < screenBytes) :
    Outside (k.surface t) (k.surface u + j) := by
  refine outside_page (surface_aligned k t) (surface_aligned k u) ?_ hj
  unfold Kernel.surface
  by_cases ht : t = k.currentTerminal
  · rw [if_pos ht, if_neg (by rw [← ht]; exact hu)]
    exact video_ne_vidMemBufAddr u
  · rw [if_neg ht]
    split
    · exact (video_ne_vidMemBufAddr t).symm
    · exact fun h => hu (vidMemBufAddr_inj h).symm

/-- Drawing on one terminal leaves the others alone. -/
theorem Drawn.logical_other {p : Printed} (h : Drawn k k' t p)
    (hout : ∀ a, Outside (k.surface t) a → p.mem a = k.mem a) {u : Fin 3} (hu : u ≠ t) :
    k'.logical u = k.logical u := by
  have hsurface : k'.surface u = k.surface u := by
    unfold Kernel.surface
    rw [h.frame.currentTerminal]
  unfold Kernel.logical
  rw [hsurface, h.others u hu, h.mem]
  exact screenAt_eq fun j hj => hout _ (surface_outside k hu hj)

theorem Drawn.logical_self {p : Printed} (h : Drawn k k' t p) :
    k'.logical t = screenAt p.mem (k.surface t) p.x p.y := by
  unfold Kernel.logical Kernel.surface
  rw [h.cursor, h.mem, h.frame.currentTerminal]

/-- A character printed on a terminal's own screen. -/
theorem Drawn.logical_printed (hk : OnScreen k) (h : Drawn k k' t (printed k.mem (k.surface t)
    (k.surface t) (k.cursor t).1 (k.cursor t).2 c)) :
    k'.logical t = reference (k.logical t) (.char c) ∧
      ∀ u, u ≠ t → k'.logical u = k.logical u := by
  obtain ⟨hx, hy⟩ := hk.cursor t
  refine ⟨?_, fun u hu => h.logical_other (fun a ha => printed_outside hx hy ha ha) hu⟩
  rw [h.logical_self]
  exact screenAt_printed hx hy c

theorem screenAt_clear (mem : Nat → UInt8) (pa : Nat) :
    screenAt (fillMem mem pa 0 (numRows * numCols)) pa 0 0 = TextScreen.clear (glyph space) := by
  have hcells : (screenAt (fillMem mem pa 0 (numRows * numCols)) pa 0 0).cells =
      fun _ => glyph space := by
    rw [screenAt_fillMem]
    funext j
    by_cases hj : 0 ≤ j ∧ j < 0 + numRows * numCols
    · rw [if_pos hj]
    · rw [if_neg hj]
      unfold screenAt numRows numCols at *
      exact if_neg (by omega)
  exact congrArg (fun cells => TextScreen.mk cells 0 0) hcells

theorem copyBytes_inside {mem : Nat → UInt8} {dst src n j : Nat} (hj : j < n) :
    copyBytes mem dst src n (dst + j) = mem (src + j) := by
  unfold copyBytes
  rw [if_pos (by omega), Nat.add_sub_cancel_left]

/-- A switch changes no logical screen. -/
theorem SwitchedTo.logical (h : SwitchedTo k k' t) (ht : t ≠ k.currentTerminal) (u : Fin 3) :
    k'.logical u = k.logical u := by
  unfold Kernel.logical
  rw [h.cursor]
  refine screenAt_eq fun j hj => ?_
  have hvideo : ∀ v : Fin 3, Outside video (vidMemBufAddr v + j) := fun v =>
    outside_page rfl (vidMemBufAddr_aligned v) (video_ne_vidMemBufAddr v) hj
  have hbuf : ∀ v w : Fin 3, w ≠ v → Outside (vidMemBufAddr v) (vidMemBufAddr w + j) :=
    fun v w hne => outside_page (vidMemBufAddr_aligned v) (vidMemBufAddr_aligned w)
      (fun he => hne (vidMemBufAddr_inj he).symm) hj
  unfold Kernel.surface
  rw [h.mem, h.currentTerminal]
  unfold switchedMem
  by_cases hut : u = t
  · subst hut
    rw [if_pos rfl, if_neg ht, copyBytes_inside hj,
      copyBytes_outside (Nat.le_refl _) (hbuf _ _ ht)]
  · rw [if_neg hut, copyBytes_outside (Nat.le_refl _) (hvideo u)]
    by_cases hu : u = k.currentTerminal
    · rw [if_pos hu, hu, copyBytes_inside hj]
    · rw [if_neg hu, copyBytes_outside (Nat.le_refl _) (hbuf _ _ hu)]

/-! ## Writers and the keyboard -/

/-- The kernel, and what each terminal has been given to show. -/
structure Mux where
  kernel : Kernel
  given : Fin 3 → List Key

inductive MuxOp where
  /-- Another process runs, or the same one after other calls. -/
  | run (k : Kernel)
  /-- `terminal_write` by the running process. -/
  | write (buf : List UInt8)
  /-- The keyboard's echo. -/
  | echo (c : UInt8)
  /-- Ctrl+L. -/
  | clear
  | switch (termNum : Nat)

/-- `k` with the screens of `old`: memory, all cursors and the displayed terminal. -/
def Kernel.withScreens (k old : Kernel) : Kernel :=
  { k with
    mem := old.mem
    screenX := old.screenX
    screenY := old.screenY
    currentTerminal := old.currentTerminal
    terminals := fun t => { k.terminals t with
      id := (old.terminals t).id
      vidMemBuf := (old.terminals t).vidMemBuf
      screenX := (old.terminals t).screenX
      screenY := (old.terminals t).screenY } }

def Mux.give (m : Mux) (t : Fin 3) (keys : List Key) : Fin 3 → List Key :=
  Function.update m.given t (m.given t ++ keys)

/-- What the running process writes is given to its terminal, echoes and clears to the
    displayed one. -/
def muxStep (m : Mux) : MuxOp → Option Mux
  | .run k => some { m with kernel := k.withScreens m.kernel }
  | .write buf => do
    let term ← getRunningTerminal m.kernel
    let (_, k) ← terminalWrite m.kernel (some buf)
    some ⟨k, term.elim m.given fun t => m.give t (buf.map .char)⟩
  | .echo c => (putc m.kernel c).map fun k =>
      ⟨k, m.give m.kernel.currentTerminal [.char c]⟩
  | .clear => (clear m.kernel).map fun k => ⟨k, m.give m.kernel.currentTerminal [.clear]⟩
  | .switch termNum => (switchTerminal m.kernel termNum).map fun k => { m with kernel := k }

/-- No backspace comes while the cursor is in the upper left corner. -/
def NoCorner : Screen → List UInt8 → Prop
  | _, [] => True
  | s, c :: cs => ¬ (c = backspace ∧ s.x = 0 ∧ s.y = 0) ∧ NoCorner (reference s (.char c)) cs

/-- The running process belongs to `t`. VIDEO is the logical screen of `t` for it. -/
structure RunsOn (k : Kernel) (t : Fin 3) : Prop where
  terminal : getRunningTerminal k = some (some t)
  video : k.paging.phys video = some (k.surface t)

/-- What is assumed of a step. -/
def MuxOk (m : Mux) : MuxOp → Prop
  | .run k => Drawable (k.withScreens m.kernel)
  | .write buf => ∃ t, RunsOn m.kernel t ∧ NoCorner (m.kernel.logical t) buf
  | .echo _ => ∃ t, getRunningTerminal m.kernel = some (some t) ∧
      (t = m.kernel.currentTerminal → RunsOn m.kernel t)
  | .clear => ∃ t, getRunningTerminal m.kernel = some (some t) ∧
      (t = m.kernel.currentTerminal → RunsOn m.kernel t)
  | .switch _ => True

/-- Each logical screen is what the terminal's input makes of the screen it started with. -/
def Transparent (start : Fin 3 → Screen) (m : Mux) : Prop :=
  ∀ t, m.kernel.logical t = (m.given t).foldl reference (start t)

/-! ## One step -/

theorem Window.phys_video_unique {p : Paging} {proc pa pa' : Nat} (h : Window p proc pa)
    (h' : p.phys Mp3Kernel.video = some pa') : pa = pa' :=
  Option.some.inj (h.phys_video.symm.trans h')

/-- The loop of `terminal_write`, on the writer's own screen. -/
theorem terminalPuts_transparent (hk : Tidy k) (hvideo : k.paging.phys video = some (k.surface t))
    {buf : List UInt8} (hbuf : NoCorner (k.logical t) buf) :
    ∃ k', terminalPuts k t buf = some k' ∧ Tidy k' ∧
      k'.logical t = (buf.map Key.char).foldl reference (k.logical t) ∧
      ∀ u, u ≠ t → k'.logical u = k.logical u := by
  induction buf generalizing k with
  | nil => exact ⟨k, rfl, hk, rfl, fun _ _ => rfl⟩
  | cons c cs ih =>
    obtain ⟨pa, hw, hpa⟩ := hk.drawable.window
    obtain rfl := hw.phys_video_unique hvideo
    obtain ⟨hx, hy⟩ := hk.onScreen.cursor t
    have hno : ¬ Wraps k t c := by
      intro hwraps
      have h0 := Prod.mk.inj hwraps.2.2
      exact hbuf.1 ⟨hwraps.2.1, h0.1, h0.2⟩
    obtain ⟨k1, hstep, hpaging, h⟩ := terminalPutc_drawn hw hpa hk.drawable hx hy hno
    have hbase : (if t = k.currentTerminal then k.surface t else vidMemBufAddr t) = k.surface t := by
      unfold Kernel.surface
      split <;> rfl
    rw [hbase] at h
    obtain ⟨hx', hy'⟩ := printed_lt k.mem (k.surface t) (k.surface t) hx hy c
    have hk1 : Tidy k1 := ⟨h.drawable hk.drawable, h.onScreen hk.onScreen hx' hy'⟩
    obtain ⟨hself, hother⟩ := h.logical_printed hk.onScreen
    have hsurface : k1.surface t = k.surface t := by
      unfold Kernel.surface
      rw [h.frame.currentTerminal]
    obtain ⟨k', hrest, hk', hself', hother'⟩ := ih hk1 (by rw [hpaging, hsurface]; exact hvideo)
      (by rw [hself]; exact hbuf.2)
    refine ⟨k', ?_, hk', ?_, fun u hu => (hother' u hu).trans (hother u hu)⟩
    · unfold terminalPuts
      rw [hstep]
      exact hrest
    · rw [hself', hself]
      rfl

theorem Transparent.given {start : Fin 3 → Screen} {m : Mux} (h : Transparent start m)
    (keys : List Key) (hself : k.logical t = keys.foldl reference (m.kernel.logical t))
    (hother : ∀ u, u ≠ t → k.logical u = m.kernel.logical u) :
    Transparent start ⟨k, m.give t keys⟩ := by
  intro u
  show k.logical u = (Function.update m.given t (m.given t ++ keys) u).foldl reference (start u)
  by_cases hu : u = t
  · subst hu
    rw [Function.update_self, List.foldl_append, ← h u]
    exact hself
  · rw [Function.update_of_ne hu, ← h u]
    exact hother u hu

/-- `putc` and `clear` draw on the displayed terminal's screen. -/
theorem drawnAt_displayed {proc pa : Nat} (hk : Tidy k) (hw : Window k.paging proc pa)
    (hrun : t = k.currentTerminal → RunsOn k t) :
    drawnAt (hiddenTerminal k (some t)) pa = k.surface k.currentTerminal := by
  unfold hiddenTerminal
  rw [Option.filter_some, hk.drawable.id t]
  by_cases ht : t = k.currentTerminal
  · have hvideo := (hrun ht).video
    rw [ht] at hvideo ⊢
    rw [bne_self_eq_false, if_neg Bool.false_ne_true]
    exact hw.phys_video_unique hvideo
  · rw [if_pos (bne_iff_ne.mpr ht)]
    unfold Kernel.surface
    rw [if_pos rfl]
    rfl

theorem echo_transparent (hk : Tidy k) (hterm : getRunningTerminal k = some (some t))
    (hrun : t = k.currentTerminal → RunsOn k t) (c : UInt8) :
    ∃ k', putc k c = some k' ∧ Tidy k' ∧
      k'.logical k.currentTerminal = reference (k.logical k.currentTerminal) (.char c) ∧
      ∀ u, u ≠ k.currentTerminal → k'.logical u = k.logical u := by
  obtain ⟨pa, hw, hpa⟩ := hk.drawable.window
  have hx := hk.onScreen.x
  have hy := hk.onScreen.y
  obtain ⟨k', hstep, h⟩ := putc_drawn hw hpa hk.drawable hterm hx hy c
  rw [drawnAt_displayed hk hw hrun] at h
  obtain ⟨hx', hy'⟩ := printed_lt k.mem (k.surface k.currentTerminal)
    (k.surface k.currentTerminal) hx hy c
  have hcursor := cursor_displayed k
  rw [show k.screenX = (k.cursor k.currentTerminal).1 by rw [hcursor],
    show k.screenY = (k.cursor k.currentTerminal).2 by rw [hcursor]] at h
  exact ⟨k', hstep, ⟨h.drawable hk.drawable, h.onScreen hk.onScreen (by rw [hcursor]; exact hx')
    (by rw [hcursor]; exact hy')⟩, h.logical_printed hk.onScreen⟩

theorem clear_transparent (hk : Tidy k) (hterm : getRunningTerminal k = some (some t))
    (hrun : t = k.currentTerminal → RunsOn k t) :
    ∃ k', clear k = some k' ∧ Tidy k' ∧
      k'.logical k.currentTerminal = reference (k.logical k.currentTerminal) .clear ∧
      ∀ u, u ≠ k.currentTerminal → k'.logical u = k.logical u := by
  obtain ⟨pa, hw, hpa⟩ := hk.drawable.window
  obtain ⟨k', hstep, h⟩ := clear_drawn hw hpa hk.drawable hterm
  rw [drawnAt_displayed hk hw hrun] at h
  refine ⟨k', hstep, ⟨h.drawable hk.drawable, h.onScreen hk.onScreen (Nat.zero_lt_succ _)
    (Nat.zero_lt_succ _)⟩, ?_, fun u hu => h.logical_other (fun a ha =>
      fillMem_outside (by decide) ha) hu⟩
  rw [h.logical_self]
  exact screenAt_clear _ _

theorem switch_transparent (hk : Tidy k) (n : Nat) :
    ∃ k', switchTerminal k n = some k' ∧ Tidy k' ∧ ∀ u, k'.logical u = k.logical u := by
  by_cases hn : n < 3
  · obtain ⟨t, rfl⟩ : ∃ t : Fin 3, n = t.val := ⟨⟨n, hn⟩, rfl⟩
    by_cases ht : t = k.currentTerminal
    · refine ⟨k, ?_, hk, fun _ => rfl⟩
      unfold switchTerminal
      rw [dif_pos t.isLt, if_pos (by rw [ht])]
    · obtain ⟨hx, hy⟩ := hk.onScreen.saved t
      obtain ⟨k', hstep, h⟩ := switchTerminal_spec hk.drawable hx hy ht
      exact ⟨k', hstep, ⟨h.drawable hk.drawable, h.onScreen hk.onScreen⟩, h.logical ht⟩
  · refine ⟨k, ?_, hk, fun _ => rfl⟩
    unfold switchTerminal
    rw [dif_neg hn]

/-- What happens to the rest of the kernel changes no logical screen. -/
theorem withScreens_logical (k old : Kernel) (u : Fin 3) :
    (k.withScreens old).logical u = old.logical u := by
  unfold Kernel.logical Kernel.cursor Kernel.surface Kernel.withScreens
  rfl

theorem muxStep_transparent {start : Fin 3 → Screen} {m : Mux} {op : MuxOp}
    (hm : Tidy m.kernel ∧ Transparent start m) (hok : MuxOk m op) :
    ∃ m', muxStep m op = some m' ∧ Tidy m'.kernel ∧ Transparent start m' := by
  obtain ⟨hk, htrans⟩ := hm
  cases op with
  | run k =>
    refine ⟨_, rfl, ⟨hok, hk.onScreen.x, hk.onScreen.y, hk.onScreen.saved⟩, fun u => ?_⟩
    exact (withScreens_logical k m.kernel u).trans (htrans u)
  | write buf =>
    obtain ⟨t, hrun, hbuf⟩ := hok
    obtain ⟨k', hputs, hk', hself, hother⟩ := terminalPuts_transparent hk hrun.video hbuf
    have hwrite : ∃ ret, terminalWrite m.kernel (some buf) = some (ret, k') := by
      unfold terminalWrite
      rw [hrun.terminal, Option.bind_eq_bind, Option.bind_some]
      cases buf with
      | nil => exact ⟨-1, congrArg (fun k => some (-1, k)) (Option.some.inj hputs)⟩
      | cons b bs =>
        dsimp only
        rw [hk.drawable.id t, hputs]
        exact ⟨_, rfl⟩
    obtain ⟨ret, hret⟩ := hwrite
    refine ⟨⟨k', m.give t (buf.map .char)⟩, ?_, hk', htrans.given _ hself hother⟩
    unfold muxStep
    dsimp only
    rw [hrun.terminal, hret]
    rfl
  | echo c =>
    obtain ⟨t, hterm, hrun⟩ := hok
    obtain ⟨k', hstep, hk', hself, hother⟩ := echo_transparent hk hterm hrun c
    refine ⟨_, ?_, hk', htrans.given [.char c] hself hother⟩
    unfold muxStep
    dsimp only
    rw [hstep, Option.map_some]
  | clear =>
    obtain ⟨t, hterm, hrun⟩ := hok
    obtain ⟨k', hstep, hk', hself, hother⟩ := clear_transparent hk hterm hrun
    refine ⟨_, ?_, hk', htrans.given [.clear] hself hother⟩
    unfold muxStep
    dsimp only
    rw [hstep, Option.map_some]
  | switch n =>
    obtain ⟨k', hstep, hk', hsame⟩ := switch_transparent hk n
    refine ⟨{ m with kernel := k' }, ?_, hk', fun u => (hsame u).trans (htrans u)⟩
    unfold muxStep
    dsimp only
    rw [hstep, Option.map_some]

/-! ## Runs -/

/-- Nothing has been given to any terminal yet. -/
def Mux.start (k : Kernel) : Mux := ⟨k, fun _ => []⟩

/-- A run comes to its end, and each logical screen is what the reference renderer makes of
    its terminal's input. -/
theorem multiplexing_transparent (hk : Tidy k) {ops : List MuxOp}
    (hok : AllMeet muxStep MuxOk (Mux.start k) ops) :
    ∃ m, run muxStep (Mux.start k) ops = some m ∧
      ∀ t, m.kernel.logical t = (m.given t).foldl reference (k.logical t) := by
  obtain ⟨m, hrun, -, hm⟩ := run_of_allMeet
    (I := fun m : Mux => Tidy m.kernel ∧ Transparent k.logical m)
    (fun _ _ hm hok => muxStep_transparent hm hok) ⟨hk, fun _ => rfl⟩ hok
  exact ⟨m, hrun, hm⟩

theorem Booted.runsOn (h : Booted fs k) : RunsOn k 0 where
  terminal := h.runningTerminal
  video := by
    unfold Kernel.surface
    rw [if_pos h.spec.currentTerminal.symm]
    exact h.spec.window.phys_video

theorem multiplexing_transparent_smallImage : ∃ k m, Booted smallImage k ∧
    run muxStep (Mux.start k) [.write [0x41, newline], .switch 1] = some m ∧
      ∀ t, m.kernel.logical t = (m.given t).foldl reference (k.logical t) := by
  obtain ⟨k, hk⟩ := booted_smallImage
  have hbuf : NoCorner (k.logical 0) [0x41, newline] :=
    ⟨fun h => absurd h.1 (by decide), fun h => absurd h.1 (by decide), trivial⟩
  have hmeet : AllMeet muxStep MuxOk (Mux.start k) [.write [0x41, newline], .switch 1] :=
    ⟨⟨0, hk.runsOn, hbuf⟩, fun _ _ => ⟨trivial, fun _ _ => trivial⟩⟩
  obtain ⟨m, hm⟩ := multiplexing_transparent hk.tidy hmeet
  exact ⟨k, m, hk, hm⟩

/-- After boot and Ctrl+L, a switch to terminal 1 and back leaves VIDEO on the buffer of
    terminal 1. An echo then does not show on terminal 0. -/
theorem echo_lost : ∃ k m, Booted smallImage k ∧
    run muxStep (Mux.start k) [.clear, .switch 1, .switch 0, .echo 0x41] = some m ∧
      m.kernel.logical 0 ≠ (m.given 0).foldl reference (k.logical 0) := by
  obtain ⟨k, hb⟩ := booted_smallImage
  have hcur := hb.spec.currentTerminal
  have hw : Window k.paging (getCurrentPcb k).pid video := by
    rw [hb.currentPid]
    exact hb.spec.window
  obtain ⟨k1, h1, hd1⟩ := clear_drawn hw (Or.inl rfl) hb.tidy.drawable hb.runningTerminal
  have hk1 : Tidy k1 := ⟨hd1.drawable hb.tidy.drawable,
    hd1.onScreen hb.tidy.onScreen (Nat.zero_lt_succ _) (Nat.zero_lt_succ _)⟩
  have hcur1 : k1.currentTerminal = 0 := hd1.frame.currentTerminal.trans hcur
  obtain ⟨k2, h2, hs2⟩ := switchTerminal_spec (t := 1) hk1.drawable (hk1.onScreen.saved 1).1
    (hk1.onScreen.saved 1).2 (by rw [hcur1]; decide)
  have hk2 : Tidy k2 := ⟨hs2.drawable hk1.drawable, hs2.onScreen hk1.onScreen⟩
  obtain ⟨k3, h3, hs3⟩ := switchTerminal_spec (t := 0) hk2.drawable (hk2.onScreen.saved 0).1
    (hk2.onScreen.saved 0).2 (by rw [hs2.currentTerminal]; decide)
  have hk3 : Tidy k3 := ⟨hs3.drawable hk2.drawable, hs3.onScreen hk2.onScreen⟩
  have hterm3 : getRunningTerminal k3 = some (some 0) := by
    rw [hs3.terminal, hs2.terminal, getRunningTerminal_frame hd1.frame, hb.runningTerminal]
  have hw3 : Window k3.paging (getCurrentPcb k3).pid (vidMemBufAddr 1) := by
    have h := hs3.window
    rw [hs2.currentTerminal, ← hs3.currentPcb] at h
    exact h
  obtain ⟨k4, h4, hd4⟩ := putc_drawn hw3 (Or.inr ⟨1, rfl⟩) hk3.drawable hterm3 hk3.onScreen.x
    hk3.onScreen.y 0x41
  have hcur3 : k3.currentTerminal = 0 := hs3.currentTerminal
  -- before the echo terminal 0 is blank
  have hblank : k3.logical 0 = TextScreen.clear (glyph space) := by
    have hself := hd1.logical_self
    rw [drawnAt_displayed hb.tidy hw fun _ => hb.runsOn, screenAt_clear, hcur] at hself
    rw [hs3.logical (by rw [hs2.currentTerminal]; decide),
      hs2.logical (by rw [hcur1]; decide), hself]
  -- the echo leaves its first cell alone
  have hcell : (k4.logical 0).cells 0 = glyph space := by
    have hhid : hiddenTerminal k3 (some 0) = none := by
      unfold hiddenTerminal
      rw [Option.filter_some, hk3.drawable.id, hcur3]
      rfl
    rw [hhid, hcur3] at hd4
    have hsurface : k3.surface 0 = video := by
      unfold Kernel.surface
      rw [if_pos hcur3.symm]
    have hout : ∀ j, j < 2 → (printed k3.mem (vidMemBufAddr 1) (vidMemBufAddr 1) k3.screenX
        k3.screenY 0x41).mem (video + j) = k3.mem (video + j) := by
      intro j hj
      have hpage : Outside (vidMemBufAddr 1) (video + j) := outside_page
        (vidMemBufAddr_aligned 1) rfl (video_ne_vidMemBufAddr 1).symm
        (Nat.lt_trans hj (by decide))
      exact printed_outside hk3.onScreen.x hk3.onScreen.y hpage hpage
    have hsame : (k4.logical 0).cells 0 = (k3.logical 0).cells 0 := by
      rw [hd4.logical_self, hsurface]
      unfold Kernel.logical
      rw [hsurface]
      exact Prod.ext (hout 0 (by decide)) (hout 1 (by decide))
    rw [hsame, hblank]
    rfl
  have h2' : switchTerminal k1 1 = some k2 := h2
  have h3' : switchTerminal k2 0 = some k3 := h3
  obtain ⟨given, hgiven⟩ : ∃ given, given = (Mux.mk k3 ((Mux.start k).give k.currentTerminal
    [.clear])).give k3.currentTerminal [.char 0x41] := ⟨_, rfl⟩
  have hkeys : given 0 = [.clear, .char 0x41] := by
    rw [hgiven, hcur, hcur3]
    rfl
  refine ⟨k, ⟨k4, given⟩, hb, ?_, fun heq => ?_⟩
  · rw [run_cons]
    simp only [muxStep, Mux.start, h1, Option.map_some, Option.bind_some, run, h2', h3', h4, hgiven]
  · have h0 := congrFun (congrArg TextScreen.cells heq) 0
    dsimp only at h0
    rw [hcell, hkeys] at h0
    have hblank' : glyph space = (reference (TextScreen.clear (glyph space)) (.char 0x41)).cells 0 :=
      h0
    exact absurd hblank' (by decide)

end Mp3Kernel
