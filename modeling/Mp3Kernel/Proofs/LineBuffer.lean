/-
  The line buffer is not overrun as long as keys come in time.

  Two kinds of key come too late. Enter has no limit: once a full line has ended, with the
  index at 128, another one is stored behind the buffer, in the index itself (`line_overrun`).
  And a character that is stored at a position the reader has already cleared stays there when
  the reader resets the index. `line_buffer_safe`: in a run without such keys every key stores
  inside the buffer, and what lies from the index on is 0.
-/
import Mp3Kernel.Model.Keyboard
import Mp3Kernel.Proofs.Cursor

namespace Mp3Kernel

open Base.Runs

variable {k k' : Kernel} {c c' : Console} {t : Fin 3}

/-! ## What a key does to the line -/

/-- The line buffer after an action, but for the screen. -/
def KeyAction.edit (term : Terminal) : KeyAction → Terminal
  | .erase => eraseLast term
  | .append b => appendLast term b
  | _ => term

/-- Where the action stores a byte. -/
def KeyAction.storesAt (term : Terminal) : KeyAction → Option Nat
  | .erase => some (term.lineBufIndex - 1)
  | .append _ => some term.lineBufIndex
  | _ => none

/-- Two terminals agree on the line, and on the process they belong to. -/
structure SameLine (a b : Terminal) : Prop where
  lineBuf : b.lineBuf = a.lineBuf
  lineBufIndex : b.lineBufIndex = a.lineBufIndex
  readFlag : b.readFlag = a.readFlag
  pid : b.pid = a.pid

theorem SameTerminal.sameLine {a b : Terminal} (h : SameTerminal a b) : SameLine a b := by
  obtain ⟨x, y, rfl⟩ := h
  exact ⟨rfl, rfl, rfl, rfl⟩

theorem storeLine_position (term : Terminal) (i x y : Nat) (b : UInt8) :
    ({ term with screenX := x, screenY := y } : Terminal).storeLine i b =
      { term.storeLine i b with screenX := x, screenY := y } := by
  unfold Terminal.storeLine
  split <;> rfl

theorem SameTerminal.edit {a b : Terminal} (h : SameTerminal a b) (action : KeyAction) :
    SameTerminal (action.edit a) (action.edit b) := by
  obtain ⟨x, y, rfl⟩ := h
  refine ⟨x, y, ?_⟩
  cases action with
  | ignore => rfl
  | request t => rfl
  | clear => rfl
  | erase => exact storeLine_position { a with lineBufIndex := a.lineBufIndex - 1 } _ x y 0
  | append b =>
    show appendLast _ b = _
    unfold appendLast
    rw [storeLine_position]
    rfl

/-- The kernel after a key, as far as the lines go. -/
structure Keyed (k k' : Kernel) (action : KeyAction) : Prop where
  pcbs : k'.pcbs = k.pcbs
  runningPid : k'.runningPid = k.runningPid
  currentTerminal : k'.currentTerminal = k.currentTerminal
  self : SameLine (action.edit (k.terminals k.currentTerminal)) (k'.terminals k.currentTerminal)
  other : ∀ t, t ≠ k.currentTerminal → SameLine (k.terminals t) (k'.terminals t)

theorem keyed_of_frame {action : KeyAction} (h : Frame k k')
    (hedit : ∀ term, action.edit term = term) : Keyed k k' action :=
  ⟨h.pcbs, h.runningPid, h.currentTerminal, by rw [hedit]; exact (h.terminals _).sameLine,
    fun t _ => (h.terminals t).sameLine⟩

theorem KeyAction.keyed {action : KeyAction} (h : action.apply k = some k') :
    Keyed k k' action := by
  cases action with
  | ignore =>
    obtain rfl := Option.some.inj h
    exact keyed_of_frame (Frame.refl k) fun _ => rfl
  | request t =>
    obtain rfl := Option.some.inj h
    exact ⟨rfl, rfl, rfl, (SameTerminal.refl _).sameLine, fun _ _ => (SameTerminal.refl _).sameLine⟩
  | clear => exact keyed_of_frame (frame_clear h) fun _ => rfl
  | erase =>
    have hf := frame_putc h
    refine ⟨hf.pcbs, hf.runningPid, hf.currentTerminal, ?_, fun t ht => ?_⟩
    · have hself := hf.terminals k.currentTerminal
      rw [setTerminal_terminals, Function.update_self] at hself
      exact hself.sameLine
    · have hother := hf.terminals t
      rw [setTerminal_terminals, Function.update_of_ne ht] at hother
      exact hother.sameLine
  | append b =>
    obtain ⟨k1, h1, rfl⟩ := Option.map_eq_some_iff.mp h
    have hf := frame_putc h1
    refine ⟨hf.pcbs, hf.runningPid, hf.currentTerminal, ?_, fun t ht => ?_⟩
    · rw [setTerminal_terminals, hf.currentTerminal, Function.update_self]
      exact ((hf.terminals k.currentTerminal).edit (.append b)).sameLine
    · rw [setTerminal_terminals, hf.currentTerminal, Function.update_of_ne ht]
      exact (hf.terminals t).sameLine

theorem switchTerminal_lines {n : Nat} (h : switchTerminal k n = some k') :
    k'.pcbs = k.pcbs ∧ k'.runningPid = k.runningPid ∧
      ∀ t, SameLine (k.terminals t) (k'.terminals t) := by
  unfold switchTerminal at h
  split at h
  · split at h
    · obtain rfl := Option.some.inj h
      exact ⟨rfl, rfl, fun _ => (SameTerminal.refl _).sameLine⟩
    · obtain ⟨k1, h1, h2⟩ := Option.bind_eq_some_iff.mp h
      obtain rfl := Option.some.inj h2
      have hf := frame_restoreTerminal h1
      refine ⟨hf.pcbs, hf.runningPid, fun t => ?_⟩
      have hline := (hf.terminals t).sameLine
      rw [setTerminal_terminals]
      by_cases ht : t = ⟨n, ‹_›⟩
      · subst ht
        rw [Function.update_self]
        exact ⟨hline.lineBuf, hline.lineBufIndex, hline.readFlag, hline.pid⟩
      · rw [Function.update_of_ne ht]
        exact hline
  · obtain rfl := Option.some.inj h
    exact ⟨rfl, rfl, fun _ => (SameTerminal.refl _).sameLine⟩

/-! ## The property -/

/-- The index is in the buffer or just behind it, and what lies from it on is 0. -/
structure LineOk (term : Terminal) : Prop where
  index : term.lineBufIndex ≤ lineBufferSize
  zero : ∀ j, term.lineBufIndex ≤ j → j < lineBufferSize → term.lineBuf j = 0

def LinesOk (c : Console) : Prop := ∀ t, LineOk (c.kernel.terminals t)

/-- A key stores inside the buffer of the displayed terminal. -/
def KeyInside (c : Console) : ConsoleOp → Prop
  | .key scancode => ∀ i, (pressAction c.kernel c.keys scancode).storesAt
      (c.kernel.terminals c.kernel.currentTerminal) = some i → i < lineBufferSize
  | _ => True

/-- An Enter does not find the line ended behind the last position, and no reader has cleared
    the position a key stores its character at. -/
def InTime (c : Console) : ConsoleOp → Prop
  | .key scancode => ∀ b, pressAction c.kernel c.keys scancode = .append b →
      (b = newline →
          (c.kernel.terminals c.kernel.currentTerminal).lineBufIndex < lineBufferSize) ∧
        ∀ pid t lenstr i, c.readers pid = .clear t lenstr c.kernel.currentTerminal i →
          i ≤ (c.kernel.terminals c.kernel.currentTerminal).lineBufIndex
  | _ => True

/-- What the run keeps: also, what a reader has cleared stays clear. -/
structure LinesKept (c : Console) : Prop where
  lines : LinesOk c
  cleared : ∀ pid t lenstr u i, c.readers pid = .clear t lenstr u i →
    i ≤ lineBufferSize ∧ ∀ j, j < i → (c.kernel.terminals u).lineBuf j = 0

theorem LineOk.of_same {a b : Terminal} (h : LineOk a) (hs : SameLine a b) : LineOk b := by
  refine ⟨by rw [hs.lineBufIndex]; exact h.index, fun j hj hlt => ?_⟩
  rw [hs.lineBufIndex] at hj
  rw [hs.lineBuf]
  exact h.zero j hj hlt

theorem eraseLast_line {term : Terminal} (h : LineOk term) (hpos : 0 < term.lineBufIndex) :
    (eraseLast term).lineBufIndex = term.lineBufIndex - 1 ∧
      (eraseLast term).lineBuf = Function.update term.lineBuf (term.lineBufIndex - 1) 0 := by
  have hlt : term.lineBufIndex - 1 < lineBufferSize := by
    have := h.index
    omega
  unfold eraseLast Terminal.storeLine
  rw [if_pos hlt]
  exact ⟨rfl, rfl⟩

theorem appendLast_line {term : Terminal} (hlt : term.lineBufIndex < lineBufferSize) (b : UInt8) :
    (appendLast term b).lineBufIndex = term.lineBufIndex + 1 ∧
      (appendLast term b).lineBuf = Function.update term.lineBuf term.lineBufIndex b := by
  have hword : (term.lineBufIndex + 1) % u32 = term.lineBufIndex + 1 := by
    unfold lineBufferSize at hlt
    unfold u32
    omega
  unfold appendLast Terminal.storeLine
  rw [if_pos hlt]
  exact ⟨hword, rfl⟩

theorem LineOk.erase {term : Terminal} (h : LineOk term) (hpos : 0 < term.lineBufIndex) :
    LineOk (eraseLast term) := by
  obtain ⟨hidx, hbuf⟩ := eraseLast_line h hpos
  have hle := h.index
  refine ⟨by rw [hidx]; omega, fun j hj hlt => ?_⟩
  rw [hidx] at hj
  rw [hbuf]
  by_cases he : j = term.lineBufIndex - 1
  · rw [he, Function.update_self]
  · rw [Function.update_of_ne he]
    exact h.zero j (by omega) hlt

theorem LineOk.append {term : Terminal} (h : LineOk term)
    (hlt : term.lineBufIndex < lineBufferSize) (b : UInt8) : LineOk (appendLast term b) := by
  obtain ⟨hidx, hbuf⟩ := appendLast_line hlt b
  refine ⟨by rw [hidx]; omega, fun j hj hjlt => ?_⟩
  rw [hidx] at hj
  rw [hbuf, Function.update_of_ne (by omega)]
  exact h.zero j (by omega) hjlt

/-- A character is only erased where there is one. -/
theorem pressAction_erase {keys : Keyboard} {scancode : Nat}
    (h : pressAction k keys scancode = .erase) :
    0 < (k.terminals k.currentTerminal).lineBufIndex := by
  unfold pressAction keyAction at h
  repeat' split at h
  all_goals first
    | assumption
    | cases h

/-- Only a newline is stored at the last position or behind it. -/
theorem pressAction_append {keys : Keyboard} {scancode : Nat} {b : UInt8}
    (h : pressAction k keys scancode = .append b) :
    (k.terminals k.currentTerminal).lineBufIndex < lineBufferSize - 1 ∨ b = newline := by
  unfold pressAction keyAction at h
  repeat' split at h
  all_goals first
    | cases h; exact Or.inl ‹_›
    | cases h; exact Or.inr ‹_›
    | cases h

theorem InTime.inside {scancode : Nat} {b : UInt8} (htime : InTime c (.key scancode))
    (hb : pressAction c.kernel c.keys scancode = .append b) :
    (c.kernel.terminals c.kernel.currentTerminal).lineBufIndex < lineBufferSize := by
  rcases pressAction_append hb with hlt | hnl
  · exact Nat.lt_of_lt_of_le hlt (Nat.sub_le _ _)
  · exact (htime b hb).1 hnl

/-! ## One step -/

/-- What the action does to the displayed terminal's line, in time. -/
theorem LinesKept.edit (h : LinesKept c) {scancode : Nat} (htime : InTime c (.key scancode)) :
    LineOk ((pressAction c.kernel c.keys scancode).edit
        (c.kernel.terminals c.kernel.currentTerminal)) ∧
      ∀ pid t l i, c.readers pid = .clear t l c.kernel.currentTerminal i → ∀ j, j < i →
        ((pressAction c.kernel c.keys scancode).edit
          (c.kernel.terminals c.kernel.currentTerminal)).lineBuf j = 0 := by
  have hok := h.lines c.kernel.currentTerminal
  have hclear : ∀ pid t l i, c.readers pid = .clear t l c.kernel.currentTerminal i →
      ∀ j, j < i → (c.kernel.terminals c.kernel.currentTerminal).lineBuf j = 0 :=
    fun pid t l i hr => (h.cleared pid t l _ i hr).2
  cases haction : pressAction c.kernel c.keys scancode with
  | erase =>
    have hpos := pressAction_erase haction
    refine ⟨hok.erase hpos, fun pid t l i hr j hj => ?_⟩
    show (eraseLast _).lineBuf j = 0
    rw [(eraseLast_line hok hpos).2]
    by_cases he : j = (c.kernel.terminals c.kernel.currentTerminal).lineBufIndex - 1
    · rw [he, Function.update_self]
    · rw [Function.update_of_ne he]
      exact hclear pid t l i hr j hj
  | append b =>
    have hlt := htime.inside haction
    obtain ⟨-, hreaders⟩ := htime b haction
    refine ⟨hok.append hlt b, fun pid t l i hr j hj => ?_⟩
    have hle := hreaders pid t l i hr
    show (appendLast _ b).lineBuf j = 0
    rw [(appendLast_line hlt b).2, Function.update_of_ne (by omega)]
    exact hclear pid t l i hr j hj
  | ignore => exact ⟨hok, hclear⟩
  | request t => exact ⟨hok, hclear⟩
  | clear => exact ⟨hok, hclear⟩

theorem Console.key_some {scancode : Nat} (h : c.key scancode = some c') :
    ∃ k', Keyed c.kernel k' (pressAction c.kernel c.keys scancode) ∧
      c' = { c with
        kernel := k'
        keys := scanKey c.keys scancode
        stored := c.trace (pressAction c.kernel c.keys scancode) } := by
  obtain ⟨⟨k', keys⟩, hkey, rfl⟩ := Option.map_eq_some_iff.mp h
  obtain ⟨k1, happly, hk1⟩ := Option.map_eq_some_iff.mp hkey
  obtain ⟨rfl, rfl⟩ := Prod.mk.inj hk1
  exact ⟨k1, KeyAction.keyed happly, rfl⟩

theorem LinesKept.key (h : LinesKept c) {scancode : Nat} (htime : InTime c (.key scancode))
    (hstep : c.key scancode = some c') : LinesKept c' := by
  obtain ⟨k', hkeyed, rfl⟩ := Console.key_some hstep
  obtain ⟨hok, hclear⟩ := h.edit htime
  refine ⟨fun t => ?_, fun pid t l u i hr => ⟨(h.cleared pid t l u i hr).1, fun j hj => ?_⟩⟩
  · by_cases ht : t = c.kernel.currentTerminal
    · rw [ht]
      exact hok.of_same hkeyed.self
    · exact (h.lines t).of_same (hkeyed.other t ht)
  · show (k'.terminals u).lineBuf j = 0
    by_cases hu : u = c.kernel.currentTerminal
    · subst hu
      rw [hkeyed.self.lineBuf]
      exact hclear pid t l i hr j hj
    · rw [(hkeyed.other u hu).lineBuf]
      exact (h.cleared pid t l u i hr).2 j hj

/-- A step that leaves the lines alone, and no reader further in its clearing. -/
theorem LinesKept.of_lines (h : LinesKept c)
    (hlines : ∀ t, (c'.kernel.terminals t).lineBuf = (c.kernel.terminals t).lineBuf ∧
      (c'.kernel.terminals t).lineBufIndex = (c.kernel.terminals t).lineBufIndex)
    (hreaders : ∀ pid t l u i, c'.readers pid = .clear t l u i →
      c.readers pid = .clear t l u i ∨ i = 0) : LinesKept c' := by
  refine ⟨fun t => ⟨?_, fun j hj hlt => ?_⟩, fun pid t l u i hr => ?_⟩
  · rw [(hlines t).2]
    exact (h.lines t).index
  · rw [(hlines t).2] at hj
    rw [(hlines t).1]
    exact (h.lines t).zero j hj hlt
  · rw [(hlines u).1]
    rcases hreaders pid t l u i hr with hr' | rfl
    · exact h.cleared pid t l u i hr'
    · exact ⟨Nat.zero_le _, fun j hj => absurd hj (Nat.not_lt_zero j)⟩

/-- The running process's reader is elsewhere; the others are where they were. -/
theorem setReader_cases {reader : Reader} (hne : ∀ t l u i, reader = .clear t l u i → i = 0) :
    ∀ pid t l u i, (c.setReader reader).readers pid = .clear t l u i →
      c.readers pid = .clear t l u i ∨ i = 0 := by
  intro pid t l u i hr
  by_cases hp : pid = c.kernel.runningPid
  · subst hp
    have hself : (c.setReader reader).readers c.kernel.runningPid = reader :=
      Function.update_self _ _ _
    exact Or.inr (hne t l u i (hself.symm.trans hr))
  · have hother : (c.setReader reader).readers pid = c.readers pid := Function.update_of_ne hp _ _
    exact Or.inl (hother.symm.trans hr)

theorem LinesKept.setReader (h : LinesKept c) {reader : Reader}
    (hne : ∀ t l u i, reader = .clear t l u i → i = 0) : LinesKept (c.setReader reader) :=
  h.of_lines (fun _ => ⟨rfl, rfl⟩) (setReader_cases hne)

/-- A change of the read flag. -/
theorem LinesKept.setReadFlag (h : LinesKept c) (t : Fin 3) (flag : Bool) :
    LinesKept (c.setTerminal t { c.kernel.terminals t with readFlag := flag }) := by
  refine h.of_lines (fun u => ?_) fun _ _ _ _ _ hr => Or.inl hr
  unfold Console.setTerminal
  rw [setTerminal_terminals]
  by_cases hu : u = t
  · rw [hu, Function.update_self]
    exact ⟨rfl, rfl⟩
  · rw [Function.update_of_ne hu]
    exact ⟨rfl, rfl⟩

theorem LinesKept.setBuffer (h : LinesKept c) (i : Nat) (b : UInt8) :
    LinesKept (c.setBuffer i b) :=
  h.of_lines (fun _ => ⟨rfl, rfl⟩) fun _ _ _ _ _ hr => Or.inl hr

theorem LinesKept.read (h : LinesKept c) {nbytes : Int} (hstep : c.read nbytes = some c') :
    LinesKept c' := by
  unfold Console.read at hstep
  split at hstep
  · obtain rfl := Option.some.inj hstep
    exact h
  obtain ⟨term, -, hstep⟩ := Option.bind_eq_some_iff.mp hstep
  cases term with
  | none =>
    obtain rfl := Option.some.inj hstep
    exact h
  | some t =>
    obtain rfl := Option.some.inj hstep
    exact (h.setReadFlag t true).setReader fun _ _ _ _ he => nomatch he

/-- A reader clears one more position. -/
theorem LinesKept.clearNext (h : LinesKept c) {lenstr : Nat} {u : Fin 3} {i : Nat}
    (hr : c.readers c.kernel.runningPid = .clear t lenstr u i) (hi : i < lineBufferSize) :
    LinesKept ((c.setTerminal u { c.kernel.terminals u with
      lineBuf := Function.update (c.kernel.terminals u).lineBuf i 0 }).setReader
        (.clear t lenstr u (i + 1))) := by
  generalize hc' : (c.setTerminal u _).setReader _ = c'
  have hbuf : ∀ v j, (c.kernel.terminals v).lineBuf j = 0 →
      (c'.kernel.terminals v).lineBuf j = 0 := by
    intro v j hzero
    subst hc'
    show (Function.update c.kernel.terminals u _ v).lineBuf j = 0
    by_cases hv : v = u
    · subst hv
      rw [Function.update_self]
      by_cases hj : j = i
      · subst hj
        exact Function.update_self _ _ _
      · exact (Function.update_of_ne hj _ _).trans hzero
    · rw [Function.update_of_ne hv]
      exact hzero
  have hindex : ∀ v, (c'.kernel.terminals v).lineBufIndex =
      (c.kernel.terminals v).lineBufIndex := by
    intro v
    subst hc'
    show (Function.update c.kernel.terminals u _ v).lineBufIndex = _
    by_cases hv : v = u
    · rw [hv, Function.update_self]
    · rw [Function.update_of_ne hv]
  have hself : c'.readers c.kernel.runningPid = .clear t lenstr u (i + 1) := by
    subst hc'
    exact Function.update_self _ _ _
  have hother : ∀ pid, pid ≠ c.kernel.runningPid → c'.readers pid = c.readers pid := by
    intro pid hp
    subst hc'
    exact Function.update_of_ne hp _ _
  refine ⟨fun v => ⟨?_, fun j hj hlt => ?_⟩, fun pid t' l v i' hr' => ?_⟩
  · rw [hindex]
    exact (h.lines v).index
  · rw [hindex] at hj
    exact hbuf v j ((h.lines v).zero j hj hlt)
  · by_cases hp : pid = c.kernel.runningPid
    · subst hp
      obtain ⟨rfl, rfl, rfl, rfl⟩ := Reader.clear.inj (hself.symm.trans hr')
      obtain ⟨-, hzero⟩ := h.cleared _ _ _ _ _ hr
      refine ⟨by omega, fun j hj => ?_⟩
      by_cases hji : j = i
      · subst hji hc'
        show (Function.update c.kernel.terminals u _ u).lineBuf j = 0
        rw [Function.update_self]
        exact Function.update_self _ _ _
      · exact hbuf u j (hzero j (by omega))
    · obtain ⟨hle, hzero⟩ := h.cleared pid t' l v i' ((hother pid hp).symm.trans hr')
      exact ⟨hle, fun j hj => hbuf v j (hzero j hj)⟩

/-- The reader resets the index of a buffer it has cleared. -/
theorem LinesKept.resetIndex (h : LinesKept c) {lenstr : Nat} {u : Fin 3} {i : Nat}
    (hr : c.readers c.kernel.runningPid = .clear t lenstr u i) (hi : ¬ i < lineBufferSize) :
    LinesKept ((c.setTerminal u { c.kernel.terminals u with lineBufIndex := 0 }).setReader
      (.done t lenstr)) := by
  obtain ⟨-, hzero⟩ := h.cleared _ _ _ _ _ hr
  refine LinesKept.setReader ⟨fun v => ?_, fun pid t' l v i' hr' => ?_⟩ fun _ _ _ _ he => nomatch he
  · show LineOk (Function.update c.kernel.terminals u _ v)
    by_cases hv : v = u
    · rw [hv, Function.update_self]
      exact ⟨Nat.zero_le _, fun j _ hj => hzero j (by omega)⟩
    · rw [Function.update_of_ne hv]
      exact h.lines v
  · obtain ⟨hle, hz⟩ := h.cleared pid t' l v i' hr'
    refine ⟨hle, fun j hj => ?_⟩
    show (Function.update c.kernel.terminals u _ v).lineBuf j = 0
    by_cases hv : v = u
    · rw [hv] at hz ⊢
      rw [Function.update_self]
      exact hz j hj
    · rw [Function.update_of_ne hv]
      exact hz j hj

/-- Everything the running process's read can do in one step. -/
inductive ReaderStep (c : Console) : Console → Prop where
  | found {t : Fin 3} {nbytes i : Nat}
      (hr : c.readers c.kernel.runningPid = .scan t nbytes i)
      (hnl : (c.kernel.terminals t).lineBuf i = newline) :
      ReaderStep c (c.setReader (.copy t nbytes i 0))
  | scan {t : Fin 3} {nbytes i : Nat}
      (hr : c.readers c.kernel.runningPid = .scan t nbytes i)
      (hnl : (c.kernel.terminals t).lineBuf i ≠ newline) :
      ReaderStep c
        (c.setReader (.scan t nbytes (if i + 1 < lineBufferSize then i + 1 else 0)))
  | copyNext {t : Fin 3} {nbytes nl j : Nat}
      (hr : c.readers c.kernel.runningPid = .copy t nbytes nl j)
      (hj : j < min (nl + 1) nbytes) :
      ReaderStep c ((c.setBuffer j ((c.kernel.terminals t).lineBuf j)).setReader
        (.copy t nbytes nl (j + 1)))
  | copied {t u : Fin 3} {nbytes nl j : Nat}
      (hr : c.readers c.kernel.runningPid = .copy t nbytes nl j)
      (hj : ¬ j < min (nl + 1) nbytes) (hterm : getRunningTerminal c.kernel = some (some u)) :
      ReaderStep c ((c.setBuffer (min nbytes lineBufferSize) newline).setReader
        (.clear t (min (nl + 1) nbytes) u 0))
  /-- `clear_line_buf` fails, and the line stays. -/
  | uncleared {t : Fin 3} {nbytes nl j : Nat}
      (hr : c.readers c.kernel.runningPid = .copy t nbytes nl j)
      (hj : ¬ j < min (nl + 1) nbytes) (hterm : getRunningTerminal c.kernel = some none) :
      ReaderStep c ((c.setBuffer (min nbytes lineBufferSize) newline).setReader
        (.done t (min (nl + 1) nbytes)))
  | clearNext {t u : Fin 3} {l i : Nat}
      (hr : c.readers c.kernel.runningPid = .clear t l u i) (hi : i < lineBufferSize) :
      ReaderStep c ((c.setTerminal u { c.kernel.terminals u with
        lineBuf := Function.update (c.kernel.terminals u).lineBuf i 0 }).setReader
          (.clear t l u (i + 1)))
  | resetIndex {t u : Fin 3} {l i : Nat}
      (hr : c.readers c.kernel.runningPid = .clear t l u i) (hi : ¬ i < lineBufferSize) :
      ReaderStep c ((c.setTerminal u { c.kernel.terminals u with lineBufIndex := 0 }).setReader
        (.done t l))
  | done {t : Fin 3} {l : Nat} (hr : c.readers c.kernel.runningPid = .done t l) :
      ReaderStep c ((c.setTerminal t { c.kernel.terminals t with readFlag := false }).return t l)

theorem readerStep_cases (hstep : c.readerStep = some c') : ReaderStep c c' := by
  unfold Console.readerStep at hstep
  cases hr : c.readers c.kernel.runningPid with
  | idle =>
    rw [hr] at hstep
    cases hstep
  | scan t nbytes i =>
    rw [hr] at hstep
    dsimp only at hstep
    split at hstep
    · rename_i hnl
      obtain rfl := Option.some.inj hstep
      exact .found hr hnl
    · rename_i hnl
      obtain rfl := Option.some.inj hstep
      exact .scan hr hnl
  | copy t nbytes nl j =>
    rw [hr] at hstep
    dsimp only at hstep
    split at hstep
    · rename_i hj
      obtain rfl := Option.some.inj hstep
      exact .copyNext hr hj
    · rename_i hj
      unfold Console.copied at hstep
      obtain ⟨term, hterm, hstep⟩ := Option.bind_eq_some_iff.mp hstep
      cases term with
      | none =>
        obtain rfl := Option.some.inj hstep
        exact .uncleared hr hj hterm
      | some u =>
        obtain rfl := Option.some.inj hstep
        exact .copied hr hj hterm
  | clear t l u i =>
    rw [hr] at hstep
    dsimp only at hstep
    split at hstep
    · rename_i hi
      obtain rfl := Option.some.inj hstep
      exact .clearNext hr hi
    · rename_i hi
      obtain rfl := Option.some.inj hstep
      exact .resetIndex hr hi
  | done t l =>
    rw [hr] at hstep
    obtain rfl := Option.some.inj hstep
    exact .done hr

theorem LinesKept.readerStep (h : LinesKept c) (hstep : c.readerStep = some c') :
    LinesKept c' := by
  cases readerStep_cases hstep with
  | found hr hnl => exact h.setReader fun _ _ _ _ he => nomatch he
  | scan hr hnl => exact h.setReader fun _ _ _ _ he => nomatch he
  | copyNext hr hj => exact (h.setBuffer _ _).setReader fun _ _ _ _ he => nomatch he
  | copied hr hj hterm =>
    exact (h.setBuffer _ _).setReader fun _ _ _ _ he => ((Reader.clear.inj he).2.2.2).symm
  | uncleared hr hj hterm => exact (h.setBuffer _ _).setReader fun _ _ _ _ he => nomatch he
  | clearNext hr hi => exact h.clearNext hr hi
  | resetIndex hr hi => exact h.resetIndex hr hi
  | @done t l hr =>
    have hidle : LinesKept ((c.setTerminal t { c.kernel.terminals t with
        readFlag := false }).setReader .idle) :=
      (h.setReadFlag t false).setReader fun _ _ _ _ he => nomatch he
    exact hidle.of_lines (fun _ => ⟨rfl, rfl⟩) fun _ _ _ _ _ hr => Or.inl hr

theorem LinesKept.step (h : LinesKept c) {op : ConsoleOp} (htime : InTime c op)
    (hstep : consoleStep c op = some c') : LinesKept c' := by
  cases op with
  | key scancode => exact h.key htime hstep
  | switch n =>
    obtain ⟨k', hk', rfl⟩ := Option.map_eq_some_iff.mp hstep
    obtain ⟨-, -, hlines⟩ := switchTerminal_lines hk'
    exact h.of_lines (fun t => ⟨(hlines t).lineBuf, (hlines t).lineBufIndex⟩)
      fun _ _ _ _ _ hr => Or.inl hr
  | run paging pid =>
    obtain rfl := Option.some.inj hstep
    exact h.of_lines (fun _ => ⟨rfl, rfl⟩) fun _ _ _ _ _ hr => Or.inl hr
  | read nbytes => exact h.read hstep
  | step => exact h.readerStep hstep

/-- In time, a key stores inside the buffer. -/
theorem LinesKept.keyInside (h : LinesKept c) {op : ConsoleOp} (htime : InTime c op) :
    KeyInside c op := by
  cases op with
  | key scancode =>
    intro i hi
    cases haction : pressAction c.kernel c.keys scancode with
    | erase =>
      have hle := (h.lines c.kernel.currentTerminal).index
      have hpos := pressAction_erase haction
      rw [haction] at hi
      obtain rfl := Option.some.inj hi
      omega
    | append b =>
      have hlt := htime.inside haction
      rw [haction] at hi
      obtain rfl := Option.some.inj hi
      exact hlt
    | ignore => rw [haction] at hi; cases hi
    | request t => rw [haction] at hi; cases hi
    | clear => rw [haction] at hi; cases hi
  | switch n => trivial
  | run paging pid => trivial
  | read nbytes => trivial
  | step => trivial

/-! ## Runs -/

/-- The terminals as `init_terminals` leaves them, and nobody reads. -/
structure ConsoleReset (c : Console) : Prop where
  line : ∀ t, (c.kernel.terminals t).lineBufIndex = 0 ∧
    (c.kernel.terminals t).readFlag = false ∧
    ∀ j, j < lineBufferSize → (c.kernel.terminals t).lineBuf j = 0
  readers : ∀ pid, c.readers pid = .idle
  stored : ∀ t, c.stored t = []
  returned : ∀ t, c.returned t = []

theorem ConsoleReset.linesKept (h : ConsoleReset c) : LinesKept c where
  lines := fun t => ⟨by rw [(h.line t).1]; exact Nat.zero_le _, fun j _ hj => (h.line t).2.2 j hj⟩
  cleared := fun pid t l u i hr => by
    rw [h.readers] at hr
    cases hr

/-- In a run in which no key comes too late, every key stores inside the buffer, the index
    stays within it or just behind it, and what lies from the index on is 0. -/
theorem line_buffer_safe (hc : ConsoleReset c) {ops : List ConsoleOp}
    (htime : AllSteps consoleStep InTime c ops) :
    AllStates consoleStep LinesOk c ops ∧ AllSteps consoleStep KeyInside c ops := by
  have hstep : ∀ c op c', LinesKept c → InTime c op → consoleStep c op = some c' →
      LinesKept c' := fun _ _ _ h htime hstep => h.step htime hstep
  exact ⟨(allStates_of_allSteps hstep hc.linesKept htime).imp fun _ h => h.lines,
    allSteps_of_allSteps hstep (fun _ _ h htime => h.keyInside htime) hc.linesKept htime⟩

/-! ## Typing -/

theorem pressKey_keyState_ne (keys : Keyboard) {scancode i : Nat} (h : i ≠ scancode) :
    (pressKey keys scancode).keyState i = keys.keyState i := by
  unfold pressKey
  split <;> exact Function.update_of_ne h ..

theorem pressKey_multiByte (keys : Keyboard) (scancode : Nat) :
    (pressKey keys scancode).multiByte = keys.multiByte := by
  unfold pressKey
  split <;> rfl

/-- None of the keys that change the meaning of another is held. -/
structure PlainKeys (keys : Keyboard) : Prop where
  multiByte : keys.multiByte = false
  shift : shiftPressed keys = false
  capslock : capslockPressed keys = false
  alt : altPressed keys = false
  ctrl : keys.keyState scs1PressedLeftctrl = false
  backspace : keys.keyState scs1PressedBackspace = false

/-- The two keys used here. -/
def Typed (scancode : Nat) : Prop := scancode = scs1PressedA ∨ scancode = scs1PressedEnter

theorem Typed.keycode {scancode : Nat} (h : Typed scancode) (keys : Keyboard)
    (hk : PlainKeys keys) : handleDisp keys (keycode scancode) = keycode scancode ∧
      keycode scancode ≠ 0 := by
  unfold handleDisp
  rw [hk.shift, hk.capslock]
  rcases h with rfl | rfl
  · exact ⟨rfl, by decide⟩
  · exact ⟨rfl, by decide⟩

theorem PlainKeys.pressKey {keys : Keyboard} (h : PlainKeys keys) {scancode : Nat}
    (hs : Typed scancode) : PlainKeys (pressKey keys scancode) := by
  have hkey : ∀ i, i ≠ scancode → (Mp3Kernel.pressKey keys scancode).keyState i =
      keys.keyState i := fun i hi => pressKey_keyState_ne keys hi
  refine ⟨(pressKey_multiByte keys scancode).trans h.multiByte, ?_, ?_, ?_, ?_, ?_⟩
  · have hshift := h.shift
    unfold shiftPressed at hshift ⊢
    rw [hkey _ (by rcases hs with rfl | rfl <;> decide),
      hkey _ (by rcases hs with rfl | rfl <;> decide), hshift]
  · have hcapslock := h.capslock
    unfold capslockPressed at hcapslock ⊢
    rw [hkey _ (by rcases hs with rfl | rfl <;> decide), hcapslock]
  · have halt := h.alt
    unfold altPressed at halt ⊢
    rw [hkey _ (by rcases hs with rfl | rfl <;> decide), halt]
  · rw [hkey _ (by rcases hs with rfl | rfl <;> decide), h.ctrl]
  · rw [hkey _ (by rcases hs with rfl | rfl <;> decide), h.backspace]

/-- While the line is read, the key is stored, unless the line is full and it is no newline. -/
theorem PlainKeys.pressAction {keys : Keyboard} (h : PlainKeys keys) {scancode : Nat}
    (hs : Typed scancode) (hread : (k.terminals k.currentTerminal).readFlag = true)
    (hroom : (k.terminals k.currentTerminal).lineBufIndex < lineBufferSize - 1 ∨
      scancode = scs1PressedEnter) :
    pressAction k keys scancode = .append (keycode scancode) := by
  have hpress : IsPress keys scancode := by
    refine ⟨?_, h.multiByte, ?_⟩ <;> rcases hs with rfl | rfl <;> decide
  have hplain := h.pressKey hs
  obtain ⟨hdisp, hne⟩ := hs.keycode keys h
  unfold Mp3Kernel.pressAction
  rw [if_pos hpress, hdisp]
  unfold keyAction
  rw [hplain.alt, hplain.ctrl, hplain.backspace, hread]
  simp only [Bool.false_eq_true, false_and, Bool.not_true, if_false, if_pos hne]
  split
  · rfl
  · rename_i hfull
    rw [hroom.resolve_left hfull]
    rfl

theorem PlainKeys.scanKey {keys : Keyboard} (h : PlainKeys keys) {scancode : Nat}
    (hs : Typed scancode) : PlainKeys (scanKey keys scancode) := by
  unfold Mp3Kernel.scanKey
  rw [if_neg (by rcases hs with rfl | rfl <;> decide), h.multiByte, if_neg Bool.false_ne_true,
    if_pos (by rcases hs with rfl | rfl <;> decide)]
  exact h.pressKey hs

theorem Tidy.setTerminal (h : Tidy k) {term : Terminal} (hid : term.id = (k.terminals t).id)
    (hbuf : term.vidMemBuf = (k.terminals t).vidMemBuf) (hpid : term.pid = (k.terminals t).pid)
    (hx : term.screenX = (k.terminals t).screenX) (hy : term.screenY = (k.terminals t).screenY) :
    Tidy (k.setTerminal t term) := by
  have hsame : ∀ u, ((k.setTerminal t term).terminals u).id = (k.terminals u).id ∧
      ((k.setTerminal t term).terminals u).vidMemBuf = (k.terminals u).vidMemBuf ∧
      ((k.setTerminal t term).terminals u).pid = (k.terminals u).pid ∧
      ((k.setTerminal t term).terminals u).screenX = (k.terminals u).screenX ∧
      ((k.setTerminal t term).terminals u).screenY = (k.terminals u).screenY := by
    intro u
    rw [setTerminal_terminals]
    by_cases hu : u = t
    · subst hu
      rw [Function.update_self]
      exact ⟨hid, hbuf, hpid, hx, hy⟩
    · rw [Function.update_of_ne hu]
      exact ⟨rfl, rfl, rfl, rfl, rfl⟩
  have hd := h.drawable
  refine ⟨⟨fun u => (hsame u).1.trans (hd.id u), fun u => (hsame u).2.1.trans (hd.vidMemBuf u),
    hd.window, ?_⟩, h.onScreen.x, h.onScreen.y, fun u => ?_⟩
  · obtain ⟨term', hterm⟩ := hd.terminal
    refine ⟨term', ?_⟩
    rw [← hterm]
    exact getRunningTerminal_congr rfl (fun u => (hsame u).2.2.1) (fun _ => rfl) (fun _ => rfl)
      fun _ => rfl
  · rw [(hsame u).2.2.2.1, (hsame u).2.2.2.2]
    exact h.onScreen.saved u

theorem Tidy.editLine (h : Tidy k) (t : Fin 3) {term : Terminal}
    (hline : ∃ buf idx, term = { k.terminals t with lineBuf := buf, lineBufIndex := idx }) :
    Tidy (k.setTerminal t term) := by
  obtain ⟨buf, idx, rfl⟩ := hline
  exact h.setTerminal rfl rfl rfl rfl rfl

theorem eraseLast_eq (term : Terminal) :
    ∃ buf idx, eraseLast term = { term with lineBuf := buf, lineBufIndex := idx } := by
  unfold eraseLast Terminal.storeLine
  split
  · exact ⟨_, _, rfl⟩
  · exact ⟨_, _, rfl⟩

theorem appendLast_eq (term : Terminal) (b : UInt8) :
    ∃ buf idx, appendLast term b = { term with lineBuf := buf, lineBufIndex := idx } := by
  unfold appendLast Terminal.storeLine
  split
  · exact ⟨_, _, rfl⟩
  · exact ⟨_, _, rfl⟩

theorem edit_readFlag (action : KeyAction) (term : Terminal) :
    (action.edit term).readFlag = term.readFlag := by
  cases action with
  | ignore => rfl
  | request t => rfl
  | clear => rfl
  | erase =>
    obtain ⟨_, _, he⟩ := eraseLast_eq term
    show (eraseLast term).readFlag = _
    rw [he]
  | append b =>
    obtain ⟨_, _, he⟩ := appendLast_eq term b
    show (appendLast term b).readFlag = _
    rw [he]

/-- Whatever a key does, it comes to an end. -/
theorem Tidy.keyAction (h : Tidy k) (action : KeyAction) :
    ∃ k', action.apply k = some k' ∧ Tidy k' := by
  cases action with
  | ignore => exact ⟨k, rfl, h⟩
  | request t => exact ⟨_, rfl, ⟨h.drawable.id, h.drawable.vidMemBuf, h.drawable.window,
      h.drawable.terminal⟩, h.onScreen.x, h.onScreen.y, h.onScreen.saved⟩
  | clear =>
    obtain ⟨k1, h1, htidy, -⟩ := h.clear
    exact ⟨k1, h1, htidy⟩
  | erase =>
    obtain ⟨k1, h1, htidy, -⟩ := (h.editLine k.currentTerminal (eraseLast_eq _)).putc backspace
    exact ⟨k1, h1, htidy⟩
  | append b =>
    obtain ⟨k1, h1, htidy, -⟩ := h.putc b
    refine ⟨_, ?_, htidy.editLine k1.currentTerminal (appendLast_eq _ b)⟩
    show (Mp3Kernel.putc k b).map _ = _
    rw [show Mp3Kernel.putc k b = some k1 from h1, Option.map_some]

/-- Somebody types on a terminal that is displayed and read. -/
structure Typing (c : Console) : Prop where
  tidy : Tidy c.kernel
  keys : PlainKeys c.keys
  readFlag : (c.kernel.terminals c.kernel.currentTerminal).readFlag = true

/-- What typing a key comes to. -/
structure KeyStored (c c' : Console) (b : UInt8) : Prop where
  typing : Typing c'
  keyed : Keyed c.kernel c'.kernel (.append b)
  readers : c'.readers = c.readers
  stored : c'.stored = c.trace (.append b)
  returned : c'.returned = c.returned

theorem Typing.key (h : Typing c) {scancode : Nat} (hs : Typed scancode)
    (hroom : (c.kernel.terminals c.kernel.currentTerminal).lineBufIndex < lineBufferSize - 1 ∨
      scancode = scs1PressedEnter) :
    ∃ c', c.key scancode = some c' ∧ KeyStored c c' (keycode scancode) := by
  have haction := h.keys.pressAction hs h.readFlag hroom
  obtain ⟨k2, happly, htidy'⟩ := h.tidy.keyAction (.append (keycode scancode))
  have hkeyed := KeyAction.keyed happly
  have hread : (k2.terminals k2.currentTerminal).readFlag = true := by
    rw [hkeyed.currentTerminal, hkeyed.self.readFlag, edit_readFlag]
    exact h.readFlag
  refine ⟨{ c with
    kernel := k2
    keys := scanKey c.keys scancode
    stored := c.trace (.append (keycode scancode)) }, ?_,
    ⟨htidy', h.keys.scanKey hs, hread⟩, hkeyed, rfl, rfl, rfl⟩
  unfold Console.key handleKeypress
  rw [haction, happly]
  rfl

/-- The line that is typed. -/
def Console.typedLine (c : Console) : Terminal := c.kernel.terminals c.kernel.currentTerminal

theorem KeyStored.index {b : UInt8} (h : KeyStored c c' b)
    (hlt : c.typedLine.lineBufIndex < lineBufferSize) :
    c'.typedLine.lineBufIndex = c.typedLine.lineBufIndex + 1 := by
  show (c'.kernel.terminals c'.kernel.currentTerminal).lineBufIndex = _
  rw [h.keyed.currentTerminal, h.keyed.self.lineBufIndex]
  exact (appendLast_line hlt _).1

theorem KeyStored.lineBuf {b : UInt8} (h : KeyStored c c' b)
    (hlt : c.typedLine.lineBufIndex < lineBufferSize) :
    c'.typedLine.lineBuf =
      Function.update c.typedLine.lineBuf c.typedLine.lineBufIndex b := by
  show (c'.kernel.terminals c'.kernel.currentTerminal).lineBuf = _
  rw [h.keyed.currentTerminal, h.keyed.self.lineBuf]
  exact (appendLast_line hlt _).2

theorem Typing.fill (h : Typing c) (n : Nat)
    (hn : c.typedLine.lineBufIndex + n ≤ lineBufferSize - 1) :
    ∃ c', run consoleStep c (List.replicate n (.key scs1PressedA)) = some c' ∧ Typing c' ∧
      c'.typedLine.lineBufIndex = c.typedLine.lineBufIndex + n := by
  induction n generalizing c with
  | zero => exact ⟨c, rfl, h, rfl⟩
  | succ n ih =>
    unfold lineBufferSize at hn
    have hroom : c.typedLine.lineBufIndex < lineBufferSize - 1 := by
      unfold lineBufferSize
      omega
    obtain ⟨c1, h1, hs1⟩ := h.key (Or.inl rfl) (Or.inl hroom)
    have hidx := hs1.index (Nat.lt_of_lt_of_le hroom (Nat.sub_le _ _))
    obtain ⟨c2, h2, htyping2, hidx2⟩ := ih hs1.typing (by unfold lineBufferSize; omega)
    refine ⟨c2, ?_, htyping2, by omega⟩
    rw [List.replicate_succ, run_cons, show consoleStep c (.key scs1PressedA) = some c1 from h1]
    exact h2

/-! ## A booted console -/

variable {fs : Image}

def resetKeyboard : Keyboard := ⟨fun _ => false, false, false⟩

def Kernel.console (k : Kernel) : Console :=
  ⟨k, resetKeyboard, fun _ => .idle, fun _ _ => 0, fun _ => [], fun _ => []⟩

theorem Booted.consoleReset (h : Booted fs k) : ConsoleReset k.console :=
  ⟨h.spec.terminals.line, fun _ => rfl, fun _ => rfl, fun _ => rfl⟩

theorem plainKeys_reset : PlainKeys resetKeyboard := ⟨rfl, rfl, rfl, rfl, rfl, rfl⟩

/-- The console once the first shell has asked for a line. -/
def Kernel.reading (k : Kernel) : Console :=
  (k.console.setTerminal 0 { k.terminals 0 with readFlag := true }).setReader (.scan 0 128 0)

theorem Booted.read (h : Booted fs k) :
    consoleStep k.console (.read 128) = some k.reading := by
  show k.console.read 128 = _
  unfold Console.read
  rw [if_neg (by decide), show getRunningTerminal k.console.kernel = some (some 0) from
    h.runningTerminal]
  rfl

theorem Booted.typing (h : Booted fs k) : Typing k.reading := by
  refine ⟨h.tidy.setTerminal rfl rfl rfl rfl rfl, plainKeys_reset, ?_⟩
  show (Function.update k.terminals 0 _ k.currentTerminal).readFlag = true
  rw [h.spec.currentTerminal, Function.update_self]

theorem Booted.typedLine (h : Booted fs k) : k.reading.typedLine.lineBufIndex = 0 := by
  show (Function.update k.terminals 0 _ k.currentTerminal).lineBufIndex = 0
  rw [h.spec.currentTerminal, Function.update_self]
  exact (h.spec.terminals.line 0).1

theorem Kernel.reading_readers (k : Kernel) (pid : Nat) :
    k.reading.readers pid = .idle ∨ k.reading.readers pid = .scan 0 128 0 := by
  by_cases hp : pid = k.runningPid
  · exact Or.inr (hp ▸ Function.update_self _ _ _)
  · exact Or.inl (Function.update_of_ne hp _ _)

theorem line_buffer_safe_smallImage : ∃ k, Booted smallImage k ∧
    AllStates consoleStep LinesOk k.console [.read 128, .key scs1PressedA] ∧
    AllSteps consoleStep KeyInside k.console [.read 128, .key scs1PressedA] := by
  obtain ⟨k, hk⟩ := booted_smallImage
  refine ⟨k, hk, line_buffer_safe hk.consoleReset fun c hc => ⟨trivial, fun c' hc' => ⟨?_, trivial⟩⟩⟩
  obtain rfl := Option.some.inj (hk.read.symm.trans hc)
  refine fun b _ => ⟨fun _ => ?_, fun pid t l i hr => ?_⟩
  · show k.reading.typedLine.lineBufIndex < lineBufferSize
    rw [hk.typedLine]
    decide
  · rcases k.reading_readers pid with h | h <;> exact nomatch h.symm.trans hr

/-- A line of 127 characters and its Enter. -/
def fullLine : List ConsoleOp :=
  .read 128 :: (List.replicate 127 (.key scs1PressedA) ++ [.key scs1PressedEnter])

/-- A second Enter behind a full line stores its character in the index. -/
theorem line_overrun : ∃ k c, Booted smallImage k ∧ run consoleStep k.console fullLine = some c ∧
    (pressAction c.kernel c.keys scs1PressedEnter).storesAt c.typedLine = some 128 ∧
      ¬ AllSteps consoleStep KeyInside k.console (fullLine ++ [.key scs1PressedEnter]) := by
  obtain ⟨k, hk⟩ := booted_smallImage
  have h0 := hk.typedLine
  obtain ⟨c1, h1, htyping1, hidx1⟩ := hk.typing.fill 127 (by rw [h0]; decide)
  obtain ⟨c2, h2, hs2⟩ := htyping1.key (Or.inr rfl) (Or.inr rfl)
  have hidx2 := hs2.index (by rw [hidx1, h0]; decide)
  obtain ⟨c3, h3, -⟩ := hs2.typing.key (Or.inr rfl) (Or.inr rfl)
  have hrun : run consoleStep k.console fullLine = some c2 := by
    show (consoleStep k.console (.read 128)).bind _ = _
    rw [hk.read, Option.bind_some]
    refine run_append_of_some h1 ?_
    rw [run_cons, show consoleStep c1 (.key scs1PressedEnter) = some c2 from h2]
    rfl
  have hstores : (pressAction c2.kernel c2.keys scs1PressedEnter).storesAt c2.typedLine =
      some 128 := by
    rw [hs2.typing.keys.pressAction (Or.inr rfl) hs2.typing.readFlag (Or.inr rfl)]
    show some c2.typedLine.lineBufIndex = some 128
    rw [hidx2, hidx1, h0]
  refine ⟨k, c2, hk, hrun, hstores, fun h => ?_⟩
  have hlt := ((h.after hrun) _ h3).1 128 hstores
  exact absurd hlt (by decide)

end Mp3Kernel
