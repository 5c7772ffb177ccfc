/-
  The characters stored in a terminal's line buffer are returned by its reads, each once and
  in order, as long as nothing is stored behind the newline a read has found.

  A read copies the line up to the newline, then clears the whole buffer and resets the index:
  what came in behind the newline by then is gone (`keystroke_lost`).
  `keystrokes_delivered`: in a run of successive reads without such keys, what a terminal's
  reads have returned and what its buffer holds make up what was stored.

  `Ledger` is the invariant. While a read clears the buffer, the line is in the buffer of the
  process only.
-/
import Mp3Kernel.Proofs.LineBuffer
import Mp3Kernel.Base.BlockFile

namespace Mp3Kernel

open Base.Runs Base.BlockFile

variable {k k' : Kernel} {c c' : Console} {t : Fin 3}

/-! ## The property -/

/-- The characters before the index. -/
def Terminal.content (term : Terminal) : List UInt8 :=
  (List.range term.lineBufIndex).map term.lineBuf

/-- The read is one of terminal `t`. -/
def Reader.On (t : Fin 3) : Reader → Prop
  | .idle => False
  | .scan u _ _ => u = t
  | .copy u _ _ _ => u = t
  | .clear u _ _ _ => u = t
  | .done u _ => u = t

/-- The read has found a newline in the buffer of `t` and not yet reset its index. -/
def Reader.Takes (t : Fin 3) : Reader → Prop
  | .copy u _ _ _ => u = t
  | .clear u _ _ _ => u = t
  | _ => False

/-- Reads of a terminal come one after the other, and have room for the line. -/
def Successive (c : Console) : ConsoleOp → Prop
  | .read _ => c.readers c.kernel.runningPid = .idle ∧
      ∀ t, getRunningTerminal c.kernel = some (some t) → ∀ pid, ¬ (c.readers pid).On t
  | .step => ∀ t nbytes i, c.readers c.kernel.runningPid = .scan t nbytes i →
      (c.kernel.terminals t).lineBuf i = newline → i < nbytes
  | _ => True

/-- A key that stores or erases a character does so inside the buffer and while no read takes
    a line out of it; a read that finds a newline finds nothing stored behind it. -/
def InOrder (c : Console) : ConsoleOp → Prop
  | .key scancode => ∀ i, (pressAction c.kernel c.keys scancode).storesAt c.typedLine = some i →
      i < lineBufferSize ∧ ∀ pid, ¬ (c.readers pid).Takes c.kernel.currentTerminal
  | .step => ∀ t nbytes i, c.readers c.kernel.runningPid = .scan t nbytes i →
      (c.kernel.terminals t).lineBuf i = newline → (c.kernel.terminals t).lineBufIndex = i + 1
  | _ => True

/-- What the reads of a terminal have returned is what was stored first, and while no read of
    it is in progress the rest is in the buffer. -/
structure Delivered (c : Console) : Prop where
  returned : ∀ t, c.returned t <+: c.stored t
  content : ∀ t, (∀ pid, ¬ (c.readers pid).On t) →
    c.returned t ++ (c.kernel.terminals t).content = c.stored t

/-! ## The ledger -/

/-- The line the read has taken out of the buffer. -/
def Reader.taken (buf : Nat → UInt8) : Reader → List UInt8
  | .clear _ lenstr _ _ => (List.range lenstr).map buf
  | .done _ lenstr => (List.range lenstr).map buf
  | _ => []

/-- What the read leaves in it. -/
def Reader.left (term : Terminal) : Reader → List UInt8
  | .clear _ _ _ _ => []
  | _ => term.content

def Balanced (c : Console) (t : Fin 3) (buf : Nat → UInt8) (reader : Reader) : Prop :=
  c.returned t ++ (reader.taken buf ++ reader.left (c.kernel.terminals t)) = c.stored t

/-- A read that copies a line: nothing is behind the line, and there is room for it. -/
structure Copying (term : Terminal) (buf : Nat → UInt8) (nbytes nl j : Nat) : Prop where
  ended : term.lineBufIndex = nl + 1
  room : nl + 1 ≤ nbytes
  copied : ∀ i, i < j → buf i = term.lineBuf i
  within : j ≤ nl + 1

/-- What holds of a read of terminal `t`. -/
structure ReadOk (c : Console) (t : Fin 3) (pid : Nat) (reader : Reader) : Prop where
  balanced : Balanced c t (c.buffers pid) reader
  terminal : getRunningTerminal { c.kernel with runningPid := pid } = some (some t)
  copying : ∀ nbytes nl j, reader = .copy t nbytes nl j →
    Copying (c.kernel.terminals t) (c.buffers pid) nbytes nl j
  clearing : ∀ l u i, reader = .clear t l u i → u = t

structure Ledger (c : Console) : Prop where
  lines : LinesKept c
  one : ∀ p q t, (c.readers p).On t → (c.readers q).On t → p = q
  free : ∀ t, (∀ pid, ¬ (c.readers pid).On t) →
    c.returned t ++ (c.kernel.terminals t).content = c.stored t
  read : ∀ pid t, (c.readers pid).On t → ReadOk c t pid (c.readers pid)

theorem Reader.on_unique {reader : Reader} {t u : Fin 3} (h : reader.On t) (h' : reader.On u) :
    u = t := by
  cases reader with
  | idle => exact h.elim
  | scan v _ _ => exact h'.symm.trans h
  | copy v _ _ _ => exact h'.symm.trans h
  | clear v _ _ _ => exact h'.symm.trans h
  | done v _ => exact h'.symm.trans h

theorem Ledger.delivered (h : Ledger c) : Delivered c := by
  refine ⟨fun t => ?_, h.free⟩
  by_cases hon : ∀ pid, ¬ (c.readers pid).On t
  · exact ⟨_, h.free t hon⟩
  · obtain ⟨pid, hpid⟩ := not_forall_not.mp hon
    exact ⟨_, (h.read pid t hpid).balanced⟩

theorem ConsoleReset.ledger (h : ConsoleReset c) : Ledger c where
  lines := h.linesKept
  one := fun p q t hp _ => by rw [h.readers p] at hp; exact hp.elim
  free := fun t _ => by
    rw [h.returned, h.stored, Terminal.content, (h.line t).1]
    rfl
  read := fun pid t hp => by rw [h.readers pid] at hp; exact hp.elim

/-! ## The content of a line -/

theorem Terminal.content_congr {a b : Terminal} (hbuf : b.lineBuf = a.lineBuf)
    (hidx : b.lineBufIndex = a.lineBufIndex) : b.content = a.content := by
  rw [content, content, hbuf, hidx]

theorem content_append {term : Terminal} (hlt : term.lineBufIndex < lineBufferSize) (b : UInt8) :
    (appendLast term b).content = term.content ++ [b] := by
  obtain ⟨hidx, hbuf⟩ := appendLast_line hlt b
  rw [Terminal.content, hidx, hbuf, List.range_succ, List.map_append, List.map_singleton,
    Function.update_self, Terminal.content]
  congr 1
  refine List.map_congr_left fun i hi => ?_
  exact Function.update_of_ne (by have := List.mem_range.mp hi; omega) _ _

theorem content_erase {term : Terminal} (h : LineOk term) (hpos : 0 < term.lineBufIndex) :
    (eraseLast term).content = term.content.dropLast := by
  obtain ⟨hidx, hbuf⟩ := eraseLast_line h hpos
  obtain ⟨n, hn⟩ : ∃ n, term.lineBufIndex = n + 1 := ⟨term.lineBufIndex - 1, by omega⟩
  rw [Terminal.content, Terminal.content, hidx, hbuf, hn, List.range_succ, List.map_append,
    List.map_singleton, List.dropLast_concat, Nat.add_sub_cancel]
  refine List.map_congr_left fun i hi => ?_
  exact Function.update_of_ne (by have := List.mem_range.mp hi; omega) _ _

theorem content_ne_nil {term : Terminal} (hpos : 0 < term.lineBufIndex) : term.content ≠ [] := by
  intro h
  have hlen := congrArg List.length h
  rw [Terminal.content, List.length_map, List.length_range] at hlen
  exact absurd hlen (by simpa using hpos.ne')

/-! ## Keys, and other steps that leave the reads alone -/

/-- Between two states the reads are where they were, and each terminal's buffer grows or
    shrinks as the trace of what was stored, unless a read takes a line out of it. -/
structure Edited (c c' : Console) : Prop where
  readers : c'.readers = c.readers
  buffers : c'.buffers = c.buffers
  returned : c'.returned = c.returned
  pcbs : c'.kernel.pcbs = c.kernel.pcbs
  pid : ∀ t, (c'.kernel.terminals t).pid = (c.kernel.terminals t).pid
  line : ∀ t, SameLine (c.kernel.terminals t) (c'.kernel.terminals t) ∧ c'.stored t = c.stored t ∨
    (∀ pid, ¬ (c.readers pid).Takes t) ∧ ∀ before : List UInt8,
      before ++ (c.kernel.terminals t).content = c.stored t →
        before ++ (c'.kernel.terminals t).content = c'.stored t

theorem Reader.left_of_not_takes {reader : Reader} (h : ¬ reader.Takes t) (hon : reader.On t)
    (term : Terminal) : reader.left term = term.content := by
  cases reader with
  | idle => rfl
  | scan v _ _ => rfl
  | copy v _ _ _ => rfl
  | clear v _ _ _ => exact absurd hon h
  | done v _ => rfl

theorem Reader.left_congr {a b : Terminal} (h : b.content = a.content) (reader : Reader) :
    reader.left b = reader.left a := by
  cases reader with
  | clear v _ _ _ => rfl
  | idle => exact h
  | scan v _ _ => exact h
  | copy v _ _ _ => exact h
  | done v _ => exact h

theorem runningTerminal_congr (hpcbs : k'.pcbs = k.pcbs)
    (hpid : ∀ t, (k'.terminals t).pid = (k.terminals t).pid) (pid : Nat) :
    getRunningTerminal { k' with runningPid := pid } =
      getRunningTerminal { k with runningPid := pid } :=
  getRunningTerminal_congr rfl hpid (fun s => by rw [hpcbs]) (fun s => by rw [hpcbs])
    fun s => by rw [hpcbs]

theorem ReadOk.edited {pid : Nat} {reader : Reader} (h : ReadOk c t pid reader)
    (hreader : c.readers pid = reader) (hon : reader.On t) (he : Edited c c') :
    ReadOk c' t pid reader := by
  have hterm : getRunningTerminal { c'.kernel with runningPid := pid } = some (some t) :=
    (runningTerminal_congr he.pcbs he.pid pid).trans h.terminal
  rcases he.line t with ⟨hline, hstored⟩ | ⟨hno, hgrow⟩
  · have hcontent := Terminal.content_congr hline.lineBuf hline.lineBufIndex
    refine ⟨?_, hterm, fun nbytes nl j hcopy => ?_, h.clearing⟩
    · have hb := h.balanced
      unfold Balanced at hb ⊢
      rw [he.returned, he.buffers, hstored, Reader.left_congr hcontent]
      exact hb
    · obtain ⟨hended, hroom, hcopied, hwithin⟩ := h.copying nbytes nl j hcopy
      refine ⟨hline.lineBufIndex.trans hended, hroom, fun i hi => ?_, hwithin⟩
      rw [he.buffers, hline.lineBuf]
      exact hcopied i hi
  · have htakes : ¬ reader.Takes t := hreader ▸ hno pid
    refine ⟨?_, hterm, fun nbytes nl j hcopy => absurd (hcopy ▸ rfl : reader.Takes t) htakes,
      h.clearing⟩
    have hb := h.balanced
    unfold Balanced at hb ⊢
    rw [Reader.left_of_not_takes htakes hon, ← List.append_assoc] at hb ⊢
    rw [he.returned, he.buffers]
    exact hgrow _ hb

theorem Ledger.edited (h : Ledger c) (hlines : LinesKept c') (he : Edited c c') : Ledger c' := by
  refine ⟨hlines, fun p q t hp hq => ?_, fun t hfree => ?_, fun pid t hp => ?_⟩
  · rw [he.readers] at hp hq
    exact h.one p q t hp hq
  · rw [he.readers] at hfree
    rw [he.returned]
    rcases he.line t with ⟨hline, hstored⟩ | ⟨-, hgrow⟩
    · rw [Terminal.content_congr hline.lineBuf hline.lineBufIndex, hstored]
      exact h.free t hfree
    · exact hgrow _ (h.free t hfree)
  · rw [he.readers] at hp ⊢
    exact (h.read pid t hp).edited rfl hp he

theorem Ledger.inTime (h : Ledger c) {op : ConsoleOp} (hop : InOrder c op) : InTime c op := by
  cases op with
  | key scancode =>
    intro b hb
    obtain ⟨hlt, hno⟩ := hop c.typedLine.lineBufIndex (by rw [hb]; rfl)
    refine ⟨fun _ => hlt, fun pid t l i hr => ?_⟩
    have ht := (h.read pid t (by rw [hr]; exact rfl)).clearing l _ i hr
    exact absurd (show (c.readers pid).Takes c.kernel.currentTerminal by rw [hr]; exact ht.symm)
      (hno pid)
  | switch n => trivial
  | run paging pid => trivial
  | read nbytes => trivial
  | step => trivial

theorem KeyAction.edit_pid (action : KeyAction) (term : Terminal) :
    (action.edit term).pid = term.pid := by
  cases action with
  | ignore => rfl
  | request u => rfl
  | clear => rfl
  | erase =>
    show (Terminal.storeLine _ _ 0).pid = _
    unfold Terminal.storeLine
    split <;> rfl
  | append b =>
    show (Terminal.storeLine _ _ b).pid = _
    unfold Terminal.storeLine
    split <;> rfl

theorem Keyed.pid {action : KeyAction} (h : Keyed k k' action) (t : Fin 3) :
    (k'.terminals t).pid = (k.terminals t).pid := by
  by_cases ht : t = k.currentTerminal
  · rw [ht]
    exact h.self.pid.trans (KeyAction.edit_pid _ _)
  · exact (h.other t ht).pid

theorem Keyed.runningTerminal {action : KeyAction} (h : Keyed k k' action) :
    getRunningTerminal k' = getRunningTerminal k :=
  getRunningTerminal_congr h.runningPid h.pid (fun s => by rw [h.pcbs]) (fun s => by rw [h.pcbs])
    fun s => by rw [h.pcbs]

/-- What a key does to the displayed terminal's buffer it does to the trace. -/
theorem Console.trace_self (h : LinesKept c) {scancode : Nat} (hop : InOrder c (.key scancode)) :
    (pressAction c.kernel c.keys scancode).edit c.typedLine = c.typedLine ∧
        c.trace (pressAction c.kernel c.keys scancode) = c.stored ∨
      (∀ pid, ¬ (c.readers pid).Takes c.kernel.currentTerminal) ∧ ∀ before : List UInt8,
        before ++ c.typedLine.content = c.stored c.kernel.currentTerminal →
          before ++ ((pressAction c.kernel c.keys scancode).edit c.typedLine).content =
            c.trace (pressAction c.kernel c.keys scancode) c.kernel.currentTerminal := by
  cases haction : pressAction c.kernel c.keys scancode with
  | ignore => exact Or.inl ⟨rfl, rfl⟩
  | request u => exact Or.inl ⟨rfl, rfl⟩
  | clear => exact Or.inl ⟨rfl, rfl⟩
  | erase =>
    have hpos := pressAction_erase haction
    obtain ⟨-, hno⟩ := hop (c.typedLine.lineBufIndex - 1) (by rw [haction]; rfl)
    refine Or.inr ⟨hno, fun before hbefore => ?_⟩
    have htrace : c.trace .erase c.kernel.currentTerminal =
        (c.stored c.kernel.currentTerminal).dropLast := Function.update_self _ _ _
    have hcontent : (KeyAction.erase.edit c.typedLine).content = c.typedLine.content.dropLast :=
      content_erase (h.lines _) hpos
    have hne : c.typedLine.content ≠ [] := content_ne_nil hpos
    rw [htrace, hcontent, ← hbefore, List.dropLast_append_of_ne_nil hne]
  | append b =>
    obtain ⟨hlt, hno⟩ := hop c.typedLine.lineBufIndex (by rw [haction]; rfl)
    refine Or.inr ⟨hno, fun before hbefore => ?_⟩
    have htrace : c.trace (.append b) c.kernel.currentTerminal =
        c.stored c.kernel.currentTerminal ++ [b] := Function.update_self _ _ _
    have hcontent : ((KeyAction.append b).edit c.typedLine).content =
        c.typedLine.content ++ [b] := content_append hlt b
    rw [htrace, hcontent, ← hbefore, List.append_assoc]

theorem Console.trace_other (c : Console) (action : KeyAction) (ht : t ≠ c.kernel.currentTerminal) :
    c.trace action t = c.stored t := by
  cases action with
  | ignore => rfl
  | request u => rfl
  | clear => rfl
  | erase => exact Function.update_of_ne ht _ _
  | append b => exact Function.update_of_ne ht _ _

theorem Ledger.key (h : Ledger c) {scancode : Nat} (hop : InOrder c (.key scancode))
    (hstep : c.key scancode = some c') : Ledger c' := by
  have hlines := h.lines.key (h.inTime hop) hstep
  obtain ⟨k', hkeyed, rfl⟩ := Console.key_some hstep
  refine h.edited hlines ⟨rfl, rfl, rfl, hkeyed.pcbs, hkeyed.pid, fun t => ?_⟩
  · by_cases ht : t = c.kernel.currentTerminal
    · subst ht
      have hself := hkeyed.self
      rcases Console.trace_self h.lines hop with ⟨hsame, htrace⟩ | ⟨hno, hgrow⟩
      · refine Or.inl ⟨?_, congrFun htrace _⟩
        exact (show _ = c.kernel.terminals c.kernel.currentTerminal from hsame) ▸ hself
      · refine Or.inr ⟨hno, fun before hbefore => ?_⟩
        rw [Terminal.content_congr hself.lineBuf hself.lineBufIndex]
        exact hgrow before hbefore
    · exact Or.inl ⟨hkeyed.other t ht, c.trace_other _ ht⟩

/-! ## The steps of a read -/

/-- Between two states one read of terminal `t` has moved. -/
structure Moved (c c' : Console) (t : Fin 3) : Prop where
  readers : ∀ pid, pid ≠ c.kernel.runningPid → c'.readers pid = c.readers pid
  buffers : ∀ pid, pid ≠ c.kernel.runningPid → c'.buffers pid = c.buffers pid
  pcbs : c'.kernel.pcbs = c.kernel.pcbs
  pid : ∀ u, (c'.kernel.terminals u).pid = (c.kernel.terminals u).pid
  line : ∀ u, u ≠ t → SameLine (c.kernel.terminals u) (c'.kernel.terminals u)
  stored : c'.stored = c.stored
  returned : ∀ u, u ≠ t → c'.returned u = c.returned u
  /-- No other read is one of `t`. -/
  alone : ∀ pid, pid ≠ c.kernel.runningPid → ¬ (c.readers pid).On t
  before : ∀ u, (c.readers c.kernel.runningPid).On u → u = t
  after : ∀ u, (c'.readers c.kernel.runningPid).On u → u = t

theorem ReadOk.moved {u : Fin 3} {pid : Nat} {reader : Reader} (h : ReadOk c u pid reader)
    (hm : Moved c c' t) (hu : u ≠ t) (hp : pid ≠ c.kernel.runningPid) :
    ReadOk c' u pid reader := by
  have hline := hm.line u hu
  refine ⟨?_, (runningTerminal_congr hm.pcbs hm.pid pid).trans h.terminal,
    fun nbytes nl j hcopy => ?_, h.clearing⟩
  · have hb := h.balanced
    unfold Balanced at hb ⊢
    rw [hm.returned u hu, hm.buffers pid hp, hm.stored,
      Reader.left_congr (Terminal.content_congr hline.lineBuf hline.lineBufIndex)]
    exact hb
  · obtain ⟨hended, hroom, hcopied, hwithin⟩ := h.copying nbytes nl j hcopy
    refine ⟨hline.lineBufIndex.trans hended, hroom, fun i hi => ?_, hwithin⟩
    rw [hm.buffers pid hp, hline.lineBuf]
    exact hcopied i hi

/-- It is enough to look at the read that has moved. -/
theorem Ledger.moved (h : Ledger c) (hlines : LinesKept c') (hm : Moved c c' t)
    (hread : (c'.readers c.kernel.runningPid).On t →
      ReadOk c' t c.kernel.runningPid (c'.readers c.kernel.runningPid))
    (hfree : ¬ (c'.readers c.kernel.runningPid).On t →
      c'.returned t ++ (c'.kernel.terminals t).content = c'.stored t) : Ledger c' := by
  have hother : ∀ pid, pid ≠ c.kernel.runningPid → ¬ (c'.readers pid).On t := by
    intro pid hp
    rw [hm.readers pid hp]
    exact hm.alone pid hp
  have hsame : ∀ pid u, u ≠ t → ((c'.readers pid).On u ↔ (c.readers pid).On u) := by
    intro pid u hu
    by_cases hp : pid = c.kernel.runningPid
    · rw [hp]
      exact ⟨fun hon => absurd (hm.after u hon) hu, fun hon => absurd (hm.before u hon) hu⟩
    · rw [hm.readers pid hp]
  refine ⟨hlines, fun p q u hp hq => ?_, fun u hu => ?_, fun pid u hon => ?_⟩
  · by_cases hu : u = t
    · subst hu
      have hp' : p = c.kernel.runningPid := by_contra fun hne => hother p hne hp
      have hq' : q = c.kernel.runningPid := by_contra fun hne => hother q hne hq
      rw [hp', hq']
    · exact h.one p q u ((hsame p u hu).mp hp) ((hsame q u hu).mp hq)
  · by_cases hut : u = t
    · subst hut
      exact hfree (hu c.kernel.runningPid)
    · have hline := hm.line u hut
      rw [hm.returned u hut, hm.stored, Terminal.content_congr hline.lineBuf hline.lineBufIndex]
      exact h.free u fun pid hon => hu pid ((hsame pid u hut).mpr hon)
  · by_cases hut : u = t
    · subst hut
      have hp : pid = c.kernel.runningPid := by_contra fun hne => hother pid hne hon
      subst hp
      exact hread hon
    · have hp : pid ≠ c.kernel.runningPid := by
        rintro rfl
        exact hut (hm.after u hon)
      rw [hm.readers pid hp]
      exact (h.read pid u ((hsame pid u hut).mp hon)).moved hm hut hp

/-- A step of the running process's read. -/
structure ReadMoved (c c' : Console) (t : Fin 3) : Prop where
  readers : ∀ pid, pid ≠ c.kernel.runningPid → c'.readers pid = c.readers pid
  buffers : ∀ pid, pid ≠ c.kernel.runningPid → c'.buffers pid = c.buffers pid
  kernel : ∃ term, c'.kernel = c.kernel.setTerminal t term ∧ term.pid = (c.kernel.terminals t).pid
  stored : c'.stored = c.stored
  returned : ∀ u, u ≠ t → c'.returned u = c.returned u

theorem setTerminal_same (k : Kernel) (t : Fin 3) : k.setTerminal t (k.terminals t) = k := by
  unfold Kernel.setTerminal
  rw [Function.update_eq_self]

theorem setTerminal_pid {term : Terminal} (h : term.pid = (k.terminals t).pid) (u : Fin 3) :
    ((k.setTerminal t term).terminals u).pid = (k.terminals u).pid := by
  rw [setTerminal_terminals]
  by_cases hu : u = t
  · rw [hu, Function.update_self, h]
  · rw [Function.update_of_ne hu]

theorem setTerminal_running {term : Terminal} (h : term.pid = (k.terminals t).pid) (pid : Nat) :
    getRunningTerminal { k.setTerminal t term with runningPid := pid } =
      getRunningTerminal { k with runningPid := pid } :=
  runningTerminal_congr (show (k.setTerminal t term).pcbs = k.pcbs from rfl) (setTerminal_pid h) pid

theorem setTerminal_line (k : Kernel) (term : Terminal) {u : Fin 3} (hu : u ≠ t) :
    SameLine (k.terminals u) ((k.setTerminal t term).terminals u) := by
  rw [setTerminal_terminals, Function.update_of_ne hu]
  exact ⟨rfl, rfl, rfl, rfl⟩

theorem ReadMoved.moved (h : ReadMoved c c' t)
    (halone : ∀ pid, pid ≠ c.kernel.runningPid → ¬ (c.readers pid).On t)
    (hbefore : ∀ u, (c.readers c.kernel.runningPid).On u → u = t)
    (hafter : ∀ u, (c'.readers c.kernel.runningPid).On u → u = t) : Moved c c' t := by
  obtain ⟨term, hk, hpid⟩ := h.kernel
  refine ⟨h.readers, h.buffers, by rw [hk]; rfl, fun u => ?_, fun u hu => ?_, h.stored,
    h.returned, halone, hbefore, hafter⟩
  · rw [hk]
    exact setTerminal_pid hpid u
  · rw [hk]
    exact setTerminal_line _ term hu

/-- The running process's read goes on. -/
theorem Ledger.goesOn (h : Ledger c) (hlines : LinesKept c') {reader reader' : Reader}
    (hr : c.readers c.kernel.runningPid = reader) (hon : reader.On t)
    (hr' : c'.readers c.kernel.runningPid = reader') (hon' : reader'.On t)
    (hm : ReadMoved c c' t) (hread : ReadOk c t c.kernel.runningPid reader →
      ReadOk c' t c.kernel.runningPid reader') : Ledger c' := by
  subst hr hr'
  have hmoved : Moved c c' t := hm.moved
    (fun pid hp hpon => hp (h.one _ _ t hpon hon)) (fun u hu => Reader.on_unique hon hu)
    fun u hu => Reader.on_unique hon' hu
  exact h.moved hlines hmoved (fun _ => hread (h.read _ t hon)) fun hno => absurd hon' hno

theorem setReader_moved (c : Console) (t : Fin 3) (reader : Reader) :
    ReadMoved c (c.setReader reader) t :=
  ⟨fun _ hp => Function.update_of_ne hp _ _, fun _ _ => rfl,
    ⟨_, (setTerminal_same c.kernel t).symm, rfl⟩, rfl, fun _ _ => rfl⟩

theorem setBuffer_moved (c : Console) (t : Fin 3) (i : Nat) (b : UInt8) (reader : Reader) :
    ReadMoved c ((c.setBuffer i b).setReader reader) t :=
  ⟨fun _ hp => Function.update_of_ne hp _ _, fun _ hp => Function.update_of_ne hp _ _,
    ⟨_, (setTerminal_same c.kernel t).symm, rfl⟩, rfl, fun _ _ => rfl⟩

theorem setTerminal_moved (c : Console) (t : Fin 3) (term : Terminal)
    (hpid : term.pid = (c.kernel.terminals t).pid) (reader : Reader) :
    ReadMoved c ((c.setTerminal t term).setReader reader) t :=
  ⟨fun _ hp => Function.update_of_ne hp _ _, fun _ _ => rfl, ⟨term, rfl, hpid⟩, rfl,
    fun _ _ => rfl⟩

theorem setReader_self (c : Console) (reader : Reader) :
    (c.setReader reader).readers c.kernel.runningPid = reader := Function.update_self _ _ _

theorem setBuffer_self (c : Console) (i j : Nat) (b : UInt8) :
    (c.setBuffer i b).buffers c.kernel.runningPid j =
      if j = i then b else c.buffers c.kernel.runningPid j := by
  simp only [Console.setBuffer, Function.update_self, Function.update_apply]

theorem Ledger.scan (h : Ledger c) {nbytes i : Nat}
    (hr : c.readers c.kernel.runningPid = .scan t nbytes i) (j : Nat) :
    Ledger (c.setReader (.scan t nbytes j)) := by
  refine h.goesOn (h.lines.setReader fun _ _ _ _ he => nomatch he) hr rfl
    (setReader_self c _) rfl (setReader_moved c t _) fun hread => ?_
  exact ⟨hread.balanced, hread.terminal, fun _ _ _ he => (nomatch he), fun _ _ _ he => nomatch he⟩

theorem Ledger.found (h : Ledger c) {nbytes i : Nat}
    (hr : c.readers c.kernel.runningPid = .scan t nbytes i) (hi : i < nbytes)
    (hend : (c.kernel.terminals t).lineBufIndex = i + 1) :
    Ledger (c.setReader (.copy t nbytes i 0)) := by
  refine h.goesOn (h.lines.setReader fun _ _ _ _ he => nomatch he) hr rfl
    (setReader_self c _) rfl (setReader_moved c t _) fun hread => ?_
  refine ⟨hread.balanced, hread.terminal, fun n nl j he => ?_, fun _ _ _ he => nomatch he⟩
  obtain ⟨-, rfl, rfl, rfl⟩ := Reader.copy.inj he
  exact ⟨hend, hi, fun _ hlt => absurd hlt (Nat.not_lt_zero _), Nat.zero_le _⟩

theorem Ledger.copyNext (h : Ledger c) {nbytes nl j : Nat}
    (hr : c.readers c.kernel.runningPid = .copy t nbytes nl j) (hj : j < min (nl + 1) nbytes) :
    Ledger ((c.setBuffer j ((c.kernel.terminals t).lineBuf j)).setReader
      (.copy t nbytes nl (j + 1))) := by
  have hlines : LinesKept ((c.setBuffer j ((c.kernel.terminals t).lineBuf j)).setReader
      (.copy t nbytes nl (j + 1))) :=
    (h.lines.setBuffer _ _).setReader fun _ _ _ _ he => nomatch he
  refine h.goesOn hlines hr rfl (setReader_self _ _) rfl (setBuffer_moved c t _ _ _)
    fun hread => ?_
  refine ⟨hread.balanced, hread.terminal, fun n l m he => ?_, fun _ _ _ he => nomatch he⟩
  obtain ⟨-, rfl, rfl, rfl⟩ := Reader.copy.inj he
  obtain ⟨hended, hroom, hcopied, -⟩ := hread.copying _ _ _ rfl
  refine ⟨hended, hroom, fun i hi => ?_, by omega⟩
  refine (setBuffer_self c j i _).trans ?_
  split
  · rename_i hij
    rw [hij]
    rfl
  · exact hcopied i (by omega)

theorem Ledger.copied (h : Ledger c) {nbytes nl j : Nat}
    (hr : c.readers c.kernel.runningPid = .copy t nbytes nl j)
    (hj : ¬ j < min (nl + 1) nbytes) :
    Ledger ((c.setBuffer (min nbytes lineBufferSize) newline).setReader
      (.clear t (min (nl + 1) nbytes) t 0)) := by
  have hlines : LinesKept ((c.setBuffer (min nbytes lineBufferSize) newline).setReader
      (.clear t (min (nl + 1) nbytes) t 0)) :=
    (h.lines.setBuffer _ _).setReader fun _ _ _ _ he => ((Reader.clear.inj he).2.2.2).symm
  have hread := h.read c.kernel.runningPid t (by rw [hr]; rfl)
  rw [hr] at hread
  obtain ⟨hended, hroom, hcopied, hwithin⟩ := hread.copying _ _ _ rfl
  have hindex := (h.lines.lines t).index
  have hlimit : min (nl + 1) nbytes = nl + 1 := by omega
  rw [hlimit] at hlines hj ⊢
  refine h.goesOn hlines hr rfl (setReader_self _ _) rfl (setBuffer_moved c t _ _ _) fun _ => ?_
  refine ⟨?_, hread.terminal, fun _ _ _ he => (nomatch he), fun l u i he => ?_⟩
  · have hline : (List.range (nl + 1)).map (Function.update (c.buffers c.kernel.runningPid)
        (min nbytes lineBufferSize) newline) = (c.kernel.terminals t).content := by
      rw [Terminal.content, hended]
      refine List.map_congr_left fun i hi => ?_
      have hlt := List.mem_range.mp hi
      rw [Function.update_of_ne (by omega), hcopied i (by omega)]
    show c.returned t ++ (((List.range (nl + 1)).map (Function.update c.buffers _ _ _)) ++ []) = _
    rw [Function.update_self, hline, List.append_nil]
    exact hread.balanced
  · exact (Reader.clear.inj he).2.2.1.symm

/-- A read that changes the buffer it takes the line out of. -/
theorem Ledger.setLine (h : Ledger c) {term : Terminal} {reader reader' : Reader}
    (hpid : term.pid = (c.kernel.terminals t).pid)
    (hlines : LinesKept ((c.setTerminal t term).setReader reader'))
    (hr : c.readers c.kernel.runningPid = reader) (hon : reader.On t) (hon' : reader'.On t)
    (htaken : reader.left (c.kernel.terminals t) = reader'.left term ∧
      ∀ buf, reader.taken buf = reader'.taken buf)
    (hcopy : ∀ nbytes nl j, reader' ≠ .copy t nbytes nl j)
    (hclear : ∀ l u i, reader' = .clear t l u i → u = t) :
    Ledger ((c.setTerminal t term).setReader reader') := by
  refine h.goesOn hlines hr hon (setReader_self _ _) hon' (setTerminal_moved c t _ hpid _)
    fun hread => ?_
  refine ⟨?_, (setTerminal_running hpid _).trans hread.terminal,
    fun n nl j he => absurd he (hcopy n nl j), hclear⟩
  have hself : (c.kernel.setTerminal t term).terminals t = term := Function.update_self _ _ _
  have hb := hread.balanced
  unfold Balanced at hb
  rw [htaken.1, htaken.2] at hb
  show c.returned t ++ (_ ++ reader'.left ((c.kernel.setTerminal t term).terminals t)) = _
  rw [hself]
  exact hb

theorem Ledger.clearNext (h : Ledger c) {l : Nat} {u : Fin 3} {i : Nat}
    (hr : c.readers c.kernel.runningPid = .clear t l u i) (hi : i < lineBufferSize) :
    Ledger ((c.setTerminal u { c.kernel.terminals u with
      lineBuf := Function.update (c.kernel.terminals u).lineBuf i 0 }).setReader
        (.clear t l u (i + 1))) := by
  have hlines := h.lines.clearNext hr hi
  have hread := h.read c.kernel.runningPid t (by rw [hr]; rfl)
  obtain rfl := hread.clearing l u i hr
  exact h.setLine (by rfl) hlines hr rfl rfl ⟨rfl, fun _ => rfl⟩ (fun _ _ _ he => nomatch he)
    fun _ _ _ he => (Reader.clear.inj he).2.2.1.symm

theorem Ledger.resetIndex (h : Ledger c) {l : Nat} {u : Fin 3} {i : Nat}
    (hr : c.readers c.kernel.runningPid = .clear t l u i) (hi : ¬ i < lineBufferSize) :
    Ledger ((c.setTerminal u { c.kernel.terminals u with lineBufIndex := 0 }).setReader
      (.done t l)) := by
  have hlines := h.lines.resetIndex hr hi
  have hread := h.read c.kernel.runningPid t (by rw [hr]; rfl)
  obtain rfl := hread.clearing l u i hr
  exact h.setLine (by rfl) hlines hr rfl rfl ⟨rfl, fun _ => rfl⟩ (fun _ _ _ he => nomatch he)
    fun _ _ _ he => nomatch he

/-- The line is returned, and the read is over. -/
theorem Ledger.done (h : Ledger c) {l : Nat}
    (hr : c.readers c.kernel.runningPid = .done t l) {term : Terminal}
    (hline : SameLine { c.kernel.terminals t with readFlag := false } term)
    (hlines : LinesKept ((c.setTerminal t term).return t l)) :
    Ledger ((c.setTerminal t term).return t l) := by
  have hon : (c.readers c.kernel.runningPid).On t := by rw [hr]; rfl
  have hidle : ((c.setTerminal t term).return t l).readers c.kernel.runningPid = .idle :=
    Function.update_self _ _ _
  have hm : ReadMoved c ((c.setTerminal t term).return t l) t :=
    ⟨fun _ hp => Function.update_of_ne hp _ _, fun _ _ => rfl, ⟨term, rfl, hline.pid⟩, rfl,
      fun _ hu => Function.update_of_ne hu _ _⟩
  refine h.moved hlines (hm.moved (fun pid hp hpon => hp (h.one _ _ t hpon hon))
    (fun u hu => Reader.on_unique hon hu) fun u hu => ?_) (fun hno => ?_) fun _ => ?_
  · rw [hidle] at hu
    exact hu.elim
  · rw [hidle] at hno
    exact hno.elim
  · have hb := (h.read c.kernel.runningPid t hon).balanced
    rw [hr] at hb
    show Function.update c.returned t _ t ++
      ((c.kernel.setTerminal t term).terminals t).content = c.stored t
    rw [Function.update_self, setTerminal_terminals, Function.update_self,
      Terminal.content_congr hline.lineBuf hline.lineBufIndex, List.append_assoc]
    exact hb

theorem Ledger.readerStep (h : Ledger c) (hsucc : Successive c .step) (hop : InOrder c .step)
    (hstep : c.readerStep = some c') : Ledger c' := by
  have hlines := h.lines.readerStep hstep
  -- the terminal a read was begun on is still the running process's
  have hterm : ∀ {t : Fin 3} {reader : Reader}, c.readers c.kernel.runningPid = reader →
      reader.On t → getRunningTerminal c.kernel = some (some t) := fun hr hon =>
    (h.read c.kernel.runningPid _ (hr ▸ hon)).terminal
  cases readerStep_cases hstep with
  | @found t nbytes i hr hnl => exact h.found hr (hsucc t nbytes i hr hnl) (hop t nbytes i hr hnl)
  | scan hr hnl => exact h.scan hr _
  | copyNext hr hj => exact h.copyNext hr hj
  | copied hr hj hu =>
    obtain rfl := Option.some.inj (Option.some.inj ((hterm hr rfl).symm.trans hu))
    exact h.copied hr hj
  | uncleared hr hj hnone => exact nomatch (hterm hr rfl).symm.trans hnone
  | clearNext hr hi => exact h.clearNext hr hi
  | resetIndex hr hi => exact h.resetIndex hr hi
  | done hr => exact h.done hr ⟨rfl, rfl, rfl, rfl⟩ hlines

theorem Ledger.start (h : Ledger c) {term : Terminal} {nbytes : Nat}
    (hline : SameLine { c.kernel.terminals t with readFlag := true } term)
    (hlines : LinesKept ((c.setTerminal t term).setReader (.scan t nbytes 0)))
    (hterm : getRunningTerminal c.kernel = some (some t))
    (hidle : c.readers c.kernel.runningPid = .idle) (hno : ∀ pid, ¬ (c.readers pid).On t) :
    Ledger ((c.setTerminal t term).setReader (.scan t nbytes 0)) := by
  have hself : ((c.setTerminal t term).setReader (.scan t nbytes 0)).readers
      c.kernel.runningPid = .scan t nbytes 0 := Function.update_self _ _ _
  have hm := setTerminal_moved c t term hline.pid (.scan t nbytes 0)
  refine h.moved hlines (hm.moved (fun pid _ => hno pid) (fun u hu => ?_) fun u hu => ?_)
    (fun _ => ?_) fun hoff => ?_
  · rw [hidle] at hu
    exact hu.elim
  · rw [hself] at hu
    exact hu.symm
  · rw [hself]
    refine ⟨?_, (setTerminal_running hline.pid _).trans hterm, fun _ _ _ he => (nomatch he),
      fun _ _ _ he => nomatch he⟩
    have hsame : (c.kernel.setTerminal t term).terminals t = term := Function.update_self _ _ _
    show c.returned t ++ ((c.kernel.setTerminal t term).terminals t).content = c.stored t
    rw [hsame, Terminal.content_congr hline.lineBuf hline.lineBufIndex]
    exact h.free t hno
  · rw [hself] at hoff
    exact absurd rfl hoff

/-- A read begins. -/
theorem Ledger.begin (h : Ledger c) {nbytes : Int} (hsucc : Successive c (.read nbytes))
    (hstep : c.read nbytes = some c') : Ledger c' := by
  have hlines := h.lines.read hstep
  unfold Console.read at hstep
  split at hstep
  · obtain rfl := Option.some.inj hstep
    exact h
  obtain ⟨term, hterm, hstep⟩ := Option.bind_eq_some_iff.mp hstep
  cases term with
  | none =>
    obtain rfl := Option.some.inj hstep
    exact h
  | some t =>
    obtain rfl := Option.some.inj hstep
    exact h.start ⟨rfl, rfl, rfl, rfl⟩ hlines hterm hsucc.1 (hsucc.2 t hterm)

theorem Ledger.step (h : Ledger c) {op : ConsoleOp} (hsucc : Successive c op)
    (hop : InOrder c op) (hstep : consoleStep c op = some c') : Ledger c' := by
  cases op with
  | key scancode => exact h.key hop hstep
  | switch n =>
    have hlines := h.lines.step (show InTime c (.switch n) from trivial) hstep
    obtain ⟨k', hk', rfl⟩ := Option.map_eq_some_iff.mp hstep
    obtain ⟨hpcbs, -, hsame⟩ := switchTerminal_lines hk'
    exact h.edited hlines ⟨rfl, rfl, rfl, hpcbs, fun t => (hsame t).pid,
      fun t => Or.inl ⟨hsame t, rfl⟩⟩
  | run paging pid =>
    have hlines := h.lines.step (show InTime c (.run paging pid) from trivial) hstep
    obtain rfl := Option.some.inj hstep
    exact h.edited hlines ⟨rfl, rfl, rfl, rfl, fun _ => rfl,
      fun t => Or.inl ⟨⟨rfl, rfl, rfl, rfl⟩, rfl⟩⟩
  | read nbytes => exact h.begin hsucc hstep
  | step => exact h.readerStep hsucc hop hstep

/-! ## Runs -/

/-- In a run of successive reads with room for their lines, in which nothing is stored behind
    a newline that a read has found, the reads return what was stored. -/
theorem keystrokes_delivered (hc : ConsoleReset c) {ops : List ConsoleOp}
    (hsucc : AllSteps consoleStep Successive c ops) (hops : AllSteps consoleStep InOrder c ops) :
    AllStates consoleStep Delivered c ops := by
  have hstep : ∀ c op c', Ledger c → Successive c op ∧ InOrder c op → consoleStep c op = some c' →
      Ledger c' := fun _ _ _ h hop hstep => h.step hop.1 hop.2 hstep
  exact (allStates_of_allSteps hstep hc.ledger (hsucc.and hops)).imp fun _ h => h.delivered

/-! ## The run of a read -/

section Steps

variable {nbytes nl j l i : Nat} {u : Fin 3}

theorem step_found (hr : c.readers c.kernel.runningPid = .scan t nbytes i)
    (hnl : (c.kernel.terminals t).lineBuf i = newline) :
    c.readerStep = some (c.setReader (.copy t nbytes i 0)) := by
  unfold Console.readerStep
  rw [hr]
  exact if_pos hnl

theorem step_scan (hr : c.readers c.kernel.runningPid = .scan t nbytes i)
    (hnl : (c.kernel.terminals t).lineBuf i ≠ newline) (hi : i + 1 < lineBufferSize) :
    c.readerStep = some (c.setReader (.scan t nbytes (i + 1))) := by
  unfold Console.readerStep
  rw [hr]
  dsimp only
  rw [if_neg hnl, if_pos hi]

theorem step_copyNext (hr : c.readers c.kernel.runningPid = .copy t nbytes nl j)
    (hj : j < min (nl + 1) nbytes) :
    c.readerStep = some ((c.setBuffer j ((c.kernel.terminals t).lineBuf j)).setReader
      (.copy t nbytes nl (j + 1))) := by
  unfold Console.readerStep
  rw [hr]
  exact if_pos hj

theorem step_copied (hr : c.readers c.kernel.runningPid = .copy t nbytes nl j)
    (hj : ¬ j < min (nl + 1) nbytes) (hterm : getRunningTerminal c.kernel = some (some u)) :
    c.readerStep = some ((c.setBuffer (min nbytes lineBufferSize) newline).setReader
      (.clear t (min (nl + 1) nbytes) u 0)) := by
  unfold Console.readerStep
  rw [hr]
  dsimp only
  rw [if_neg hj]
  unfold Console.copied
  dsimp only
  rw [show getRunningTerminal (c.setBuffer _ _).kernel = some (some u) from hterm]
  rfl

theorem step_clearNext (hr : c.readers c.kernel.runningPid = .clear t l u i)
    (hi : i < lineBufferSize) :
    c.readerStep = some ((c.setTerminal u { c.kernel.terminals u with
      lineBuf := Function.update (c.kernel.terminals u).lineBuf i 0 }).setReader
        (.clear t l u (i + 1))) := by
  unfold Console.readerStep
  rw [hr]
  exact if_pos hi

theorem step_reset (hr : c.readers c.kernel.runningPid = .clear t l u lineBufferSize) :
    c.readerStep = some ((c.setTerminal u { c.kernel.terminals u with
      lineBufIndex := 0 }).setReader (.done t l)) := by
  unfold Console.readerStep
  rw [hr]
  exact if_neg (Nat.lt_irrefl _)

theorem step_return (hr : c.readers c.kernel.runningPid = .done t l) :
    c.readerStep = some ((c.setTerminal t { c.kernel.terminals t with
      readFlag := false }).return t l) := by
  unfold Console.readerStep
  rw [hr]

end Steps

/-- Nothing but the terminals and the running process's read has changed. -/
structure SameTraces (c c' : Console) : Prop where
  runningPid : c'.kernel.runningPid = c.kernel.runningPid
  readers : ∀ pid, pid ≠ c.kernel.runningPid → c'.readers pid = c.readers pid
  buffers : c'.buffers = c.buffers
  stored : c'.stored = c.stored
  returned : c'.returned = c.returned

/-- `clear_line_buf` clears what is left of the buffer. -/
theorem run_clear (n : Nat) {l : Nat} {u : Fin 3} {i : Nat}
    (hr : c.readers c.kernel.runningPid = .clear t l u i) (hi : i + n = lineBufferSize) :
    ∃ c', run consoleStep c (List.replicate n .step) = some c' ∧
      c'.readers c.kernel.runningPid = .clear t l u lineBufferSize ∧ SameTraces c c' := by
  induction n generalizing c i with
  | zero => exact ⟨c, rfl, by rw [hr, ← hi]; rfl, rfl, fun _ _ => rfl, rfl, rfl, rfl⟩
  | succ n ih =>
    have hstep := step_clearNext hr (by omega)
    obtain ⟨c', hrun, hreader, hsame⟩ := ih
      (setReader_self (c.setTerminal u _) (.clear t l u (i + 1))) (by omega)
    refine ⟨c', ?_, hreader, hsame.runningPid, fun pid hp => ?_, hsame.buffers, hsame.stored,
      hsame.returned⟩
    · rw [List.replicate_succ, run_cons, show consoleStep c .step = _ from hstep]
      exact hrun
    · rw [hsame.readers pid hp]
      exact Function.update_of_ne hp _ _

/-- The running process's read has come to `reader`, with `buf` in its buffer; nothing else has
    changed since `c`. -/
structure ComesTo (c c' : Console) (reader : Reader) (buf : Nat → UInt8) : Prop where
  kernel : c'.kernel = c.kernel
  reader : c'.readers c.kernel.runningPid = reader
  others : ∀ pid, pid ≠ c.kernel.runningPid → c'.readers pid = c.readers pid
  buffer : c'.buffers c.kernel.runningPid = buf
  stored : c'.stored = c.stored
  returned : c'.returned = c.returned

/-- `memcpy` copies what there is room for. -/
theorem run_copy (n : Nat) {nbytes nl j : Nat} {buf₀ : Nat → UInt8}
    (hr : c.readers c.kernel.runningPid = .copy t nbytes nl j) (hj : j + n = min (nl + 1) nbytes)
    (hcopied : Copied buf₀ (c.kernel.terminals t).lineBuf 0 j (c.buffers c.kernel.runningPid)) :
    ∃ c' buf, run consoleStep c (List.replicate n .step) = some c' ∧
      ComesTo c c' (.copy t nbytes nl (min (nl + 1) nbytes)) buf ∧
      Copied buf₀ (c.kernel.terminals t).lineBuf 0 (min (nl + 1) nbytes) buf := by
  induction n generalizing c j with
  | zero =>
    obtain rfl : j = min (nl + 1) nbytes := hj
    exact ⟨c, _, rfl, ⟨rfl, hr, fun _ _ => rfl, rfl, rfl, rfl⟩, hcopied⟩
  | succ n ih =>
    have hstep : consoleStep c .step = some _ := step_copyNext hr (by omega)
    have hnext := hcopied.store
    rw [Nat.zero_add] at hnext
    rw [← Function.update_self c.kernel.runningPid (Function.update _ _ _) c.buffers] at hnext
    obtain ⟨c', buf, hrun, hcomes, hall⟩ := ih
      (setReader_self (c.setBuffer j ((c.kernel.terminals t).lineBuf j)) (.copy t nbytes nl (j + 1)))
      (by omega) hnext
    refine ⟨c', buf, (run_cons_of_some hstep _).trans hrun, ⟨hcomes.kernel, hcomes.reader,
      fun pid hp => (hcomes.others pid hp).trans ?_, hcomes.buffer, hcomes.stored,
      hcomes.returned⟩, hall⟩
    exact Function.update_of_ne hp _ _

/-- `get_line_buf` has copied `limit` bytes and cleared the buffer of terminal `u`. -/
structure LineTaken (c c' : Console) (t u : Fin 3) (limit : Nat) : Prop where
  runningPid : c'.kernel.runningPid = c.kernel.runningPid
  reader : c'.readers c.kernel.runningPid = .done t limit
  others : ∀ pid, pid ≠ c.kernel.runningPid → c'.readers pid = c.readers pid
  index : (c'.kernel.terminals u).lineBufIndex = 0
  stored : c'.stored = c.stored
  returned : c'.returned = c.returned

/-- The copy and what follows it, from the step that has found the newline on. -/
theorem run_take {nbytes nl : Nat} {u : Fin 3}
    (hr : c.readers c.kernel.runningPid = .copy t nbytes nl 0)
    (hterm : getRunningTerminal c.kernel = some (some u)) :
    ∃ c' buf, run consoleStep c
        (List.replicate (min (nl + 1) nbytes + (lineBufferSize + 2)) .step) = some c' ∧
      LineTaken c c' t u (min (nl + 1) nbytes) ∧
      c'.buffers c.kernel.runningPid = Function.update buf (min nbytes lineBufferSize) newline ∧
      Copied (c.buffers c.kernel.runningPid) (c.kernel.terminals t).lineBuf 0
        (min (nl + 1) nbytes) buf := by
  obtain ⟨c1, buf, h1, ⟨hk1, hr1, hothers1, hb1, hst1, hret1⟩, hcopied⟩ :=
    run_copy (min (nl + 1) nbytes) hr (Nat.zero_add _) (Copied.zero _ _ _)
  have hpid1 : c1.kernel.runningPid = c.kernel.runningPid := congrArg Kernel.runningPid hk1
  have h2 : consoleStep c1 .step = some _ :=
    step_copied (hpid1.symm ▸ hr1) (Nat.lt_irrefl _) (hk1.symm ▸ hterm)
  obtain ⟨c3, h3, hr3, hsame⟩ := run_clear lineBufferSize (setReader_self
    (c1.setBuffer (min nbytes lineBufferSize) newline) (.clear t (min (nl + 1) nbytes) u 0))
    (Nat.zero_add _)
  have hpid : c3.kernel.runningPid = c1.kernel.runningPid := hsame.runningPid
  have h4 : consoleStep c3 .step = some _ := step_reset (hpid ▸ hr3)
  refine ⟨(c3.setTerminal u { c3.kernel.terminals u with lineBufIndex := 0 }).setReader
    (.done t (min (nl + 1) nbytes)), buf, ?_, ⟨hpid.trans hpid1, ?_, fun pid hp => ?_, ?_,
    hsame.stored.trans hst1, hsame.returned.trans hret1⟩, ?_, hcopied⟩
  · rw [List.replicate_add]
    refine run_append_of_some h1 ?_
    rw [List.replicate_succ]
    refine (run_cons_of_some h2 _).trans ?_
    rw [List.replicate_succ']
    exact run_append_of_some h3 (run_cons_of_some h4 [])
  · rw [← hpid1, ← hpid]
    exact setReader_self (c3.setTerminal u _) _
  · refine (Function.update_of_ne (hpid.trans hpid1 ▸ hp) _ _).trans ?_
    refine (hsame.readers pid (hpid1.symm ▸ hp)).trans ?_
    exact (Function.update_of_ne (hpid1.symm ▸ hp) _ _).trans (hothers1 pid hp)
  · simp only [Console.setTerminal, Console.setReader, setTerminal_terminals, Function.update_self]
  · show c3.buffers c.kernel.runningPid = _
    rw [hsame.buffers, ← hpid1]
    show Function.update c1.buffers c1.kernel.runningPid _ c1.kernel.runningPid = _
    rw [Function.update_self, hpid1, hb1]

/-- The steps of a read that has come to the newline at `nl` and returns the line. -/
def lineSteps (nl : Nat) : List ConsoleOp :=
  .step :: (List.replicate (nl + 1 + (lineBufferSize + 2)) .step ++ [.step])

theorem lineSteps_steps (nl : Nat) : ∀ op ∈ lineSteps nl, op = .step := by
  intro op hop
  simp only [lineSteps, List.mem_append, List.mem_cons, List.mem_replicate, List.not_mem_nil,
    or_false] at hop
  tauto

/-- The line has been returned, and the buffer is empty. -/
structure LineReturned (c c' : Console) (t : Fin 3) (nl : Nat) : Prop where
  readers : c'.readers = Function.update c.readers c.kernel.runningPid .idle
  stored : c'.stored = c.stored
  returned : c'.returned = Function.update c.returned t
    (c.returned t ++ (List.range (nl + 1)).map (c.kernel.terminals t).lineBuf)
  index : (c'.kernel.terminals t).lineBufIndex = 0

theorem run_line {nbytes nl : Nat} (hr : c.readers c.kernel.runningPid = .scan t nbytes nl)
    (hterm : getRunningTerminal c.kernel = some (some t))
    (hnl : (c.kernel.terminals t).lineBuf nl = newline) (hroom : nl < nbytes)
    (hlt : nl < lineBufferSize) :
    ∃ c', run consoleStep c (lineSteps nl) = some c' ∧ LineReturned c c' t nl := by
  have hlimit : min (nl + 1) nbytes = nl + 1 := by omega
  have hfound : consoleStep c .step = some _ := step_found hr hnl
  obtain ⟨c1, buf, h1, htaken, hbuf, hcopied⟩ :=
    run_take (setReader_self c (.copy t nbytes nl 0)) hterm
  rw [hlimit] at h1 htaken hcopied
  have hpid : c1.kernel.runningPid = c.kernel.runningPid := htaken.runningPid
  have hlast : consoleStep c1 .step = some _ := step_return (hpid.symm ▸ htaken.reader)
  refine ⟨_, (run_cons_of_some hfound _).trans (run_append_of_some h1 (run_cons_of_some hlast _)),
    ?_, htaken.stored, ?_, ?_⟩
  · funext pid
    show Function.update c1.readers c1.kernel.runningPid .idle pid = _
    rw [hpid]
    by_cases hp : pid = c.kernel.runningPid
    · rw [hp, Function.update_self, Function.update_self]
    · rw [Function.update_of_ne hp, Function.update_of_ne hp]
      exact (htaken.others pid hp).trans (Function.update_of_ne hp _ _)
  · show Function.update c1.returned t (c1.returned t ++
      (List.range (nl + 1)).map (c1.buffers c1.kernel.runningPid)) = _
    rw [htaken.returned, hpid]
    refine congrArg (fun l => Function.update c.returned t (c.returned t ++ l)) ?_
    refine List.map_congr_left fun i hi => ?_
    have hi := List.mem_range.mp hi
    refine (congrFun hbuf i).trans ?_
    rw [Function.update_of_ne (by omega), hcopied.filled i hi, Nat.zero_add]
    rfl
  · simp only [Console.return, Console.setTerminal, Console.setReader, setTerminal_terminals,
      Function.update_self]
    exact htaken.index

/-- A read that finds a newline does not look for one again. -/
theorem readerStep_not_scan (hstep : c.readerStep = some c')
    (hfound : ∀ t nbytes i, c.readers c.kernel.runningPid = .scan t nbytes i →
      (c.kernel.terminals t).lineBuf i = newline) :
    ∀ t nbytes i, c'.readers c'.kernel.runningPid ≠ .scan t nbytes i := by
  have hto : ∀ (c1 : Console) (reader : Reader), (∀ t nbytes i, reader ≠ .scan t nbytes i) →
      ∀ t nbytes i, (c1.setReader reader).readers c1.kernel.runningPid ≠ .scan t nbytes i := by
    intro c1 reader hne t nbytes i
    rw [setReader_self]
    exact hne t nbytes i
  cases readerStep_cases hstep with
  | found hr hnl => exact hto c _ fun _ _ _ he => nomatch he
  | @scan t nbytes i hr hnl => exact absurd (hfound t nbytes i hr) hnl
  | copyNext hr hj => exact hto (c.setBuffer _ _) _ fun _ _ _ he => nomatch he
  | copied hr hj hu => exact hto (c.setBuffer _ _) _ fun _ _ _ he => nomatch he
  | uncleared hr hj hnone => exact hto (c.setBuffer _ _) _ fun _ _ _ he => nomatch he
  | clearNext hr hi => exact hto (c.setTerminal _ _) _ fun _ _ _ he => nomatch he
  | resetIndex hr hi => exact hto (c.setTerminal _ _) _ fun _ _ _ he => nomatch he
  | @done t l hr => exact hto (c.setTerminal t _) .idle fun _ _ _ he => nomatch he

/-- In a run of steps, what holds of the first, and of all that do not look for a newline, holds
    of all. -/
theorem allSteps_found {G : Console → ConsoleOp → Prop} {ops : List ConsoleOp}
    (hops : ∀ op ∈ ops, op = .step)
    (hrest : ∀ c : Console, (∀ t nbytes i, c.readers c.kernel.runningPid ≠ .scan t nbytes i) →
      G c .step) (hfirst : G c .step)
    (hfound : ∀ t nbytes i, c.readers c.kernel.runningPid = .scan t nbytes i →
      (c.kernel.terminals t).lineBuf i = newline) : AllSteps consoleStep G c ops := by
  induction ops generalizing c with
  | nil => trivial
  | cons op ops ih =>
    obtain rfl := hops op List.mem_cons_self
    intro c' hc'
    have hnot := readerStep_not_scan hc' hfound
    exact ⟨hfirst, ih (fun op hop => hops op (List.mem_cons_of_mem _ hop)) (hrest c' hnot)
      fun t nbytes i hr => absurd hr (hnot t nbytes i)⟩

theorem successive_steps {ops : List ConsoleOp} (hops : ∀ op ∈ ops, op = .step)
    (hroom : ∀ t nbytes i, c.readers c.kernel.runningPid = .scan t nbytes i →
      (c.kernel.terminals t).lineBuf i = newline ∧ i < nbytes) :
    AllSteps consoleStep Successive c ops :=
  allSteps_found hops (fun _ hnot t nbytes i hr _ => absurd hr (hnot t nbytes i))
    (fun t nbytes i hr _ => (hroom t nbytes i hr).2) fun t nbytes i hr => (hroom t nbytes i hr).1

theorem inOrder_steps {ops : List ConsoleOp} (hops : ∀ op ∈ ops, op = .step)
    (hend : ∀ t nbytes i, c.readers c.kernel.runningPid = .scan t nbytes i →
      (c.kernel.terminals t).lineBuf i = newline ∧
        (c.kernel.terminals t).lineBufIndex = i + 1) :
    AllSteps consoleStep InOrder c ops :=
  allSteps_found hops (fun _ hnot t nbytes i hr _ => absurd hr (hnot t nbytes i))
    (fun t nbytes i hr _ => (hend t nbytes i hr).2) fun t nbytes i hr => (hend t nbytes i hr).1

/-! ## A line that is returned -/

/-- "a" and Enter, with a step of the read between them, and then the read up to its return. -/
def lineRead : List ConsoleOp :=
  [.read 128, .key scs1PressedA, .step, .key scs1PressedEnter] ++ lineSteps 1

/-- The first key has come, and the read has not seen it. -/
structure FirstTyped (k : Kernel) (c : Console) : Prop where
  typing : Typing c
  displayed : c.kernel.currentTerminal = 0
  runningPid : c.kernel.runningPid = k.runningPid
  readers : c.readers = k.reading.readers
  terminal : getRunningTerminal c.kernel = some (some 0)
  first : c.typedLine.lineBuf 0 = 0x61
  index : c.typedLine.lineBufIndex = 1
  returned : c.returned 0 = []

/-- Both have come, and the read has seen the first. -/
structure LineTyped (c : Console) : Prop where
  reader : c.readers c.kernel.runningPid = .scan 0 128 1
  terminal : getRunningTerminal c.kernel = some (some 0)
  first : (c.kernel.terminals 0).lineBuf 0 = 0x61
  second : (c.kernel.terminals 0).lineBuf 1 = newline
  index : (c.kernel.terminals 0).lineBufIndex = 2
  returned : c.returned 0 = []

theorem Booted.firstTyped {fs : Image} (hk : Booted fs k) :
    ∃ c, consoleStep k.reading (.key scs1PressedA) = some c ∧ FirstTyped k c := by
  have h0 := hk.typedLine
  have hroom : k.reading.typedLine.lineBufIndex < lineBufferSize - 1 := by rw [h0]; decide
  have hlt := Nat.lt_of_lt_of_le hroom (Nat.sub_le _ _)
  obtain ⟨c, hkey, hs⟩ := hk.typing.key (Or.inl rfl) (Or.inl hroom)
  refine ⟨c, hkey, hs.typing, hs.keyed.currentTerminal.trans hk.spec.currentTerminal,
    hs.keyed.runningPid, hs.readers, ?_, ?_, ?_, congrFun hs.returned 0⟩
  · rw [hs.keyed.runningTerminal]
    refine (setTerminal_running (k := k) ?_ k.runningPid).trans hk.runningTerminal
    rfl
  · rw [hs.lineBuf hlt, h0, Function.update_self]
    rfl
  · rw [hs.index hlt, h0]

theorem FirstTyped.scan (h : FirstTyped k c) : c.readers c.kernel.runningPid = .scan 0 128 0 := by
  rw [h.readers, h.runningPid]
  exact Function.update_self _ _ _

theorem FirstTyped.ne_newline (h : FirstTyped k c) :
    (c.kernel.terminals 0).lineBuf 0 ≠ newline := by
  have hfirst := h.first
  rw [Console.typedLine, h.displayed] at hfirst
  rw [hfirst]
  decide

theorem FirstTyped.enter (h : FirstTyped k c) :
    ∃ c', consoleStep (c.setReader (.scan 0 128 1)) (.key scs1PressedEnter) = some c' ∧
      LineTyped c' := by
  have htyping : Typing (c.setReader (.scan 0 128 1)) :=
    ⟨h.typing.tidy, h.typing.keys, h.typing.readFlag⟩
  have hlt : (c.setReader (.scan 0 128 1)).typedLine.lineBufIndex < lineBufferSize := by
    show c.typedLine.lineBufIndex < _
    rw [h.index]
    decide
  obtain ⟨c', hkey, hs⟩ := htyping.key (Or.inr rfl) (Or.inr rfl)
  have hself : c'.typedLine = c'.kernel.terminals 0 :=
    congrArg c'.kernel.terminals (hs.keyed.currentTerminal.trans h.displayed)
  have hbuf : (c'.kernel.terminals 0).lineBuf = Function.update c.typedLine.lineBuf 1 newline := by
    rw [← hself, hs.lineBuf hlt]
    show Function.update c.typedLine.lineBuf c.typedLine.lineBufIndex _ = _
    rw [h.index]
    rfl
  refine ⟨c', hkey, ?_, ?_, ?_, ?_, ?_, ?_⟩
  · rw [hs.readers, hs.keyed.runningPid]
    exact setReader_self c _
  · rw [hs.keyed.runningTerminal]
    exact h.terminal
  · rw [hbuf, Function.update_of_ne (by decide), h.first]
  · rw [hbuf, Function.update_self]
  · rw [← hself, hs.index hlt]
    exact congrArg (· + 1) h.index
  · rw [hs.returned]
    exact h.returned

/-- A typed key is stored in order while no read takes the line. -/
theorem Typing.inOrder (h : Typing c) {scancode : Nat} (hs : Typed scancode)
    (hroom : c.typedLine.lineBufIndex < lineBufferSize - 1)
    (htakes : ∀ pid, ¬ (c.readers pid).Takes c.kernel.currentTerminal) :
    InOrder c (.key scancode) := by
  intro i hi
  rw [h.keys.pressAction hs h.readFlag (Or.inl hroom)] at hi
  obtain rfl := Option.some.inj hi
  exact ⟨Nat.lt_of_lt_of_le hroom (Nat.sub_le _ _), htakes⟩

theorem Kernel.reading_free (k : Kernel) (pid : Nat) : ¬ (k.reading.readers pid).Takes t := by
  rcases k.reading_readers pid with h | h <;> rw [h] <;> exact id

theorem FirstTyped.free (h : FirstTyped k c) (pid : Nat) :
    ¬ ((c.setReader (.scan 0 128 1)).readers pid).Takes t := by
  by_cases hp : pid = c.kernel.runningPid
  · rw [hp, setReader_self]
    exact id
  · rw [show (c.setReader (.scan 0 128 1)).readers pid = c.readers pid from
      Function.update_of_ne hp _ _, h.readers]
    exact k.reading_free pid

theorem keystrokes_delivered_smallImage : ∃ k c, Booted smallImage k ∧
    run consoleStep k.console lineRead = some c ∧ c.returned 0 = [0x61, newline] ∧
    AllStates consoleStep Delivered k.console lineRead := by
  obtain ⟨k, hk⟩ := booted_smallImage
  obtain ⟨c1, h1, hfirst⟩ := hk.firstTyped
  have hseen : consoleStep c1 .step = some (c1.setReader (.scan 0 128 1)) :=
    step_scan hfirst.scan hfirst.ne_newline (by decide)
  obtain ⟨c2, h2, hline⟩ := hfirst.enter
  obtain ⟨c, hrun, hret⟩ := run_line hline.reader hline.terminal hline.second (by decide)
    (by decide)
  refine ⟨k, c, hk, ?_, ?_, keystrokes_delivered hk.consoleReset ?_ ?_⟩
  · exact (run_cons_of_some hk.read _).trans ((run_cons_of_some h1 _).trans
      ((run_cons_of_some hseen _).trans ((run_cons_of_some h2 _).trans hrun)))
  · rw [hret.returned, Function.update_self, hline.returned, ← hline.first, ← hline.second]
    rfl
  · refine allSteps_cons_of_some hk.read ⟨rfl, fun _ _ _ => id⟩ ?_
    refine allSteps_cons_of_some h1 trivial ?_
    refine allSteps_cons_of_some hseen (fun t nbytes i hr _ => ?_) ?_
    · obtain ⟨rfl, rfl, rfl⟩ := Reader.scan.inj (hfirst.scan.symm.trans hr)
      decide
    refine allSteps_cons_of_some h2 trivial (successive_steps (lineSteps_steps 1) ?_)
    intro t nbytes i hr
    obtain ⟨rfl, rfl, rfl⟩ := Reader.scan.inj (hline.reader.symm.trans hr)
    exact ⟨hline.second, by decide⟩
  · refine allSteps_cons_of_some hk.read trivial ?_
    refine allSteps_cons_of_some h1 (hk.typing.inOrder (Or.inl rfl) ?_ k.reading_free) ?_
    · rw [hk.typedLine]
      decide
    refine allSteps_cons_of_some hseen (fun t nbytes i hr hnl => ?_) ?_
    · obtain ⟨rfl, rfl, rfl⟩ := Reader.scan.inj (hfirst.scan.symm.trans hr)
      exact absurd hnl hfirst.ne_newline
    refine allSteps_cons_of_some h2 (Typing.inOrder (c := c1.setReader _)
      ⟨hfirst.typing.tidy, hfirst.typing.keys, hfirst.typing.readFlag⟩ (Or.inr rfl) ?_
      hfirst.free) ?_
    · show c1.typedLine.lineBufIndex < _
      rw [hfirst.index]
      decide
    refine inOrder_steps (lineSteps_steps 1) fun t nbytes i hr => ?_
    obtain ⟨rfl, rfl, rfl⟩ := Reader.scan.inj (hline.reader.symm.trans hr)
    exact ⟨hline.second, hline.index⟩

/-! ## A key that comes in behind the newline -/

/-- The steps of a read that returns an empty line. -/
def emptyLine : List ConsoleOp :=
  [.step, .step, .step] ++ (List.replicate lineBufferSize .step ++ [.step, .step])

/-- A line, and a character behind it before the read has seen the newline. -/
def typedAhead : List ConsoleOp :=
  [.read 128, .key scs1PressedEnter, .key scs1PressedA] ++ emptyLine

/-- The two keys of `typedAhead`. -/
theorem run_typedAhead {fs : Image} (hk : Booted fs k) :
    ∃ c1 c, consoleStep k.reading (.key scs1PressedEnter) = some c1 ∧
      consoleStep c1 (.key scs1PressedA) = some c ∧
      c.readers = k.reading.readers ∧ c.kernel.runningPid = k.runningPid ∧
      getRunningTerminal c.kernel = some (some 0) ∧
      (c.kernel.terminals 0).lineBuf 0 = newline ∧ c.stored 0 = [newline, 0x61] ∧
      c.returned 0 = [] := by
  have h0 := hk.typedLine
  have hlt0 : k.reading.typedLine.lineBufIndex < lineBufferSize := by rw [h0]; decide
  obtain ⟨c1, h1, hs1⟩ := hk.typing.key (Or.inr rfl) (Or.inr rfl)
  have hidx1 := hs1.index hlt0
  have hlt1 : c1.typedLine.lineBufIndex < lineBufferSize - 1 := by rw [hidx1, h0]; decide
  obtain ⟨c2, h2, hs2⟩ := hs1.typing.key (Or.inl rfl) (Or.inl hlt1)
  have hcur : k.reading.kernel.currentTerminal = 0 := hk.spec.currentTerminal
  have hcur1 : c1.kernel.currentTerminal = 0 := hs1.keyed.currentTerminal.trans hcur
  have hcur2 : c2.kernel.currentTerminal = 0 := hs2.keyed.currentTerminal.trans hcur1
  refine ⟨c1, c2, h1, h2, hs2.readers.trans hs1.readers,
    hs2.keyed.runningPid.trans hs1.keyed.runningPid, ?_, ?_, ?_, ?_⟩
  · rw [hs2.keyed.runningTerminal, hs1.keyed.runningTerminal]
    refine (setTerminal_running (k := k) ?_ k.runningPid).trans hk.runningTerminal
    rfl
  · have hbuf := congrFun (hs2.lineBuf (Nat.lt_of_lt_of_le hlt1 (Nat.sub_le _ _))) 0
    rw [hidx1, h0, Function.update_of_ne (by decide), hs1.lineBuf hlt0, h0,
      Function.update_self, Console.typedLine, hcur2] at hbuf
    exact hbuf
  · have hst1 : c1.stored 0 = [newline] := by
      rw [hs1.stored]
      show Function.update _ k.reading.kernel.currentTerminal _ 0 = _
      rw [hcur, Function.update_self]
      rfl
    rw [hs2.stored]
    show Function.update c1.stored c1.kernel.currentTerminal _ 0 = _
    rw [hcur1, Function.update_self, hst1]
    rfl
  · rw [hs2.returned, hs1.returned]
    rfl

theorem keystroke_lost : ∃ k c, Booted smallImage k ∧
    AllSteps consoleStep Successive k.console typedAhead ∧
    run consoleStep k.console typedAhead = some c ∧
    (∀ pid, c.readers pid = .idle) ∧ c.stored 0 = [newline, 0x61] ∧ c.returned 0 = [newline] ∧
      ¬ AllStates consoleStep Delivered k.console typedAhead := by
  obtain ⟨k, hk⟩ := booted_smallImage
  obtain ⟨c1, c2, h1, h2, hreaders, hpid, hterm, hnl, hstored, hreturned⟩ := run_typedAhead hk
  have hr : c2.readers c2.kernel.runningPid = .scan 0 128 0 := by
    rw [hreaders, hpid]
    exact Function.update_self _ _ _
  obtain ⟨c, hrun, hidle, hst, hret, hidx⟩ := run_line hr hterm hnl (by decide) (by decide)
  have hall : run consoleStep k.console typedAhead = some c :=
    (run_cons_of_some hk.read _).trans
      ((run_cons_of_some h1 _).trans ((run_cons_of_some h2 _).trans hrun))
  have hfree : ∀ pid, c.readers pid = .idle := by
    intro pid
    rw [hidle, hreaders]
    by_cases hp : pid = k.runningPid
    · rw [hp, hpid, Function.update_self]
    · rw [hpid, Function.update_of_ne hp]
      exact Function.update_of_ne hp _ _
  have hst0 : c.stored 0 = [newline, 0x61] := by rw [hst, hstored]
  have hret0 : c.returned 0 = [newline] := by
    rw [hret, Function.update_self, hreturned, ← hnl]
    rfl
  refine ⟨k, c, hk, ?_, hall, hfree, hst0, hret0, fun h => ?_⟩
  · intro c' hc'
    obtain rfl := Option.some.inj (hk.read.symm.trans hc')
    refine ⟨⟨rfl, fun _ _ _ => id⟩, fun c' hc' => ⟨trivial, fun c'' hc'' => ⟨trivial, ?_⟩⟩⟩
    obtain rfl := Option.some.inj (h1.symm.trans hc')
    obtain rfl := Option.some.inj (h2.symm.trans hc'')
    refine successive_steps (lineSteps_steps 0) fun t nbytes i hscan => ?_
    obtain ⟨rfl, rfl, rfl⟩ := Reader.scan.inj (hr.symm.trans hscan)
    exact ⟨hnl, by decide⟩
  · have hdel := (allStates_iff_reached _ _).mp h _ _ (List.prefix_refl _) hall
    have hcontent := hdel.content 0 fun pid hp => by rw [hfree pid] at hp; exact hp
    rw [Terminal.content, hidx, hst0, hret0] at hcontent
    cases hcontent

end Mp3Kernel
