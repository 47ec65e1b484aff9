/-
# `BSVM.Pieces` — the loop over a file, and what its buffer holds

One call of `fgets` stores

    a line    and its newline
    a full    buffer, from a line that is longer
    the last  characters of a file that does not end with a newline

and a NUL.  Behind it stands what was there before.  The parser of the line does
not come to it behind a newline (`line_newline`); behind a full buffer there is
only a second NUL, and the last line is the matter of `inside_iff`.  So two states
of the loop that differ in the buffer go on together (`Twin`).
-/
import BSVM.Tails
import BSVM.Terminator

namespace BSVM

/-! ## Pieces -/

/-- What a call of `fgets` has stored. -/
inductive Piece (y : List Byte) : Prop
  | line (w : List Byte) : y = w ++ [chr '\n'] → y.length < INSTR_LEN → Piece y
  | full : y.length = INSTR_LEN - 1 → Piece y
  | last : chr '\n' ∉ y → y.length < INSTR_LEN - 1 → Piece y

theorem Piece.length_lt {y : List Byte} (h : Piece y) : y.length < INSTR_LEN := by
  cases h with
  | line w _ hlen => exact hlen
  | full hlen => rw [hlen]; decide
  | last _ hlen => exact Nat.lt_trans hlen (by decide)

theorem pieces_kind {str file : List Byte} (hstr : chr '\n' ∉ str)
    (hlen : str.length < INSTR_LEN - 1) : ∀ y ∈ pieces str file, Piece y := by
  induction file generalizing str with
  | nil =>
    intro y hy
    rw [pieces] at hy
    split at hy
    · exact absurd hy List.not_mem_nil
    · rw [List.mem_singleton.mp hy]
      exact .last hstr hlen
  | cons c file ih =>
    intro y hy
    rw [pieces] at hy
    split at hy
    case isTrue hend =>
      rcases List.mem_cons.mp hy with rfl | hy
      · rcases hend with rfl | hfull
        · refine .line str rfl ?_
          rw [List.length_append, List.length_singleton]
          omega
        · refine .full ?_
          rw [List.length_append, List.length_singleton]
          exact hfull
      · exact ih List.not_mem_nil (by decide) y hy
    case isFalse hmore =>
      rw [not_or] at hmore
      refine ih ?_ ?_ y hy
      · intro hmem
        rcases List.mem_append.mp hmem with hmem | hmem
        · exact hstr hmem
        · exact hmore.1 (List.mem_singleton.mp hmem).symm
      · rw [List.length_append, List.length_singleton]
        omega

theorem piece_length {file y : List Byte} (hy : y ∈ pieces [] file) : y.length < INSTR_LEN :=
  (pieces_kind List.not_mem_nil (by decide) y hy).length_lt

/-- Characters that do not complete a piece. -/
theorem pieces_append {str a : List Byte} (ha : chr '\n' ∉ a)
    (hlen : str.length + a.length < INSTR_LEN - 1) (file : List Byte) :
    pieces str (a ++ file) = pieces (str ++ a) file := by
  induction a generalizing str with
  | nil => rw [List.nil_append, List.append_nil]
  | cons c a ih =>
    rw [List.length_cons] at hlen
    have hmore : ¬ (c = chr '\n' ∨ str.length + 1 = INSTR_LEN - 1) := by
      rintro (rfl | hfull)
      · exact ha (List.mem_cons_self ..)
      · omega
    rw [List.cons_append, pieces, if_neg hmore,
      ih (fun hmem => ha (List.mem_cons_of_mem _ hmem)), List.append_assoc]
    · rfl
    · rw [List.length_append, List.length_singleton]
      omega

/-- Behind a newline the next piece begins. -/
theorem pieces_newline (str a file : List Byte) :
    pieces str (a ++ chr '\n' :: file) = pieces str (a ++ [chr '\n']) ++ pieces [] file := by
  induction a generalizing str with
  | nil =>
    rw [List.nil_append, List.nil_append, pieces, if_pos (.inl rfl), pieces, if_pos (.inl rfl)]
    rfl
  | cons c a ih =>
    rw [List.cons_append, List.cons_append, pieces, pieces]
    split
    · rw [ih []]
      rfl
    · exact ih (str ++ [c])

/-- The lines of a file up to some point. -/
theorem pieces_lines {before : List Byte} (h : before = [] ∨ before.getLast? = some (chr '\n'))
    (file : List Byte) : pieces [] (before ++ file) = pieces [] before ++ pieces [] file := by
  rcases h with rfl | h
  · rfl
  · obtain ⟨a, rfl⟩ := List.getLast?_eq_some_iff.mp h
    rw [List.append_assoc]
    exact pieces_newline [] a file

/-- A line that fits is a piece. -/
theorem pieces_line {line : List Byte} (hline : chr '\n' ∉ line)
    (hlen : line.length + 1 < INSTR_LEN) (file : List Byte) :
    pieces [] (line ++ chr '\n' :: file) = (line ++ [chr '\n']) :: pieces [] file := by
  rw [pieces_append hline (by rw [List.length_nil]; omega), pieces, if_pos (.inl rfl)]
  rfl

/-- A full piece. -/
theorem pieces_full {w : List Byte} (hw : chr '\n' ∉ w) (hlen : w.length = INSTR_LEN - 1)
    (file : List Byte) : pieces [] (w ++ file) = w :: pieces [] file := by
  have hne : w ≠ [] := fun h => by simp [h] at hlen
  obtain ⟨a, c, rfl⟩ := (List.eq_nil_or_concat w).resolve_left hne
  rw [List.concat_eq_append] at *
  rw [List.length_append, List.length_singleton] at hlen
  have ha : chr '\n' ∉ a := fun hmem => hw (List.mem_append_left _ hmem)
  rw [List.append_assoc, pieces_append ha (by rw [List.length_nil]; omega), List.nil_append,
    List.singleton_append, pieces, if_pos (.inr hlen)]

/-- Any number of full pieces. -/
theorem pieces_fulls {w : List Byte} {n : Nat} (hw : chr '\n' ∉ w)
    (hlen : w.length = (INSTR_LEN - 1) * n) (file : List Byte) :
    pieces [] (w ++ file) = pieces [] w ++ pieces [] file := by
  induction n generalizing w with
  | zero =>
    rw [Nat.mul_zero] at hlen
    rw [List.eq_nil_of_length_eq_zero hlen]
    rfl
  | succ n ih =>
    rw [Nat.mul_succ] at hlen
    have hfirst : (w.take (INSTR_LEN - 1)).length = INSTR_LEN - 1 := by
      rw [List.length_take]
      omega
    have hrest : (w.drop (INSTR_LEN - 1)).length = (INSTR_LEN - 1) * n := by
      rw [List.length_drop]
      omega
    have hw₁ : chr '\n' ∉ w.take (INSTR_LEN - 1) := fun hmem => hw (List.mem_of_mem_take hmem)
    have hw₂ : chr '\n' ∉ w.drop (INSTR_LEN - 1) := fun hmem => hw (List.mem_of_mem_drop hmem)
    have hcons := pieces_full hw₁ hfirst
    conv => rw [← List.take_append_drop (INSTR_LEN - 1) w]
    rw [List.append_assoc, hcons, hcons, ih hw₂ hrest, List.cons_append]

theorem pieces_end {line : List Byte} (hline : chr '\n' ∉ line) (hne : line ≠ [])
    (hlen : line.length < INSTR_LEN) : pieces [] line = [line] := by
  by_cases hfull : line.length = INSTR_LEN - 1
  · have h := pieces_full hline hfull []
    rw [List.append_nil] at h
    exact h
  · have hshort : ([] : List Byte).length + line.length < INSTR_LEN - 1 := by
      rw [List.length_nil]
      omega
    have h := pieces_append hline hshort []
    rw [List.append_nil, List.nil_append] at h
    rw [h, pieces, if_neg hne]

/-- What has been read begins a piece. -/
theorem pieces_cons (str : List Byte) (hne : str ≠ []) (hlen : str.length < INSTR_LEN - 1)
    (file : List Byte) :
    ∃ z ys, pieces str file = (str ++ z) :: ys ∧ (str ++ z).length < INSTR_LEN := by
  induction file generalizing str with
  | nil =>
    refine ⟨[], [], ?_, ?_⟩
    · rw [pieces, if_neg hne, List.append_nil]
    · rw [List.append_nil]
      exact Nat.lt_trans hlen (by decide)
  | cons c file ih =>
    rw [pieces]
    split
    · refine ⟨[c], _, rfl, ?_⟩
      rw [List.length_append, List.length_singleton]
      omega
    · next hmore =>
      rw [not_or] at hmore
      have hshort : (str ++ [c]).length < INSTR_LEN - 1 := by
        rw [List.length_append, List.length_singleton]
        omega
      obtain ⟨z, ys, hpieces, hz⟩ := ih _ (List.append_ne_nil_of_left_ne_nil hne [c]) hshort
      rw [List.append_assoc] at hpieces hz
      exact ⟨c :: z, ys, hpieces, hz⟩

/-- Only the last of the pieces is neither ended by its newline nor full. -/
theorem pieces_init {str file : List Byte} {ys : List (List Byte)} {y : List Byte}
    (h : pieces str file = ys ++ [y]) :
    ∀ p ∈ ys, chr '\n' ∈ p ∨ p.length = INSTR_LEN - 1 := by
  induction file generalizing str ys with
  | nil =>
    have hys : ys = [] := by
      rw [pieces] at h
      split at h
      · exact absurd h.symm (List.append_ne_nil_of_right_ne_nil ys (List.cons_ne_nil y []))
      · have hlen := congrArg List.length h
        rw [List.length_append, List.length_singleton, List.length_singleton] at hlen
        exact List.eq_nil_of_length_eq_zero (by omega)
    exact fun p hp => absurd (hys ▸ hp) List.not_mem_nil
  | cons c file ih =>
    rw [pieces] at h
    split at h
    · next hend =>
      cases ys with
      | nil => exact fun p hp => absurd hp List.not_mem_nil
      | cons p ys =>
        obtain ⟨rfl, hrest⟩ := List.cons.inj h
        refine List.forall_mem_cons.mpr ⟨?_, ih hrest⟩
        rcases hend with rfl | hfull
        · exact .inl (List.mem_append_right _ (List.mem_singleton_self _))
        · refine .inr ?_
          rw [List.length_append, List.length_singleton]
          exact hfull
    · exact ih h

/-! ## The buffer -/

/-- Its last two bytes are the NULs that it has had from the start. -/
def LineBuffer (str : List Byte) : Prop :=
  ∃ a, a.length = INSTR_LEN - 1 ∧ str = a ++ [nul, nul]

theorem replicate_nul (n : Nat) :
    List.replicate (n + 2) nul = List.replicate n nul ++ [nul, nul] :=
  List.replicate_append_replicate.symm

theorem lineBuffer_start : LineBuffer ParserState.start.str :=
  ⟨_, List.length_replicate, replicate_nul (INSTR_LEN - 1)⟩

theorem fill_short {a y : List Byte} (h : y.length < a.length) :
    fill y (a ++ [nul, nul]) = (y ++ nul :: a.drop (y.length + 1)) ++ [nul, nul] := by
  rw [fill, List.drop_append_of_le_length h, List.append_assoc, List.cons_append]

theorem fill_same {a y : List Byte} (h : y.length = a.length) :
    fill y (a ++ [nul, nul]) = y ++ [nul, nul] := by
  have hdrop : (a ++ [nul, nul]).drop (y.length + 1) = [nul] := by
    rw [h, List.drop_append, List.drop_of_length_le (Nat.le_succ _), Nat.add_sub_cancel_left]
    rfl
  rw [fill, hdrop]

theorem LineBuffer.fill {str y : List Byte} (h : LineBuffer str) (hy : y.length < INSTR_LEN) :
    LineBuffer (fill y str) := by
  obtain ⟨a, ha, rfl⟩ := h
  rcases Nat.eq_or_lt_of_le (Nat.le_sub_one_of_lt hy) with hfull | hlt
  · exact ⟨y, hfull, fill_same (hfull.trans ha.symm)⟩
  · rw [← ha] at hlt
    refine ⟨y ++ nul :: a.drop (y.length + 1), ?_, fill_short hlt⟩
    rw [← ha, List.length_append, List.length_cons, List.length_drop]
    omega

theorem fill_full {str y : List Byte} (h : LineBuffer str) (hy : y.length = INSTR_LEN - 1) :
    fill y str = y ++ [nul, nul] := by
  obtain ⟨a, ha, rfl⟩ := h
  exact fill_same (hy.trans ha.symm)

/-- The line in the buffer, with what is behind its newline. -/
theorem fill_append (w v str : List Byte) :
    fill (w ++ v) str = w ++ (v ++ nul :: str.drop ((w ++ v).length + 1)) := by
  rw [fill, List.append_assoc]

/-! ## Two states -/

/-- They differ in what the buffer holds. -/
structure Twin (s t : ParserState) : Prop where
  same : { s with str := t.str } = t
  left : LineBuffer s.str
  right : LineBuffer t.str

theorem grow_str (s : ParserState) (str : List Byte) :
    ({ s with str := str } : ParserState).grow = { s.grow with str := str } := by
  rw [ParserState.grow, ParserState.grow]
  split <;> rfl

theorem grow_line (s : ParserState) : s.grow.line = s.line := by
  rw [ParserState.grow]
  split <;> rfl

/-- One round on two lines that are parsed alike. -/
theorem parserStep_twin (host : ParserHost) {s t : ParserState} (h : Twin s t) {y y' : List Byte}
    (hy : y.length < INSTR_LEN) (hy' : y'.length < INSTR_LEN)
    (hline : ∀ IR l, parseLine (host.ptr s.line) (fill y s.str) IR l
      = parseLine (host.ptr s.line) (fill y' t.str) IR l) :
    Lockstep (fun _ => False) Twin (parserStep host s y) (parserStep host t y') := by
  have hleft : LineBuffer (fill y s.str) := h.left.fill hy
  have hright : LineBuffer (fill y' t.str) := h.right.fill hy'
  have hgrow : { t.grow with str := fill y' t.str }
      = ({ s.grow with str := fill y' t.str } : ParserState) := by
    rw [← h.same, grow_str]
  have hparse : ∀ IR, parseLine (host.ptr s.grow.line) (fill y s.str) IR
        { cursor := fill y s.str, line := s.grow.line }
      = parseLine (host.ptr s.grow.line) (fill y' t.str) IR
        { cursor := fill y' t.str, line := s.grow.line } := by
    intro IR
    rw [grow_line]
    exact hline IR _
  rw [parserStep, parserStep, hgrow]
  dsimp only
  show Lockstep _ Twin (parseLine _ _ _ _ >>= _) (parseLine _ _ _ _ >>= _)
  rw [hparse]
  refine .bind_same _ fun status => ?_
  cases status with
  | ok node => exact .ok ⟨rfl, hleft, hright⟩
  | error e =>
    cases e with
    | empty => exact Lockstep.ite (fun _ => .ok ⟨rfl, hleft, hright⟩) fun _ => .error _
    | _ => exact .ok ⟨rfl, hleft, hright⟩

/-- Without a node to be filled only the first token counts. -/
theorem parseLine_none {s : List Byte} (hs : Terminated s) (ptr : Nat → Word) (l : Lexer)
    (t : List Byte) : parseLine ptr (s ++ t) none l = parseLine ptr s none l := by
  obtain ⟨status, tok, r, hnext, -⟩ := nextToken_terminated hs
  rw [parseLine, parseLine, next, next, lexerNextToken, lexerNextToken, hnext,
    nextToken_extend hnext t]
  cases status with
  | ok => cases tok <;> rfl
  | _ => rfl

/-- The last line, if it is parsed from its own characters. -/
theorem line_last (ptr : Nat → Word) (IR : Option Slot) (l : Lexer) {y : List Byte}
    (hy : ¬ Overrun (y ++ [nul])) (t t' : List Byte) :
    parseLine ptr (y ++ nul :: t) IR l = parseLine ptr (y ++ nul :: t') IR l := by
  cases IR with
  | none =>
    rw [List.append_cons, List.append_cons y nul t', parseLine_none (terminated_append y),
      parseLine_none (terminated_append y)]
  | some slot =>
    have hinside : StaysInside ptr slot l y := (inside_iff ptr slot l y).mpr hy
    rw [hinside.2 t, hinside.2 t']

/-- What the loop keeps of its buffer. -/
theorem run_lineBuffer (host : ParserHost) {s t : ParserState} (hs : LineBuffer s.str)
    {ys : List (List Byte)} (hys : ∀ y ∈ ys, y.length < INSTR_LEN)
    (h : ys.foldlM (parserStep host) s = .ok t) : LineBuffer t.str := by
  refine Returns.foldlM (Q := fun s => LineBuffer s.str) ?_ hs t h
  intro y hy s hs t ht
  have htwin : Twin s s := ⟨rfl, hs, hs⟩
  have hstep := parserStep_twin host htwin (hys y hy) (hys y hy) fun _ _ => rfl
  rw [ht] at hstep
  cases hstep with
  | ok h => exact h.left

/-- What may be said of a piece to have it parsed from its own characters. -/
def Contained (y : List Byte) : Prop :=
  Piece y ∧ (chr '\n' ∉ y → y.length < INSTR_LEN - 1 → ¬ Overrun (y ++ [nul]))

theorem piece_twin (host : ParserHost) {s t : ParserState} (h : Twin s t) {y : List Byte}
    (hy : Contained y) : Lockstep (fun _ => False) Twin (parserStep host s y)
      (parserStep host t y) := by
  obtain ⟨hpiece, hlast⟩ := hy
  refine parserStep_twin host h hpiece.length_lt hpiece.length_lt fun IR l => ?_
  cases hpiece with
  | line w hw _ =>
    rw [hw, fill_append, fill_append]
    exact line_newline _ IR l w _ _
  | full hlen => rw [fill_full h.left hlen, fill_full h.right hlen]
  | last hnot hlen => exact line_last _ IR l (hlast hnot hlen) _ _

theorem twins_run (host : ParserHost) {s t : ParserState} (h : Twin s t) {ys : List (List Byte)}
    (hys : ∀ y ∈ ys, Contained y) :
    Lockstep (fun _ => False) Twin (ys.foldlM (parserStep host) s)
      (ys.foldlM (parserStep host) t) := by
  have hstep : ∀ y ∈ ys, ∀ s t, Twin s t →
      Lockstep (fun _ => False) Twin (parserStep host s y) (parserStep host t y) :=
    fun y hy s t hst => piece_twin host hst (hys y hy)
  exact Lockstep.foldlM hstep h

end BSVM
