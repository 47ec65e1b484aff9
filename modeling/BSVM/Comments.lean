/-
# `BSVM.Comments` — comments, and lines that do not fit

What the lexer makes of a comment does not depend on its text (`line_comment`).
But it sees the text only as far as `fgets` has stored it: a line of `INSTR_LEN`
characters or more is cut, and what is behind the cut is parsed as a line of its
own.  And a last line that runs over its terminator reads what the lines before,
the comment among them, have left in the buffer.

    ¬ Passed         the parser is stopped before the text can matter
    Fits             the line of the comment is not cut
    LastDiffers      the last line is read over its end, and finds another rest

The `//` itself need not be among the first characters of its line: `start` is what
has been read before the piece that begins with `head` and goes on with the `//`, or
with the first slash where that one fills the piece.
-/
import BSVM.Growth
import BSVM.Pieces

namespace BSVM

/-- A comment in a file, without its text. -/
structure Comment where
  /-- the lines before -/
  before : List Byte
  /-- what stands on the line before `//` -/
  code : List Byte
  /-- from the end of the line on -/
  rest : List Byte
  starts : before = [] ∨ before.getLast? = some (chr '\n')
  oneLine : chr '\n' ∉ code
  /-- not in a string, nor in another comment -/
  outside : scan .code code = .code
  ends : rest = [] ∨ ∃ t, rest = chr '\n' :: t

namespace Comment

variable (host : ParserHost) (closes : Bool) (c : Comment)

/-- The file, with a text in the comment. -/
def file (text : List Byte) : List Byte :=
  c.before ++ (c.code ++ chr '/' :: chr '/' :: (text ++ c.rest))

/-- The line of the comment, with its newline. -/
def line (text : List Byte) : List Byte :=
  c.code ++ chr '/' :: chr '/' :: (text ++ c.rest.take 1)

/-- One call of `fgets` reads the line. -/
def Fits (text : List Byte) : Prop :=
  (c.line text).length < INSTR_LEN

instance (text : List Byte) : Decidable (c.Fits text) :=
  inferInstanceAs (Decidable ((c.line text).length < INSTR_LEN))

/-- So many characters of the line are in pieces before that of the `//`. -/
def cut : Nat := (INSTR_LEN - 1) * (c.code.length / (INSTR_LEN - 1))

def start : List Byte := c.before ++ c.code.take c.cut

def head : List Byte := c.code.drop c.cut

/-- The cut is not in a string, so that the `//` is in none of its piece. -/
def Seen : Prop := scan .code c.head = .code

/-- The piece of the `//` without the text. -/
def opening : List Byte := (c.head ++ [chr '/', chr '/']).take (INSTR_LEN - 1)

/-- The loop gets over the pieces before that of the `//`, and over this one up to the
text. -/
def Passed : Prop :=
  ∃ s, (pieces [] c.start).foldlM (parserStep host) .start = .ok s ∧
    (c.Seen → ∃ s', parserStep host s c.opening = .ok s')

/-- The loop comes to a last line without a newline that runs over its terminator, and
the buffer holds something else there. -/
def LastDiffers (text text' : List Byte) : Prop :=
  ∃ ys y s t, pieces [] (c.rest.drop 1) = ys ++ [y] ∧ chr '\n' ∉ y ∧ y.length < INSTR_LEN - 1 ∧
    Overrun (y ++ [nul]) ∧
    (pieces [] c.before ++ c.line text :: ys).foldlM (parserStep host) .start = .ok s ∧
    (pieces [] c.before ++ c.line text' :: ys).foldlM (parserStep host) .start = .ok t ∧
    fill y s.str ≠ fill y t.str

/-! ## The line of the comment -/

variable {c}

theorem newline_notMem {w text : List Byte} (hw : chr '\n' ∉ w) (htext : chr '\n' ∉ text) :
    chr '\n' ∉ w ++ chr '/' :: chr '/' :: text := by
  have hslash : chr '\n' ≠ chr '/' := by decide
  simp [hw, htext, hslash]

/-- A piece with the comment, on states that differ in the buffer. -/
theorem comment_twin {w : List Byte} (hw : scan .code w = .code) {s t : ParserState}
    (h : Twin s t) {z z' : List Byte} (hlen : (w ++ chr '/' :: chr '/' :: z).length < INSTR_LEN)
    (hlen' : (w ++ chr '/' :: chr '/' :: z').length < INSTR_LEN) :
    Lockstep (fun _ => False) Twin (parserStep host s (w ++ chr '/' :: chr '/' :: z))
      (parserStep host t (w ++ chr '/' :: chr '/' :: z')) := by
  have hfill : ∀ z str, ∃ u, nul ∈ u ∧ fill (w ++ chr '/' :: chr '/' :: z) str
      = w ++ chr '/' :: chr '/' :: u := by
    intro z str
    refine ⟨z ++ nul :: str.drop ((w ++ chr '/' :: chr '/' :: z).length + 1), ?_, ?_⟩
    · exact List.mem_append_right _ (List.mem_cons_self ..)
    · rw [fill, List.append_assoc, List.cons_append, List.cons_append]
  refine parserStep_twin host h hlen hlen' fun IR l => ?_
  obtain ⟨u, hu, hleft⟩ := hfill z s.str
  obtain ⟨u', hu', hright⟩ := hfill z' t.str
  rw [hleft, hright]
  exact line_comment _ IR l hw hu hu'

theorem pieces_file {text : List Byte} (htext : chr '\n' ∉ text) (hfits : c.Fits text) :
    pieces [] (c.file text)
      = pieces [] c.before ++ c.line text :: pieces [] (c.rest.drop 1) := by
  have hline := newline_notMem c.oneLine htext
  rw [file, pieces_lines c.starts]
  congr 1
  rw [Fits, line] at hfits
  rw [line]
  rcases c.ends with hrest | ⟨t, hrest⟩
  · rw [hrest] at hfits ⊢
    rw [List.take_nil, List.append_nil] at hfits ⊢
    exact pieces_end hline (by simp) hfits
  · rw [hrest] at hfits ⊢
    simp only [List.take_succ_cons, List.take_zero, List.drop_succ_cons, List.drop_zero,
      List.length_append, List.length_cons, List.length_nil] at hfits ⊢
    have h := pieces_line hline (by simp; omega) t
    simpa using h

/-! ## The piece of the `//` -/

theorem head_length : c.head.length < INSTR_LEN - 1 := by
  rw [head, List.length_drop, cut]
  simp only [INSTR_LEN]
  omega

theorem newline_notMem_head : chr '\n' ∉ c.head :=
  fun hmem => c.oneLine (List.mem_of_mem_drop hmem)

/-- The pieces before it are those of `start`. -/
theorem pieces_start (u : List Byte) :
    pieces [] (c.before ++ (c.code ++ u)) = pieces [] c.start ++ pieces [] (c.head ++ u) := by
  have htake : chr '\n' ∉ c.code.take c.cut := fun hmem => c.oneLine (List.mem_of_mem_take hmem)
  have hlen : (c.code.take c.cut).length = c.cut := by
    rw [List.length_take]
    exact Nat.min_eq_left (Nat.mul_div_le _ _)
  have hsplit : c.code ++ u = c.code.take c.cut ++ (c.head ++ u) := by
    rw [← List.append_assoc, head, List.take_append_drop]
  rw [hsplit, pieces_lines c.starts, pieces_fulls htake hlen, start, pieces_lines c.starts,
    List.append_assoc]

/-- The `//` is in one piece. -/
def Whole (c : Comment) : Prop := (c.head ++ [chr '/', chr '/']).length < INSTR_LEN

theorem pieces_whole (hwhole : c.Whole) (text : List Byte) :
    ∃ z ys, pieces [] (c.file text)
        = pieces [] c.start ++ (c.head ++ chr '/' :: chr '/' :: z) :: ys ∧
      (c.head ++ chr '/' :: chr '/' :: z).length < INSTR_LEN := by
  have hline : chr '\n' ∉ c.head ++ [chr '/', chr '/'] :=
    newline_notMem newline_notMem_head List.not_mem_nil
  have hsplit : c.head ++ chr '/' :: chr '/' :: (text ++ c.rest)
      = (c.head ++ [chr '/', chr '/']) ++ (text ++ c.rest) := by simp
  rw [file, pieces_start, hsplit]
  rcases Nat.eq_or_lt_of_le (Nat.le_sub_one_of_lt hwhole) with hfull | hshort
  · exact ⟨[], _, congrArg _ (pieces_full hline hfull _), hwhole⟩
  · obtain ⟨z, ys, hpieces, hz⟩ := pieces_cons (c.head ++ [chr '/', chr '/']) (by simp) hshort
      (text ++ c.rest)
    have happend : pieces [] ((c.head ++ [chr '/', chr '/']) ++ (text ++ c.rest))
        = pieces (c.head ++ [chr '/', chr '/']) (text ++ c.rest) :=
      pieces_append hline (by simpa using hshort) _
    rw [List.append_assoc] at hpieces hz
    exact ⟨z, ys, congrArg _ (happend.trans hpieces), hz⟩

theorem opening_whole (hwhole : c.Whole) : c.opening = c.head ++ [chr '/', chr '/'] :=
  List.take_of_length_le (Nat.le_sub_one_of_lt hwhole)

/-- The first slash is the last character of its piece. -/
theorem opening_split (hsplit : ¬ c.Whole) :
    c.opening = c.head ++ [chr '/'] ∧ c.opening.length = INSTR_LEN - 1 := by
  have hhead := head_length (c := c)
  have hlen : (c.head ++ [chr '/']).length = INSTR_LEN - 1 := by
    rw [Whole, List.length_append, List.length_cons, List.length_cons, List.length_nil] at hsplit
    rw [List.length_append, List.length_singleton]
    omega
  have happend : c.head ++ [chr '/', chr '/'] = (c.head ++ [chr '/']) ++ [chr '/'] := by simp
  have htake : c.opening = c.head ++ [chr '/'] := by
    rw [opening, happend]
    exact List.take_left' hlen
  exact ⟨htake, htake ▸ hlen⟩

theorem pieces_split (hsplit : ¬ c.Whole) (text : List Byte) :
    pieces [] (c.file text)
      = pieces [] c.start ++ c.opening :: pieces [] (chr '/' :: (text ++ c.rest)) := by
  obtain ⟨hopening, hlen⟩ := opening_split hsplit
  have hline : chr '\n' ∉ c.opening := by
    rw [hopening, List.mem_append, List.mem_singleton, not_or]
    exact ⟨newline_notMem_head, by decide⟩
  have happend : c.head ++ chr '/' :: chr '/' :: (text ++ c.rest)
      = c.opening ++ chr '/' :: (text ++ c.rest) := by
    rw [hopening]
    simp
  rw [file, pieces_start, happend, pieces_full hline hlen]

/-! ## Comments that are not reached -/

theorem parser_error {file : List Byte} {e : Fault}
    (h : (pieces [] file).foldlM (parserStep host) .start = .error e) :
    parser host (some file) closes = .error e := by
  rw [parser, h]
  rfl

/-- The piece of the `//` stops the loop, whatever follows. -/
theorem piece_stopped {s : ParserState} (hbuffer : LineBuffer s.str) (hseen : c.Seen) {e : Fault}
    (h : parserStep host s c.opening = .error e) (text : List Byte) :
    ∃ y ys, pieces [] (c.file text) = pieces [] c.start ++ y :: ys ∧
      parserStep host s y = .error e := by
  by_cases hwhole : c.Whole
  · rw [opening_whole hwhole] at h
    obtain ⟨z, ys, hpieces, hz⟩ := pieces_whole hwhole text
    refine ⟨_, ys, hpieces, ?_⟩
    have htwin := comment_twin host hseen ⟨rfl, hbuffer, hbuffer⟩ hwhole hz
    rw [h] at htwin
    generalize parserStep host s (c.head ++ chr '/' :: chr '/' :: z) = x at htwin ⊢
    cases htwin with
    | stop h => exact h.elim
    | error => rfl
  · exact ⟨_, _, pieces_split hwhole text, h⟩

/-- The loop ends alike with every text. -/
theorem run_stopped (h : ¬ c.Passed host) : ∃ e, ∀ text,
    (pieces [] (c.file text)).foldlM (parserStep host) .start = .error e := by
  cases hstart : (pieces [] c.start).foldlM (parserStep host) .start with
  | error e =>
    refine ⟨e, fun text => ?_⟩
    rw [file, pieces_start, List.foldlM_append, hstart]
    rfl
  | ok s =>
    have hbuffer : LineBuffer s.str :=
      run_lineBuffer host lineBuffer_start (fun _ => piece_length) hstart
    obtain ⟨hseen, e, he⟩ : c.Seen ∧ ∃ e, parserStep host s c.opening = .error e := by
      rw [Passed] at h
      push Not at h
      obtain ⟨hseen, hstop⟩ := h s hstart
      cases hpiece : parserStep host s c.opening with
      | ok s' => exact absurd hpiece (hstop s')
      | error e => exact ⟨hseen, e, rfl⟩
    refine ⟨e, fun text => ?_⟩
    obtain ⟨y, ys, hpieces, hy⟩ := piece_stopped host hbuffer hseen he text
    rw [hpieces, List.foldlM_append, hstart, Except.ok_bind, List.foldlM_cons, hy]
    rfl

/-! ## Texts that fit -/

theorem line_twin {s t : ParserState} (h : Twin s t) {text text' : List Byte}
    (hfits : c.Fits text) (hfits' : c.Fits text') :
    Lockstep (fun _ => False) Twin (parserStep host s (c.line text))
      (parserStep host t (c.line text')) :=
  comment_twin host c.outside h hfits hfits'

/-- Up to the last line the two files go on together. -/
theorem line_run {text text' : List Byte} (hfits : c.Fits text) (hfits' : c.Fits text')
    {ys : List (List Byte)} (hys : ∀ y ∈ ys, Contained y) :
    Lockstep (fun _ => False) Twin
      ((pieces [] c.before ++ c.line text :: ys).foldlM (parserStep host) .start)
      ((pieces [] c.before ++ c.line text' :: ys).foldlM (parserStep host) .start) := by
  rw [List.foldlM_append, List.foldlM_append]
  cases hstart : (pieces [] c.before).foldlM (parserStep host) .start with
  | error e => exact .error e
  | ok s =>
    have hbuffer : LineBuffer s.str :=
      run_lineBuffer host lineBuffer_start (fun _ => piece_length) hstart
    rw [Except.ok_bind, Except.ok_bind, List.foldlM_cons, List.foldlM_cons]
    exact (line_twin host ⟨rfl, hbuffer, hbuffer⟩ hfits hfits').bind fun _ _ h =>
      twins_run host h hys

theorem file_run {text text' : List Byte} (htext : chr '\n' ∉ text) (htext' : chr '\n' ∉ text')
    (hfits : c.Fits text) (hfits' : c.Fits text') (hlast : ¬ c.LastDiffers host text text') :
    Lockstep (fun _ => False) Twin
      ((pieces [] (c.file text)).foldlM (parserStep host) .start)
      ((pieces [] (c.file text')).foldlM (parserStep host) .start) := by
  have hkind : ∀ y ∈ pieces [] (c.rest.drop 1), Piece y :=
    pieces_kind List.not_mem_nil (by decide)
  rw [pieces_file htext hfits, pieces_file htext' hfits']
  rcases List.eq_nil_or_concat (pieces [] (c.rest.drop 1)) with hnil | ⟨ys, y, hrest⟩
  · rw [hnil]
    exact line_run host hfits hfits' fun _ hy => absurd hy List.not_mem_nil
  · rw [List.concat_eq_append] at hrest
    rw [hrest] at hkind ⊢
    have hys : ∀ p ∈ ys, Contained p := fun p hp =>
      ⟨hkind p (List.mem_append_left _ hp), fun hnot hlen =>
        ((pieces_init hrest p hp).elim hnot fun hfull => hlen.ne hfull).elim⟩
    have hprefix := line_run host hfits hfits' hys
    have hsplit : ∀ text, (pieces [] c.before ++ c.line text :: (ys ++ [y])).foldlM
        (parserStep host) .start = (pieces [] c.before ++ c.line text :: ys).foldlM
          (parserStep host) .start >>= fun s => [y].foldlM (parserStep host) s := by
      intro text
      rw [← List.cons_append, ← List.append_assoc, List.foldlM_append]
    rw [hsplit text, hsplit text']
    by_cases hy : Contained y
    · exact hprefix.bind fun s t h => twins_run host h (List.forall_mem_singleton.mpr hy)
    · -- the last line reads on, and finds the same
      obtain ⟨hnot, hlen, hover⟩ : chr '\n' ∉ y ∧ y.length < INSTR_LEN - 1 ∧
          Overrun (y ++ [nul]) := by
        by_contra hno
        refine hy ⟨hkind y (List.mem_append_right _ (List.mem_singleton_self y)), ?_⟩
        exact fun hnot hlen hover => hno ⟨hnot, hlen, hover⟩
      generalize hleft : (pieces [] c.before ++ c.line text :: ys).foldlM (parserStep host) .start
        = left at hprefix ⊢
      generalize hright : (pieces [] c.before ++ c.line text' :: ys).foldlM (parserStep host)
        .start = right at hprefix ⊢
      cases hprefix with
      | stop h => exact h.elim
      | error e => exact .error e
      | @ok s t htwin =>
        have hfill : fill y s.str = fill y t.str := by
          by_contra hne
          exact hlast ⟨ys, y, s, t, hrest, hnot, hlen, hover, hleft, hright, hne⟩
        have hyl : y.length < INSTR_LEN := Nat.lt_trans hlen (by decide)
        rw [Except.ok_bind, Except.ok_bind, List.foldlM_cons, List.foldlM_cons]
        have hstep := parserStep_twin host htwin hyl hyl fun IR l => by rw [hfill]
        exact hstep.bind fun _ _ h => .ok h

theorem fitting_alike {text text' : List Byte} (htext : chr '\n' ∉ text)
    (htext' : chr '\n' ∉ text') (hfits : c.Fits text) (hfits' : c.Fits text')
    (hlast : ¬ c.LastDiffers host text text') :
    parser host (some (c.file text)) closes = parser host (some (c.file text')) closes := by
  rw [parser, parser]
  refine ((file_run host htext htext' hfits hfits' hlast).bind (P := Eq) fun s t h => ?_)
    |>.eq_of_not_stop fun _ h => h.elim
  rw [← h.same]
  exact Lockstep.refl (fun _ => rfl) _

/-! ## Texts that do not fit -/

/-- Characters of a comment. -/
def xs (n : Nat) : List Byte := List.replicate n (chr 'x')

theorem newline_notMem_xs (n : Nat) : chr '\n' ∉ xs n :=
  fun hmem => absurd (List.eq_of_mem_replicate hmem) (by decide)

/-- A line that begins like this ends the process. -/
theorem run_exit {w : List Byte} (hne : w ≠ []) (hw : chr '\n' ∉ w)
    (hlen : w.length < INSTR_LEN - 1)
    (hparse : ∀ z ptr str IR l, parseLine ptr (fill (w ++ z) str) IR l = .error .exit)
    (s : ParserState) (file : List Byte) :
    (pieces [] (w ++ file)).foldlM (parserStep host) s = .error .exit := by
  obtain ⟨z, ys, hpieces, -⟩ := pieces_cons w hne hlen file
  have hfirst : pieces [] (w ++ file) = pieces w file :=
    pieces_append hw (by simpa using hlen) file
  rw [hfirst, hpieces, List.foldlM_cons, parserStep]
  dsimp only
  rw [hparse]
  rfl

theorem run_at (s : ParserState) (file : List Byte) :
    (pieces [] (chr '@' :: file)).foldlM (parserStep host) s = .error .exit := by
  refine run_exit host (w := [chr '@']) (by simp) (by decide) (by decide) ?_ s file
  intro z ptr str IR l
  cases z <;> rfl

theorem run_slash_at (s : ParserState) (file : List Byte) :
    (pieces [] (chr '/' :: chr '@' :: file)).foldlM (parserStep host) s = .error .exit :=
  run_exit host (w := [chr '/', chr '@']) (by simp) (by decide) (by decide)
    (fun _ _ _ _ _ => rfl) s file

/-- A piece that is a comment adds nothing. -/
theorem parserStep_comment (s : ParserState) (z : List Byte) :
    parserStep host s (chr '/' :: chr '/' :: z) = .error .table ∨
      ∃ s', parserStep host s (chr '/' :: chr '/' :: z) = .ok s' := by
  have hparse : ∀ ptr IR l, parseLine ptr (fill (chr '/' :: chr '/' :: z) s.str) IR l
      = .ok (.error .empty) := by
    intro ptr IR l
    have hnul : nul ∈ z ++ nul :: s.str.drop ((chr '/' :: chr '/' :: z).length + 1) :=
      List.mem_append_right _ (List.mem_cons_self ..)
    have h := line_comment ptr IR l (w := []) rfl hnul (List.mem_singleton_self nul)
    rw [List.nil_append, List.nil_append] at h
    rw [fill, List.cons_append, List.cons_append, h]
    rfl
  rw [parserStep]
  dsimp only
  rw [hparse, Except.ok_bind]
  dsimp only
  split
  · exact .inr ⟨_, rfl⟩
  · exact .inl rfl

/-- A full piece that is an instruction. -/
def rtnPiece : List Byte :=
  word (literal "RTN") ++ chr '/' :: chr '/' :: List.replicate (INSTR_LEN - 6) (chr 'x')

theorem rtnPiece_length : rtnPiece.length = INSTR_LEN - 1 := by
  rw [rtnPiece, List.length_append, List.length_cons, List.length_cons, List.length_replicate]
  rfl

theorem newline_notMem_rtnPiece : chr '\n' ∉ rtnPiece := by
  intro hmem
  rcases List.mem_append.mp hmem with hmem | hmem
  · exact absurd hmem (by decide)
  · rw [List.mem_cons, List.mem_cons, List.mem_replicate] at hmem
    exact absurd hmem (by decide)

theorem parseLine_rtnPiece (ptr : Nat → Word) (IR : Option Slot) (l : Lexer) :
    parseLine ptr (rtnPiece ++ [nul, nul]) IR l = match IR with
      | none => .error .table
      | some _ => .ok (.ok ⟨l.line + 1, .instr .rtn .none .none⟩) := by
  have hnul : nul ∈ List.replicate (INSTR_LEN - 6) (chr 'x') ++ [nul, nul] :=
    List.mem_append_right _ (List.mem_cons_self ..)
  have h := line_comment ptr IR l (w := word (literal "RTN")) (by decide) hnul
    (List.mem_singleton_self nul)
  rw [rtnPiece, List.append_assoc, List.cons_append, List.cons_append, h]
  cases IR <;> rfl

theorem parserStep_rtnPiece {s : ParserState} (hbuffer : LineBuffer s.str)
    (hlisted : Listed s.array) :
    parserStep host s rtnPiece = .error .table ∨
      ∃ s', parserStep host s rtnPiece = .ok s' ∧ s'.nodes.length = s.nodes.length + 1 ∧
        s.nodes.length < 128 := by
  have hcount : s.grow.nodes = s.nodes := by
    rw [ParserState.grow]
    split <;> rfl
  rw [parserStep]
  dsimp only
  rw [fill_full hbuffer rtnPiece_length, parseLine_rtnPiece]
  by_cases hroom : s.grow.room
  · right
    have hstr : ({ s.grow with str := rtnPiece ++ [nul, nul] } : ParserState).room = true := hroom
    rw [if_pos hstr]
    refine ⟨_, rfl, ?_, ?_⟩
    · show (s.grow.nodes ++ [_]).length = _
      rw [hcount, List.length_append, List.length_singleton]
    · rw [room_iff, ParserState.grow_array] at hroom
      exact hlisted.lt_of_fits hroom
  · left
    have hstr : ¬ ({ s.grow with str := rtnPiece ++ [nul, nul] } : ParserState).room = true := hroom
    rw [if_neg hstr]
    rfl

/-- So many of them use up the list. -/
theorem run_rtnPieces {k : Nat} {s : ParserState} (hbuffer : LineBuffer s.str)
    (hlisted : Listed s.array) (hk : 128 ≤ s.nodes.length + k) (ys : List (List Byte)) :
    (List.replicate (k + 1) rtnPiece ++ ys).foldlM (parserStep host) s = .error .table := by
  induction k generalizing s with
  | zero =>
    rw [List.replicate_one, List.singleton_append, List.foldlM_cons]
    rcases parserStep_rtnPiece host hbuffer hlisted with herr | ⟨s', -, -, hlt⟩
    · rw [herr]
      rfl
    · exact absurd hlt (Nat.not_lt.mpr hk)
  | succ k ih =>
    rw [List.replicate_succ, List.cons_append, List.foldlM_cons]
    rcases parserStep_rtnPiece host hbuffer hlisted with herr | ⟨s', hok, hlen, -⟩
    · rw [herr]
      rfl
    · have hlen : ∀ y ∈ [rtnPiece], y.length < INSTR_LEN :=
        List.forall_mem_singleton.mpr (by rw [rtnPiece_length]; decide)
      have hbuffer' : LineBuffer s'.str :=
        run_lineBuffer host hbuffer hlen (by rw [List.foldlM_cons, hok]; rfl)
      rw [hok]
      exact ih hbuffer' (hlisted.step hok) (by omega)

theorem pieces_rtnPieces (k : Nat) (file : List Byte) :
    pieces [] ((List.replicate k rtnPiece).flatten ++ file)
      = List.replicate k rtnPiece ++ pieces [] file := by
  induction k with
  | zero => rfl
  | succ k ih =>
    rw [List.replicate_succ, List.flatten_cons, List.append_assoc,
      pieces_full newline_notMem_rtnPiece rtnPiece_length, ih, List.cons_append]

/-- More instructions than the list holds. -/
theorem run_many {s : ParserState} (hbuffer : LineBuffer s.str) (hlisted : Listed s.array)
    (file : List Byte) :
    (pieces [] ((List.replicate 129 rtnPiece).flatten ++ file)).foldlM (parserStep host) s
      = .error .table := by
  rw [pieces_rtnPieces]
  exact run_rtnPieces host hbuffer hlisted (by omega) _

theorem newline_notMem_many : chr '\n' ∉ (List.replicate 129 rtnPiece).flatten := by
  intro hmem
  obtain ⟨l, hl, hmem⟩ := List.mem_flatten.mp hmem
  rw [List.eq_of_mem_replicate hl] at hmem
  exact newline_notMem_rtnPiece hmem

/-- The text fills the piece of the `//`, and what is behind it is parsed as lines. -/
theorem run_filled (hwhole : c.Whole) (hseen : c.Seen) (h : c.Passed host) :
    ∃ n s, LineBuffer s.str ∧ Listed s.array ∧
      ∀ u, (pieces [] (c.file (xs n ++ u))).foldlM (parserStep host) .start
        = (pieces [] (u ++ c.rest)).foldlM (parserStep host) s := by
  obtain ⟨s, hstart, hpiece⟩ := h
  obtain ⟨s', hpiece⟩ := hpiece hseen
  rw [opening_whole hwhole] at hpiece
  have hbuffer : LineBuffer s.str :=
    run_lineBuffer host lineBuffer_start (fun _ => piece_length) hstart
  obtain ⟨n, hn⟩ : ∃ n, (c.head ++ chr '/' :: chr '/' :: xs n).length = INSTR_LEN - 1 := by
    refine ⟨INSTR_LEN - 3 - c.head.length, ?_⟩
    simp only [Whole, List.length_append, List.length_cons, xs, List.length_replicate] at hwhole ⊢
    omega
  have hlen : (c.head ++ chr '/' :: chr '/' :: xs n).length < INSTR_LEN := by
    rw [hn]
    decide
  have htwin := comment_twin host hseen ⟨rfl, hbuffer, hbuffer⟩ hwhole hlen
  rw [hpiece] at htwin
  generalize hfull : parserStep host s (c.head ++ chr '/' :: chr '/' :: xs n) = x at htwin
  cases htwin with
  | @ok _ t htwin =>
    refine ⟨n, t, htwin.right, (run_listed hstart).step hfull, fun u => ?_⟩
    have hsplit : c.head ++ chr '/' :: chr '/' :: (xs n ++ u ++ c.rest)
        = (c.head ++ chr '/' :: chr '/' :: xs n) ++ (u ++ c.rest) := by simp
    have hnot : chr '\n' ∉ c.head ++ chr '/' :: chr '/' :: xs n :=
      newline_notMem newline_notMem_head (newline_notMem_xs n)
    rw [file, pieces_start, hsplit, pieces_full hnot hn, List.foldlM_append, hstart,
      Except.ok_bind, List.foldlM_cons, hfull, Except.ok_bind]

/-- The text begins with the second slash of its comment. -/
theorem run_split (hsplit : ¬ c.Whole) (hseen : c.Seen) (h : c.Passed host) :
    ∃ s, LineBuffer s.str ∧ Listed s.array ∧
      ∀ text, (pieces [] (c.file text)).foldlM (parserStep host) .start
        = (pieces [] (chr '/' :: (text ++ c.rest))).foldlM (parserStep host) s := by
  obtain ⟨s, hstart, hpiece⟩ := h
  obtain ⟨s', hpiece⟩ := hpiece hseen
  have hlen : ∀ y ∈ [c.opening], y.length < INSTR_LEN := by
    rw [List.forall_mem_singleton, (opening_split hsplit).2]
    decide
  have hbuffer : LineBuffer s.str :=
    run_lineBuffer host lineBuffer_start (fun _ => piece_length) hstart
  refine ⟨s', run_lineBuffer host hbuffer hlen (by rw [List.foldlM_cons, hpiece]; rfl),
    (run_listed hstart).step hpiece, fun text => ?_⟩
  rw [pieces_split hsplit, List.foldlM_append, hstart, Except.ok_bind, List.foldlM_cons, hpiece,
    Except.ok_bind]

/-- A piece that is a comment, and more instructions than the list holds. -/
theorem run_split_many {s : ParserState} (hbuffer : LineBuffer s.str) (hlisted : Listed s.array)
    (file : List Byte) :
    (pieces [] (chr '/' :: chr '/' :: xs 252 ++
      ((List.replicate 129 rtnPiece).flatten ++ file))).foldlM (parserStep host) s
        = .error .table := by
  have hnot : chr '\n' ∉ chr '/' :: chr '/' :: xs 252 :=
    newline_notMem List.not_mem_nil (newline_notMem_xs 252)
  have hlen : (chr '/' :: chr '/' :: xs 252).length = INSTR_LEN - 1 := by
    rw [List.length_cons, List.length_cons, xs, List.length_replicate]
    rfl
  rw [pieces_full hnot hlen, List.foldlM_cons]
  rcases parserStep_comment host s (xs 252) with herr | ⟨s', hok⟩
  · rw [herr]
    rfl
  · have hlt : ∀ y ∈ [chr '/' :: chr '/' :: xs 252], y.length < INSTR_LEN :=
      List.forall_mem_singleton.mpr (by rw [hlen]; decide)
    have hbuffer' : LineBuffer s'.str :=
      run_lineBuffer host hbuffer hlt (by rw [List.foldlM_cons, hok]; rfl)
    rw [hok, Except.ok_bind]
    exact run_many host hbuffer' (hlisted.step hok) file

/-- What is behind the cut can be anything: `@`, which ends the process, or more
instructions than the list holds. -/
theorem texts_differ (hseen : c.Seen) (h : c.Passed host) :
    ∃ text text', chr '\n' ∉ text ∧ chr '\n' ∉ text' ∧
      parser host (some (c.file text)) closes = .error .exit ∧
      parser host (some (c.file text')) closes = .error .table := by
  by_cases hwhole : c.Whole
  · obtain ⟨n, s, hbuffer, hlisted, hrun⟩ := run_filled host hwhole hseen h
    refine ⟨xs n ++ [chr '@'], xs n ++ (List.replicate 129 rtnPiece).flatten, ?_, ?_, ?_, ?_⟩
    · rw [List.mem_append, not_or]
      exact ⟨newline_notMem_xs n, by decide⟩
    · rw [List.mem_append, not_or]
      exact ⟨newline_notMem_xs n, newline_notMem_many⟩
    · exact parser_error host closes ((hrun _).trans (run_at host s _))
    · exact parser_error host closes ((hrun _).trans (run_many host hbuffer hlisted _))
  · obtain ⟨s, hbuffer, hlisted, hrun⟩ := run_split host hwhole hseen h
    refine ⟨[chr '@'], chr '/' :: xs 252 ++ (List.replicate 129 rtnPiece).flatten, by decide, ?_,
      ?_, ?_⟩
    · rw [List.mem_append, List.mem_cons, not_or, not_or]
      exact ⟨⟨by decide, newline_notMem_xs 252⟩, newline_notMem_many⟩
    · exact parser_error host closes ((hrun _).trans (run_slash_at host s _))
    · refine parser_error host closes ((hrun _).trans ?_)
      rw [List.append_assoc]
      exact run_split_many host hbuffer hlisted _

/-- **A text does not matter where the parser does not get past the comment, nor where it
fits and the last line finds the same; and every comment that it gets past has texts that
matter.** -/
theorem inert_texts (c : Comment) :
    (∀ text text', chr '\n' ∉ text → chr '\n' ∉ text' →
      ¬ c.Passed host ∨ (c.Fits text ∧ c.Fits text' ∧ ¬ c.LastDiffers host text text') →
      parser host (some (c.file text)) closes = parser host (some (c.file text')) closes) ∧
    (c.Seen →
      ((∀ text text', chr '\n' ∉ text → chr '\n' ∉ text' →
        parser host (some (c.file text)) closes = parser host (some (c.file text')) closes) ↔
      ¬ c.Passed host)) := by
  have hstopped : ¬ c.Passed host → ∀ text text',
      parser host (some (c.file text)) closes = parser host (some (c.file text')) closes := by
    intro h text text'
    obtain ⟨e, hrun⟩ := run_stopped host h
    rw [parser_error host closes (hrun text), parser_error host closes (hrun text')]
  refine ⟨fun text text' htext htext' hcond => ?_, fun hseen => ⟨fun hsame hpassed => ?_, ?_⟩⟩
  · rcases hcond with h | ⟨hfits, hfits', hlast⟩
    · exact hstopped h text text'
    · exact fitting_alike host closes htext htext' hfits hfits' hlast
  · obtain ⟨text, text', htext, htext', hexit, htable⟩ := texts_differ host closes hseen hpassed
    have h := hsame text text' htext htext'
    rw [hexit, htable] at h
    cases h
  · exact fun h text text' _ _ => hstopped h text text'

/-- `NOP // …` between two instructions. -/
def behindNop : Comment where
  before := word (literal "RTN\n")
  code := word (literal "NOP ")
  rest := word (literal "\nRTN\n")
  starts := .inr rfl
  oneLine := by decide
  outside := rfl
  ends := .inr ⟨_, rfl⟩

/-- `@` and `/ "` do not matter there, but some texts do. -/
theorem inert_texts_nop :
    parser ⟨fun _ _ => 0, fun _ => zeroNode⟩ (some (behindNop.file (word (literal "@")))) true
      = parser ⟨fun _ _ => 0, fun _ => zeroNode⟩
          (some (behindNop.file (word (literal "/ \"")))) true ∧
    ¬ ∀ text text', chr '\n' ∉ text → chr '\n' ∉ text' →
      parser ⟨fun _ _ => 0, fun _ => zeroNode⟩ (some (behindNop.file text)) true
        = parser ⟨fun _ _ => 0, fun _ => zeroNode⟩ (some (behindNop.file text')) true := by
  have hlast : ¬ behindNop.LastDiffers ⟨fun _ _ => 0, fun _ => zeroNode⟩ (word (literal "@"))
      (word (literal "/ \"")) := by
    rintro ⟨ys, y, -, -, hrest, hnot, -⟩
    have hy : (ys ++ [y]).getLast? = some (word (literal "RTN\n")) := hrest ▸ rfl
    rw [List.getLast?_append, List.getLast?_singleton] at hy
    cases hy
    exact hnot (by decide)
  have h := inert_texts ⟨fun _ _ => 0, fun _ => zeroNode⟩ true behindNop
  refine ⟨h.1 _ _ (by decide) (by decide) (.inr ⟨by decide, by decide, hlast⟩), ?_⟩
  have hpassed : behindNop.Passed ⟨fun _ _ => 0, fun _ => zeroNode⟩ :=
    ⟨_, rfl, fun _ => ⟨_, rfl⟩⟩
  exact fun hsame => (h.2 rfl).mp hsame hpassed

/-- A file that is one comment. -/
def alone : Comment where
  before := []
  code := []
  rest := []
  starts := .inl rfl
  oneLine := List.not_mem_nil
  outside := rfl
  ends := .inl rfl

set_option maxRecDepth 8000 in
/-- A comment of 255 characters: the last of them is parsed as a line. -/
theorem long_comment_parsed :
    ¬ ∀ (host : ParserHost) (closes : Bool) (c : Comment) (text text' : List Byte),
      chr '\n' ∉ text → chr '\n' ∉ text' →
      parser host (some (c.file text)) closes = parser host (some (c.file text')) closes := by
  intro h
  have hx : chr '\n' ∉ List.replicate 252 (chr 'x') ++ [chr '@'] := by
    intro hmem
    rcases List.mem_append.mp hmem with hmem | hmem
    · exact absurd (List.eq_of_mem_replicate hmem) (by decide)
    · exact absurd (List.mem_singleton.mp hmem) (by decide)
  have hsame := h ⟨fun _ _ => 0, fun _ => zeroNode⟩ true alone [] _ List.not_mem_nil hx
  have hparsed : (Except.ok [] : Exec (List IRNode)) = .error .exit := hsame
  cases hparsed

end Comment

end BSVM
