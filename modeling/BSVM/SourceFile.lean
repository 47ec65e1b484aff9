/-
# `BSVM.SourceFile` — a file that is written is parsed back

A `SourceLine` is a line with what it says, if anything, and one of the ways to
write it; `written` is the file, `listed` the nodes that the parser should make of
it.  `parser` then does:

    pieces_written       `fgets` stores the lines, one by one
    parserStep_line      a line leaves its node, or none
    parser_written       and so the file its list

A node has the number of its line, lines that say nothing being counted, and the
pointers that `malloc` returned on it.  From 128 nodes on the list is lost.
-/
import BSVM.Growth
import BSVM.Pieces
import BSVM.Rendering

namespace BSVM

/-! ## Lines -/

def Source.tokens? : Option Source → List Token
  | none => []
  | some source => source.tokens

/-- A line of at most 254 characters. -/
structure SourceLine where
  source : Option Source
  text : List Byte
  renders : Renders (Source.tokens? source) text
  fits : text.length < INSTR_LEN

def written (lines : List SourceLine) : List Byte :=
  lines.flatMap (·.text)

/-- The nodes of the lines from number `k` on, the first one being number 0. -/
def listed (host : ParserHost) : Word → List SourceLine → List IRNode
  | _, [] => []
  | k, line :: lines =>
      match line.source with
      | none => listed host (k + 1) lines
      | some source =>
          { line := k + 1, body := source.body (host.ptr k) } :: listed host (k + 1) lines

/-! ## Newlines -/

theorem isIdent_ne_newline {c : Byte} (h : isIdent c) : c ≠ chr '\n' :=
  ne_of_class h rfl

theorem newline_not_mem {text : List Byte} (h : ∀ c ∈ text, isIdent c) : chr '\n' ∉ text :=
  fun hmem => isIdent_ne_newline (h _ hmem) rfl

theorem digits_isIdent (n : Nat) : ∀ c ∈ digits n, isIdent c := by
  intro c hc
  obtain ⟨d, hd, rfl⟩ := List.mem_map.mp hc
  exact isIdent_of_isdigit _
    (digit_chr (Nat.isDigit_of_mem_toDigits (by decide) (by decide) hd)).1

theorem IsName.isIdent {text : List Byte} (h : IsName text) : ∀ c ∈ text, BSVM.isIdent c := by
  cases text with
  | nil => exact h.elim
  | cons c s =>
      intro d hd
      rcases List.mem_cons.mp hd with rfl | hd
      · exact isIdent_of_islower _ h.1
      · exact h.2 d hd

/-- The token does not break its line. -/
def Token.OneLine (tok : Token) : Prop :=
  chr '\n' ∉ tok.text

theorem oneLine_number (n : Word) : (Token.number n).OneLine :=
  newline_not_mem (digits_isIdent _)

theorem oneLine_register (r : Word) : (Token.register r).OneLine := by
  intro hmem
  rcases List.mem_cons.mp hmem with hR | hmem
  · exact absurd hR (by decide)
  · exact newline_not_mem (digits_isIdent _) hmem

theorem oneLine_name {text : List Byte} (h : IsName text) : (Token.ident text).OneLine :=
  newline_not_mem h.isIdent

theorem oneLine_mnemonic (op : OpCode) : (Token.mnemonic (word op.mnemonic)).OneLine :=
  newline_not_mem fun c hc => isIdent_of_isupper c ((word_isupper op).2 c hc)

theorem oneLine_text (text : Text) : (Token.string text.text).OneLine := by
  intro hmem
  simp only [Token.text, List.cons_append, List.mem_cons, List.mem_append, List.not_mem_nil,
    or_false] at hmem
  rcases hmem with hquote | hmem | hquote
  · exact absurd hquote (by decide)
  · exact absurd (text.printable _ hmem).1 (by decide)
  · exact absurd hquote (by decide)

theorem oneLine_sign (neg : Bool) : (sign neg).OneLine := by
  cases neg with
  | false => exact (by decide : chr '\n' ∉ Token.plus.text)
  | true => exact (by decide : chr '\n' ∉ Token.minus.text)

theorem Value.oneLine (v : Value) : ∀ tok ∈ v.tokens, tok.OneLine := by
  have hminus : Token.minus.OneLine := oneLine_sign true
  rw [Value.tokens]
  split
  · simp [hminus, oneLine_number]
  · simp [oneLine_number]

theorem SourceOperand.oneLine (a : SourceOperand) : ∀ tok ∈ a.tokens, tok.OneLine := by
  have hopen : Token.openBracket.OneLine := (by decide : chr '\n' ∉ Token.openBracket.text)
  have hclose : Token.closeBracket.OneLine := (by decide : chr '\n' ∉ Token.closeBracket.text)
  cases a with
  | ident x => simp [SourceOperand.tokens, oneLine_name x.isName]
  | value v => exact v.oneLine
  | reg r => simp [SourceOperand.tokens, oneLine_register]
  | memValue n => simp [SourceOperand.tokens, hopen, hclose, oneLine_number]
  | memIdent x => simp [SourceOperand.tokens, hopen, hclose, oneLine_name x.isName]
  | memReg r => simp [SourceOperand.tokens, hopen, hclose, oneLine_register]
  | memIdx r neg k =>
      simp [SourceOperand.tokens, hopen, hclose, oneLine_register, oneLine_sign, oneLine_number]
  | memIdxIdent x neg k =>
      simp [SourceOperand.tokens, hopen, hclose, oneLine_name x.isName, oneLine_sign,
        oneLine_number]

theorem Source.oneLine (source : Source) : ∀ tok ∈ source.tokens, tok.OneLine := by
  have hcolon : Token.colon.OneLine := (by decide : chr '\n' ∉ Token.colon.text)
  have hdot : Token.dot.OneLine := (by decide : chr '\n' ∉ Token.dot.text)
  have hcomma : Token.comma.OneLine := (by decide : chr '\n' ∉ Token.comma.text)
  cases source with
  | label x => simp [Source.tokens, oneLine_name x.isName, hcolon]
  | dir type arg =>
      have harg : ∀ tok ∈ arg.tokens, tok.OneLine := by
        cases arg with
        | none => simp [SourceArg.tokens]
        | ident x => simp [SourceArg.tokens, oneLine_name x.isName]
        | value v => exact v.oneLine
        | string text => simp [SourceArg.tokens, oneLine_text]
      simpa [Source.tokens, hdot, oneLine_name (word_isName type)] using harg
  | instr0 op => simp [Source.tokens, oneLine_mnemonic]
  | instr1 op a => simpa [Source.tokens, oneLine_mnemonic] using a.oneLine
  | instr2 op r b =>
      simpa [Source.tokens, oneLine_mnemonic, oneLine_register, hcomma] using b.oneLine

/-- A written line has its newline at the end. -/
theorem Renders.newline_last {toks : List Token} {text : List Byte} (h : Renders toks text)
    (htoks : ∀ tok ∈ toks, tok.OneLine) : ∃ w, text = w ++ [chr '\n'] ∧ chr '\n' ∉ w := by
  have hblank : ∀ blanks : List Byte, (∀ b ∈ blanks, isBlank b) → chr '\n' ∉ blanks :=
    fun blanks hblanks hmem => ne_of_class (hblanks _ hmem) rfl rfl
  induction h with
  | newline blanks hblanks => exact ⟨blanks, rfl, hblank _ hblanks⟩
  | comment blanks text hblanks htext =>
      refine ⟨blanks ++ (chr '/' :: chr '/' :: text), by simp, ?_⟩
      intro hmem
      simp only [List.mem_append, List.mem_cons] at hmem
      rcases hmem with hmem | hslash | hslash | hmem
      · exact hblank _ hblanks hmem
      · exact absurd hslash (by decide)
      · exact absurd hslash (by decide)
      · exact ne_of_class (htext _ hmem) rfl rfl
  | token blanks tok toks c line hblanks _ _ ih =>
      obtain ⟨w, hw, hno⟩ := ih fun tok' hmem => htoks tok' (List.mem_cons_of_mem _ hmem)
      refine ⟨blanks ++ tok.text ++ w, hw ▸ (List.append_assoc _ _ _).symm, ?_⟩
      intro hmem
      simp only [List.mem_append] at hmem
      rcases hmem with (hmem | hmem) | hmem
      · exact hblank _ hblanks hmem
      · exact htoks tok (List.mem_cons_self ..) hmem
      · exact hno hmem

theorem SourceLine.newline_last (line : SourceLine) :
    ∃ w, line.text = w ++ [chr '\n'] ∧ chr '\n' ∉ w := by
  refine line.renders.newline_last ?_
  cases line.source with
  | none => simp [Source.tokens?]
  | some source => exact source.oneLine

/-- `fgets` stores the lines, one by one. -/
theorem pieces_written (lines : List SourceLine) :
    pieces [] (written lines) = lines.map (·.text) := by
  induction lines with
  | nil => rfl
  | cons line lines ih =>
      obtain ⟨w, hw, hno⟩ := line.newline_last
      have hfits := line.fits
      rw [hw, List.length_append] at hfits
      have hpiece := pieces_line hno hfits (written lines)
      rw [ih, List.append_cons, ← hw] at hpiece
      exact hpiece

/-! ## One line -/

variable {ptr : Nat → Word} {slot : Slot} {lexer l l' : Lexer} {buffer : List Byte}

/-- What is parsed behind the first token is the body of the node. -/
theorem parseLine_head {tok : Token} {body : IRBody}
    (hnext : next ⟨buffer, lexer.line⟩ = .ok (tok, l))
    (hparse : (match tok with
      | .dot => parseDir (ptr 0) l
      | .ident text => parseLabel (ptr 0) text l
      | .mnemonic text => parseInstr ptr slot text l
      | _ => .ok (.error .unknownInstr)) = .ok (.ok (body, l'))) :
    parseLine ptr buffer (some slot) lexer =
      .ok (.ok { line := lexer.line + 1, body := body }) := by
  have hline := (next_iff.mp hnext).2
  rw [parseLine, hnext, Except.ok_bind]
  cases tok with
  | dot => simp_all [isEndOfInstr, access, chkParser]
  | ident text => simp_all [isEndOfInstr, isSyntaxElement, access, chkParser]
  | mnemonic text => simp_all [isEndOfInstr, isSyntaxElement, access, chkParser]
  | _ => cases hparse

theorem parseLabel_colon (p : Word) {text : List Byte} (hcolon : next lexer = .ok (.colon, l))
    (hend : AtEnd l) :
    ∃ l', parseLabel p text lexer = .ok (.ok (.label (.ident (mkIdent p text)), l')) := by
  obtain ⟨l', hline⟩ := lineEnd_atEnd (IRBody.label (.ident (mkIdent p text))) hend
  refine ⟨l', ?_⟩
  rw [parseLabel, hcolon, Except.ok_bind]
  exact hline

/-- The tokens of a line are parsed to what it says. -/
theorem parseLine_tokens (source : Source) (hrun : Lexer.Run ⟨buffer, lexer.line⟩ source.tokens l)
    (hend : Ending l) : parseLine ptr buffer (some slot) lexer =
      .ok (.ok { line := lexer.line + 1, body := source.body ptr }) := by
  cases source with
  | label x =>
      obtain ⟨l₁, l₂, hname, hcolon, hrest⟩ := run_pair hrun
      rw [run_nil.mp hrest] at hend
      obtain ⟨l', hlabel⟩ := parseLabel_colon (ptr 0) hcolon hend.atEnd
      exact parseLine_head hname hlabel
  | dir type arg =>
      obtain ⟨l₁, hdot, hrest⟩ := run_cons.mp hrun
      obtain ⟨l', hdir⟩ := parseDir_arg (ptr 0) hrest hend
      exact parseLine_head hdot hdir
  | instr0 op =>
      obtain ⟨l₁, hop, hrest⟩ := run_cons.mp hrun
      rw [run_nil.mp hrest] at hend
      obtain ⟨l', hinstr⟩ := parseInstr_instr0 ptr slot op hend
      exact parseLine_head hop hinstr
  | instr1 op a =>
      obtain ⟨l₁, hop, hrest⟩ := run_cons.mp hrun
      obtain ⟨l', hinstr⟩ := parseInstr_instr1 ptr slot op hrest hend
      exact parseLine_head hop hinstr
  | instr2 op r b =>
      obtain ⟨l₁, hop, hrest⟩ := run_cons.mp hrun
      obtain ⟨l', hinstr⟩ := parseInstr_instr2 ptr slot op hrest hend
      exact parseLine_head hop hinstr

/-- A line without tokens is empty. -/
theorem parseLine_blank {IR : Option Slot} (hend : Ending ⟨buffer, lexer.line⟩) :
    parseLine ptr buffer IR lexer = .ok (.error .empty) := by
  obtain ⟨e, l, he, hnext, -⟩ := hend
  rw [parseLine, hnext, Except.ok_bind]
  simp only [he, if_true]
  rfl

/-- Without a node to be filled the parser does not come behind the first token. -/
theorem parseLine_lost (source : Source)
    (hrun : Lexer.Run ⟨buffer, lexer.line⟩ source.tokens l) :
    parseLine ptr buffer none lexer = .error .table := by
  cases source with
  | label x =>
      obtain ⟨l₁, hname, -⟩ := run_cons.mp hrun
      rw [parseLine, hname]
      rfl
  | dir type arg =>
      obtain ⟨l₁, hdot, -⟩ := run_cons.mp hrun
      rw [parseLine, hdot]
      rfl
  | instr0 op =>
      obtain ⟨l₁, hop, -⟩ := run_cons.mp hrun
      rw [parseLine, hop]
      rfl
  | instr1 op a =>
      obtain ⟨l₁, hop, -⟩ := run_cons.mp hrun
      rw [parseLine, hop]
      rfl
  | instr2 op r b =>
      obtain ⟨l₁, hop, -⟩ := run_cons.mp hrun
      rw [parseLine, hop]
      rfl

/-! ## The loop -/

/-- Where the list is not full. -/
structure ParserState.Open (s : ParserState) : Prop where
  size : s.progSize = 128
  block : s.block = 128 * sizeofIRNode
  few : s.nodes.length < 128

theorem ParserState.Open.grow {s : ParserState} (h : s.Open) : s.grow = s := by
  rw [ParserState.grow, if_neg (by rw [h.size]; exact h.few.ne)]

theorem ParserState.Open.room {s : ParserState} (h : s.Open) : s.room = true := by
  have hfew := h.few
  rw [ParserState.room, decide_eq_true_iff, h.block]
  exact Nat.mul_le_mul_right _ hfew

/-- What a line leaves in the list. -/
def SourceLine.node? (host : ParserHost) (k : Word) (line : SourceLine) : List IRNode :=
  (line.source.map fun source => { line := k + 1, body := source.body (host.ptr k) }).toList

theorem listed_cons (host : ParserHost) (k : Word) (line : SourceLine) (lines : List SourceLine) :
    listed host k (line :: lines) = line.node? host k ++ listed host (k + 1) lines := by
  rw [listed, SourceLine.node?]
  cases line.source with
  | none => rfl
  | some source => rfl

/-- A line leaves its node, or none. -/
theorem parserStep_line (host : ParserHost) {s : ParserState} (h : s.Open) (line : SourceLine) :
    ∃ s', parserStep host s line.text = .ok s' ∧ s'.nodes = s.nodes ++ line.node? host s.line ∧
      s'.line = s.line + 1 ∧ s'.progSize = s.progSize ∧ s'.block = s.block := by
  have hroom : ({ s with str := fill line.text s.str } : ParserState).room = true := h.room
  obtain ⟨source, text, hrenders, hfits⟩ := line
  rw [parserStep, h.grow]
  dsimp only
  rw [hroom, if_pos rfl, fill, SourceLine.node?]
  cases source with
  | none =>
      obtain ⟨l, hrun, hend⟩ := hrenders.reading trivial (s.str.drop (text.length + 1)) s.line
      rw [run_nil.mp hrun] at hend
      rw [parseLine_blank hend, Except.ok_bind]
      exact ⟨_, rfl, (List.append_nil _).symm, rfl, rfl, rfl⟩
  | some source =>
      obtain ⟨l, hrun, hend⟩ :=
        hrenders.reading source.sounds (s.str.drop (text.length + 1)) s.line
      rw [parseLine_tokens source hrun hend, Except.ok_bind]
      exact ⟨_, rfl, rfl, rfl, rfl, rfl⟩

/-- Behind 128 nodes every line is the end. -/
theorem parserStep_full (host : ParserHost) {s : ParserState} (hsize : s.progSize = 128)
    (hfull : s.nodes.length = 128) (line : SourceLine) :
    parserStep host s line.text = .error .table := by
  have hgrow : s.grow = { s with progSize := 2 * s.progSize, block := 0 } := by
    rw [ParserState.grow, if_pos (hfull.trans hsize.symm)]
  have hroom : ({ s.grow with str := fill line.text s.str } : ParserState).room = false := by
    rw [ParserState.room, decide_eq_false_iff_not, hgrow]
    show ¬ (s.nodes.length + 1) * sizeofIRNode ≤ 0
    rw [sizeofIRNode]
    omega
  obtain ⟨source, text, hrenders, hfits⟩ := line
  rw [parserStep]
  dsimp only
  rw [hroom, if_neg Bool.false_ne_true, fill]
  cases source with
  | none =>
      obtain ⟨l, hrun, hend⟩ := hrenders.reading trivial (s.str.drop (text.length + 1)) s.grow.line
      rw [run_nil.mp hrun] at hend
      rw [parseLine_blank hend, Except.ok_bind]
      rfl
  | some source =>
      obtain ⟨l, hrun, -⟩ :=
        hrenders.reading source.sounds (s.str.drop (text.length + 1)) s.grow.line
      rw [parseLine_lost source hrun]
      rfl

/-- There is room for a node in front of every line. -/
def Roomy (host : ParserHost) (s : ParserState) (lines : List SourceLine) : Prop :=
  lines = [] ∨ (s.nodes ++ listed host s.line lines.dropLast).length < 128

theorem roomy_cons {host : ParserHost} {s s' : ParserState} {line : SourceLine}
    {lines : List SourceLine} (hfew : s.nodes.length < 128)
    (hnodes : s'.nodes = s.nodes ++ line.node? host s.line) (hline : s'.line = s.line + 1) :
    Roomy host s (line :: lines) ↔ Roomy host s' lines := by
  cases lines with
  | nil => exact ⟨fun _ => Or.inl rfl, fun _ => Or.inr (by simpa [listed] using hfew)⟩
  | cons line' lines =>
      rw [Roomy, Roomy, List.dropLast_cons_cons, listed_cons, ← List.append_assoc, ← hnodes,
        ← hline]
      simp only [List.cons_ne_nil, false_or]

/-- The loop over the lines of a file. -/
theorem run_lines (host : ParserHost) {lines : List SourceLine} {s : ParserState}
    (hsize : s.progSize = 128) (hblock : s.block = 128 * sizeofIRNode)
    (hle : s.nodes.length ≤ 128) :
    (Roomy host s lines → ∃ s', (lines.map (·.text)).foldlM (parserStep host) s = .ok s' ∧
      s'.nodes = s.nodes ++ listed host s.line lines ∧ s'.nodes.length * sizeofIRNode ≤ s'.block) ∧
    (¬ Roomy host s lines → (lines.map (·.text)).foldlM (parserStep host) s = .error .table) := by
  induction lines generalizing s with
  | nil =>
      refine ⟨fun _ => ⟨s, rfl, (List.append_nil _).symm, ?_⟩, fun h => absurd (Or.inl rfl) h⟩
      rw [hblock]
      exact Nat.mul_le_mul_right _ hle
  | cons line lines ih =>
      rcases hle.lt_or_eq with hfew | hfull
      · obtain ⟨s₁, hstep, hnodes, hline, hsize₁, hblock₁⟩ :=
          parserStep_line host ⟨hsize, hblock, hfew⟩ line
        have hle₁ : s₁.nodes.length ≤ 128 := by
          rw [hnodes, List.length_append, SourceLine.node?]
          cases line.source with
          | none => exact hfew.le
          | some source => exact hfew
        have hrest := ih (hsize₁.trans hsize) (hblock₁.trans hblock) hle₁
        rw [listed_cons, ← List.append_assoc, ← hnodes, ← hline, roomy_cons hfew hnodes hline,
          List.map_cons, List.foldlM_cons, hstep, Except.ok_bind]
        exact hrest
      · have hno : ¬ Roomy host s (line :: lines) := by
          rintro (hnil | hlt)
          · cases hnil
          · rw [List.length_append] at hlt
            omega
        refine ⟨fun h => absurd h hno, fun _ => ?_⟩
        rw [List.map_cons, List.foldlM_cons, parserStep_full host hsize hfull]
        rfl

theorem roomy_start {host : ParserHost} {lines : List SourceLine} :
    Roomy host .start lines ↔ (listed host 0 lines.dropLast).length < 128 := by
  refine ⟨?_, Or.inr⟩
  rintro (rfl | hlt)
  · exact Nat.zero_lt_succ _
  · exact hlt

theorem parser_written {host : ParserHost} {lines : List SourceLine}
    (hfew : (listed host 0 lines.dropLast).length < 128) :
    parser host (some (written lines)) true = .ok (listed host 0 lines) := by
  have hle : ParserState.start.nodes.length ≤ 128 := Nat.zero_le _
  obtain ⟨s, hrun, hnodes, hroom⟩ := (run_lines host rfl rfl hle).1 (roomy_start.mpr hfew)
  rw [parser, pieces_written, hrun, Except.ok_bind, if_neg nofun, if_pos hroom, hnodes]
  rfl

theorem parser_lost {host : ParserHost} {lines : List SourceLine}
    (hmany : ¬ (listed host 0 lines.dropLast).length < 128) :
    parser host (some (written lines)) true = .error .table := by
  have hle : ParserState.start.nodes.length ≤ 128 := Nat.zero_le _
  have hrun := (run_lines host rfl rfl hle).2 fun hroomy => hmany (roomy_start.mp hroomy)
  rw [parser, pieces_written, hrun]
  rfl

/-- **A file that is written is parsed to the nodes of its lines**, unless a line stands
behind 128 of them. -/
theorem source_file_parsed (host : ParserHost) (lines : List SourceLine) :
    parser host (some (written lines)) true =
      if (listed host 0 lines.dropLast).length < 128 then .ok (listed host 0 lines)
      else .error .table := by
  split
  · next hfew => exact parser_written hfew
  · next hmany => exact parser_lost hmany

end BSVM
