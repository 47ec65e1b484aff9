/-
# `BSVM.Rendering` — a line that is printed is parsed back

`Source` is what a line can say, with the ranges that it must keep to;
`Source.tokens` is how it is printed, `Source.body` what the parser should make
of it.  `Renders` leaves the layout open: blanks stand in front of any token and
of the end of the line, and a comment may stand there.

    Renders.reading    the lexer reads the tokens back, and then two ends
    parse_operand      an operand is parsed, whichever end it has consumed
    parse_rendered     and so is the line

The second end matters for `[x]`, which takes the first one.
-/
import BSVM.Grammar

namespace BSVM

/-! ## What a line says -/

/-- `[a-z][A-Za-z0-9_]*`. -/
structure Name where
  text : List Byte
  isName : IsName text

/-- A value of less than 64 bits. -/
structure Value where
  int : Int
  small : int.natAbs < 2 ^ 63

/-- A number as it stands in brackets. -/
structure Offset where
  nat : Nat
  small : nat < 2 ^ 63

/-- Characters from the blank to `~`, but no quote and no backslash. -/
structure Text where
  text : List Byte
  printable : ∀ c ∈ text, 32 ≤ c.toNat ∧ c.toNat < 127 ∧ c ≠ chr '"' ∧ c ≠ chr '\\'

/-- An operand of an instruction. -/
inductive SourceOperand where
  | ident (x : Name)
  | value (v : Value)
  | reg (r : Byte)
  | memValue (n : Offset)
  | memIdent (x : Name)
  | memReg (r : Byte)
  | memIdx (r : Byte) (neg : Bool) (k : Offset)
  | memIdxIdent (x : Name) (neg : Bool) (k : Offset)

/-- The operand of a directive. -/
inductive SourceArg where
  | none
  | ident (x : Name)
  | value (v : Value)
  | string (text : Text)

/-- A line. -/
inductive Source where
  | label (x : Name)
  | dir (type : DirType) (arg : SourceArg)
  | instr0 (op : OpCode)
  | instr1 (op : OpCode) (a : SourceOperand)
  | instr2 (op : OpCode) (r : Byte) (b : SourceOperand)

/-! ## How it is printed -/

def Offset.word (n : Offset) : Word :=
  BitVec.ofNat 64 n.nat

def Value.word (v : Value) : Word :=
  BitVec.ofInt 64 v.int

/-- The number, behind a minus if it is negative. -/
def Value.tokens (v : Value) : List Token :=
  if v.int < 0 then [.minus, .number (BitVec.ofNat 64 v.int.natAbs)]
  else [.number (BitVec.ofNat 64 v.int.natAbs)]

def SourceOperand.tokens : SourceOperand → List Token
  | .ident x => [.ident x.text]
  | .value v => v.tokens
  | .reg r => [.register (r.setWidth 64)]
  | .memValue n => [.openBracket, .number n.word, .closeBracket]
  | .memIdent x => [.openBracket, .ident x.text, .closeBracket]
  | .memReg r => [.openBracket, .register (r.setWidth 64), .closeBracket]
  | .memIdx r neg k =>
      [.openBracket, .register (r.setWidth 64), sign neg, .number k.word, .closeBracket]
  | .memIdxIdent x neg k => [.openBracket, .ident x.text, sign neg, .number k.word, .closeBracket]

def SourceArg.tokens : SourceArg → List Token
  | .none => []
  | .ident x => [.ident x.text]
  | .value v => v.tokens
  | .string text => [.string text.text]

/-- A name of the tables, without its NUL. -/
def word (mnemonic : List Byte) : List Byte :=
  mnemonic.dropLast

def Source.tokens : Source → List Token
  | .label x => [.ident x.text, .colon]
  | .dir type arg => .dot :: .ident (word type.mnemonic) :: arg.tokens
  | .instr0 op => [.mnemonic (word op.mnemonic)]
  | .instr1 op a => .mnemonic (word op.mnemonic) :: a.tokens
  | .instr2 op r b =>
      .mnemonic (word op.mnemonic) :: .register (r.setWidth 64) :: .comma :: b.tokens

/-- A way to write tokens on a line. -/
inductive Renders : List Token → List Byte → Prop
  | newline (blanks : List Byte) : (∀ b ∈ blanks, isBlank b) →
      Renders [] (blanks ++ [chr '\n'])
  | comment (blanks text : List Byte) : (∀ b ∈ blanks, isBlank b) →
      (∀ c ∈ text, inComment c) →
      Renders [] (blanks ++ (chr '/' :: chr '/' :: text ++ [chr '\n']))
  | token (blanks : List Byte) (tok : Token) (toks : List Token) (c : Byte) (line : List Byte) :
      (∀ b ∈ blanks, isBlank b) → tok.Ends c → Renders toks (c :: line) →
      Renders (tok :: toks) (blanks ++ tok.text ++ c :: line)

/-! ## What the parser makes of it -/

def SourceOperand.operand (ptr : Word) : SourceOperand → Operand
  | .ident x => .ident (mkIdent ptr x.text)
  | .value v => .value v.word
  | .reg r => .reg r
  | .memValue n => .memValue n.word
  | .memIdent x => .memIdent (mkIdent ptr x.text)
  | .memReg r => .memReg r
  | .memIdx r neg k => .memIdx r (signed neg k.word)
  | .memIdxIdent x neg k => .memIdxIdent (mkIdent ptr x.text) (signed neg k.word)

def SourceArg.operand (ptr : Word) : SourceArg → Operand
  | .none => .none
  | .ident x => .ident (mkIdent ptr x.text)
  | .value v => .value v.word
  | .string text => .string (mkIdent ptr text.text)

def Source.body (ptr : Nat → Word) : Source → IRBody
  | .label x => .label (.ident (mkIdent (ptr 0) x.text))
  | .dir type arg => .dir type (arg.operand (ptr 0))
  | .instr0 op => .instr op .none .none
  | .instr1 op a => .instr op (a.operand (ptr 0)) .none
  | .instr2 op r b => .instr op (.reg r) (b.operand (ptr 1))

/-! ## The lexer on a printed line -/

theorem word_isName (type : DirType) : IsName (word type.mnemonic) := by
  cases type <;> exact ⟨rfl, List.all_eq_true.mp rfl⟩

/-- The mnemonics, character by character: a string takes long to evaluate. -/
def OpCode.letters : OpCode → List Char
  | .add => ['A', 'D', 'D']
  | .sub => ['S', 'U', 'B']
  | .mul => ['M', 'U', 'L']
  | .div => ['D', 'I', 'V']
  | .cmp => ['C', 'M', 'P']
  | .neg => ['N', 'E', 'G']
  | .and => ['A', 'N', 'D']
  | .or => ['O', 'R']
  | .xor => ['X', 'O', 'R']
  | .not => ['N', 'O', 'T']
  | .shl => ['S', 'H', 'L']
  | .shr => ['S', 'H', 'R']
  | .st => ['S', 'T']
  | .ld => ['L', 'D']
  | .swp => ['S', 'W', 'P']
  | .push => ['P', 'U', 'S', 'H']
  | .pop => ['P', 'O', 'P']
  | .fas => ['F', 'A', 'S']
  | .call => ['C', 'A', 'L', 'L']
  | .rtn => ['R', 'T', 'N']
  | .nop => ['N', 'O', 'P']
  | .rst => ['R', 'S', 'T']
  | .jmp => ['J', 'M', 'P']
  | .jeq => ['J', 'E', 'Q']
  | .jne => ['J', 'N', 'E']
  | .jle => ['J', 'L', 'E']
  | .jlt => ['J', 'L', 'T']
  | .jge => ['J', 'G', 'E']
  | .jgt => ['J', 'G', 'T']
  | .halt => ['H', 'A', 'L', 'T']
  | .trap => ['T', 'R', 'A', 'P']

theorem mnemonic_eq : OpCode.mnemonic = fun op => op.letters.map chr ++ [nul] := by
  funext op
  cases op <;> rfl

theorem word_mnemonic (op : OpCode) : word op.mnemonic = op.letters.map chr := by
  rw [mnemonic_eq, word, List.dropLast_concat]

theorem letters_isupper (op : OpCode) : ∀ c ∈ op.letters, isupper (chr c) := by
  have h : op.letters.all (fun c => isupper (chr c)) = true := by cases op <;> rfl
  exact List.all_eq_true.mp h

theorem word_isupper (op : OpCode) :
    word op.mnemonic ≠ [] ∧ ∀ c ∈ word op.mnemonic, isupper c := by
  rw [word_mnemonic]
  constructor
  · cases op <;> exact List.cons_ne_nil _ _
  · intro c hc
    obtain ⟨d, hd, rfl⟩ := List.mem_map.mp hc
    exact letters_isupper op d hd

theorem opLookup_word (op : OpCode) : opLookup (word op.mnemonic) = some op := by
  rw [word_mnemonic, opLookup, mnemonic_eq]
  cases op <;> rfl

theorem dirLookup_word (type : DirType) : dirLookup (word type.mnemonic) = some type := by
  cases type <;> rfl

theorem toNat_ofNat_small {n : Nat} (h : n < 2 ^ 63) : (BitVec.ofNat 64 n).toNat < 2 ^ 63 := by
  rw [BitVec.toNat_ofNat]
  omega

theorem byte_small (r : Byte) : (r.setWidth 64).toNat < 2 ^ 63 := by
  have h := byte_le r
  omega

/-- All of the tokens can be written. -/
def Sounds : List Token → Prop
  | [] => True
  | tok :: toks => tok.Sound ∧ Sounds toks

theorem Value.sounds (v : Value) : Sounds v.tokens := by
  have hnumber : (Token.number (BitVec.ofNat 64 v.int.natAbs)).Sound := toNat_ofNat_small v.small
  rw [Value.tokens]
  split
  · exact ⟨trivial, hnumber, trivial⟩
  · exact ⟨hnumber, trivial⟩

theorem sign_sound (neg : Bool) : (sign neg).Sound := by
  cases neg <;> exact trivial

theorem Text.sound (text : Text) : (Token.string text.text).Sound := by
  intro c hc
  obtain ⟨hlow, -, hquote, hback⟩ := text.printable c hc
  refine ⟨?_, hquote, hback⟩
  rintro rfl
  exact absurd hlow (by decide)

theorem SourceOperand.sounds (a : SourceOperand) : Sounds a.tokens := by
  cases a with
  | ident x => exact ⟨x.isName, trivial⟩
  | value v => exact v.sounds
  | reg r => exact ⟨byte_small r, trivial⟩
  | memValue n => exact ⟨trivial, toNat_ofNat_small n.small, trivial, trivial⟩
  | memIdent x => exact ⟨trivial, x.isName, trivial, trivial⟩
  | memReg r => exact ⟨trivial, byte_small r, trivial, trivial⟩
  | memIdx r neg k =>
    exact ⟨trivial, byte_small r, sign_sound neg, toNat_ofNat_small k.small, trivial, trivial⟩
  | memIdxIdent x neg k =>
    exact ⟨trivial, x.isName, sign_sound neg, toNat_ofNat_small k.small, trivial, trivial⟩

theorem SourceArg.sounds (arg : SourceArg) : Sounds arg.tokens := by
  cases arg with
  | none => exact trivial
  | ident x => exact ⟨x.isName, trivial⟩
  | value v => exact v.sounds
  | string text => exact ⟨text.sound, trivial⟩

theorem Source.sounds (source : Source) : Sounds source.tokens := by
  cases source with
  | label x => exact ⟨x.isName, trivial, trivial⟩
  | dir type arg => exact ⟨trivial, word_isName type, arg.sounds⟩
  | instr0 op => exact ⟨word_isupper op, trivial⟩
  | instr1 op a => exact ⟨word_isupper op, a.sounds⟩
  | instr2 op r b => exact ⟨word_isupper op, byte_small r, trivial, b.sounds⟩

/-- The lexer reads the end of the line. -/
def AtEnd (lexer : Lexer) : Prop :=
  ∃ e l, isEndOfInstr e ∧ next lexer = .ok (e, l)

/-- And then again an end. -/
def Ending (lexer : Lexer) : Prop :=
  ∃ e l, isEndOfInstr e ∧ next lexer = .ok (e, l) ∧ AtEnd l

theorem Ending.atEnd {lexer : Lexer} (h : Ending lexer) : AtEnd lexer := by
  obtain ⟨e, l, he, hnext, -⟩ := h
  exact ⟨e, l, he, hnext⟩

theorem reads_newline (s : List Byte) : Reads (chr '\n' :: s) .newline s :=
  reads_punctuation (by decide) s

theorem Reads.blanks {blanks : List Byte} (h : ∀ b ∈ blanks, isBlank b) {s r : List Byte}
    {tok : Token} (hread : Reads s tok r) : Reads (blanks ++ s) tok r := by
  rw [Reads, nextToken_blanks h]
  exact hread

/-- A comment is read as the newline behind it, which stays. -/
theorem reads_comment {text : List Byte} (h : ∀ c ∈ text, inComment c) (s : List Byte) :
    Reads (chr '/' :: chr '/' :: text ++ chr '\n' :: s) .newline (chr '\n' :: s) := by
  have hblank : isBlank (chr '/') = false := by decide
  have hpunct : punctuation (chr '/') = none := by decide
  have hend : inComment (chr '\n') = false := by decide
  rw [Reads, List.cons_append, List.cons_append, nextToken_cons hblank, hpunct]
  simp only [lexComment_true, spanChars_append h hend]
  rfl

theorem Renders.reading {toks : List Token} {line : List Byte} (h : Renders toks line)
    (hsounds : Sounds toks) (stale : List Byte) (n : Word) :
    ∃ l, Lexer.Run ⟨line ++ nul :: stale, n⟩ toks l ∧ Ending l := by
  induction h with
  | newline blanks hblanks =>
    refine ⟨_, run_nil.mpr rfl, .newline, ⟨nul :: stale, n⟩, rfl, ?_,
      .eof, ⟨stale, n⟩, rfl, ?_⟩
    · rw [List.append_assoc]
      exact next_iff.mpr ⟨(reads_newline _).blanks hblanks, rfl⟩
    · exact next_iff.mpr ⟨reads_punctuation (by decide) stale, rfl⟩
  | comment blanks text hblanks htext =>
    refine ⟨_, run_nil.mpr rfl, .newline, ⟨chr '\n' :: nul :: stale, n⟩, rfl, ?_,
      .newline, ⟨nul :: stale, n⟩, rfl, ?_⟩
    · have hread := (reads_comment htext (nul :: stale)).blanks hblanks
      exact next_iff.mpr ⟨by simpa using hread, rfl⟩
    · exact next_iff.mpr ⟨reads_newline _, rfl⟩
  | token blanks tok toks c line hblanks hends _ ih =>
    obtain ⟨l, hrun, hend⟩ := ih hsounds.2
    have hread := reads_text hsounds.1 hends hblanks (line ++ nul :: stale)
    have hnext : next ⟨blanks ++ tok.text ++ c :: line ++ nul :: stale, n⟩
        = .ok (tok, ⟨c :: line ++ nul :: stale, n⟩) := by
      refine next_iff.mpr ⟨?_, rfl⟩
      simpa using hread
    exact ⟨l, run_cons.mpr ⟨_, hnext, hrun⟩, hend⟩

/-- One way to write tokens: a blank in front of each. -/
def spaced : List Token → List Byte
  | [] => [chr '\n']
  | tok :: toks => chr ' ' :: tok.text ++ spaced toks

theorem ends_of_not_isIdent (tok : Token) {c : Byte} (h : isIdent c = false) : tok.Ends c := by
  have hdigit : isdigit c = false := by
    cases hc : isdigit c with
    | false => rfl
    | true => rw [isIdent_of_isdigit c hc] at h; cases h
  have hupper : isupper c = false := by
    cases hc : isupper c with
    | false => rfl
    | true => rw [isIdent_of_isupper c hc] at h; cases h
  cases tok with
  | number n => exact hdigit
  | register r => exact hdigit
  | ident x => exact h
  | mnemonic text => exact ⟨hupper, fun _ => hdigit⟩
  | _ => exact trivial

theorem renders_spaced (toks : List Token) : Renders toks (spaced toks) := by
  have hblank : ∀ b ∈ [chr ' '], isBlank b := List.all_eq_true.mp rfl
  induction toks with
  | nil => exact .newline [] fun b hb => absurd hb List.not_mem_nil
  | cons tok toks ih =>
    cases toks with
    | nil => exact .token _ tok [] (chr '\n') [] hblank (ends_of_not_isIdent tok (by decide)) ih
    | cons tok' toks =>
      exact .token _ tok _ (chr ' ') _ hblank (ends_of_not_isIdent tok (by decide)) ih

/-! ## The parser on a printed line -/

theorem lineEnd_atEnd {α : Type} (a : α) {lexer : Lexer} (h : AtEnd lexer) :
    ∃ l, lineEnd a lexer = .ok (.ok (a, l)) := by
  obtain ⟨e, l, he, hnext⟩ := h
  exact ⟨l, lineEnd_iff.mpr ⟨e, he, hnext, rfl⟩⟩

theorem Value.word_eq (v : Value) : v.word =
    if v.int < 0 then -BitVec.ofNat 64 v.int.natAbs else BitVec.ofNat 64 v.int.natAbs := by
  rw [Value.word]
  split
  case isTrue h =>
    have hint : v.int = -(v.int.natAbs : Int) := by omega
    rw [hint, BitVec.ofInt_neg, BitVec.ofInt_natCast, ← hint]
  case isFalse h =>
    have hint : v.int = (v.int.natAbs : Int) := by omega
    rw [hint, BitVec.ofInt_natCast, ← hint]

/-- All operands but `[x]` are accepted as they stand. -/
theorem SourceOperand.accepts (ptr : Word) (ope : Operand) (a : SourceOperand) :
    Accepts ptr ope a.tokens (a.operand ptr) ∨ ∃ x, a = .memIdent x := by
  cases a with
  | ident x => exact .inl (.ident _)
  | value v =>
    left
    rw [SourceOperand.tokens, SourceOperand.operand, Value.tokens, Value.word_eq]
    split
    · exact .negative _
    · exact .value _
  | reg r =>
    have h := @Accepts.reg ptr ope (r.setWidth 64) (byte_le r)
    rw [setWidth_word] at h
    exact .inl h
  | memValue n => exact .inl (.memValue _)
  | memIdent x => exact .inr ⟨x, rfl⟩
  | memReg r =>
    have h := @Accepts.memReg ptr ope (r.setWidth 64)
    rw [setWidth_word] at h
    exact .inl h
  | memIdx r neg k =>
    have h := @Accepts.memIdx ptr ope (r.setWidth 64) neg k.word
    rw [setWidth_word] at h
    exact .inl h
  | memIdxIdent x neg k => exact .inl (.memIdxIdent _ neg _)

/-- An operand at the end of the line; `[x]` consumes the first end itself. -/
theorem parse_operand (ptr : Word) (ope : Operand) {a : SourceOperand} {tok : Token}
    {toks : List Token} (ha : a.tokens = tok :: toks) {lexer l : Lexer} (hrun : lexer.Run toks l)
    (hend : Ending l) :
    ∃ l', parseInstrOPE ptr ope tok lexer = .ok (.ok (a.operand ptr, l')) ∧ AtEnd l' := by
  rcases a.accepts ptr ope with hacc | ⟨x, rfl⟩
  · rw [ha] at hacc
    exact ⟨l, parseInstrOPE_iff.mpr ⟨toks, hrun, hacc⟩, hend.atEnd⟩
  · obtain ⟨e, l', he, hnext, hlast⟩ := hend
    cases ha
    refine ⟨l', parseInstrOPE_iff.mpr ⟨_, ⟨?_, ?_⟩, .memIdent x.text e he⟩, hlast⟩
    · have hread := (next_iff.mp hnext).1
      exact hrun.1.append (.cons hread (.nil _))
    · exact (next_iff.mp hnext).2.trans hrun.2

/-- The first token of an operand is no end. -/
theorem SourceOperand.head (a : SourceOperand) :
    ∃ tok toks, a.tokens = tok :: toks ∧ isEndOfInstr tok = false := by
  cases a with
  | value v =>
    rw [SourceOperand.tokens, Value.tokens]
    split <;> exact ⟨_, _, rfl, rfl⟩
  | _ => exact ⟨_, _, rfl, rfl⟩

theorem parseInstr_instr0 (ptr : Nat → Word) (slot : Slot) (op : OpCode) {lexer : Lexer}
    (hend : Ending lexer) :
    ∃ l, parseInstr ptr slot (word op.mnemonic) lexer = .ok (.ok (.instr op .none .none, l)) := by
  obtain ⟨e, l, he, hnext, -⟩ := hend
  refine ⟨l, ?_⟩
  rw [parseInstr, opLookup_word]
  simp only [hnext, Except.ok_bind, he, if_true]
  rfl

theorem parseInstr_instr1 (ptr : Nat → Word) (slot : Slot) (op : OpCode) {a : SourceOperand}
    {lexer l : Lexer} (hrun : lexer.Run a.tokens l) (hend : Ending l) :
    ∃ l', parseInstr ptr slot (word op.mnemonic) lexer
      = .ok (.ok (.instr op (a.operand (ptr 0)) .none, l')) := by
  obtain ⟨tok, toks, ha, htok⟩ := a.head
  rw [ha] at hrun
  obtain ⟨l₁, hfirst, hrun⟩ := run_cons.mp hrun
  obtain ⟨l₂, hparse, e, l₃, he, hlast⟩ :=
    parse_operand (ptr 0) slot.a ha hrun hend
  refine ⟨l₃, ?_⟩
  rw [parseInstr, opLookup_word]
  simp only [hfirst, Except.ok_bind, htok, hparse, chkParser, hlast, he]
  rfl

theorem parseInstr_second {ptr : Nat → Word} {slot : Slot} {op : OpCode} {a b : Operand}
    {tok tok' : Token} {lexer l₁ l₂ l₃ l₄ l₅ l₆ : Lexer}
    (hfirst : next lexer = .ok (tok, l₁))
    (htok : isEndOfInstr tok = false)
    (ha : parseInstrOPE (ptr 0) slot.a tok l₁ = .ok (.ok (a, l₂)))
    (hcomma : next l₂ = .ok (.comma, l₃)) (hsecond : next l₃ = .ok (tok', l₄))
    (hb : parseInstrOPE (ptr 1) slot.b tok' l₄ = .ok (.ok (b, l₅)))
    (hline : lineEnd (IRBody.instr op a b) l₅ = .ok (.ok (.instr op a b, l₆))) :
    parseInstr ptr slot (word op.mnemonic) lexer = .ok (.ok (.instr op a b, l₆)) := by
  rw [parseInstr, opLookup_word]
  simp only [hfirst, Except.ok_bind, htok, ha, chkParser, hcomma, hsecond, hb, hline]
  rfl

theorem parseInstr_instr2 (ptr : Nat → Word) (slot : Slot) (op : OpCode) {r : Byte}
    {b : SourceOperand} {lexer l : Lexer}
    (hrun : lexer.Run (.register (r.setWidth 64) :: .comma :: b.tokens) l) (hend : Ending l) :
    ∃ l', parseInstr ptr slot (word op.mnemonic) lexer
      = .ok (.ok (.instr op (.reg r) (b.operand (ptr 1)), l')) := by
  obtain ⟨l₁, l₂, hreg, hcomma, hrun⟩ := run_pair hrun
  obtain ⟨tok, toks, hb, -⟩ := b.head
  rw [hb] at hrun
  obtain ⟨l₃, hfirst, hrun⟩ := run_cons.mp hrun
  obtain ⟨l₄, hparse, hlast⟩ := parse_operand (ptr 1) slot.b hb hrun hend
  obtain ⟨l₅, hline⟩ := lineEnd_atEnd (IRBody.instr op (.reg r) (b.operand (ptr 1))) hlast
  have hacc := @Accepts.reg (ptr 0) slot.a (r.setWidth 64) (byte_le r)
  rw [setWidth_word] at hacc
  have ha := parseInstrOPE_iff.mpr ⟨[], run_nil.mpr (Eq.refl l₁), hacc⟩
  exact ⟨l₅, parseInstr_second hreg rfl ha hcomma hfirst hparse hline⟩

theorem parseDir_arg (ptr : Word) {type : DirType} {arg : SourceArg} {lexer l : Lexer}
    (hrun : lexer.Run (.ident (word type.mnemonic) :: arg.tokens) l) (hend : Ending l) :
    ∃ l', parseDir ptr lexer = .ok (.ok (.dir type (arg.operand ptr), l')) := by
  obtain ⟨l₁, hname, hrun⟩ := run_cons.mp hrun
  obtain ⟨l', hline⟩ := lineEnd_atEnd (IRBody.dir type (arg.operand ptr)) hend.atEnd
  unfold parseDir
  rw [hname, Except.ok_bind]
  dsimp only
  rw [dirLookup_word]
  dsimp only
  cases arg with
  | none =>
    obtain ⟨e, l₂, he, hnext, -⟩ := hend
    rw [run_nil.mp hrun] at hnext
    refine ⟨l₂, ?_⟩
    rw [hnext, Except.ok_bind]
    cases e <;> first | rfl | cases he
  | ident x =>
    refine ⟨l', ?_⟩
    rw [run_single.mp hrun, Except.ok_bind]
    exact hline
  | string text =>
    refine ⟨l', ?_⟩
    rw [run_single.mp hrun, Except.ok_bind]
    exact hline
  | value v =>
    refine ⟨l', ?_⟩
    rw [SourceArg.operand, Value.word_eq] at hline
    rw [SourceArg.operand, Value.word_eq]
    rw [SourceArg.tokens, Value.tokens] at hrun
    split at hrun
    case isTrue hneg =>
      obtain ⟨l₂, hminus, hrun⟩ := run_cons.mp hrun
      rw [if_pos hneg] at hline ⊢
      rw [hminus, Except.ok_bind]
      dsimp only
      rw [run_single.mp hrun, Except.ok_bind]
      exact hline
    case isFalse hneg =>
      rw [if_neg hneg] at hline ⊢
      rw [run_single.mp hrun, Except.ok_bind]
      exact hline

/-- **Parsing undoes printing.**  A printed line is parsed to what it says, under
its own line number, whatever stands behind it in the buffer and whatever the
node held. -/
theorem parse_rendered (source : Source) {line : List Byte} (h : Renders source.tokens line)
    (ptr : Nat → Word) (stale : List Byte) (slot : Slot) (lexer : Lexer) :
    parseLine ptr (line ++ nul :: stale) (some slot) lexer
      = .ok (.ok { line := lexer.line + 1, body := source.body ptr }) := by
  obtain ⟨l, hrun, hend⟩ := h.reading source.sounds stale lexer.line
  rw [parseLine]
  cases source with
  | label x =>
    obtain ⟨l₁, l₂, hname, hcolon, hrun⟩ := run_pair hrun
    rw [← run_nil.mp hrun] at hcolon
    obtain ⟨l', hline⟩ :=
      lineEnd_atEnd (IRBody.label (.ident (mkIdent (ptr 0) x.text))) hend.atEnd
    have hn := (next_iff.mp hname).2
    simp only [hname, Except.ok_bind, access, parseLabel, hcolon, hline, chkParser, hn]
    rfl
  | dir type arg =>
    obtain ⟨l₁, hdot, hrun⟩ := run_cons.mp hrun
    obtain ⟨l', hdir⟩ := parseDir_arg (ptr 0) hrun hend
    have hn := (next_iff.mp hdot).2
    simp only [hdot, Except.ok_bind, access, hdir, chkParser, hn]
    rfl
  | instr0 op =>
    obtain ⟨l₁, hop, hrun⟩ := run_cons.mp hrun
    rw [run_nil.mp hrun] at hend
    obtain ⟨l', hinstr⟩ := parseInstr_instr0 ptr slot op hend
    have hn := (next_iff.mp hop).2
    simp only [hop, Except.ok_bind, access, hinstr, chkParser, hn]
    rfl
  | instr1 op a =>
    obtain ⟨l₁, hop, hrun⟩ := run_cons.mp hrun
    obtain ⟨l', hinstr⟩ := parseInstr_instr1 ptr slot op hrun hend
    have hn := (next_iff.mp hop).2
    simp only [hop, Except.ok_bind, access, hinstr, chkParser, hn]
    rfl
  | instr2 op r b =>
    obtain ⟨l₁, hop, hrun⟩ := run_cons.mp hrun
    obtain ⟨l', hinstr⟩ := parseInstr_instr2 ptr slot op hrun hend
    have hn := (next_iff.mp hop).2
    simp only [hop, Except.ok_bind, access, hinstr, chkParser, hn]
    rfl

/-- `LD R1 ,[ab-7]//c` is parsed. -/
theorem parse_rendered_ld :
    parseLine (fun _ => 0) (word (literal "LD R1 ,[ab-7]//c\n") ++ nul :: [])
        (some ⟨.none, .none⟩) ⟨[], 4⟩
      = .ok (.ok { line := 5,
                   body := .instr .ld (.reg 1) (.memIdxIdent (mkIdent 0 [97, 98]) (-7)) }) := by
  have hnone : ∀ b ∈ ([] : List Byte), isBlank b := fun b hb => absurd hb List.not_mem_nil
  have hblank : ∀ b ∈ [chr ' '], isBlank b := List.all_eq_true.mp rfl
  have h : Renders (Source.instr2 .ld 1 (.memIdxIdent ⟨[97, 98], rfl, List.all_eq_true.mp rfl⟩ true
      ⟨7, by decide⟩)).tokens (word (literal "LD R1 ,[ab-7]//c\n")) :=
    .token [] _ _ (chr ' ') _ hnone (ends_of_not_isIdent _ (by decide)) <|
    .token [chr ' '] _ _ (chr ' ') _ hblank (ends_of_not_isIdent _ (by decide)) <|
    .token [chr ' '] _ _ (chr '[') _ hblank trivial <|
    .token [] _ _ (chr 'a') _ hnone trivial <|
    .token [] _ _ (chr '-') _ hnone (ends_of_not_isIdent _ (by decide)) <|
    .token [] _ _ (chr '7') _ hnone trivial <|
    .token [] _ _ (chr ']') _ hnone (ends_of_not_isIdent _ (by decide)) <|
    .token [] _ _ (chr '/') _ hnone trivial <|
    .comment [] [99] hnone (by decide)
  exact parse_rendered _ h _ _ _ _

end BSVM
