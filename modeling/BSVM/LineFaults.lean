/-
# `BSVM.LineFaults` — what can go wrong in a line

`parseLine_fails` goes through the lexer and the parser and finds two things: a
message, and an access outside an array.  In the buffer of the loop over the file the
second does not happen (`parseLine_exits`).  The parser may read behind the NUL of its
line, but the buffer ends with two of them, and to come behind both it would have to
take one EOF right after the other.
-/
import BSVM.Faults
import BSVM.Pieces

namespace BSVM

/-! ## Two NULs -/

/-- Behind the NUL of the line there is another one. -/
def Spare (s : List Byte) : Prop :=
  ∃ a, s = a ++ [nul, nul]

theorem Spare.terminated {s : List Byte} (h : Spare s) : Terminated s := by
  obtain ⟨a, rfl⟩ := h
  rw [List.append_cons]
  exact terminated_append _

/-- A token leaves both, or it is the first of them. -/
theorem Spare.reads {s r : List Byte} {tok : Token} (h : Spare s) (hread : Reads s tok r) :
    Spare r ∨ tok = .eof ∧ r = [nul] := by
  obtain ⟨a, rfl⟩ := h
  rw [List.append_cons] at hread
  obtain ⟨status, tok', r', hnext, hend⟩ := nextToken_terminated (terminated_append a)
  have hext := hread.symm.trans (nextToken_extend hnext [nul])
  simp only [Except.ok.injEq, Prod.mk.injEq] at hext
  obtain ⟨-, rfl, rfl⟩ := hext
  rcases hend with hterm | ⟨-, rfl, rfl⟩
  · obtain ⟨b, rfl⟩ := List.getLast?_eq_some_iff.mp hterm
    exact Or.inl ⟨b, by rw [List.append_assoc]; rfl⟩
  · exact Or.inr ⟨rfl, rfl⟩

/-- To come to the end of the object, both have to be read. -/
theorem Spare.reading {s : List Byte} {toks : List Token} (h : Spare s)
    (hread : Reading s toks []) : ∃ ts, toks = ts ++ [.eof, .eof] := by
  induction toks generalizing s with
  | nil =>
    cases hread
    obtain ⟨a, ha⟩ := h
    exact absurd ha.symm (List.append_ne_nil_of_right_ne_nil a (List.cons_ne_nil _ _))
  | cons tok toks ih =>
    obtain ⟨r, hfirst, hrest⟩ := hread.uncons
    rcases h.reads hfirst with hspare | ⟨rfl, rfl⟩
    · obtain ⟨ts, rfl⟩ := ih hspare hrest
      exact ⟨tok :: ts, rfl⟩
    · cases toks with
      | nil => cases hrest
      | cons tok' toks =>
        obtain ⟨r', hsecond, hrest⟩ := hrest.uncons
        have hlast : Reads [nul] .eof [] := rfl
        obtain ⟨rfl, rfl⟩ := hsecond.unique hlast
        cases toks with
        | nil => exact ⟨[], rfl⟩
        | cons tok'' toks =>
          obtain ⟨r'', hthird, -⟩ := hrest.uncons
          cases hthird

/-- Tokens of which the last is an EOF, and the one before is not. -/
def OneEof (toks : List Token) : Prop :=
  ∃ us t, toks = us ++ [t, .eof] ∧ t ≠ .eof

theorem OneEof.append {toks : List Token} (h : OneEof toks) (front : List Token) :
    OneEof (front ++ toks) := by
  obtain ⟨us, t, rfl, ht⟩ := h
  exact ⟨front ++ us, t, (List.append_assoc _ _ _).symm, ht⟩

theorem Cut.oneEof {toks : List Token} (h : Cut toks) : OneEof toks := by
  cases h with
  | bracket => exact ⟨[], .openBracket, rfl, by simp⟩
  | memIdent x => exact ⟨[.openBracket, .ident x], .closeBracket, rfl, by simp⟩

theorem Overruns.oneEof {toks : List Token} (h : Overruns toks) : OneEof toks := by
  cases h with
  | @first text toks _ hcut => exact hcut.oneEof.append [.mnemonic text]
  | @second text a toks _ _ hcut =>
    have hrest := hcut.oneEof.append (.mnemonic text :: (a ++ [.comma]))
    rwa [List.cons_append, List.append_assoc] at hrest

/-- A line with a NUL to spare is not read behind its end. -/
theorem Spare.not_overrun {s : List Byte} (h : Spare s) : ¬ Overrun s := by
  rintro ⟨toks, hread, hover⟩
  obtain ⟨ts, hts⟩ := h.reading hread
  obtain ⟨us, t, rfl, ht⟩ := hover.oneEof
  cases List.append_inj_right' hts rfl
  exact ht rfl

theorem LineBuffer.spare {str : List Byte} (h : LineBuffer str) : Spare str := by
  obtain ⟨a, -, ha⟩ := h
  exact ⟨a, ha⟩

/-! ## What a line can fail with -/

theorem spanChars_fails (p : Byte → Bool) (s : List Byte) : Fails (spanChars p s) (· = .table) := by
  induction s with
  | nil => exact .error rfl
  | cons c s ih => exact .ite (fun _ => .bind ih fun _ _ => .ok) fun _ => .ok

theorem scanDigits_fails (tooLarge : Word → Bool) (value : Word) (len : Nat) (s : List Byte) :
    Fails (scanDigits tooLarge value len s) (· = .table) := by
  induction s generalizing value len with
  | nil => exact .error rfl
  | cons c s ih => exact .ite (fun _ => .guard fun _ => ih _ _) fun _ => .ok

theorem storeChar_fails (str : List Byte) (strSize : Nat) (c : Byte) :
    Fails (storeChar str strSize c) (· = .table) :=
  .ite (fun _ => .ok) fun _ => .error rfl

theorem scanString_fails (str : List Byte) (strSize : Nat) (s : List Byte) :
    Fails (scanString str strSize s) (· = .table) := by
  fun_induction scanString str strSize s with
  | case1 => exact .error rfl
  | case2 => exact .ok
  | case3 => exact .ok
  | case4 => exact .error rfl
  | case5 str strSize size e s hnul hquote ih =>
    refine .bind (storeChar_fails _ _ _) fun str' _ => ?_
    exact .ite (fun _ => .ok) fun _ => ih str'
  | case6 str strSize c s hnul hquote size hslash ih =>
    exact .bind (storeChar_fails _ _ _) fun str' _ => ih str'

theorem lexWord_fails (c : Byte) (s : List Byte) : Fails (lexWord c s) (· = .table) := by
  refine .ite (fun _ => .bind (scanDigits_fails _ _ _ _) ?_) fun _ => ?_
  · rintro ⟨value, len, cursor⟩ -
    cases value <;> exact .ok
  refine .ite (fun _ => scanString_fails _ _ _) fun _ => ?_
  refine .ite (fun _ => .bind (spanChars_fails _ _) fun _ _ => .ok) fun _ => ?_
  exact .ite (fun _ => .bind (spanChars_fails _ _) fun _ _ => .ok) fun _ => .ok

theorem lexRegister_fails (c : Byte) (s : List Byte) : Fails (lexRegister c s) (· = .table) := by
  refine .ite (fun _ => .bind (scanDigits_fails _ _ _ _) ?_) fun _ => lexWord_fails c s
  rintro ⟨reg, len, cursor⟩ -
  cases reg with
  | none => exact .ok
  | some reg => exact .ite (fun _ => .ok) fun _ => lexWord_fails c s

theorem lexComment_fails (c : Byte) (s : List Byte) : Fails (lexComment c s) (· = .table) := by
  refine .bind ?_ fun starts _ => ?_
  · cases s with
    | nil => exact .ite (fun _ => .error rfl) fun _ => .ok
    | cons d s => exact .ok
  · exact .ite (fun _ => .bind (spanChars_fails _ _) fun _ _ => .ok) fun _ => lexRegister_fails c s

theorem nextToken_fails (s : List Byte) : Fails (nextToken s) (· = .table) := by
  refine .bind (spanChars_fails _ _) ?_
  rintro ⟨blanks, cursor⟩ -
  cases cursor with
  | nil => exact .error rfl
  | cons c s =>
    dsimp only
    cases punctuation c with
    | some tok => exact .ok
    | none => exact lexComment_fails c s

/-- A message, or an access outside an array. -/
abbrev ExitOrTable (f : Fault) : Prop :=
  f = .exit ∨ f = .table

theorem lexerNextToken_fails (l : Lexer) : Fails (lexerNextToken l) ExitOrTable :=
  .bind ((nextToken_fails l.cursor).mono fun _ h => Or.inr h) fun _ _ => .ok

theorem next_fails (l : Lexer) : Fails (next l) ExitOrTable :=
  .bind (lexerNextToken_fails l) fun _ _ => .ite (fun _ => .error (Or.inl rfl)) fun _ => .ok

theorem chkParser_fails {α : Type} (x : Parsed α) : Fails (chkParser x) ExitOrTable := by
  cases x with
  | error e => exact .error (Or.inl rfl)
  | ok a => exact .ok

theorem lineEnd_fails {α : Type} (a : α) (l : Lexer) : Fails (lineEnd a l) ExitOrTable :=
  .bind (next_fails l) fun _ _ => .guard fun _ => .guard fun _ => .ok

theorem parseOffset_fails (neg : Bool) (set : Word → Operand) (l : Lexer) :
    Fails (parseOffset neg set l) ExitOrTable := by
  refine .bind (lexerNextToken_fails l) ?_
  rintro ⟨status, tok, l⟩ -
  cases tok with
  | number n => exact .bind (lexerNextToken_fails l) fun _ _ => .guard fun _ => .ok
  | _ => exact .ok

theorem parseBracket_fails (ptr : Word) (ope : Operand) (l : Lexer) :
    Fails (parseBracket ptr ope l) ExitOrTable := by
  refine .bind (next_fails l) ?_
  rintro ⟨tok, l₁⟩ -
  refine .bind (next_fails l₁) ?_
  rintro ⟨suiv, l₂⟩ -
  refine .guard fun _ => ?_
  cases tok with
  | ident x =>
    cases suiv <;> first | exact .ok | exact parseOffset_fails _ _ _ | exact lineEnd_fails _ _
  | register r => cases suiv <;> first | exact .ok | exact parseOffset_fails _ _ _
  | minus => cases suiv <;> exact .ok
  | number n => exact .guard fun _ => .ok
  | _ => exact parseOffset_fails _ _ _

theorem parseInstrOPE_fails (ptr : Word) (ope : Operand) (tok : Token) (l : Lexer) :
    Fails (parseInstrOPE ptr ope tok l) ExitOrTable := by
  unfold parseInstrOPE
  cases tok with
  | minus =>
    refine .bind (next_fails l) ?_
    rintro ⟨tok, l⟩ -
    cases tok <;> exact .ok
  | register r => exact .guard fun _ => .ok
  | openBracket => exact parseBracket_fails ptr ope l
  | _ => exact .ok

theorem parseInstr_fails (ptr : Nat → Word) (slot : Slot) (text : List Byte) (l : Lexer) :
    Fails (parseInstr ptr slot text l) ExitOrTable := by
  rw [parseInstr]
  cases opLookup text with
  | none => exact .ok
  | some op =>
    refine .bind (next_fails l) fun _ _ => .guard fun _ => ?_
    refine .bind (parseInstrOPE_fails _ _ _ _) fun a _ => .bind (chkParser_fails a) fun _ _ => ?_
    refine .bind (next_fails _) fun _ _ => .ite (fun _ => .guard fun _ => .ok) fun _ => ?_
    refine .guard fun _ => .bind (next_fails _) fun _ _ => ?_
    refine .bind (parseInstrOPE_fails _ _ _ _) fun b _ => .bind (chkParser_fails b) fun _ _ => ?_
    exact lineEnd_fails _ _

theorem parseDir_fails (ptr : Word) (l : Lexer) : Fails (parseDir ptr l) ExitOrTable := by
  unfold parseDir
  refine .bind (next_fails l) ?_
  rintro ⟨tok, l₁⟩ -
  cases tok with
  | ident text =>
    dsimp only
    cases dirLookup text with
    | none => exact .ok
    | some type =>
      refine .bind (next_fails l₁) ?_
      rintro ⟨tok, l₂⟩ -
      cases tok with
      | number | ident | string => exact lineEnd_fails _ _
      | minus =>
        refine .bind (next_fails l₂) ?_
        rintro ⟨tok, l₃⟩ -
        cases tok <;> first | exact .ok | exact lineEnd_fails _ _
      | _ => exact .guard fun _ => .guard fun _ => .ok
  | _ => exact .ok

theorem parseLabel_fails (ptr : Word) (text : List Byte) (l : Lexer) :
    Fails (parseLabel ptr text l) ExitOrTable := by
  unfold parseLabel
  refine .bind (next_fails l) ?_
  rintro ⟨tok, l₁⟩ -
  cases tok <;> first | exact lineEnd_fails _ _ | exact .guard fun _ => .ok

theorem parseLine_fails (ptr : Nat → Word) (buffer : List Byte) (IR : Option Slot) (l : Lexer) :
    Fails (parseLine ptr buffer IR l) ExitOrTable := by
  have hbody : ∀ {x : Exec (Parsed IRBody)} (n : Word), Fails x ExitOrTable →
      Fails (parsedNode n x) ExitOrTable :=
    fun n hx => .bind hx fun parsed _ => .bind (chkParser_fails parsed) fun _ _ => .ok
  have haccess : Fails (access IR) ExitOrTable := by
    cases IR with
    | none => exact .error (Or.inr rfl)
    | some slot => exact .ok
  rw [parseLine]
  refine .bind (next_fails _) ?_
  rintro ⟨tok, l₁⟩ -
  refine .guard fun _ => .guard fun _ => ?_
  cases tok with
  | dot => exact .bind haccess fun _ _ => hbody _ (parseDir_fails _ _)
  | ident text => exact .bind haccess fun _ _ => hbody _ (parseLabel_fails _ _ _)
  | mnemonic text => exact .bind haccess fun _ _ => hbody _ (parseInstr_fails _ _ _ _)
  | _ => exact .ok

/-- A line in the buffer is parsed, or there is a message. -/
theorem parseLine_exits {ptr : Nat → Word} {str : List Byte} {slot : Slot} {l : Lexer}
    (h : LineBuffer str) : Fails (parseLine ptr str (some slot) l) (· = .exit) := by
  intro f hf
  refine (parseLine_fails _ _ _ _ f hf).resolve_right ?_
  rintro rfl
  exact parseLine_avoids ptr slot l h.spare.terminated h.spare.not_overrun hf

end BSVM
