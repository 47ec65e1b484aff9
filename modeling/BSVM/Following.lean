/-
# `BSVM.Following` — the parser on two lines at once

Two cursors go together if the lexer reads the same tokens from them, but for
the two kinds of end: `R` relates them up to the end of the line, and `E` behind
it, where one more token may be asked for.  `Follows` is the condition on the
lexer; `parseLine_follows` says that the parser then makes the same of both, as
long as the first does not stop with a fault in `Stop`.

A token that is refused ends the parse, unless it is a number in brackets.
-/
import BSVM.Lib.Lockstep
import BSVM.Scanning

namespace BSVM

/-! ## The lexer -/

theorem isEndOfInstr_cases {tok : Token} (h : isEndOfInstr tok) : tok = .newline ∨ tok = .eof := by
  cases tok with
  | newline => exact .inl rfl
  | eof => exact .inr rfl
  | _ => cases h

/-- What the lexer returns on two cursors. -/
inductive SameToken (R E : List Byte → List Byte → Prop) : Lexed → Lexed → Prop
  | token (tok : Token) (r r' : List Byte) : isEndOfInstr tok = false → R r r' →
      SameToken R E (.ok, tok, r) (.ok, tok, r')
  | last (tok tok' : Token) (r r' : List Byte) : isEndOfInstr tok → isEndOfInstr tok' →
      E r r' → SameToken R E (.ok, tok, r) (.ok, tok', r')
  | number (status : LexerError) (n : Word) (r r' : List Byte) : R r r' →
      SameToken R E (status, .number n, r) (status, .number n, r')
  | refused (status : LexerError) (tok : Token) (r r' : List Byte) : status ≠ .ok →
      (∀ n, tok ≠ .number n) → tok ≠ .closeBracket →
      SameToken R E (status, tok, r) (status, tok, r')

/-- Nothing is said of what is behind the second end. -/
def Anywhere (_ _ : List Byte) : Prop :=
  True

structure Follows (Stop : Fault → Prop) (R E : List Byte → List Byte → Prop) : Prop where
  step {s s' : List Byte} : R s s' → Lockstep Stop (SameToken R E) (nextToken s) (nextToken s')
  last {s s' : List Byte} :
    E s s' → Lockstep Stop (SameToken R Anywhere) (nextToken s) (nextToken s')

theorem SameToken.mono {R E E' : List Byte → List Byte → Prop} (hE : ∀ r r', E r r' → E' r r')
    {x y : Lexed} (h : SameToken R E x y) : SameToken R E' x y := by
  cases h with
  | token tok r r' htok hR => exact .token tok r r' htok hR
  | last tok tok' r r' htok htok' h => exact .last tok tok' r r' htok htok' (hE r r' h)
  | number status n r r' hR => exact .number status n r r' hR
  | refused status tok r r' hstatus hnumber hclose =>
    exact .refused status tok r r' hstatus hnumber hclose

/-- The same token, whichever of its kinds it is. -/
theorem sameToken {R E : List Byte → List Byte → Prop} {s r r' : List Byte}
    {status : LexerError} {tok : Token} (h : nextToken s = .ok (status, tok, r))
    (hR : status = .ok ∨ (∃ n, tok = .number n) → R r r') (hE : status = .ok → E r r') :
    SameToken R E (status, tok, r) (status, tok, r') := by
  by_cases hstatus : status = .ok
  · subst hstatus
    cases hend : isEndOfInstr tok with
    | true => exact .last tok tok r r' hend hend (hE rfl)
    | false => exact .token tok r r' hend (hR (.inl rfl))
  · cases regular_nextToken s _ h hstatus with
    | number d r hd => exact .number status 0 _ _ (hR (.inr ⟨0, rfl⟩))
    | _ => exact .refused status _ _ _ hstatus (fun n h => by cases h) fun h => by cases h

/-- Lexers on two cursors, on the same line. -/
def Beside (R : List Byte → List Byte → Prop) (l l' : Lexer) : Prop :=
  R l.cursor l'.cursor ∧ l.line = l'.line

/-- What `next` returns on them. -/
inductive SameNext (R E : List Byte → List Byte → Prop) : Token × Lexer → Token × Lexer → Prop
  | token (tok : Token) (l l' : Lexer) : isEndOfInstr tok = false → Beside R l l' →
      SameNext R E (tok, l) (tok, l')
  | last (tok tok' : Token) (l l' : Lexer) : isEndOfInstr tok → isEndOfInstr tok' →
      Beside E l l' → SameNext R E (tok, l) (tok', l')

/-- What a function of the parser returns on them. -/
inductive SameParsed {α : Type} (P : List Byte → List Byte → Prop) : Parsed α → Parsed α → Prop
  | error (e : ParserError) : SameParsed P (.error e) (.error e)
  | ok (a : α) (l l' : Lexer) : Beside P l l' → SameParsed P (.ok (a, l)) (.ok (a, l'))

section

variable {Stop : Fault → Prop} {R E : List Byte → List Byte → Prop} {l l' : Lexer}

theorem lexerNextToken_follows {P : List Byte → List Byte → Prop} (hline : l.line = l'.line)
    (h : Lockstep Stop (SameToken R P) (nextToken l.cursor) (nextToken l'.cursor)) :
    Lockstep Stop (fun x y => SameToken R P (x.1, x.2.1, x.2.2.cursor) (y.1, y.2.1, y.2.2.cursor) ∧
      x.2.2.line = y.2.2.line) (lexerNextToken l) (lexerNextToken l') := by
  rw [lexerNextToken, lexerNextToken]
  refine h.bind fun x y hxy => ?_
  exact .ok ⟨hxy, hline⟩

theorem next_follows {P : List Byte → List Byte → Prop} (hline : l.line = l'.line)
    (h : Lockstep Stop (SameToken R P) (nextToken l.cursor) (nextToken l'.cursor)) :
    Lockstep Stop (SameNext R P) (next l) (next l') := by
  rw [next, next]
  refine (lexerNextToken_follows hline h).bind ?_
  rintro ⟨status, tok, l₁⟩ ⟨status', tok', l₁'⟩ ⟨htok, hline₁⟩
  dsimp only at htok hline₁ ⊢
  cases htok with
  | token _ _ _ hend hR => exact .ok (.token tok l₁ l₁' hend ⟨hR, hline₁⟩)
  | last _ _ _ _ hend hend' hP => exact .ok (.last tok tok' l₁ l₁' hend hend' ⟨hP, hline₁⟩)
  | number _ n _ _ hR =>
    refine Lockstep.ite (fun _ => .error _) fun _ => ?_
    exact .ok (.token _ l₁ l₁' rfl ⟨hR, hline₁⟩)
  | refused _ _ _ _ hstatus =>
    rw [if_pos hstatus, if_pos hstatus]
    exact .error _

/-- `R`, and `E` behind the first end. -/
def Either (R E : List Byte → List Byte → Prop) (r r' : List Byte) : Prop :=
  R r r' ∨ E r r'

variable (hf : Follows Stop R E)

include hf

theorem follows_next (h : Beside R l l') : Lockstep Stop (SameNext R E) (next l) (next l') :=
  next_follows h.2 (hf.step h.1)

theorem follows_next_either (h : Beside (Either R E) l l') :
    Lockstep Stop (SameNext R Anywhere) (next l) (next l') := by
  refine next_follows h.2 ?_
  rcases h.1 with hR | hE
  · exact (hf.step hR).mono fun x y hxy => hxy.mono fun _ _ _ => trivial
  · exact hf.last hE

/-! ## Ends of lines -/

omit hf in
theorem lineEnd_follows {α : Type} {P : List Byte → List Byte → Prop} (a : α)
    (h : Lockstep Stop (SameNext R P) (next l) (next l')) :
    Lockstep Stop (SameParsed P) (lineEnd a l) (lineEnd a l') := by
  rw [lineEnd, lineEnd]
  refine h.bind ?_
  rintro _ _ (⟨tok, l₁, l₁', hend, hR⟩ | ⟨tok, tok', l₁, l₁', hend, hend', hP⟩)
  · simp only [hend]
    exact Lockstep.ite (fun _ => .ok (.error _)) fun _ => .ok (.error _)
  · simp only [hend, hend']
    exact .ok (.ok a l₁ l₁' hP)

/-! ## Operands -/

/-- What stands behind the number of an offset. -/
def closeOffset (operand : Operand) (lexer : Lexer) : Exec (Parsed Operand) := do
  let (_, tok, lexer) ← lexerNextToken lexer
  if tok ≠ .closeBracket then return .error .syntaxError
  else return .ok (operand, lexer)

theorem follows_closeOffset (operand : Operand) (h : Beside R l l') :
    Lockstep Stop (SameParsed R) (closeOffset operand l) (closeOffset operand l') := by
  refine (lexerNextToken_follows h.2 (hf.step h.1)).bind ?_
  rintro ⟨status, tok, l₁⟩ ⟨status', tok', l₁'⟩ ⟨htok, hline⟩
  dsimp only at htok hline ⊢
  cases htok with
  | token _ _ _ hend hR =>
    refine Lockstep.ite (fun _ => .ok (.error _)) fun _ => ?_
    exact .ok (.ok _ l₁ l₁' ⟨hR, hline⟩)
  | last _ _ _ _ hend hend' hE =>
    have hclose : tok ≠ .closeBracket := by rintro rfl; cases hend
    have hclose' : tok' ≠ .closeBracket := by rintro rfl; cases hend'
    rw [if_pos hclose, if_pos hclose']
    exact .ok (.error _)
  | number _ n _ _ hR =>
    have hclose : Token.number n ≠ .closeBracket := by intro h; cases h
    rw [if_pos hclose, if_pos hclose]
    exact .ok (.error _)
  | refused _ _ _ _ hstatus hnumber hclose =>
    rw [if_pos hclose, if_pos hclose]
    exact .ok (.error _)

theorem follows_parseOffset (neg : Bool) (set : Word → Operand) (h : Beside R l l') :
    Lockstep Stop (SameParsed R) (parseOffset neg set l) (parseOffset neg set l') := by
  rw [parseOffset, parseOffset]
  refine (lexerNextToken_follows h.2 (hf.step h.1)).bind ?_
  rintro ⟨status, tok, l₁⟩ ⟨status', tok', l₁'⟩ ⟨htok, hline₁⟩
  dsimp only at htok hline₁ ⊢
  have hnumber : ∀ n : Word, R l₁.cursor l₁'.cursor →
      Lockstep Stop (SameParsed R) (closeOffset (set (if neg then -n else n)) l₁)
        (closeOffset (set (if neg then -n else n)) l₁') :=
    fun n hR => follows_closeOffset hf _ ⟨hR, hline₁⟩
  cases htok with
  | token _ _ _ hend hR =>
    cases tok with
    | number n => exact hnumber n hR
    | _ => exact .ok (.error _)
  | last _ _ _ _ hend hend' hE =>
    rcases isEndOfInstr_cases hend with rfl | rfl <;>
      rcases isEndOfInstr_cases hend' with rfl | rfl <;> exact .ok (.error _)
  | number _ n _ _ hR => exact hnumber n hR
  | refused _ _ _ _ hstatus hnumber' hclose =>
    cases tok with
    | number n => exact absurd rfl (hnumber' n)
    | _ => exact .ok (.error _)

theorem follows_parseBracket (ptr : Word) (ope : Operand) (h : Beside R l l') :
    Lockstep Stop (SameParsed (Either R E)) (parseBracket ptr ope l) (parseBracket ptr ope l') := by
  have hleft : ∀ {x y : Exec (Parsed Operand)}, Lockstep Stop (SameParsed R) x y →
      Lockstep Stop (SameParsed (Either R E)) x y := by
    intro x y hxy
    refine hxy.mono ?_
    rintro _ _ (⟨e⟩ | ⟨a, l, l', hR, hline⟩)
    · exact .error e
    · exact .ok a l l' ⟨.inl hR, hline⟩
  rw [parseBracket, parseBracket]
  refine (follows_next hf h).bind ?_
  rintro _ _ (⟨tok, l₁, l₁', hend, hR⟩ | ⟨tok, tok', l₁, l₁', hend, hend', hE⟩)
  · refine (follows_next hf hR).bind ?_
    rintro _ _ (⟨suiv, l₂, l₂', hsuiv, hR₂⟩ | ⟨suiv, suiv', l₂, l₂', hsuiv, hsuiv', hE⟩)
    · dsimp only
      refine Lockstep.ite (fun _ => .ok (.error _)) fun _ => ?_
      have hoffset : ∀ neg set, Lockstep Stop (SameParsed (Either R E))
          (parseOffset neg set l₂) (parseOffset neg set l₂') :=
        fun neg set => hleft (follows_parseOffset hf neg set hR₂)
      have hclosed : ∀ o, Lockstep Stop (SameParsed (Either R E))
          (.ok (.ok (o, l₂)) : Exec (Parsed Operand)) (.ok (.ok (o, l₂'))) :=
        fun o => .ok (.ok o l₂ l₂' ⟨.inl hR₂.1, hR₂.2⟩)
      cases tok with
      | minus =>
        cases suiv with
        | number n => exact .ok (.error _)
        | _ => exact .ok (.error _)
      | number n =>
        cases suiv with
        | closeBracket => exact hclosed _
        | _ => exact .ok (.error _)
      | ident x =>
        cases suiv with
        | minus => exact hoffset _ _
        | plus => exact hoffset _ _
        | closeBracket =>
          refine (lineEnd_follows _ (follows_next hf hR₂)).mono ?_
          rintro _ _ (⟨e⟩ | ⟨a, l, l', hE, hline⟩)
          · exact .error e
          · exact .ok a l l' ⟨.inr hE, hline⟩
        | _ => exact .ok (.error _)
      | register r =>
        cases suiv with
        | minus => exact hoffset _ _
        | plus => exact hoffset _ _
        | closeBracket => exact hclosed _
        | _ => exact .ok (.error _)
      | _ => exact hoffset _ _
    · simp only [hsuiv, hsuiv', Bool.or_true, if_true]
      exact .ok (.error _)
  · refine (follows_next_either hf ⟨.inr hE.1, hE.2⟩).bind ?_
    rintro ⟨suiv, l₂⟩ ⟨suiv', l₂'⟩ -
    simp only [hend, hend', Bool.true_or, if_true]
    exact .ok (.error _)

theorem follows_parseInstrOPE (ptr : Word) (ope : Operand) {x x' : Token × Lexer}
    {P : List Byte → List Byte → Prop} (h : SameNext R P x x') :
    Lockstep Stop (SameParsed (Either R E)) (parseInstrOPE ptr ope x.1 x.2)
      (parseInstrOPE ptr ope x'.1 x'.2) := by
  unfold parseInstrOPE
  cases h with
  | last tok tok' l₁ l₁' hend hend' hP =>
    rcases isEndOfInstr_cases hend with rfl | rfl <;>
      rcases isEndOfInstr_cases hend' with rfl | rfl <;> exact .ok (.error _)
  | token tok l₁ l₁' hend hR =>
    have hread : ∀ o, Lockstep Stop (SameParsed (Either R E))
        (.ok (.ok (o, l₁)) : Exec (Parsed Operand)) (.ok (.ok (o, l₁'))) :=
      fun o => .ok (.ok o l₁ l₁' ⟨.inl hR.1, hR.2⟩)
    cases tok with
    | ident x => exact hread _
    | number n => exact hread _
    | minus =>
      refine (follows_next hf hR).bind ?_
      rintro _ _ (⟨tok, l₂, l₂', hend, hR₂⟩ | ⟨tok, tok', l₂, l₂', hend, hend', hE⟩)
      · cases tok with
        | number n => exact .ok (.ok _ l₂ l₂' ⟨.inl hR₂.1, hR₂.2⟩)
        | _ => exact .ok (.error _)
      · rcases isEndOfInstr_cases hend with rfl | rfl <;>
          rcases isEndOfInstr_cases hend' with rfl | rfl <;> exact .ok (.error _)
    | register r => exact Lockstep.ite (fun _ => .ok (.error _)) fun _ => hread _
    | openBracket => exact follows_parseBracket hf ptr ope hR
    | _ => exact .ok (.error _)

/-! ## Lines -/

omit hf in
theorem chkParser_follows {α : Type} {P : List Byte → List Byte → Prop} {x y : Parsed α}
    (h : SameParsed P x y) :
    Lockstep Stop (fun x y => x.1 = y.1 ∧ Beside P x.2 y.2) (chkParser x) (chkParser y) := by
  cases h with
  | error e => exact .error _
  | ok a l l' hP => exact .ok ⟨rfl, hP⟩

theorem follows_parseInstr (ptr : Nat → Word) (slot : Slot) (text : List Byte)
    (h : Beside R l l') :
    Lockstep Stop (SameParsed Anywhere) (parseInstr ptr slot text l)
      (parseInstr ptr slot text l') := by
  rw [parseInstr, parseInstr]
  cases opLookup text with
  | none => exact .ok (.error _)
  | some op =>
    dsimp only
    refine (follows_next hf h).bind ?_
    rintro _ _ (⟨tok, l₁, l₁', hend, hR⟩ | ⟨tok, tok', l₁, l₁', hend, hend', hE⟩)
    · simp only [hend]
      refine (follows_parseInstrOPE hf (ptr 0) slot.a (.token (E := E) tok l₁ l₁' hend hR)).bind ?_
      intro a a' ha
      refine (chkParser_follows ha).bind ?_
      rintro ⟨a, l₂⟩ ⟨_, l₂'⟩ ⟨rfl, hR₂⟩
      dsimp only
      refine (follows_next_either hf hR₂).bind ?_
      rintro _ _ (⟨tok, l₃, l₃', hend, hR₃⟩ | ⟨tok, tok', l₃, l₃', hend, hend', hE⟩)
      · simp only [hend]
        refine Lockstep.ite (fun _ => ?_) fun _ => ?_
        · exact Lockstep.ite (fun _ => .ok (.error _)) fun _ => .ok (.error _)
        · refine (follows_next hf hR₃).bind ?_
          intro x x' hx
          refine (follows_parseInstrOPE hf (ptr 1) slot.b hx).bind ?_
          intro b b' hb
          refine (chkParser_follows hb).bind ?_
          rintro ⟨b, l₄⟩ ⟨_, l₄'⟩ ⟨rfl, hR₄⟩
          exact lineEnd_follows _ (follows_next_either hf hR₄)
      · simp only [hend, hend']
        exact .ok (.ok _ l₃ l₃' ⟨trivial, hE.2⟩)
    · simp only [hend, hend', if_true]
      exact .ok (.ok _ l₁ l₁' ⟨trivial, hE.2⟩)

omit hf in
theorem SameParsed.anywhere {α : Type} {P : List Byte → List Byte → Prop} {x y : Parsed α}
    (h : SameParsed P x y) : SameParsed Anywhere x y := by
  cases h with
  | error e => exact .error e
  | ok a l l' hP => exact .ok a l l' ⟨trivial, hP.2⟩

theorem follows_parseDir (ptr : Word) (h : Beside R l l') :
    Lockstep Stop (SameParsed Anywhere) (parseDir ptr l) (parseDir ptr l') := by
  have hline : ∀ {l l'} (a : IRBody), Beside R l l' →
      Lockstep Stop (SameParsed Anywhere) (lineEnd a l) (lineEnd a l') :=
    fun a hR => (lineEnd_follows a (follows_next hf hR)).mono fun _ _ h => h.anywhere
  unfold parseDir
  refine (follows_next hf h).bind ?_
  rintro _ _ (⟨tok, l₁, l₁', hend, hR⟩ | ⟨tok, tok', l₁, l₁', hend, hend', hE⟩)
  · cases tok with
    | ident text =>
      dsimp only
      cases dirLookup text with
      | none => exact .ok (.error _)
      | some type =>
        dsimp only
        refine (follows_next hf hR).bind ?_
        rintro _ _ (⟨tok, l₂, l₂', hend, hR₂⟩ | ⟨tok, tok', l₂, l₂', hend, hend', hE⟩)
        · cases tok with
          | number n => exact hline _ hR₂
          | ident text => exact hline _ hR₂
          | string text => exact hline _ hR₂
          | minus =>
            refine (follows_next hf hR₂).bind ?_
            rintro _ _ (⟨tok, l₃, l₃', hend, hR₃⟩ | ⟨tok, tok', l₃, l₃', hend, hend', hE⟩)
            · cases tok with
              | number n => exact hline _ hR₃
              | _ => exact .ok (.error _)
            · rcases isEndOfInstr_cases hend with rfl | rfl <;>
                rcases isEndOfInstr_cases hend' with rfl | rfl <;> exact .ok (.error _)
          | newline => cases hend
          | eof => cases hend
          | _ => exact .ok (.error _)
        · have hnone : SameParsed Anywhere (.ok (IRBody.dir type .none, l₂))
              (.ok (.dir type .none, l₂')) := .ok _ l₂ l₂' ⟨trivial, hE.2⟩
          rcases isEndOfInstr_cases hend with rfl | rfl <;>
            rcases isEndOfInstr_cases hend' with rfl | rfl <;> exact .ok hnone
    | _ => exact .ok (.error _)
  · rcases isEndOfInstr_cases hend with rfl | rfl <;>
      rcases isEndOfInstr_cases hend' with rfl | rfl <;> exact .ok (.error _)

theorem follows_parseLabel (ptr : Word) (text : List Byte) (h : Beside R l l') :
    Lockstep Stop (SameParsed Anywhere) (parseLabel ptr text l) (parseLabel ptr text l') := by
  unfold parseLabel
  refine (follows_next hf h).bind ?_
  rintro _ _ (⟨tok, l₁, l₁', hend, hR⟩ | ⟨tok, tok', l₁, l₁', hend, hend', hE⟩)
  · cases tok with
    | colon =>
      exact (lineEnd_follows _ (follows_next hf hR)).mono fun _ _ h => h.anywhere
    | _ => exact Lockstep.ite (fun _ => .ok (.error _)) fun _ => .ok (.error _)
  · rcases isEndOfInstr_cases hend with rfl | rfl <;>
      rcases isEndOfInstr_cases hend' with rfl | rfl <;> exact .ok (.error _)

/-- The node of a line, once its body has been parsed. -/
def parsedNode (line : Word) (x : Exec (Parsed IRBody)) : Exec (Except ParserError IRNode) := do
  let (body, _) ← chkParser (← x)
  return .ok { line := line + 1, body := body }

/-- **A line is parsed as another that the lexer reads in the same way.** -/
theorem parseLine_follows (ptr : Nat → Word) (IR : Option Slot) {s s' : List Byte} (h : R s s')
    (hline : l.line = l'.line) :
    Lockstep Stop Eq (parseLine ptr s IR l) (parseLine ptr s' IR l') := by
  rw [parseLine, parseLine]
  have hstart : Beside R { l with cursor := s } { l' with cursor := s' } := ⟨h, hline⟩
  refine (follows_next hf hstart).bind ?_
  rintro _ _ (⟨tok, l₁, l₁', hend, hR⟩ | ⟨tok, tok', l₁, l₁', hend, hend', hE⟩)
  · simp only [hend]
    refine Lockstep.ite (fun _ => .ok rfl) fun _ => ?_
    have haccess : Lockstep Stop Eq (access IR) (access IR) := .refl (fun _ => rfl) _
    have hnode : ∀ {x y : Exec (Parsed IRBody)}, Lockstep Stop (SameParsed Anywhere) x y →
        Lockstep Stop Eq (parsedNode l₁.line x) (parsedNode l₁'.line y) := by
      intro x y hxy
      refine hxy.bind fun a a' ha => ?_
      refine (chkParser_follows ha).bind ?_
      rintro ⟨body, _⟩ ⟨_, _⟩ ⟨rfl, -⟩
      rw [hR.2]
      exact .ok rfl
    cases tok with
    | dot =>
      refine haccess.bind fun _ _ _ => ?_
      exact hnode (follows_parseDir hf (ptr 0) hR)
    | ident text =>
      refine haccess.bind fun _ _ _ => ?_
      exact hnode (follows_parseLabel hf (ptr 0) text hR)
    | mnemonic text =>
      refine haccess.bind fun slot slot' hslot => ?_
      subst hslot
      exact hnode (follows_parseInstr hf ptr slot text hR)
    | _ => exact .ok rfl
  · simp only [hend, hend', if_true]
    exact .ok rfl

end

end BSVM
