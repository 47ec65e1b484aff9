/-
# `BSVM.Grammar` — the operands that `parse_instrOPE` accepts

`OperandForm` is the grammar of an operand, with the operand that each form stands for.
`Accepts` is what the code makes of the tokens, `parseInstrOPE_iff`: it differs
from `OperandForm` in three places.

    [ t u NUMBER ]    accepted, t being PLUS, a string or a mnemonic and u any
                      token but an end; sets nothing but an offset
    [ - NUMBER ]      refused
    [ R300 ]          accepted, as R44; the same with an offset

`Stray` lists these; `operands_parsed_iff` says that there are no others.
-/
import BSVM.Scanning

namespace BSVM

/-! ## Runs of the lexer -/

/-- The lexer reads these tokens. -/
def Lexer.Run (lexer : Lexer) (toks : List Token) (lexer' : Lexer) : Prop :=
  Reading lexer.cursor toks lexer'.cursor ∧ lexer'.line = lexer.line

theorem run_nil {lexer lexer' : Lexer} : lexer.Run [] lexer' ↔ lexer' = lexer := by
  obtain ⟨s, n⟩ := lexer
  obtain ⟨s', n'⟩ := lexer'
  constructor
  · rintro ⟨h, hline⟩
    cases h
    cases hline
    rfl
  · intro h
    cases h
    exact ⟨.nil s, rfl⟩

theorem next_iff {lexer lexer' : Lexer} {tok : Token} :
    next lexer = .ok (tok, lexer') ↔
      Reads lexer.cursor tok lexer'.cursor ∧ lexer'.line = lexer.line := by
  constructor
  · intro h
    obtain ⟨hread, heq⟩ := reads_of_next h
    exact ⟨hread, by rw [heq]⟩
  · rintro ⟨hread, hline⟩
    rw [next_reads hread, ← hline]

theorem run_cons {lexer lexer' : Lexer} {tok : Token} {toks : List Token} :
    lexer.Run (tok :: toks) lexer' ↔ ∃ l, next lexer = .ok (tok, l) ∧ l.Run toks lexer' := by
  constructor
  · rintro ⟨h, hline⟩
    obtain ⟨r, hread, hrest⟩ := h.uncons
    exact ⟨{ lexer with cursor := r }, next_reads hread, hrest, hline⟩
  · rintro ⟨l, hnext, hrest, hline⟩
    obtain ⟨hread, hl⟩ := next_iff.mp hnext
    exact ⟨.cons hread hrest, hline.trans hl⟩

theorem run_single {lexer lexer' : Lexer} {tok : Token} :
    lexer.Run [tok] lexer' ↔ next lexer = .ok (tok, lexer') := by
  rw [run_cons]
  constructor
  · rintro ⟨l, hnext, hrun⟩
    rw [run_nil] at hrun
    rw [hrun]
    exact hnext
  · exact fun h => ⟨lexer', h, run_nil.mpr rfl⟩

/-- The first token of a run is the next one. -/
theorem Lexer.Run.head {lexer lexer' l : Lexer} {tok tok' : Token} {toks : List Token}
    (h : lexer.Run (tok :: toks) lexer') (hnext : next lexer = .ok (tok', l)) :
    tok = tok' ∧ l.Run toks lexer' := by
  obtain ⟨l', hl', hrest⟩ := run_cons.mp h
  cases hl'.symm.trans hnext
  exact ⟨rfl, hrest⟩

/-! ## Operands -/

/-- `+` or `-`. -/
def sign (neg : Bool) : Token :=
  if neg then .minus else .plus

/-- `neg ? -n : n`. -/
def signed (neg : Bool) (n : Word) : Word :=
  if neg then -n else n

/-- The grammar: the tokens of an operand, and the operand. -/
inductive OperandForm (ptr : Word) : List Token → Operand → Prop
  | ident (x : List Byte) : OperandForm ptr [.ident x] (.ident (mkIdent ptr x))
  | value (n : Word) : OperandForm ptr [.number n] (.value n)
  | negative (n : Word) : OperandForm ptr [.minus, .number n] (.value (-n))
  | reg (r : Byte) : OperandForm ptr [.register (r.setWidth 64)] (.reg r)
  | memValue (n : Word) : OperandForm ptr [.openBracket, .number n, .closeBracket] (.memValue n)
  | memNegative (n : Word) :
      OperandForm ptr [.openBracket, .minus, .number n, .closeBracket] (.memValue (-n))
  | memIdent (x : List Byte) (e : Token) : isEndOfInstr e →
      OperandForm ptr [.openBracket, .ident x, .closeBracket, e] (.memIdent (mkIdent ptr x))
  | memReg (r : Byte) :
      OperandForm ptr [.openBracket, .register (r.setWidth 64), .closeBracket] (.memReg r)
  | memIdxIdent (x : List Byte) (neg : Bool) (n : Word) :
      OperandForm ptr [.openBracket, .ident x, sign neg, .number n, .closeBracket]
        (.memIdxIdent (mkIdent ptr x) (signed neg n))
  | memIdx (r : Byte) (neg : Bool) (n : Word) :
      OperandForm ptr [.openBracket, .register (r.setWidth 64), sign neg, .number n, .closeBracket]
        (.memIdx r (signed neg n))

/-- A token that no case of the bracket is made for, and no test refuses. -/
inductive Loose : Token → Prop
  | plus : Loose .plus
  | string (text : List Byte) : Loose (.string text)
  | mnemonic (text : List Byte) : Loose (.mnemonic text)

/-- What the code accepts, and what `*ope` is afterwards. -/
inductive Accepts (ptr : Word) (ope : Operand) : List Token → Operand → Prop
  | ident (x : List Byte) : Accepts ptr ope [.ident x] (.ident (mkIdent ptr x))
  | value (n : Word) : Accepts ptr ope [.number n] (.value n)
  | negative (n : Word) : Accepts ptr ope [.minus, .number n] (.value (-n))
  | reg (r : Word) : r.toNat ≤ 255 → Accepts ptr ope [.register r] (.reg (r.setWidth 8))
  | memValue (n : Word) :
      Accepts ptr ope [.openBracket, .number n, .closeBracket] (.memValue n)
  | memIdent (x : List Byte) (e : Token) : isEndOfInstr e →
      Accepts ptr ope [.openBracket, .ident x, .closeBracket, e] (.memIdent (mkIdent ptr x))
  | memReg (r : Word) :
      Accepts ptr ope [.openBracket, .register r, .closeBracket] (.memReg (r.setWidth 8))
  | memIdxIdent (x : List Byte) (neg : Bool) (n : Word) :
      Accepts ptr ope [.openBracket, .ident x, sign neg, .number n, .closeBracket]
        (.memIdxIdent (mkIdent ptr x) (signed neg n))
  | memIdx (r : Word) (neg : Bool) (n : Word) :
      Accepts ptr ope [.openBracket, .register r, sign neg, .number n, .closeBracket]
        (.memIdx (r.setWidth 8) (signed neg n))
  | loose (t u : Token) (n : Word) : Loose t → isEndOfInstr u = false →
      Accepts ptr ope [.openBracket, t, u, .number n, .closeBracket] (ope.setOffset n)

/-! ## The code -/

theorem lineEnd_iff {α : Type} {a a' : α} {lexer lexer' : Lexer} :
    lineEnd a lexer = .ok (.ok (a', lexer')) ↔
      ∃ e, isEndOfInstr e ∧ next lexer = .ok (e, lexer') ∧ a' = a := by
  rw [lineEnd]
  constructor
  · intro h
    obtain ⟨⟨e, l⟩, hnext, h⟩ := Except.bind_eq_ok.mp h
    cases he : isEndOfInstr e with
    | true =>
      simp only [he] at h
      cases h
      exact ⟨e, he, hnext, rfl⟩
    | false =>
      simp only [he] at h
      split at h <;> cases h
  · rintro ⟨e, he, hnext, rfl⟩
    rw [hnext]
    simp only [Except.ok_bind, he]
    rfl

theorem lexerNextToken_iff {lexer lexer' : Lexer} {status : LexerError} {tok : Token} :
    lexerNextToken lexer = .ok (status, tok, lexer') ↔
      nextToken lexer.cursor = .ok (status, tok, lexer'.cursor) ∧ lexer'.line = lexer.line := by
  rw [lexerNextToken]
  constructor
  · intro h
    obtain ⟨⟨status', tok', r⟩, hnext, h⟩ := Except.bind_eq_ok.mp h
    cases h
    exact ⟨hnext, rfl⟩
  · rintro ⟨hnext, hline⟩
    rw [hnext, ← hline]
    rfl

/-- The statuses need not be looked at: behind a number that is too large there
is a number, and no bracket. -/
theorem parseOffset_iff {neg : Bool} {set : Word → Operand} {o : Operand}
    {lexer lexer' : Lexer} :
    parseOffset neg set lexer = .ok (.ok (o, lexer')) ↔
      ∃ n, lexer.Run [.number n, .closeBracket] lexer' ∧ o = set (signed neg n) := by
  rw [parseOffset]
  constructor
  · intro h
    obtain ⟨⟨status, tok, l⟩, hlex, h⟩ := Except.bind_eq_ok.mp h
    cases tok with
    | number n =>
      obtain ⟨⟨status', tok', l'⟩, hlex', h⟩ := Except.bind_eq_ok.mp h
      simp only at h
      split at h
      · cases h
      · rename_i htok
        have htok : tok' = .closeBracket := not_not.mp htok
        cases h
        obtain ⟨hnext, hline⟩ := lexerNextToken_iff.mp hlex
        obtain ⟨hnext', hline'⟩ := lexerNextToken_iff.mp hlex'
        rw [htok] at hnext'
        have hclose : Reads l.cursor .closeBracket lexer'.cursor :=
          reads_of_nextToken hnext' fun r hr => by cases hr
        have hstatus : status = .ok := by
          by_contra hne
          have href : Refused (.number n) l.cursor := regular_nextToken _ _ hnext hne
          generalize hcursor : l.cursor = cursor at href hnext'
          cases href with
          | number d r hd =>
            obtain ⟨m, hm⟩ := nextToken_digit hd hnext'
            cases hm
        rw [hstatus] at hnext
        refine ⟨n, ⟨?_, hline'.trans hline⟩, rfl⟩
        exact .cons hnext (.cons hclose (.nil _))
    | _ => cases h
  · rintro ⟨n, hrun, rfl⟩
    obtain ⟨l, hnext, hrun⟩ := run_cons.mp hrun
    obtain ⟨hnumber, hline⟩ := next_iff.mp hnext
    obtain ⟨hclose, hline'⟩ := next_iff.mp (run_single.mp hrun)
    rw [lexerNextToken_iff.mpr ⟨hnumber, hline⟩]
    simp only [Except.ok_bind]
    rw [lexerNextToken_iff.mpr ⟨hclose, hline'⟩]
    rfl

theorem parseBracket_sound {ptr : Word} {ope o : Operand} {lexer lexer' : Lexer}
    (h : parseBracket ptr ope lexer = .ok (.ok (o, lexer'))) :
    ∃ toks, lexer.Run toks lexer' ∧ Accepts ptr ope (.openBracket :: toks) o := by
  rw [parseBracket] at h
  obtain ⟨⟨tok, l⟩, hfirst, h⟩ := Except.bind_eq_ok.mp h
  obtain ⟨⟨suiv, l'⟩, hsecond, h⟩ := Except.bind_eq_ok.mp h
  have hrun : ∀ {toks}, l'.Run toks lexer' → lexer.Run (tok :: suiv :: toks) lexer' :=
    fun hrest => run_cons.mpr ⟨l, hfirst, run_cons.mpr ⟨l', hsecond, hrest⟩⟩
  simp only at h
  split at h
  · cases h
  rename_i hends
  simp only [Bool.or_eq_true, not_or, Bool.not_eq_true] at hends
  obtain ⟨⟨htok, hsyntax⟩, hsuiv⟩ := hends
  -- a token that no case is made for goes straight to the tail
  have hloose : Loose tok → parseOffset false ope.setOffset l' = .ok (.ok (o, lexer')) →
      ∃ toks, lexer.Run toks lexer' ∧ Accepts ptr ope (.openBracket :: toks) o := by
    intro hloose h
    obtain ⟨n, hrest, rfl⟩ := parseOffset_iff.mp h
    exact ⟨_, hrun hrest, .loose tok suiv n hloose hsuiv⟩
  cases tok with
  | openBracket => cases hsyntax
  | closeBracket => cases hsyntax
  | comma => cases hsyntax
  | dot => cases hsyntax
  | colon => cases hsyntax
  | newline => cases htok
  | eof => cases htok
  | plus => exact hloose .plus h
  | string text => exact hloose (.string text) h
  | mnemonic text => exact hloose (.mnemonic text) h
  | minus =>
    cases suiv with
    | number n => cases h
    | _ => cases h
  | number n =>
    cases suiv with
    | closeBracket =>
      cases h
      exact ⟨_, hrun (run_nil.mpr rfl), .memValue n⟩
    | _ => cases h
  | ident x =>
    cases suiv with
    | minus =>
      obtain ⟨n, hrest, rfl⟩ := parseOffset_iff.mp h
      exact ⟨_, hrun hrest, .memIdxIdent x true n⟩
    | plus =>
      obtain ⟨n, hrest, rfl⟩ := parseOffset_iff.mp h
      exact ⟨_, hrun hrest, .memIdxIdent x false n⟩
    | closeBracket =>
      obtain ⟨e, he, hlast, rfl⟩ := lineEnd_iff.mp h
      exact ⟨_, hrun (run_single.mpr hlast), .memIdent x e he⟩
    | _ => cases h
  | register r =>
    cases suiv with
    | minus =>
      obtain ⟨n, hrest, rfl⟩ := parseOffset_iff.mp h
      exact ⟨_, hrun hrest, .memIdx r true n⟩
    | plus =>
      obtain ⟨n, hrest, rfl⟩ := parseOffset_iff.mp h
      exact ⟨_, hrun hrest, .memIdx r false n⟩
    | closeBracket =>
      cases h
      exact ⟨_, hrun (run_nil.mpr rfl), .memReg r⟩
    | _ => cases h

theorem run_pair {lexer lexer' : Lexer} {t u : Token} {toks : List Token}
    (h : lexer.Run (t :: u :: toks) lexer') :
    ∃ l l', next lexer = .ok (t, l) ∧ next l = .ok (u, l') ∧ l'.Run toks lexer' := by
  obtain ⟨l, ht, h⟩ := run_cons.mp h
  obtain ⟨l', hu, h⟩ := run_cons.mp h
  exact ⟨l, l', ht, hu, h⟩

theorem parseBracket_complete {ptr : Word} {ope o : Operand} {toks : List Token}
    {lexer lexer' : Lexer} (hrun : lexer.Run toks lexer')
    (h : Accepts ptr ope (.openBracket :: toks) o) :
    parseBracket ptr ope lexer = .ok (.ok (o, lexer')) := by
  rw [parseBracket]
  cases h with
  | memValue n =>
    obtain ⟨l, l', hfirst, hsecond, hrest⟩ := run_pair hrun
    simp only [run_nil.mp hrest, hfirst, hsecond, Except.ok_bind]
    rfl
  | memIdent x e he =>
    obtain ⟨l, l', hfirst, hsecond, hrest⟩ := run_pair hrun
    simp only [hfirst, hsecond, Except.ok_bind]
    exact lineEnd_iff.mpr ⟨e, he, run_single.mp hrest, rfl⟩
  | memReg r =>
    obtain ⟨l, l', hfirst, hsecond, hrest⟩ := run_pair hrun
    simp only [run_nil.mp hrest, hfirst, hsecond, Except.ok_bind]
    rfl
  | memIdxIdent x neg n =>
    obtain ⟨l, l', hfirst, hsecond, hrest⟩ := run_pair hrun
    simp only [hfirst, hsecond, Except.ok_bind]
    cases neg <;> exact parseOffset_iff.mpr ⟨n, hrest, rfl⟩
  | memIdx r neg n =>
    obtain ⟨l, l', hfirst, hsecond, hrest⟩ := run_pair hrun
    simp only [hfirst, hsecond, Except.ok_bind]
    cases neg <;> exact parseOffset_iff.mpr ⟨n, hrest, rfl⟩
  | loose t u n ht hu =>
    obtain ⟨l, l', hfirst, hsecond, hrest⟩ := run_pair hrun
    have htail : parseOffset false ope.setOffset l' = .ok (.ok (ope.setOffset n, lexer')) :=
      parseOffset_iff.mpr ⟨n, hrest, rfl⟩
    simp only [hfirst, hsecond, Except.ok_bind, hu]
    cases ht <;> exact htail

/-- What `parse_instrOPE` accepts. -/
theorem parseInstrOPE_iff {ptr : Word} {ope o : Operand} {tok : Token} {lexer lexer' : Lexer} :
    parseInstrOPE ptr ope tok lexer = .ok (.ok (o, lexer')) ↔
      ∃ toks, lexer.Run toks lexer' ∧ Accepts ptr ope (tok :: toks) o := by
  constructor
  · intro h
    unfold parseInstrOPE at h
    cases tok with
    | ident x =>
      cases h
      exact ⟨[], run_nil.mpr rfl, .ident x⟩
    | number n =>
      cases h
      exact ⟨[], run_nil.mpr rfl, .value n⟩
    | minus =>
      obtain ⟨⟨tok, l⟩, hnext, h⟩ := Except.bind_eq_ok.mp h
      cases tok with
      | number n =>
        cases h
        exact ⟨_, run_single.mpr hnext, .negative n⟩
      | _ => cases h
    | register r =>
      simp only at h
      split at h
      case isTrue => cases h
      case isFalse hr =>
        cases h
        exact ⟨[], run_nil.mpr rfl, .reg r (Nat.not_lt.mp hr)⟩
    | openBracket => exact parseBracket_sound h
    | _ => cases h
  · rintro ⟨toks, hrun, h⟩
    unfold parseInstrOPE
    cases tok with
    | ident x =>
      cases h
      rw [run_nil.mp hrun]
      rfl
    | number n =>
      cases h
      rw [run_nil.mp hrun]
      rfl
    | minus =>
      cases h
      simp only [run_single.mp hrun, Except.ok_bind]
      rfl
    | register r =>
      cases h with
      | reg r hr =>
        simp only [run_nil.mp hrun, if_neg (Nat.not_lt.mpr hr)]
        rfl
    | openBracket => exact parseBracket_complete hrun h
    | _ => cases h

theorem chkParser_ok {α : Type} {x : Parsed α} {a : α × Lexer} (h : chkParser x = .ok a) :
    x = .ok a := by
  cases x with
  | error e => cases h
  | ok b =>
    cases h
    rfl

/-- The end of `parseLine`. -/
theorem node_ok {x : Exec (Parsed IRBody)} {line : Word} {node : IRNode}
    (h : (do
      let (body, _) ← chkParser (← x)
      return .ok { line := line + 1, body := body } : Exec (Except ParserError IRNode)) =
        .ok (.ok node)) : ∃ l', x = .ok (.ok (node.body, l')) := by
  obtain ⟨parsed, hx, h⟩ := Except.bind_eq_ok.mp h
  obtain ⟨⟨body, l'⟩, hchk, h⟩ := Except.bind_eq_ok.mp h
  cases h
  exact ⟨l', chkParser_ok hchk ▸ hx⟩

/-- The operands of an instruction that is parsed, with the tokens they are parsed
from. -/
theorem parseInstr_ok {ptr : Nat → Word} {slot : Slot} {text : List Byte} {body : IRBody}
    {lexer l' : Lexer} (h : parseInstr ptr slot text lexer = .ok (.ok (body, l'))) :
    ∃ op a b, body = .instr op a b ∧
      ((∃ e l, next lexer = .ok (e, l) ∧ isEndOfInstr e ∧ a = .none ∧ b = .none) ∨
        ∃ as l₁ tok l₂, lexer.Run as l₁ ∧ Accepts (ptr 0) slot.a as a ∧ next l₁ = .ok (tok, l₂) ∧
          ((isEndOfInstr tok ∧ b = .none) ∨
            tok = .comma ∧ ∃ bs l₃, l₂.Run bs l₃ ∧ Accepts (ptr 1) slot.b bs b)) := by
  rw [parseInstr] at h
  cases hop : opLookup text with
  | none =>
    rw [hop] at h
    cases h
  | some op =>
    rw [hop] at h
    obtain ⟨⟨tok, l₀⟩, hfirst, h⟩ := Except.bind_eq_ok.mp h
    dsimp only at h
    split at h
    case isTrue hend =>
      cases h
      exact ⟨op, .none, .none, rfl, .inl ⟨tok, _, hfirst, hend, rfl, rfl⟩⟩
    case isFalse =>
      obtain ⟨parsed, ha, h⟩ := Except.bind_eq_ok.mp h
      obtain ⟨⟨a, l₁⟩, hchk, h⟩ := Except.bind_eq_ok.mp h
      obtain ⟨as, hrun, hacc⟩ := parseInstrOPE_iff.mp (chkParser_ok hchk ▸ ha)
      obtain ⟨⟨sep, l₂⟩, hsep, h⟩ := Except.bind_eq_ok.mp h
      have hrun : lexer.Run (tok :: as) l₁ := run_cons.mpr ⟨l₀, hfirst, hrun⟩
      dsimp only at h
      split at h
      case isTrue => split at h <;> cases h
      case isFalse hnot =>
        split at h
        case isTrue hend =>
          cases h
          exact ⟨op, a, .none, rfl,
            .inr ⟨_, l₁, sep, _, hrun, hacc, hsep, .inl ⟨hend, rfl⟩⟩⟩
        case isFalse hend =>
          have hcomma : sep = .comma := by
            by_contra hne
            exact hnot (by simp [hend, hne])
          obtain ⟨⟨tok', l₃⟩, hsecond, h⟩ := Except.bind_eq_ok.mp h
          obtain ⟨parsed', hb, h⟩ := Except.bind_eq_ok.mp h
          obtain ⟨⟨b, l₄⟩, hchk', h⟩ := Except.bind_eq_ok.mp h
          obtain ⟨bs, hrun', hacc'⟩ := parseInstrOPE_iff.mp (chkParser_ok hchk' ▸ hb)
          obtain ⟨-, -, -, rfl⟩ := lineEnd_iff.mp h
          exact ⟨op, a, b, rfl, .inr ⟨_, l₁, sep, l₂, hrun, hacc, hsep,
            .inr ⟨hcomma, _, l₄, run_cons.mpr ⟨l₃, hsecond, hrun'⟩, hacc'⟩⟩⟩

/-! ## The code against the grammar -/

/-- The operands on which the two differ. -/
inductive Stray : List Token → Prop
  | loose (t u : Token) (n : Word) : Loose t → isEndOfInstr u = false →
      Stray [.openBracket, t, u, .number n, .closeBracket]
  | negative (n : Word) : Stray [.openBracket, .minus, .number n, .closeBracket]
  | memReg (r : Word) : 255 < r.toNat → Stray [.openBracket, .register r, .closeBracket]
  | memIdx (r : Word) (neg : Bool) (n : Word) : 255 < r.toNat →
      Stray [.openBracket, .register r, sign neg, .number n, .closeBracket]

theorem setWidth_byte {r : Word} (h : r.toNat ≤ 255) : (r.setWidth 8).setWidth 64 = r := by
  apply BitVec.eq_of_toNat_eq
  rw [BitVec.toNat_setWidth, BitVec.toNat_setWidth]
  omega

theorem byte_le (r : Byte) : (r.setWidth 64).toNat ≤ 255 := by
  rw [BitVec.toNat_setWidth]
  omega

theorem Accepts.form {ptr : Word} {ope o : Operand} {toks : List Token}
    (h : Accepts ptr ope toks o) : OperandForm ptr toks o ∨ Stray toks := by
  cases h with
  | ident x => exact .inl (.ident x)
  | value n => exact .inl (.value n)
  | negative n => exact .inl (.negative n)
  | reg r hr =>
    have h := @OperandForm.reg ptr (r.setWidth 8)
    rw [setWidth_byte hr] at h
    exact .inl h
  | memValue n => exact .inl (.memValue n)
  | memIdent x e he => exact .inl (.memIdent x e he)
  | memReg r =>
    by_cases hr : 255 < r.toNat
    · exact .inr (.memReg r hr)
    · have h := @OperandForm.memReg ptr (r.setWidth 8)
      rw [setWidth_byte (Nat.not_lt.mp hr)] at h
      exact .inl h
  | memIdxIdent x neg n => exact .inl (.memIdxIdent x neg n)
  | memIdx r neg n =>
    by_cases hr : 255 < r.toNat
    · exact .inr (.memIdx r neg n hr)
    · have h := @OperandForm.memIdx ptr (r.setWidth 8) neg n
      rw [setWidth_byte (Nat.not_lt.mp hr)] at h
      exact .inl h
  | loose t u n ht hu => exact .inr (.loose t u n ht hu)

theorem setWidth_word (r : Byte) : (r.setWidth 64).setWidth 8 = r := by
  apply BitVec.eq_of_toNat_eq
  rw [BitVec.toNat_setWidth, BitVec.toNat_setWidth]
  omega

theorem OperandForm.accepts {ptr : Word} {o : Operand} {toks : List Token}
    (h : OperandForm ptr toks o) (ope : Operand) : Accepts ptr ope toks o ∨ Stray toks := by
  cases h with
  | ident x => exact .inl (.ident x)
  | value n => exact .inl (.value n)
  | negative n => exact .inl (.negative n)
  | reg r =>
    have h := @Accepts.reg ptr ope (r.setWidth 64) (byte_le r)
    rw [setWidth_word] at h
    exact .inl h
  | memValue n => exact .inl (.memValue n)
  | memNegative n => exact .inr (.negative n)
  | memIdent x e he => exact .inl (.memIdent x e he)
  | memReg r =>
    have h := @Accepts.memReg ptr ope (r.setWidth 64)
    rw [setWidth_word] at h
    exact .inl h
  | memIdxIdent x neg n => exact .inl (.memIdxIdent x neg n)
  | memIdx r neg n =>
    have h := @Accepts.memIdx ptr ope (r.setWidth 64) neg n
    rw [setWidth_word] at h
    exact .inl h

/-- What stands behind `[` in the grammar. -/
theorem OperandForm.bracket {ptr : Word} {o : Operand} {toks : List Token}
    (h : OperandForm ptr (.openBracket :: toks) o) :
    ∃ t ts, toks = t :: ts ∧ ¬ Loose t ∧ ∀ r, t = .register r → r.toNat ≤ 255 := by
  cases h with
  | memValue n => exact ⟨_, _, rfl, (fun h => by cases h), fun r hr => by cases hr⟩
  | memNegative n => exact ⟨_, _, rfl, (fun h => by cases h), fun r hr => by cases hr⟩
  | memIdent x e he => exact ⟨_, _, rfl, (fun h => by cases h), fun r hr => by cases hr⟩
  | memIdxIdent x neg n => exact ⟨_, _, rfl, (fun h => by cases h), fun r hr => by cases hr⟩
  | memReg r =>
    refine ⟨_, _, rfl, (fun h => by cases h), fun r hr => ?_⟩
    cases hr
    exact byte_le _
  | memIdx r neg n =>
    refine ⟨_, _, rfl, (fun h => by cases h), fun r hr => ?_⟩
    cases hr
    exact byte_le _

theorem Accepts.bracket {ptr : Word} {ope o : Operand} {toks : List Token}
    (h : Accepts ptr ope (.openBracket :: toks) o) : ∃ t ts, toks = t :: ts ∧ t ≠ .minus := by
  cases h with
  | loose t u n ht hu =>
    refine ⟨_, _, rfl, fun h => ?_⟩
    subst h
    cases ht
  | _ => exact ⟨_, _, rfl, fun h => by cases h⟩

/-- `parse_instrOPE` accepts its grammar: what it accepts is a form, and `*ope`
is the operand of that form; and it accepts every form, whatever `*ope` held. -/
def KeepsGrammar (ptr : Word) (tok : Token) (lexer : Lexer) : Prop :=
  (∀ ope o lexer', parseInstrOPE ptr ope tok lexer = .ok (.ok (o, lexer')) →
    ∃ toks, lexer.Run toks lexer' ∧ OperandForm ptr (tok :: toks) o) ∧
  (∀ ope o lexer' toks, lexer.Run toks lexer' → OperandForm ptr (tok :: toks) o →
    parseInstrOPE ptr ope tok lexer = .ok (.ok (o, lexer')))

/-- An accepted operand in brackets is none, if its first token is in no form. -/
theorem not_keeps_of_head {ptr : Word} {ope o : Operand} {t : Token} {ts : List Token}
    {lexer lexer' : Lexer} (hrun : lexer.Run (t :: ts) lexer')
    (hacc : Accepts ptr ope (.openBracket :: t :: ts) o)
    (ht : Loose t ∨ ∃ r, t = .register r ∧ 255 < r.toNat) :
    ¬ KeepsGrammar ptr .openBracket lexer := by
  rintro ⟨hsound, -⟩
  obtain ⟨toks, hrun', hform⟩ := hsound ope o lexer' (parseInstrOPE_iff.mpr ⟨_, hrun, hacc⟩)
  obtain ⟨t', ts', rfl, hnot, hreg⟩ := hform.bracket
  obtain ⟨l, hnext, -⟩ := run_cons.mp hrun
  obtain ⟨rfl, -⟩ := hrun'.head hnext
  rcases ht with ht | ⟨r, hr, hlarge⟩
  · exact hnot ht
  · exact absurd (hreg r hr) (Nat.not_le.mpr hlarge)

theorem Stray.not_keeps {ptr : Word} {tok : Token} {toks : List Token} {lexer lexer' : Lexer}
    (hrun : lexer.Run toks lexer') (h : Stray (tok :: toks)) : ¬ KeepsGrammar ptr tok lexer := by
  cases h with
  | loose t u n ht hu =>
    exact not_keeps_of_head hrun (@Accepts.loose ptr .none t u n ht hu) (.inl ht)
  | negative n =>
    rintro ⟨-, hcomplete⟩
    have hparse := hcomplete .none _ lexer' _ hrun (.memNegative n)
    obtain ⟨toks, hrun', hacc⟩ := parseInstrOPE_iff.mp hparse
    obtain ⟨t, ts, rfl, hminus⟩ := hacc.bracket
    obtain ⟨l, hnext, -⟩ := run_cons.mp hrun
    exact hminus (hrun'.head hnext).1
  | memReg r hr =>
    exact not_keeps_of_head hrun (@Accepts.memReg ptr .none r) (.inr ⟨r, rfl, hr⟩)
  | memIdx r neg n hr =>
    exact not_keeps_of_head hrun (@Accepts.memIdx ptr .none r neg n) (.inr ⟨r, rfl, hr⟩)

/-- **The operand parser accepts exactly its grammar**, but where the tokens ahead
are one of the operands of `Stray`. -/
theorem operands_parsed_iff (ptr : Word) (tok : Token) (lexer : Lexer) :
    KeepsGrammar ptr tok lexer ↔
      ¬ ∃ toks lexer', lexer.Run toks lexer' ∧ Stray (tok :: toks) := by
  constructor
  · rintro hkeeps ⟨toks, lexer', hrun, hstray⟩
    exact hstray.not_keeps hrun hkeeps
  · intro hnone
    constructor
    · intro ope o lexer' h
      obtain ⟨toks, hrun, hacc⟩ := parseInstrOPE_iff.mp h
      exact ⟨toks, hrun, hacc.form.resolve_right fun hs => hnone ⟨toks, lexer', hrun, hs⟩⟩
    · intro ope o lexer' toks hrun hform
      refine parseInstrOPE_iff.mpr ⟨toks, hrun, ?_⟩
      exact (hform.accepts ope).resolve_right fun hs => hnone ⟨toks, lexer', hrun, hs⟩

/-- `PUSH [+ + 5]` is accepted, and what was in the operand stays there. -/
theorem loose_bracket_accepted :
    ∃ lexer', parseInstrOPE 0 (.memReg 3) .openBracket ⟨literal "+ + 5]", 0⟩
        = .ok (.ok (.memReg 3, lexer')) ∧
      ¬ KeepsGrammar 0 .openBracket ⟨literal "+ + 5]", 0⟩ := by
  have hrun : Lexer.Run ⟨literal "+ + 5]", 0⟩ [.plus, .plus, .number 5, .closeBracket]
      ⟨[nul], 0⟩ := by
    refine ⟨?_, rfl⟩
    exact .cons rfl (.cons rfl (.cons rfl (.cons rfl (.nil _))))
  have hstray : Stray [.openBracket, .plus, .plus, .number 5, .closeBracket] :=
    .loose .plus .plus 5 .plus rfl
  exact ⟨⟨[nul], 0⟩, rfl, hstray.not_keeps hrun⟩

end BSVM
