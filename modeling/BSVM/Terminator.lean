/-
# `BSVM.Terminator` — the parser and the end of its line

`TOKEN_EOF` moves the cursor over the NUL, so the parser must not ask for another
token behind it.  It does in two cases, `Cut`: it reads two tokens behind `[`
before it looks at the first, and `[x]` consumes the end of the line that the
caller then looks for.

    next_terminated     the lexer stays on the line until it returns EOF
    parseInstr_avoids   the parser does not ask again, but for `Cut`
    parseInstr_overrun  and there it does
    inside_iff          a line is parsed from its own characters alone if and
                        only if its tokens are not of that kind
-/
import BSVM.Following
import BSVM.Rendering

namespace BSVM

/-! ## The NUL -/

/-- The object ends with a NUL. -/
def Terminated (s : List Byte) : Prop :=
  s.getLast? = some nul

theorem terminated_append (line : List Byte) : Terminated (line ++ [nul]) := by
  rw [Terminated, List.getLast?_append]
  rfl

theorem Terminated.mem {s : List Byte} (h : Terminated s) : nul ∈ s :=
  List.mem_of_getLast? h

/-- Behind a part of it without the last NUL it still does. -/
theorem Terminated.rest {w r : List Byte} (h : Terminated (w ++ r)) (hr : r ≠ []) :
    Terminated r := by
  rw [Terminated, List.getLast?_append] at h
  cases hlast : r.getLast? with
  | none => exact absurd (List.getLast?_eq_none_iff.mp hlast) hr
  | some c =>
    rw [hlast] at h
    exact hlast.trans h

theorem nextToken_terminated {s : List Byte} (h : Terminated s) :
    ∃ status tok r, nextToken s = .ok (status, tok, r) ∧
      (Terminated r ∨ status = .ok ∧ tok = .eof ∧ r = []) := by
  obtain ⟨status, tok, r, hnext⟩ := nextToken_total h.mem
  refine ⟨status, tok, r, hnext, ?_⟩
  by_cases hr : r = []
  · right
    rcases nextToken_rest hnext with ⟨w, hw, hnul⟩ | ⟨hstatus, htok, -⟩
    · rw [hr, List.append_nil] at hw
      exact absurd (hw ▸ h.mem) hnul
    · exact ⟨hstatus, htok, hr⟩
  · left
    rcases nextToken_rest hnext with ⟨w, rfl, -⟩ | ⟨-, -, w, hw⟩
    · exact h.rest hr
    · rw [← hw, List.append_cons] at h
      exact h.rest hr

theorem next_nil {l : Lexer} (h : l.cursor = []) : next l = .error .table := by
  rw [next, lexerNextToken, h]
  rfl

/-- The cursor is on the line, or `tok` was its EOF. -/
def OnLine (tok : Token) (l : Lexer) : Prop :=
  Terminated l.cursor ∨ tok = .eof ∧ l.cursor = []

theorem lexerNextToken_terminated {l : Lexer} (h : Terminated l.cursor) :
    ∃ status tok l', lexerNextToken l = .ok (status, tok, l') ∧ OnLine tok l' := by
  obtain ⟨status, tok, r, hnext, hr⟩ := nextToken_terminated h
  refine ⟨status, tok, { l with cursor := r }, lexerNextToken_iff.mpr ⟨hnext, rfl⟩, ?_⟩
  exact hr.imp id fun h => h.2

theorem next_avoids {l : Lexer} (h : Terminated l.cursor) : Avoids (next l) .table := by
  obtain ⟨status, tok, l', hlex, -⟩ := lexerNextToken_terminated h
  rw [next, hlex, Except.ok_bind]
  dsimp only
  split
  · exact fun h => by cases h
  · exact Avoids.ok

theorem next_onLine {l : Lexer} (h : Terminated l.cursor) :
    Returns (next l) (fun x => OnLine x.1 x.2) := by
  obtain ⟨status, tok, l', hlex, hr⟩ := lexerNextToken_terminated h
  rw [next, hlex, Except.ok_bind]
  dsimp only
  split
  · exact Returns.error_iff.mpr trivial
  · exact Returns.ok_iff.mpr hr

theorem OnLine.terminated {tok : Token} {l : Lexer} (h : OnLine tok l) (htok : tok ≠ .eof) :
    Terminated l.cursor :=
  h.resolve_right fun h => htok h.1

/-- A run ends on the line, or with its EOF. -/
theorem Lexer.Run.onLine {l l' : Lexer} {toks : List Token} (h : l.Run toks l')
    (hl : Terminated l.cursor) :
    Terminated l'.cursor ∨ toks.getLast? = some .eof ∧ l'.cursor = [] := by
  induction toks generalizing l with
  | nil =>
    rw [run_nil.mp h]
    exact .inl hl
  | cons tok toks ih =>
    obtain ⟨l₁, hnext, hrest⟩ := run_cons.mp h
    rcases next_onLine hl _ hnext with hterm | ⟨htok, hcursor⟩
    · refine (ih hrest hterm).imp id fun hlast => ⟨?_, hlast.2⟩
      rw [List.getLast?_cons, hlast.1]
      rfl
    · cases toks with
      | nil =>
        rw [run_nil.mp hrest]
        dsimp only at htok hcursor
        rw [htok]
        exact .inr ⟨rfl, hcursor⟩
      | cons tok' toks =>
        obtain ⟨l₂, hnext', -⟩ := run_cons.mp hrest
        rw [next_nil hcursor] at hnext'
        cases hnext'

/-! ## What is asked for on the line -/

theorem lineEnd_avoids {α : Type} (a : α) {l : Lexer} (h : Terminated l.cursor) :
    Avoids (lineEnd a l) .table := by
  rw [lineEnd]
  refine Avoids.bind (next_avoids h) fun x _ => ?_
  refine Avoids.ite (fun _ => Avoids.ok) fun _ => ?_
  exact Avoids.ite (fun _ => Avoids.ok) fun _ => Avoids.ok

theorem chkParser_avoids {α : Type} (x : Parsed α) : Avoids (chkParser x) .table := by
  cases x with
  | error e => exact fun h => by cases h
  | ok a => exact Avoids.ok

theorem parseOffset_avoids (neg : Bool) (set : Word → Operand) {l : Lexer}
    (h : Terminated l.cursor) : Avoids (parseOffset neg set l) .table := by
  obtain ⟨status, tok, l₁, hlex, hl₁⟩ := lexerNextToken_terminated h
  rw [parseOffset, hlex, Except.ok_bind]
  cases tok with
  | number n =>
    obtain ⟨status', tok', l₂, hlex', -⟩ :=
      lexerNextToken_terminated (hl₁.terminated fun h => by cases h)
    dsimp only
    rw [hlex', Except.ok_bind]
    exact Avoids.ite (fun _ => Avoids.ok) fun _ => Avoids.ok
  | _ => exact Avoids.ok

/-- The token behind `[` is the EOF of the line. -/
def OpenAtEnd (l : Lexer) : Prop :=
  ∃ l', next l = .ok (.eof, l') ∧ l'.cursor = []

theorem parseBracket_avoids (ptr : Word) (ope : Operand) {l : Lexer} (h : Terminated l.cursor)
    (hopen : ¬ OpenAtEnd l) : Avoids (parseBracket ptr ope l) .table := by
  rw [parseBracket]
  refine Avoids.bind (next_avoids h) ?_
  rintro ⟨tok, l₁⟩ hfirst
  have hl₁ : Terminated l₁.cursor := by
    rcases next_onLine h _ hfirst with hterm | ⟨htok, hcursor⟩
    · exact hterm
    · dsimp only at htok hcursor
      rw [htok] at hfirst
      exact absurd ⟨l₁, hfirst, hcursor⟩ hopen
  refine Avoids.bind (next_avoids hl₁) ?_
  rintro ⟨suiv, l₂⟩ hsecond
  refine Avoids.ite (fun _ => Avoids.ok) fun hends => ?_
  simp only [Bool.or_eq_true, not_or, Bool.not_eq_true] at hends
  have hl₂ : Terminated l₂.cursor := by
    refine (next_onLine hl₁ _ hsecond).terminated fun hsuiv => ?_
    dsimp only at hsuiv
    rw [hsuiv] at hends
    cases hends.2
  cases tok with
  | minus => cases suiv <;> exact Avoids.ok
  | number n => cases suiv <;> exact Avoids.ok
  | ident x =>
    cases suiv with
    | minus => exact parseOffset_avoids _ _ hl₂
    | plus => exact parseOffset_avoids _ _ hl₂
    | closeBracket => exact lineEnd_avoids _ hl₂
    | _ => exact Avoids.ok
  | register r =>
    cases suiv with
    | minus => exact parseOffset_avoids _ _ hl₂
    | plus => exact parseOffset_avoids _ _ hl₂
    | _ => exact Avoids.ok
  | _ => exact parseOffset_avoids _ _ hl₂

theorem parseInstrOPE_avoids (ptr : Word) (ope : Operand) {tok : Token} {l : Lexer}
    (h : OnLine tok l) (hopen : tok = .openBracket → ¬ OpenAtEnd l) :
    Avoids (parseInstrOPE ptr ope tok l) .table := by
  unfold parseInstrOPE
  cases tok with
  | minus =>
    refine Avoids.bind (next_avoids (h.terminated fun h => by cases h)) ?_
    rintro ⟨tok, l₁⟩ -
    cases tok <;> exact Avoids.ok
  | register r => exact Avoids.ite (fun _ => Avoids.ok) fun _ => Avoids.ok
  | openBracket => exact parseBracket_avoids ptr ope (h.terminated fun h => by cases h) (hopen rfl)
  | _ => exact Avoids.ok

/-! ## What is asked for behind it -/

/-- An operand that has the EOF of the line among its tokens, and asks for more
or is asked for more behind. -/
inductive Cut : List Token → Prop
  | bracket : Cut [.openBracket, .eof]
  | memIdent (x : List Byte) : Cut [.openBracket, .ident x, .closeBracket, .eof]

/-- Tokens that `parse_instrOPE` accepts. -/
def Accepted (toks : List Token) : Prop :=
  ∃ o, Accepts 0 .none toks o

/-- The instructions whose first or second operand is cut. -/
inductive Overruns : List Token → Prop
  | first {text : List Byte} {toks : List Token} : (opLookup text).isSome → Cut toks →
      Overruns (.mnemonic text :: toks)
  | second {text : List Byte} {a toks : List Token} : (opLookup text).isSome → Accepted a →
      Cut toks → Overruns (.mnemonic text :: (a ++ .comma :: toks))

/-- Which tokens are accepted depends on neither pointer nor old operand. -/
theorem Accepts.change {ptr : Word} {ope o : Operand} {toks : List Token}
    (h : Accepts ptr ope toks o) (ptr' : Word) (ope' : Operand) :
    ∃ o', Accepts ptr' ope' toks o' := by
  cases h with
  | ident x => exact ⟨_, .ident x⟩
  | value n => exact ⟨_, .value n⟩
  | negative n => exact ⟨_, .negative n⟩
  | reg r hr => exact ⟨_, .reg r hr⟩
  | memValue n => exact ⟨_, .memValue n⟩
  | memIdent x e he => exact ⟨_, .memIdent x e he⟩
  | memReg r => exact ⟨_, .memReg r⟩
  | memIdxIdent x neg n => exact ⟨_, .memIdxIdent x neg n⟩
  | memIdx r neg n => exact ⟨_, .memIdx r neg n⟩
  | loose t u n ht hu => exact ⟨_, .loose t u n ht hu⟩

/-- Only `[x]` takes an end. -/
theorem Accepts.cut {ptr : Word} {ope o : Operand} {tok : Token} {toks : List Token}
    (h : Accepts ptr ope (tok :: toks) o) (hlast : toks.getLast? = some .eof) :
    Cut (tok :: toks) := by
  cases h with
  | memIdent x e he =>
    simp only [List.getLast?_cons_cons, List.getLast?_singleton, Option.some.injEq] at hlast
    rw [hlast]
    exact .memIdent x
  | _ => simp at hlast

/-- An operand that is not cut is parsed on the line, and so is what it leaves. -/
theorem operand_onLine (ptr : Word) (ope : Operand) {tok : Token} {l : Lexer} (h : OnLine tok l)
    (hcut : ∀ toks l', l.Run toks l' → l'.cursor = [] → ¬ Cut (tok :: toks)) :
    Avoids (parseInstrOPE ptr ope tok l) .table ∧
      Returns (parseInstrOPE ptr ope tok l >>= chkParser) (fun x => Terminated x.2.cursor ∧
        ∃ toks, l.Run toks x.2 ∧ Accepted (tok :: toks)) := by
  constructor
  · refine parseInstrOPE_avoids ptr ope h ?_
    rintro rfl ⟨l', hnext, hcursor⟩
    exact hcut [.eof] l' (run_single.mpr hnext) hcursor .bracket
  · rintro ⟨a, l'⟩ hparse
    obtain ⟨parsed, hparse, hchk⟩ := Except.bind_eq_ok.mp hparse
    cases parsed with
    | error e => cases hchk
    | ok x =>
      cases hchk
      obtain ⟨toks, hrun, hacc⟩ := parseInstrOPE_iff.mp hparse
      refine ⟨?_, toks, hrun, hacc.change 0 .none⟩
      have htok : tok ≠ .eof := by
        rintro rfl
        cases hacc
      rcases hrun.onLine (h.terminated htok) with hterm | ⟨hlast, hcursor⟩
      · exact hterm
      · exact absurd (hacc.cut hlast) (hcut toks l' hrun hcursor)

theorem parseInstr_avoids (ptr : Nat → Word) (slot : Slot) (text : List Byte) {l : Lexer}
    (h : Terminated l.cursor)
    (hcut : ∀ toks l', l.Run toks l' → l'.cursor = [] → ¬ Overruns (.mnemonic text :: toks)) :
    Avoids (parseInstr ptr slot text l) .table := by
  rw [parseInstr]
  cases hop : opLookup text with
  | none => exact Avoids.ok
  | some op =>
    have hsome : (opLookup text).isSome := by rw [hop]; rfl
    dsimp only
    refine Avoids.bind (next_avoids h) ?_
    rintro ⟨tok, l₁⟩ hfirst
    refine Avoids.ite (fun _ => Avoids.ok) fun _ => ?_
    obtain ⟨hparse, hchk⟩ := operand_onLine (ptr 0) slot.a
      (next_onLine h _ hfirst) fun toks l' hrun hcursor hc =>
        hcut _ l' (run_cons.mpr ⟨l₁, hfirst, hrun⟩) hcursor (.first hsome hc)
    dsimp only at hparse hchk ⊢
    refine Avoids.bind hparse fun parsed hp => ?_
    refine Avoids.bind (chkParser_avoids parsed) ?_
    rintro ⟨a, l₂⟩ hx
    obtain ⟨hl₂, ats, hrun, hacc⟩ := hchk _ (Except.bind_eq_ok.mpr ⟨parsed, hp, hx⟩)
    refine Avoids.bind (next_avoids hl₂) ?_
    rintro ⟨sep, l₃⟩ hsecond
    refine Avoids.ite (fun _ => Avoids.ite (fun _ => Avoids.ok) fun _ => Avoids.ok) fun hnot => ?_
    refine Avoids.ite (fun _ => Avoids.ok) fun hend => ?_
    have hsep : sep = .comma := by
      by_contra hne
      exact hnot (by simp [hend, hne])
    subst hsep
    have hl₃ : Terminated l₃.cursor :=
      (next_onLine hl₂ _ hsecond).terminated fun h => by cases h
    refine Avoids.bind (next_avoids hl₃) ?_
    rintro ⟨tok', l₄⟩ hthird
    -- the run up to the second operand
    have hbefore : ∀ {toks l'}, l₄.Run toks l' →
        l.Run ((tok :: ats) ++ .comma :: tok' :: toks) l' := by
      intro toks l' hrest
      have hleft : l.Run (tok :: ats) l₂ := run_cons.mpr ⟨l₁, hfirst, hrun⟩
      have hright : l₂.Run (.comma :: tok' :: toks) l' :=
        run_cons.mpr ⟨l₃, hsecond, run_cons.mpr ⟨l₄, hthird, hrest⟩⟩
      exact ⟨hleft.1.append hright.1, hright.2.trans hleft.2⟩
    obtain ⟨hparse', hchk'⟩ := operand_onLine (ptr 1) slot.b
      (next_onLine hl₃ _ hthird) fun toks l' hrest hcursor hc =>
        hcut _ l' (hbefore hrest) hcursor (.second hsome hacc hc)
    dsimp only at hparse' hchk' ⊢
    refine Avoids.bind hparse' fun parsed' hp' => ?_
    refine Avoids.bind (chkParser_avoids parsed') ?_
    rintro ⟨b, l₅⟩ hx'
    obtain ⟨hl₅, -⟩ := hchk' _ (Except.bind_eq_ok.mpr ⟨parsed', hp', hx'⟩)
    exact lineEnd_avoids _ hl₅

theorem parseDir_avoids (ptr : Word) {l : Lexer} (h : Terminated l.cursor) :
    Avoids (parseDir ptr l) .table := by
  unfold parseDir
  refine Avoids.bind (next_avoids h) ?_
  rintro ⟨tok, l₁⟩ hfirst
  cases tok with
  | ident text =>
    have hl₁ : Terminated l₁.cursor :=
      (next_onLine h _ hfirst).terminated fun h => by cases h
    dsimp only
    cases dirLookup text with
    | none => exact Avoids.ok
    | some type =>
      dsimp only
      refine Avoids.bind (next_avoids hl₁) ?_
      rintro ⟨tok, l₂⟩ hsecond
      have hl₂ := next_onLine hl₁ _ hsecond
      cases tok with
      | number n => exact lineEnd_avoids _ (hl₂.terminated fun h => by cases h)
      | ident text => exact lineEnd_avoids _ (hl₂.terminated fun h => by cases h)
      | string text => exact lineEnd_avoids _ (hl₂.terminated fun h => by cases h)
      | minus =>
        have hl₂ : Terminated l₂.cursor := hl₂.terminated fun h => by cases h
        refine Avoids.bind (next_avoids hl₂) ?_
        rintro ⟨tok, l₃⟩ hthird
        have hl₃ := next_onLine hl₂ _ hthird
        cases tok with
        | number n => exact lineEnd_avoids _ (hl₃.terminated fun h => by cases h)
        | _ => exact Avoids.ok
      | _ => exact Avoids.ok
  | _ => exact Avoids.ok

theorem parseLabel_avoids (ptr : Word) (text : List Byte) {l : Lexer} (h : Terminated l.cursor) :
    Avoids (parseLabel ptr text l) .table := by
  unfold parseLabel
  refine Avoids.bind (next_avoids h) ?_
  rintro ⟨tok, l₁⟩ hfirst
  cases tok with
  | colon => exact lineEnd_avoids _ ((next_onLine h _ hfirst).terminated fun h => by cases h)
  | _ => exact Avoids.ite (fun _ => Avoids.ok) fun _ => Avoids.ok

/-- The tokens of an object that make the parser read behind it. -/
def Overrun (s : List Byte) : Prop :=
  ∃ toks, Reading s toks [] ∧ Overruns toks

theorem parseLine_avoids (ptr : Nat → Word) (slot : Slot) (lexer : Lexer) {s : List Byte}
    (h : Terminated s) (hcut : ¬ Overrun s) :
    Avoids (parseLine ptr s (some slot) lexer) .table := by
  have hbody : ∀ {x : Exec (Parsed IRBody)} (n : Word), Avoids x .table →
      Avoids (parsedNode n x) .table := by
    intro x n hx
    refine Avoids.bind hx fun parsed _ => ?_
    exact Avoids.bind (chkParser_avoids parsed) fun _ _ => Avoids.ok
  rw [parseLine]
  refine Avoids.bind (next_avoids h) ?_
  rintro ⟨tok, l⟩ hfirst
  refine Avoids.ite (fun _ => Avoids.ok) fun hend => ?_
  refine Avoids.ite (fun _ => Avoids.ok) fun _ => ?_
  have hl : Terminated l.cursor := by
    refine (next_onLine h _ hfirst).terminated ?_
    rintro rfl
    exact hend rfl
  cases tok with
  | dot => exact hbody _ (parseDir_avoids (ptr 0) hl)
  | ident text => exact hbody _ (parseLabel_avoids (ptr 0) text hl)
  | mnemonic text =>
    refine hbody _ (parseInstr_avoids ptr slot text hl ?_)
    intro toks l' hrun hcursor hover
    refine hcut ⟨_, ?_, hover⟩
    rw [← hcursor]
    exact (run_cons.mpr ⟨l, hfirst, hrun⟩).1
  | _ => exact Avoids.ok

/-! ## The other direction -/

theorem parseBracket_atEnd (ptr : Word) (ope : Operand) {l l' : Lexer}
    (hnext : next l = .ok (.eof, l')) (hcursor : l'.cursor = []) :
    parseBracket ptr ope l = .error .table := by
  rw [parseBracket, hnext]
  show (next l' >>= _) = _
  rw [next_nil hcursor]
  rfl

/-- A cut operand asks for more, or leaves nothing. -/
theorem Cut.operand {tok : Token} {toks : List Token} (h : Cut (tok :: toks)) (ptr : Word)
    (ope : Operand) {l l' : Lexer} (hrun : l.Run toks l') (hcursor : l'.cursor = []) :
    parseInstrOPE ptr ope tok l = .error .table ∨
      ∃ o, parseInstrOPE ptr ope tok l = .ok (.ok (o, l')) := by
  cases h with
  | bracket => exact .inl (parseBracket_atEnd ptr ope (run_single.mp hrun) hcursor)
  | memIdent x => exact .inr ⟨_, parseInstrOPE_iff.mpr ⟨_, hrun, .memIdent x .eof rfl⟩⟩

theorem Cut.head {toks : List Token} (h : Cut toks) : ∃ ts, toks = .openBracket :: ts := by
  cases h with
  | bracket => exact ⟨_, rfl⟩
  | memIdent x => exact ⟨_, rfl⟩

theorem Accepted.head {toks : List Token} (h : Accepted toks) :
    ∃ tok ts, toks = tok :: ts ∧ isEndOfInstr tok = false := by
  obtain ⟨o, h⟩ := h
  cases h <;> exact ⟨_, _, rfl, rfl⟩

theorem parseInstr_first (ptr : Nat → Word) (slot : Slot) {text : List Byte} {op : OpCode}
    (hop : opLookup text = some op) {tok : Token} {l l₁ : Lexer}
    (hfirst : next l = .ok (tok, l₁)) (htok : isEndOfInstr tok = false) :
    parseInstr ptr slot text l = (do
      let (a, lexer) ← parseInstrOPE (ptr 0) slot.a tok l₁ >>= chkParser
      let (tok, lexer) ← next lexer
      if !isEndOfInstr tok && tok ≠ .comma then
        if isSyntaxElement tok then return .error .syntaxError
        else return .error .tooManyOpe
      else if isEndOfInstr tok then return .ok (.instr op a .none, lexer)
      else do
        let (tok, lexer) ← next lexer
        let b ← parseInstrOPE (ptr 1) slot.b tok lexer
        let (b, lexer) ← chkParser b
        lineEnd (.instr op a b) lexer) := by
  rw [parseInstr, hop]
  dsimp only
  rw [hfirst, Except.ok_bind]
  dsimp only
  rw [htok, if_neg (by decide), bind_assoc]

theorem parseInstr_overrun (ptr : Nat → Word) (slot : Slot) {text : List Byte}
    {toks : List Token} (h : Overruns (.mnemonic text :: toks)) {l l' : Lexer}
    (hrun : l.Run toks l') (hcursor : l'.cursor = []) :
    parseInstr ptr slot text l = .error .table := by
  generalize hall : Token.mnemonic text :: toks = all at h
  cases h with
  | @first text' toks' hop hcut =>
    cases hall
    obtain ⟨op, hop⟩ := Option.isSome_iff_exists.mp hop
    obtain ⟨ts, rfl⟩ := hcut.head
    obtain ⟨l₁, hfirst, hrun⟩ := run_cons.mp hrun
    rw [parseInstr_first ptr slot hop hfirst rfl]
    rcases hcut.operand (ptr 0) slot.a hrun hcursor with herr | ⟨a, hok⟩
    · rw [herr]
      rfl
    · rw [hok]
      show (next l' >>= _) = _
      rw [next_nil hcursor]
      rfl
  | @second text' ats toks' hop hacc hcut =>
    cases hall
    obtain ⟨op, hop⟩ := Option.isSome_iff_exists.mp hop
    obtain ⟨tok, ts, rfl, htok⟩ := hacc.head
    obtain ⟨ts', rfl⟩ := hcut.head
    obtain ⟨l₁, hfirst, hrun⟩ := run_cons.mp hrun
    obtain ⟨r, hleft, hright⟩ := Reading.split hrun.1
    obtain ⟨o, hacc⟩ := hacc
    obtain ⟨a, hacc⟩ := hacc.change (ptr 0) slot.a
    have hparse : parseInstrOPE (ptr 0) slot.a tok l₁ = .ok (.ok (a, ⟨r, l₁.line⟩)) :=
      parseInstrOPE_iff.mpr ⟨ts, ⟨hleft, rfl⟩, hacc⟩
    have hrest : Lexer.Run ⟨r, l₁.line⟩ (.comma :: .openBracket :: ts') l' := ⟨hright, hrun.2⟩
    obtain ⟨l₂, l₃, hcomma, hopen, hrest⟩ := run_pair hrest
    rw [parseInstr_first ptr slot hop hfirst htok, hparse]
    show (next ⟨r, l₁.line⟩ >>= _) = _
    rw [hcomma]
    show (next l₂ >>= _) = _
    rw [hopen]
    show (parseInstrOPE (ptr 1) slot.b .openBracket l₃ >>= _) = _
    rcases hcut.operand (ptr 1) slot.b hrest hcursor with herr | ⟨b, hok⟩
    · rw [herr]
      rfl
    · rw [hok]
      show lineEnd _ l' = _
      rw [lineEnd, next_nil hcursor]
      rfl

theorem parseLine_overrun (ptr : Nat → Word) (slot : Slot) (lexer : Lexer) {s : List Byte}
    (h : Overrun s) : parseLine ptr s (some slot) lexer = .error .table := by
  obtain ⟨toks, hread, hover⟩ := h
  have hhead : ∃ text ts, toks = .mnemonic text :: ts := by
    cases hover <;> exact ⟨_, _, rfl⟩
  obtain ⟨text, ts, rfl⟩ := hhead
  have hrun : Lexer.Run { lexer with cursor := s } (.mnemonic text :: ts) ⟨[], lexer.line⟩ :=
    ⟨hread, rfl⟩
  obtain ⟨l, hfirst, hrun⟩ := run_cons.mp hrun
  rw [parseLine, hfirst]
  show (parseInstr ptr slot text l >>= _) = _
  rw [parseInstr_overrun ptr slot hover hrun rfl]
  rfl

/-! ## The rest of the buffer -/

/-- `s'` goes on where the object `s` ends. -/
def Extended (s s' : List Byte) : Prop :=
  (Terminated s ∨ s = []) ∧ ∃ t, s' = s ++ t

theorem extended_follows : Follows (· = .table) Extended Extended := by
  have hstep : ∀ {s s'}, Extended s s' →
      Lockstep (· = .table) (SameToken Extended Extended) (nextToken s) (nextToken s') := by
    rintro s _ ⟨hs, t, rfl⟩
    rcases hs with hs | rfl
    · obtain ⟨status, tok, r, hnext, hr⟩ := nextToken_terminated hs
      have hrest : Extended r (r ++ t) := ⟨hr.imp id fun h => h.2.2, t, rfl⟩
      rw [hnext, nextToken_extend hnext t]
      exact .ok (sameToken hnext (fun _ => hrest) fun _ => hrest)
    · exact .stop rfl
  exact ⟨hstep, fun h => (hstep h).mono fun _ _ hxy => hxy.mono fun _ _ _ => trivial⟩

/-- A line is parsed from its own characters: the lexer is not called behind the
NUL, and what the buffer holds there does not matter. -/
def StaysInside (ptr : Nat → Word) (slot : Slot) (lexer : Lexer) (line : List Byte) : Prop :=
  parseLine ptr (line ++ [nul]) (some slot) lexer ≠ .error .table ∧
    ∀ stale, parseLine ptr (line ++ nul :: stale) (some slot) lexer
      = parseLine ptr (line ++ [nul]) (some slot) lexer

/-- **The parser stays on its line**, unless the EOF is behind `[` or behind `[x]`
in one of the operands of an instruction. -/
theorem inside_iff (ptr : Nat → Word) (slot : Slot) (lexer : Lexer) (line : List Byte) :
    StaysInside ptr slot lexer line ↔ ¬ Overrun (line ++ [nul]) := by
  constructor
  · rintro ⟨hinside, -⟩ hover
    exact hinside (parseLine_overrun ptr slot lexer hover)
  · intro hnot
    have havoid := parseLine_avoids ptr slot lexer (terminated_append line) hnot
    refine ⟨havoid, fun stale => ?_⟩
    have hext : Extended (line ++ [nul]) (line ++ nul :: stale) :=
      ⟨.inl (terminated_append line), stale, by simp⟩
    have hsame := parseLine_follows extended_follows ptr (some slot) hext (Eq.refl lexer.line)
    refine (hsame.eq_of_not_stop ?_).symm
    rintro e rfl
    exact havoid

/-- `PUSH [x]` on the last line, without a newline, behind a longer line: the
operand `b` comes from that line. -/
theorem stale_operand_parsed :
    ¬ StaysInside (fun _ => 0) ⟨.none, .none⟩ ⟨[], 0⟩ (word (literal "PUSH [x]")) ∧
      parseLine (fun _ => 0) (word (literal "PUSH [x]") ++ nul :: literal ", 7\n")
          (some ⟨.none, .none⟩) ⟨[], 0⟩
        = .ok (.ok { line := 1,
                     body := .instr .push (.memIdent (mkIdent 0 [120])) (.value 7) }) := by
  refine ⟨fun h => ?_, rfl⟩
  exact h.1 rfl

end BSVM
