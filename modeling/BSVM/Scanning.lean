/-
# `BSVM.Scanning` — what the lexer has looked at

A function `f` of the lexer scans an object `s` (`ScansAt f s`) if

    rest        the cursor moves forward, and not over a NUL
    extend      what it returns does not depend on what the object holds behind
                the characters that it has looked at
    total       it does not run out of an object with a NUL in it

Each loop does, by induction on the object, and with them `nextToken`, which
moves over a NUL only if there is nothing but blanks in front of it.
-/
import BSVM.Tokens

namespace BSVM

structure ScansAt {α β : Type} (f : List Byte → Exec (α × β × List Byte)) (s : List Byte) :
    Prop where
  rest {x : α} {y : β} {r : List Byte} : f s = .ok (x, y, r) → ∃ w, w ++ r = s ∧ nul ∉ w
  extend {x : α} {y : β} {r : List Byte} :
    f s = .ok (x, y, r) → ∀ t, f (s ++ t) = .ok (x, y, r ++ t)
  total : nul ∈ s → ∃ x y r, f s = .ok (x, y, r)

namespace ScansAt

variable {α β : Type} {f g : List Byte → Exec (α × β × List Byte)}

theorem fault {s : List Byte} (hf : f s = .error .table) (hs : nul ∉ s) : ScansAt f s where
  rest h := by rw [hf] at h; cases h
  extend h := by rw [hf] at h; cases h
  total h := absurd h hs

theorem cons {c : Byte} (hc : c ≠ nul) (hf : ∀ t, f (c :: t) = g t) {s : List Byte}
    (hg : ScansAt g s) : ScansAt f (c :: s) where
  rest h := by
    obtain ⟨w, hw, hnul⟩ := hg.rest ((hf s).symm.trans h)
    refine ⟨c :: w, by rw [← hw]; rfl, ?_⟩
    exact fun h0 => hnul ((List.mem_cons.mp h0).resolve_left hc.symm)
  extend h t := (hf (s ++ t)).trans (hg.extend ((hf s).symm.trans h) t)
  total h := by
    rw [hf s]
    exact hg.total ((List.mem_cons.mp h).resolve_left hc.symm)

theorem stay {c : Byte} {x : α} {y : β} (hf : ∀ t, f (c :: t) = .ok (x, y, c :: t))
    (s : List Byte) : ScansAt f (c :: s) where
  rest h := by
    cases (hf s).symm.trans h
    exact ⟨[], rfl, List.not_mem_nil⟩
  extend h t := by
    cases (hf s).symm.trans h
    exact hf (s ++ t)
  total _ := ⟨x, y, c :: s, hf s⟩

theorem take {c : Byte} {x : α} {y : β} (hc : c ≠ nul) (hf : ∀ t, f (c :: t) = .ok (x, y, t))
    (s : List Byte) : ScansAt f (c :: s) where
  rest h := by
    cases (hf s).symm.trans h
    exact ⟨[c], rfl, fun h0 => hc (List.mem_singleton.mp h0).symm⟩
  extend h t := by
    cases (hf s).symm.trans h
    exact hf (s ++ t)
  total _ := ⟨x, y, s, hf s⟩

theorem congr {s : List Byte} (hf : ∀ t, f (s ++ t) = g (s ++ t)) (hg : ScansAt g s) :
    ScansAt f s := by
  have hs : f s = g s := by
    have h := hf []
    rwa [List.append_nil] at h
  constructor
  case rest => exact fun h => hg.rest (hs.symm.trans h)
  case extend => exact fun h t => (hf t).trans (hg.extend (hs.symm.trans h) t)
  case total =>
    intro h
    rw [hs]
    exact hg.total h

end ScansAt

/-! ## Loops -/

theorem spanChars_ok {p : Byte → Bool} {s text r : List Byte}
    (h : spanChars p s = .ok (text, r)) :
    s = text ++ r ∧ (∀ c ∈ text, p c) ∧ ∃ d s', r = d :: s' ∧ p d = false := by
  induction s generalizing text with
  | nil => cases h
  | cons c s ih =>
    rw [spanChars] at h
    split at h
    case isTrue hc =>
      obtain ⟨⟨text', r'⟩, hs, h⟩ := Except.bind_eq_ok.mp h
      cases h
      obtain ⟨heq, hall, hd⟩ := ih hs
      refine ⟨by rw [heq]; rfl, ?_, hd⟩
      intro d hd
      cases hd with
      | head => exact hc
      | tail _ hd => exact hall d hd
    case isFalse hc =>
      cases h
      exact ⟨rfl, fun d hd => absurd hd List.not_mem_nil, c, s, rfl, by simpa using hc⟩

theorem spanChars_extend {p : Byte → Bool} {s text r : List Byte}
    (h : spanChars p s = .ok (text, r)) (t : List Byte) :
    spanChars p (s ++ t) = .ok (text, r ++ t) := by
  obtain ⟨hs, hall, d, s', hr, hd⟩ := spanChars_ok h
  rw [hs, hr, List.append_assoc]
  exact spanChars_append hall hd (s' ++ t)

theorem spanChars_total {p : Byte → Bool} (hp : p nul = false) {s : List Byte} (h : nul ∈ s) :
    ∃ text r, spanChars p s = .ok (text, r) ∧ nul ∈ r := by
  induction s with
  | nil => exact absurd h List.not_mem_nil
  | cons c s ih =>
    rw [spanChars]
    by_cases hc : p c
    · have hs : nul ∈ s := by
        cases h with
        | head => rw [hp] at hc; cases hc
        | tail _ h => exact h
      obtain ⟨text, r, hspan, hr⟩ := ih hs
      rw [if_pos hc, hspan]
      exact ⟨c :: text, r, rfl, hr⟩
    · rw [if_neg hc]
      exact ⟨[], c :: s, rfl, h⟩

theorem not_isdigit_nul : ¬ isdigit nul := by decide

theorem scans_digits (tooLarge : Word → Bool) (v : Word) (len : Nat) (s : List Byte) :
    ScansAt (scanDigits tooLarge v len) s := by
  induction s generalizing v len with
  | nil => exact .fault rfl List.not_mem_nil
  | cons c s ih =>
    by_cases hc : isdigit c
    · by_cases hv : tooLarge v
      · exact .stay (fun t => by rw [scanDigits, if_pos hc, if_pos hv]) s
      · refine .cons ?_ (fun t => by rw [scanDigits, if_pos hc, if_neg hv]) (ih _ _)
        intro h0
        rw [h0] at hc
        exact not_isdigit_nul hc
    · exact .stay (fun t => by rw [scanDigits, if_neg hc]) s

/-- The buffer of a string, after `realloc`. -/
def grown (str : List Byte) (strSize : Nat) : Nat :=
  if str.length = strSize then 2 * strSize else strSize

/-- There is a buffer, and what has been stored is in it. -/
def Buffered (str : List Byte) (strSize : Nat) : Prop :=
  str.length ≤ strSize ∧ 0 < strSize

theorem lt_grown {str : List Byte} {strSize : Nat} (h : Buffered str strSize) :
    str.length < grown str strSize := by
  obtain ⟨hle, hpos⟩ := h
  rw [grown]
  split <;> omega

theorem Buffered.store {str : List Byte} {strSize : Nat} (h : Buffered str strSize) (c : Byte) :
    Buffered (str ++ [c]) (grown str strSize) := by
  have hlt := lt_grown h
  refine ⟨?_, by omega⟩
  rw [List.length_append, List.length_singleton]
  exact hlt

theorem scanString_char {str : List Byte} {strSize : Nat} (h : Buffered str strSize) {c : Byte}
    (hnul : c ≠ nul) (hquote : c ≠ chr '"') (hback : c ≠ chr '\\') (s : List Byte) :
    scanString str strSize (c :: s) = scanString (str ++ [c]) (grown str strSize) s := by
  have hroom := lt_grown h
  rw [grown] at hroom
  simp only [scanString, if_neg hnul, if_neg hquote, if_neg hback, storeChar, if_pos hroom,
    Except.ok_bind, grown]

theorem scanString_escape {str : List Byte} {strSize : Nat} (h : Buffered str strSize) (e : Byte)
    (s : List Byte) :
    scanString str strSize (chr '\\' :: e :: s) =
      if escapeSequence e = EOF then .ok (.unknownEscapeSequence, .string [], e :: s)
      else scanString (str ++ [escapeSequence e]) (grown str strSize) s := by
  have hroom := lt_grown h
  rw [grown] at hroom
  have hnul : chr '\\' ≠ nul := by decide
  have hquote : chr '\\' ≠ chr '"' := by decide
  rw [scanString, if_neg hnul, if_neg hquote]
  simp only [storeChar, if_pos hroom, Except.ok_bind, grown]
  rfl

theorem escape_nul : escapeSequence nul = EOF := by decide

/-- What the loop over a string does with one character, or two. -/
inductive StringStep (str : List Byte) (strSize : Nat) : List Byte → Prop
  | nil : scanString str strSize [] = .error .table → StringStep str strSize []
  | quote (s : List Byte) :
      (∀ t, scanString str strSize (chr '"' :: t) = .ok (.ok, .string str, t)) →
      StringStep str strSize (chr '"' :: s)
  | nul (s : List Byte) :
      (∀ t, scanString str strSize (nul :: t) = .ok (.missingQuote, .string [], nul :: t)) →
      StringStep str strSize (nul :: s)
  | cut : scanString str strSize [chr '\\'] = .error .table → StringStep str strSize [chr '\\']
  | unknown (e : Byte) (s : List Byte) :
      (∀ t, scanString str strSize (chr '\\' :: e :: t)
        = .ok (.unknownEscapeSequence, .string [], e :: t)) →
      StringStep str strSize (chr '\\' :: e :: s)
  | escape (e : Byte) (s : List Byte) : e ≠ nul →
      (∀ t, scanString str strSize (chr '\\' :: e :: t)
        = scanString (str ++ [escapeSequence e]) (grown str strSize) t) →
      StringStep str strSize (chr '\\' :: e :: s)
  | char (c : Byte) (s : List Byte) : c ≠ nul → c ≠ chr '"' → c ≠ chr '\\' →
      (∀ t, scanString str strSize (c :: t) = scanString (str ++ [c]) (grown str strSize) t) →
      StringStep str strSize (c :: s)

theorem stringStep {str : List Byte} {strSize : Nat} (h : Buffered str strSize) (s : List Byte) :
    StringStep str strSize s := by
  cases s with
  | nil => exact .nil rfl
  | cons c s =>
    by_cases hnul : c = nul
    · subst hnul
      exact .nul s fun t => by rw [scanString, if_pos rfl]
    by_cases hquote : c = chr '"'
    · subst hquote
      exact .quote s fun t => by rw [scanString, if_neg hnul, if_pos rfl]
    by_cases hback : c = chr '\\'
    · subst hback
      cases s with
      | nil => exact .cut rfl
      | cons e s =>
        by_cases he : escapeSequence e = EOF
        · exact .unknown e s fun t => by rw [scanString_escape h, if_pos he]
        · refine .escape e s ?_ fun t => by rw [scanString_escape h, if_neg he]
          intro h0
          rw [h0] at he
          exact he escape_nul
    · exact .char c s hnul hquote hback (scanString_char h hnul hquote hback)

theorem scans_string {n : Nat} {s : List Byte} (hn : s.length ≤ n) {str : List Byte}
    {strSize : Nat} (h : Buffered str strSize) : ScansAt (scanString str strSize) s := by
  induction n generalizing s str strSize with
  | zero =>
    rw [List.eq_nil_of_length_eq_zero (Nat.le_zero.mp hn)]
    exact .fault rfl List.not_mem_nil
  | succ n ih =>
    cases stringStep h s with
    | nil hs => exact .fault hs List.not_mem_nil
    | quote s hs => exact .take (by decide) hs s
    | nul s hs => exact .stay hs s
    | cut hs => exact .fault hs (by decide)
    | unknown e s hs =>
      have he : ScansAt (scanString str strSize ∘ List.cons (chr '\\')) (e :: s) := .stay hs s
      exact .cons (by decide) (fun t => rfl) he
    | escape e s he hs =>
      have hlen : s.length ≤ n := by
        simp only [List.length_cons] at hn
        omega
      have hrest : ScansAt (scanString str strSize ∘ List.cons (chr '\\')) (e :: s) :=
        .cons he hs (ih hlen (h.store _))
      exact .cons (by decide) (fun t => rfl) hrest
    | char c s hc _ _ hs =>
      have hlen : s.length ≤ n := by
        simp only [List.length_cons] at hn
        omega
      exact .cons hc hs (ih hlen (h.store c))

/-! ## `lexer_next_token` -/

/-- The character under the cursor, and what is behind it. -/
def atCursor (f : Byte → List Byte → Exec Lexed) : List Byte → Exec Lexed
  | [] => .error .table
  | c :: s => f c s

/-- A scan whose result is looked at afterwards. -/
theorem ScansAt.result {α β γ δ : Type} {f : List Byte → Exec (α × β × List Byte)}
    {g : List Byte → Exec (γ × δ × List Byte)} {F : α → β → γ} {G : α → β → δ}
    (hg : ∀ t, g t = f t >>= fun x => .ok (F x.1 x.2.1, G x.1 x.2.1, x.2.2)) {s : List Byte}
    (hf : ScansAt f s) : ScansAt g s where
  rest h := by
    rw [hg s] at h
    obtain ⟨⟨x, y, r⟩, hs, h⟩ := Except.bind_eq_ok.mp h
    cases h
    exact hf.rest hs
  extend h t := by
    rw [hg s] at h
    obtain ⟨⟨x, y, r⟩, hs, h⟩ := Except.bind_eq_ok.mp h
    cases h
    rw [hg, hf.extend hs t]
    rfl
  total h := by
    obtain ⟨x, y, r, hs⟩ := hf.total h
    rw [hg s, hs]
    exact ⟨_, _, _, rfl⟩

theorem scans_span {p : Byte → Bool} (hp : p nul = false) {F : List Byte → List Byte → Token}
    (hF : ∀ text d r t, F text (d :: r ++ t) = F text (d :: r)) (s : List Byte) :
    ScansAt (fun s => spanChars p s >>= fun x => .ok (LexerError.ok, F x.1 x.2, x.2)) s where
  rest h := by
    obtain ⟨⟨text, cursor⟩, hs, h⟩ := Except.bind_eq_ok.mp h
    obtain ⟨heq, hall, -⟩ := spanChars_ok hs
    cases h
    refine ⟨text, heq.symm, fun h0 => ?_⟩
    have hnul := hall nul h0
    rw [hp] at hnul
    cases hnul
  extend h t := by
    obtain ⟨⟨text, cursor⟩, hs, h⟩ := Except.bind_eq_ok.mp h
    obtain ⟨-, -, d, s', hr, -⟩ := spanChars_ok hs
    have hext := spanChars_extend hs t
    cases h
    subst hr
    simp only [hext, Except.ok_bind, hF]
  total h := by
    obtain ⟨text, cursor, hs, -⟩ := spanChars_total hp h
    simp only [hs]
    exact ⟨_, _, _, rfl⟩

/-- The token of a number, and its status. -/
def numeral : Option Word → LexerError × Token
  | none => (.invalidToken, .number 0)
  | some value => (.ok, .number value)

theorem lexWord_digit {c : Byte} (hc : isdigit c) (s : List Byte) :
    lexWord c s = scanDigits valueTooLarge (digit c) 0 s >>=
      fun x => .ok ((numeral x.1).1, (numeral x.1).2, x.2.2) := by
  rw [lexWord, if_pos hc]
  congr 1
  funext x
  obtain ⟨value, len, cursor⟩ := x
  cases value <;> rfl

theorem lexWord_quote : lexWord (chr '"') = scanString [] 32 := by
  funext s
  rw [lexWord, if_neg (by decide), if_pos rfl]

theorem lexWord_lower {c : Byte} (hc : islower c) :
    lexWord c = fun s => spanChars isIdent s >>= fun x => .ok (.ok, .ident (c :: x.1), x.2) := by
  have hdigit : ¬ isdigit c := by rw [isdigit_of_islower c hc]; decide
  have hquote : c ≠ chr '"' := quote_of_isIdent c (isIdent_of_islower c hc)
  funext s
  rw [lexWord, if_neg hdigit, if_neg hquote, if_pos hc]
  rfl

theorem isIdent_nul : isIdent nul = false := by decide

theorem isupper_nul : isupper nul = false := by decide

theorem inComment_nul : inComment nul = false := by decide

theorem isBlank_nul : isBlank nul = false := by decide

theorem ne_nul_of_isIdent (c : Byte) (h : isIdent c) : c ≠ nul := ne_of_class h isIdent_nul

/-- From `//nombre` on, a character is consumed or refused. -/
theorem lexWord_scans (c : Byte) (s : List Byte) :
    c ≠ nul ∧ ScansAt (lexWord c) s ∨ ∀ t, lexWord c t = .ok (.invalidToken, .eof, c :: t) := by
  by_cases hdigit : isdigit c
  · have hrest : ScansAt (lexWord c) s :=
      (scans_digits _ _ _ s).result (F := fun v _ => (numeral v).1)
        (G := fun v _ => (numeral v).2) (lexWord_digit hdigit)
    exact .inl ⟨ne_nul_of_isIdent c (isIdent_of_isdigit c hdigit), hrest⟩
  by_cases hquote : c = chr '"'
  · subst hquote
    have hrest : ScansAt (lexWord (chr '"')) s := by
      rw [lexWord_quote]
      exact scans_string (Nat.le_refl _) ⟨Nat.zero_le _, by decide⟩
    exact .inl ⟨by decide, hrest⟩
  by_cases hlower : islower c
  · have hrest : ScansAt (lexWord c) s := by
      rw [lexWord_lower hlower]
      exact scans_span isIdent_nul (F := fun text _ => .ident (c :: text))
        (fun _ _ _ _ => rfl) s
    exact .inl ⟨ne_nul_of_isIdent c (isIdent_of_islower c hlower), hrest⟩
  by_cases hupper : isupper c
  · have hrest : ScansAt (lexWord c) s := by
      rw [funext (lexWord_upper hupper)]
      exact scans_span isupper_nul (F := fun text _ => .mnemonic (c :: text))
        (fun _ _ _ _ => rfl) s
    exact .inl ⟨ne_nul_of_isIdent c (isIdent_of_isupper c hupper), hrest⟩
  · exact .inr fun t => by
      rw [lexWord, if_neg hdigit, if_neg hquote, if_neg hlower, if_neg hupper]

theorem scans_word (s : List Byte) : ScansAt (atCursor lexWord) s := by
  cases s with
  | nil => exact .fault rfl List.not_mem_nil
  | cons c s =>
    rcases lexWord_scans c s with ⟨hc, hrest⟩ | hrefused
    · exact .cons hc (fun t => rfl) hrest
    · exact .stay hrefused s

/-- A register, if there is a digit behind `R`. -/
theorem lexRegister_R (s : List Byte) : lexRegister (chr 'R') s =
    scanDigits regTooLarge 0 0 s >>= fun x => match x.1 with
      | none => .ok (.invalidToken, .register 0, x.2.2)
      | some reg => if 0 < x.2.1 then .ok (.ok, .register reg, x.2.2) else lexWord (chr 'R') s := by
  rw [lexRegister, if_pos rfl]
  rfl

theorem scans_register (s : List Byte) : ScansAt (atCursor lexRegister) s := by
  cases s with
  | nil => exact .fault rfl List.not_mem_nil
  | cons c s =>
    by_cases hR : c = chr 'R'
    · subst hR
      have hdigits := scans_digits regTooLarge 0 0 s
      have hword := scans_word (chr 'R' :: s)
      constructor
      case rest =>
        intro x y r h
        rw [atCursor, lexRegister_R] at h
        obtain ⟨⟨value, len, cursor⟩, hs, h⟩ := Except.bind_eq_ok.mp h
        have hrest : ∃ w, w ++ cursor = chr 'R' :: s ∧ nul ∉ w := by
          obtain ⟨w, hw, hnul⟩ := hdigits.rest hs
          refine ⟨chr 'R' :: w, by rw [← hw]; rfl, ?_⟩
          exact fun h0 => hnul ((List.mem_cons.mp h0).resolve_left (by decide))
        cases value with
        | none =>
          cases h
          exact hrest
        | some reg =>
          simp only at h
          split at h
          · cases h
            exact hrest
          · exact hword.rest h
      case extend =>
        intro x y r h t
        rw [atCursor, lexRegister_R] at h
        obtain ⟨⟨value, len, cursor⟩, hs, h⟩ := Except.bind_eq_ok.mp h
        rw [List.cons_append, atCursor, lexRegister_R, hdigits.extend hs t, Except.ok_bind]
        cases value with
        | none =>
          cases h
          rfl
        | some reg =>
          simp only at h ⊢
          split at h
          case isTrue hlen =>
            cases h
            rw [if_pos hlen]
          case isFalse hlen =>
            rw [if_neg hlen]
            exact hword.extend h t
      case total =>
        intro hnul
        have hs : nul ∈ s := (List.mem_cons.mp hnul).resolve_left (by decide)
        obtain ⟨value, len, cursor, hscan⟩ := hdigits.total hs
        rw [atCursor, lexRegister_R, hscan, Except.ok_bind]
        cases value with
        | none => exact ⟨_, _, _, rfl⟩
        | some reg =>
          simp only
          split
          · exact ⟨_, _, _, rfl⟩
          · exact hword.total hnul
    · refine .congr (fun t => ?_) (scans_word (c :: s))
      show lexRegister c (s ++ t) = lexWord c (s ++ t)
      rw [lexRegister, if_neg hR]

theorem startsComment_ok {c : Byte} {s : List Byte} {b : Bool} (h : startsComment c s = .ok b)
    (t : List Byte) : startsComment c (s ++ t) = .ok b := by
  cases s with
  | nil =>
    rw [startsComment] at h
    split at h
    case isTrue => cases h
    case isFalse hc =>
      cases h
      cases t <;> simp [startsComment, hc]
  | cons d s => exact h

theorem startsComment_total {c : Byte} {s : List Byte} (h : nul ∈ c :: s) :
    ∃ b, startsComment c s = .ok b := by
  cases s with
  | nil =>
    have hc : c = nul := (List.mem_singleton.mp h).symm
    subst hc
    exact ⟨false, rfl⟩
  | cons d s => exact ⟨_, rfl⟩

theorem startsComment_true {c : Byte} {s : List Byte} (h : startsComment c s = .ok true) :
    c = chr '/' ∧ ∃ s', s = chr '/' :: s' := by
  cases s with
  | nil =>
    rw [startsComment] at h
    split at h <;> cases h
  | cons d s =>
    simp only [startsComment, Except.ok.injEq, Bool.and_eq_true, decide_eq_true_eq] at h
    exact ⟨h.1, s, by rw [h.2]⟩

/-- The end of the line, behind a comment. -/
def commentEnd (cursor : List Byte) : Token :=
  if cursor.head? = some (chr '\n') then .newline else .eof

theorem lexComment_true (s : List Byte) : lexComment (chr '/') (chr '/' :: s) =
    spanChars inComment s >>= fun x => .ok (.ok, commentEnd x.2, x.2) :=
  rfl

theorem lexComment_false {c : Byte} {s : List Byte} (h : startsComment c s = .ok false) :
    lexComment c s = lexRegister c s := by
  rw [lexComment, h]
  rfl

theorem scans_comment (s : List Byte) : ScansAt (atCursor lexComment) s := by
  cases s with
  | nil => exact .fault rfl List.not_mem_nil
  | cons c s =>
    cases hstart : startsComment c s with
    | error e =>
      refine .fault ?_ fun h => ?_
      · rw [atCursor, lexComment, hstart]
        cases s with
        | nil =>
          rw [startsComment] at hstart
          split at hstart <;> cases hstart
          rfl
        | cons d s => cases hstart
      · obtain ⟨b, hb⟩ := startsComment_total h
        cases hstart.symm.trans hb
    | ok b =>
      cases b with
      | true =>
        obtain ⟨rfl, s', rfl⟩ := startsComment_true hstart
        have hrest : ScansAt (lexComment (chr '/') ∘ List.cons (chr '/')) s' :=
          scans_span inComment_nul (F := fun _ cursor => commentEnd cursor)
            (fun _ _ _ _ => rfl) s'
        exact .cons (by decide) (fun t => rfl) (.cons (by decide) (fun t => rfl) hrest)
      | false =>
        refine .congr (fun t => ?_) (scans_register (c :: s))
        exact lexComment_false (startsComment_ok hstart t)

theorem scans_nextToken (s : List Byte) :
    ScansAt nextToken s ∨ ∃ blanks t, (∀ b ∈ blanks, isBlank b) ∧ s = blanks ++ nul :: t := by
  induction s with
  | nil => exact .inl (.fault rfl List.not_mem_nil)
  | cons c s ih =>
    by_cases hblank : isBlank c
    · rcases ih with ih | ⟨blanks, t, hblanks, rfl⟩
      · refine .inl (.cons ?_ (nextToken_blank hblank) ih)
        intro h0
        rw [h0, isBlank_nul] at hblank
        cases hblank
      · exact .inr ⟨c :: blanks, t, List.forall_mem_cons.mpr ⟨hblank, hblanks⟩, rfl⟩
    · have hblank : isBlank c = false := by simpa using hblank
      by_cases hnul : c = nul
      · exact .inr ⟨[], s, fun b hb => absurd hb List.not_mem_nil, by rw [hnul]; rfl⟩
      · left
        cases hpunct : punctuation c with
        | some token => exact .take hnul (reads_punctuation hpunct) s
        | none =>
          refine .congr (fun t => ?_) (scans_comment (c :: s))
          rw [List.cons_append, nextToken_cons hblank, hpunct]
          rfl

theorem reads_nul {blanks : List Byte} (h : ∀ b ∈ blanks, isBlank b) (t : List Byte) :
    Reads (blanks ++ nul :: t) .eof t := by
  rw [Reads, nextToken_blanks h]
  exact reads_punctuation (by decide) t

theorem nextToken_extend {s r : List Byte} {status : LexerError} {tok : Token}
    (h : nextToken s = .ok (status, tok, r)) (t : List Byte) :
    nextToken (s ++ t) = .ok (status, tok, r ++ t) := by
  rcases scans_nextToken s with hs | ⟨blanks, s', hblanks, rfl⟩
  · exact hs.extend h t
  · cases (reads_nul hblanks s').symm.trans h
    rw [List.append_assoc]
    exact reads_nul hblanks _

theorem nextToken_total {s : List Byte} (h : nul ∈ s) :
    ∃ status tok r, nextToken s = .ok (status, tok, r) := by
  rcases scans_nextToken s with hs | ⟨blanks, s', hblanks, rfl⟩
  · exact hs.total h
  · exact ⟨_, _, _, reads_nul hblanks s'⟩

theorem nextToken_rest {s r : List Byte} {status : LexerError} {tok : Token}
    (h : nextToken s = .ok (status, tok, r)) :
    (∃ w, w ++ r = s ∧ nul ∉ w) ∨ (status = .ok ∧ tok = .eof ∧ ∃ w, w ++ nul :: r = s) := by
  rcases scans_nextToken s with hs | ⟨blanks, s', hblanks, rfl⟩
  · exact .inl (hs.rest h)
  · cases (reads_nul hblanks s').symm.trans h
    exact .inr ⟨rfl, rfl, blanks, rfl⟩

/-! ## Errors

A status other than `LEXER_OK` comes with one of four tokens, and a number that
is too large leaves a digit under the cursor. -/

/-- The token of an error, and the cursor behind it. -/
inductive Refused : Token → List Byte → Prop
  | string (r : List Byte) : Refused (.string []) r
  | register (r : List Byte) : Refused (.register 0) r
  | other (r : List Byte) : Refused .eof r
  | number (d : Byte) (r : List Byte) : isdigit d → Refused (.number 0) (d :: r)

/-- An error comes with the token of one. -/
def Regular (lexed : Lexed) : Prop :=
  lexed.1 ≠ .ok → Refused lexed.2.1 lexed.2.2

theorem regular_ok (tok : Token) (r : List Byte) : Regular (.ok, tok, r) :=
  fun h => absurd rfl h

theorem scanDigits_none {tooLarge : Word → Bool} {v : Word} {len : Nat} {s : List Byte}
    {len' : Nat} {r : List Byte} (h : scanDigits tooLarge v len s = .ok (none, len', r)) :
    ∃ d r', r = d :: r' ∧ isdigit d := by
  induction s generalizing v len with
  | nil => cases h
  | cons c s ih =>
    rw [scanDigits] at h
    split at h
    case isTrue hc =>
      split at h
      · cases h
        exact ⟨c, s, rfl, hc⟩
      · exact ih h
    case isFalse => cases h

theorem regular_string {n : Nat} {s : List Byte} (hn : s.length ≤ n) {str : List Byte}
    {strSize : Nat} (h : Buffered str strSize) : Returns (scanString str strSize s) Regular := by
  induction n generalizing s str strSize with
  | zero =>
    rw [List.eq_nil_of_length_eq_zero (Nat.le_zero.mp hn)]
    exact Returns.error_iff.mpr trivial
  | succ n ih =>
    cases stringStep h s with
    | nil hs => exact Returns.error_iff.mpr trivial
    | quote s hs =>
      rw [hs s]
      exact Returns.ok_iff.mpr (regular_ok _ _)
    | nul s hs =>
      rw [hs s]
      exact Returns.ok_iff.mpr fun _ => .string _
    | cut hs =>
      rw [hs]
      exact Returns.error_iff.mpr trivial
    | unknown e s hs =>
      rw [hs s]
      exact Returns.ok_iff.mpr fun _ => .string _
    | escape e s he hs =>
      rw [hs s]
      simp only [List.length_cons] at hn
      exact ih (by omega) (h.store _)
    | char c s hc _ _ hs =>
      rw [hs s]
      simp only [List.length_cons] at hn
      exact ih (by omega) (h.store c)

theorem regular_word (c : Byte) (s : List Byte) : Returns (lexWord c s) Regular := by
  by_cases hdigit : isdigit c
  · rw [lexWord_digit hdigit, Returns.bind_iff]
    rintro ⟨value, len, cursor⟩ hs
    cases value with
    | none =>
      obtain ⟨d, r, hr, hd⟩ := scanDigits_none hs
      subst hr
      exact Returns.ok_iff.mpr fun _ => .number d r hd
    | some value => exact Returns.ok_iff.mpr (regular_ok _ _)
  by_cases hquote : c = chr '"'
  · subst hquote
    rw [lexWord_quote]
    exact regular_string (Nat.le_refl _) ⟨Nat.zero_le _, by decide⟩
  by_cases hlower : islower c
  · rw [lexWord_lower hlower]
    exact Returns.bind fun _ => Returns.ok_iff.mpr (regular_ok _ _)
  by_cases hupper : isupper c
  · rw [lexWord_upper hupper]
    exact Returns.bind fun _ => Returns.ok_iff.mpr (regular_ok _ _)
  · rw [lexWord, if_neg hdigit, if_neg hquote, if_neg hlower, if_neg hupper]
    exact Returns.ok_iff.mpr fun _ => .other _

theorem regular_register (c : Byte) (s : List Byte) : Returns (lexRegister c s) Regular := by
  by_cases hR : c = chr 'R'
  · subst hR
    rw [lexRegister_R, Returns.bind_iff]
    rintro ⟨value, len, cursor⟩ _
    cases value with
    | none => exact Returns.ok_iff.mpr fun _ => .register _
    | some reg =>
      exact Returns.ite_iff.mpr ⟨fun _ => Returns.ok_iff.mpr (regular_ok _ _),
        fun _ => regular_word _ s⟩
  · rw [lexRegister, if_neg hR]
    exact regular_word c s

theorem regular_nextToken (s : List Byte) : Returns (nextToken s) Regular := by
  induction s with
  | nil => exact Returns.error_iff.mpr trivial
  | cons c s ih =>
    by_cases hblank : isBlank c
    · rw [nextToken_blank hblank]
      exact ih
    · have hblank : isBlank c = false := by simpa using hblank
      rw [nextToken_cons hblank]
      cases punctuation c with
      | some token => exact Returns.ok_iff.mpr (regular_ok _ _)
      | none =>
        cases hstart : startsComment c s with
        | error e =>
          simp only [lexComment, hstart]
          exact Returns.error_iff.mpr trivial
        | ok b =>
          cases b with
          | true =>
            obtain ⟨rfl, s', rfl⟩ := startsComment_true hstart
            simp only [lexComment_true]
            exact Returns.bind fun _ => Returns.ok_iff.mpr (regular_ok _ _)
          | false =>
            simp only [lexComment_false hstart]
            exact regular_register c s

/-- A token that comes with an error only if it is a number is read. -/
theorem reads_of_nextToken {s r : List Byte} {status : LexerError} {tok : Token}
    (h : nextToken s = .ok (status, tok, r)) (htok : ∀ r', ¬ Refused tok r') :
    Reads s tok r := by
  have hstatus : status = .ok := by
    by_contra hne
    exact htok r (regular_nextToken s _ h hne)
  rw [hstatus] at h
  exact h

/-- Behind a number that is too large the next token is a number. -/
theorem nextToken_digit {d : Byte} (hd : isdigit d) {s : List Byte} {status : LexerError}
    {tok : Token} {r : List Byte} (h : nextToken (d :: s) = .ok (status, tok, r)) :
    ∃ n, tok = .number n := by
  rw [nextToken_ident (isIdent_of_isdigit d hd), lexRegister, if_neg (not_R_of_isdigit d hd),
    lexWord_digit hd] at h
  obtain ⟨⟨value, len, cursor⟩, -, h⟩ := Except.bind_eq_ok.mp h
  cases value <;> cases h <;> exact ⟨_, rfl⟩

end BSVM
