/-
# `BSVM.Tokens` — reading tokens back from their text

`Token.text` is how a token is written, and `Token.Ends` says which characters
may stand behind it: `R1` followed by a digit is another register.

    spanChars_append    a loop stops at the first character it is not made for
    scanDigits_append   the digits of a number have its value
    scanString_append   a string without quotes and backslashes is itself
    reads_text          a token is read back, blanks in front of it or not

`Reading` is a run of the lexer that meets no error; a run can be taken apart
in one way only.
-/
import BSVM.Parser

namespace BSVM

/-! ## Text -/

/-- A number in decimal. -/
def digits (n : Nat) : List Byte :=
  (Nat.toDigits 10 n).map chr

def Token.text : Token → List Byte
  | .openBracket => [chr '[']
  | .closeBracket => [chr ']']
  | .comma => [chr ',']
  | .dot => [chr '.']
  | .colon => [chr ':']
  | .string text => chr '"' :: text ++ [chr '"']
  | .number n => digits n.toNat
  | .ident text => text
  | .register r => chr 'R' :: digits r.toNat
  | .mnemonic text => text
  | .plus => [chr '+']
  | .minus => [chr '-']
  | .newline => [chr '\n']
  | .eof => [nul]

/-- `[a-z][A-Za-z0-9_]*`. -/
def IsName : List Byte → Prop
  | [] => False
  | c :: s => islower c ∧ ∀ d ∈ s, isIdent d

/-- What a string may hold so that it is written as it is. -/
def Plain (c : Byte) : Prop :=
  c ≠ nul ∧ c ≠ chr '"' ∧ c ≠ chr '\\'

/-- The tokens that can be written. -/
def Token.Sound : Token → Prop
  | .string text => ∀ c ∈ text, Plain c
  | .number n => n.toNat < 2 ^ 63
  | .ident text => IsName text
  | .register r => r.toNat < 2 ^ 63
  | .mnemonic text => text ≠ [] ∧ ∀ c ∈ text, isupper c
  | _ => True

/-- `c` does not belong to the token in front of it. -/
def Token.Ends : Token → Byte → Prop
  | .number _, c => isdigit c = false
  | .ident _, c => isIdent c = false
  | .register _, c => isdigit c = false
  | .mnemonic text, c => isupper c = false ∧ (text = [chr 'R'] → isdigit c = false)
  | _, _ => True

/-! ## Characters -/

theorem isIdent_of_isdigit (c : Byte) (h : isdigit c) : isIdent c := by
  rw [isIdent, isalnum, h]
  rfl

theorem isIdent_of_isupper (c : Byte) (h : isupper c) : isIdent c := by
  rw [isIdent, isalnum, h, Bool.or_true]
  rfl

theorem isIdent_of_islower (c : Byte) (h : islower c) : isIdent c := by
  rw [isIdent, isalnum, h, Bool.or_true]
  rfl

/-- A class tells its characters from the others. -/
theorem ne_of_class {p : Byte → Bool} {c d : Byte} (h : p c) (hd : p d = false) : c ≠ d := by
  rintro rfl
  rw [hd] at h
  cases h

theorem slash_of_isIdent (c : Byte) (h : isIdent c) : c ≠ chr '/' := ne_of_class h rfl

theorem quote_of_isIdent (c : Byte) (h : isIdent c) : c ≠ chr '"' := ne_of_class h rfl

theorem not_R_of_isdigit (c : Byte) (h : isdigit c) : c ≠ chr 'R' := ne_of_class h rfl

theorem not_R_of_islower (c : Byte) (h : islower c) : c ≠ chr 'R' := ne_of_class h rfl

theorem isBlank_of_isIdent (c : Byte) (h : isIdent c) : isBlank c = false := by
  rw [isBlank, Bool.or_eq_false_iff]
  exact ⟨decide_eq_false (ne_of_class h rfl), decide_eq_false (ne_of_class h rfl)⟩

theorem punctuation_of_isIdent (c : Byte) (h : isIdent c) : punctuation c = none := by
  have hne : ∀ d, isIdent d = false → c ≠ d := fun d hd => ne_of_class h hd
  rw [punctuation, if_neg (hne _ rfl), if_neg (hne _ rfl), if_neg (hne _ rfl),
    if_neg (hne _ rfl), if_neg (hne _ rfl), if_neg (hne _ rfl), if_neg (hne _ rfl),
    if_neg (hne _ rfl), if_neg (hne _ rfl)]

/-- The three ranges are disjoint. -/
theorem between_false {a b c : Nat} (h : c < a ∨ b < c) :
    (decide (a ≤ c) && decide (c ≤ b)) = false := by
  simp only [Bool.and_eq_false_iff, decide_eq_false_iff_not]
  omega

theorem between {a b c : Nat} (h : (decide (a ≤ c) && decide (c ≤ b)) = true) :
    a ≤ c ∧ c ≤ b := by
  simpa using h

theorem isdigit_of_islower (c : Byte) (h : islower c) : isdigit c = false :=
  between_false (.inr (Nat.lt_of_lt_of_le (by decide) (between h).1))

theorem isdigit_of_isupper (c : Byte) (h : isupper c) : isdigit c = false :=
  between_false (.inr (Nat.lt_of_lt_of_le (by decide) (between h).1))

theorem islower_of_isupper (c : Byte) (h : isupper c) : islower c = false :=
  between_false (.inl (Nat.lt_of_le_of_lt (between h).2 (by decide)))

/-! ## Loops -/

theorem spanChars_append {p : Byte → Bool} {text : List Byte} (h : ∀ c ∈ text, p c)
    {c : Byte} (hc : p c = false) (s : List Byte) :
    spanChars p (text ++ c :: s) = .ok (text, c :: s) := by
  induction text with
  | nil => simp [spanChars, hc]
  | cons d text ih =>
    have hd : p d := h d (List.mem_cons_self ..)
    have hrest := ih fun c hc => h c (List.mem_cons_of_mem _ hc)
    simp only [List.cons_append, spanChars, hd, if_true, hrest]
    rfl

theorem digit_ofNat : ∀ n < 10, isdigit (BitVec.ofNat 8 (48 + n)) ∧
    digit (BitVec.ofNat 8 (48 + n)) = BitVec.ofNat 64 n := by decide

theorem digit_chr {c : Char} (h : c.isDigit) :
    isdigit (chr c) ∧ digit (chr c) = BitVec.ofNat 64 (c.toNat - 48) := by
  have hc : 48 ≤ c.toNat ∧ c.toNat ≤ 57 := Char.isDigit_iff_toNat.mp h
  obtain ⟨n, hn⟩ : ∃ n, c.toNat = 48 + n := ⟨c.toNat - 48, by omega⟩
  have hn10 : n < 10 := by omega
  rw [chr, hn, Nat.add_sub_cancel_left]
  exact digit_ofNat n hn10

theorem le_ofDigitChars (cs : List Char) (v : Nat) : v ≤ Nat.ofDigitChars 10 cs v := by
  rw [Nat.ofDigitChars_eq_ofDigitChars_zero]
  have h : 1 * v ≤ 10 ^ cs.length * v := Nat.mul_le_mul_right v (Nat.one_le_pow _ _ (by decide))
  omega

theorem scanDigits_append {tooLarge : Word → Bool}
    (hsmall : ∀ w : Word, w.toNat * 10 < 2 ^ 63 → tooLarge w = false)
    {cs : List Char} (hcs : ∀ d ∈ cs, d.isDigit) {c : Byte} (hc : isdigit c = false)
    (s : List Byte) {v : Nat} (hv : Nat.ofDigitChars 10 cs v < 2 ^ 63) (len : Nat) :
    scanDigits tooLarge (BitVec.ofNat 64 v) len (cs.map chr ++ c :: s)
      = .ok (some (BitVec.ofNat 64 (Nat.ofDigitChars 10 cs v)), len + cs.length, c :: s) := by
  induction cs generalizing v len with
  | nil => simp [scanDigits, hc]
  | cons d cs ih =>
    obtain ⟨hd, hval⟩ := digit_chr (hcs d (List.mem_cons_self ..))
    have h0 : '0'.toNat = 48 := rfl
    rw [Nat.ofDigitChars_cons, h0] at hv ⊢
    have hle := le_ofDigitChars cs (10 * v + (d.toNat - 48))
    have hlarge : tooLarge (BitVec.ofNat 64 v) = false := by
      apply hsmall
      rw [BitVec.toNat_ofNat, Nat.mod_eq_of_lt] <;> omega
    have hnext : BitVec.ofNat 64 v * 10 + digit (chr d)
        = BitVec.ofNat 64 (10 * v + (d.toNat - 48)) := by
      rw [hval, BitVec.ofNat_add, BitVec.ofNat_mul, BitVec.mul_comm]
      rfl
    have hrest := ih (fun d hd => hcs d (List.mem_cons_of_mem _ hd)) hv (len + 1)
    have hcount : len + 1 + cs.length = len + (cs.length + 1) := by omega
    simp only [List.map_cons, List.cons_append, scanDigits, hd, if_true, hlarge, hnext, hrest,
      List.length_cons, Bool.false_eq_true, if_false, hcount]

theorem valueTooLarge_small (w : Word) (h : w.toNat * 10 < 2 ^ 63) : valueTooLarge w = false := by
  have hw : w.toInt = w.toNat := BitVec.toInt_eq_toNat_of_lt (by omega)
  rw [valueTooLarge, hw]
  simp only [decide_eq_false_iff_not]
  omega

theorem regTooLarge_small (w : Word) (h : w.toNat * 10 < 2 ^ 63) : regTooLarge w = false := by
  simp only [regTooLarge, decide_eq_false_iff_not]
  omega

theorem scanString_append {text : List Byte} (h : ∀ c ∈ text, Plain c) (s : List Byte)
    {str : List Byte} {strSize : Nat} (hsize : str.length ≤ strSize) (hpos : 0 < strSize) :
    scanString str strSize (text ++ chr '"' :: s) = .ok (.ok, .string (str ++ text), s) := by
  induction text generalizing str strSize with
  | nil =>
    have h0 : chr '"' ≠ 0#8 := by decide
    simp [scanString, h0]
  | cons c text ih =>
    obtain ⟨hnul, hquote, hback⟩ := h c (List.mem_cons_self ..)
    have hroom : str.length < if str.length = strSize then 2 * strSize else strSize := by
      split <;> omega
    have hlen : (str ++ [c]).length ≤ if str.length = strSize then 2 * strSize else strSize := by
      rw [List.length_append]
      exact hroom
    have hrest := ih (fun d hd => h d (List.mem_cons_of_mem _ hd)) hlen (by omega)
    simp only [List.cons_append, scanString, if_neg hnul, if_neg hquote, if_neg hback, storeChar,
      if_pos hroom, Except.ok_bind, hrest, List.append_assoc, List.nil_append]

/-! ## One token -/

/-- The lexer reads a token. -/
def Reads (cursor : List Byte) (tok : Token) (cursor' : List Byte) : Prop :=
  nextToken cursor = .ok (.ok, tok, cursor')

theorem nextToken_blank {b : Byte} (hb : isBlank b) (s : List Byte) :
    nextToken (b :: s) = nextToken s := by
  simp only [nextToken, spanChars, hb, if_true]
  cases spanChars isBlank s <;> rfl

theorem nextToken_blanks {blanks : List Byte} (h : ∀ b ∈ blanks, isBlank b) (s : List Byte) :
    nextToken (blanks ++ s) = nextToken s := by
  induction blanks with
  | nil => rfl
  | cons b blanks ih =>
    rw [List.cons_append, nextToken_blank (h b (List.mem_cons_self ..)),
      ih fun c hc => h c (List.mem_cons_of_mem _ hc)]

theorem nextToken_cons {c : Byte} (hc : isBlank c = false) (s : List Byte) :
    nextToken (c :: s) = match punctuation c with
      | some token => .ok (.ok, token, s)
      | none => lexComment c s := by
  simp only [nextToken, spanChars, hc]
  rfl

theorem isBlank_of_punctuation (c : Byte) (h : (punctuation c).isSome) : isBlank c = false := by
  have hne : ∀ d, punctuation d = none → c ≠ d := by
    rintro d hd rfl
    rw [hd] at h
    cases h
  rw [isBlank, Bool.or_eq_false_iff]
  exact ⟨decide_eq_false (hne _ rfl), decide_eq_false (hne _ rfl)⟩

theorem reads_punctuation {c : Byte} {tok : Token} (h : punctuation c = some tok)
    (s : List Byte) : Reads (c :: s) tok s := by
  have hc : isBlank c = false := isBlank_of_punctuation c (by rw [h]; rfl)
  rw [Reads, nextToken_cons hc, h]

theorem lexComment_of_ne {c : Byte} (h : c ≠ chr '/') {s : List Byte} :
    lexComment c s = lexRegister c s := by
  cases s <;> simp [lexComment, startsComment, h]

theorem nextToken_ident {c : Byte} (h : isIdent c) (s : List Byte) :
    nextToken (c :: s) = lexRegister c s := by
  rw [nextToken_cons (isBlank_of_isIdent c h), punctuation_of_isIdent c h]
  exact lexComment_of_ne (slash_of_isIdent c h)

theorem digits_cons (n : Nat) : ∃ c cs, c.isDigit ∧ (∀ d ∈ cs, d.isDigit) ∧
    digits n = chr c :: cs.map chr ∧ Nat.ofDigitChars 10 cs (c.toNat - 48) = n := by
  have hall : ∀ c ∈ Nat.toDigits 10 n, c.isDigit :=
    fun c hc => Nat.isDigit_of_mem_toDigits (by decide) (by decide) hc
  have hval : Nat.ofDigitChars 10 (Nat.toDigits 10 n) 0 = n := Nat.ofDigitChars_ten_toDigits
  rw [digits]
  cases h : Nat.toDigits 10 n with
  | nil => exact absurd h Nat.toDigits_ne_nil
  | cons c cs =>
    rw [h] at hall hval
    refine ⟨c, cs, hall c (List.mem_cons_self ..),
      fun d hd => hall d (List.mem_cons_of_mem _ hd), rfl, ?_⟩
    rw [Nat.ofDigitChars_cons, Nat.mul_zero, Nat.zero_add] at hval
    exact hval

theorem reads_number {n : Word} (hn : n.toNat < 2 ^ 63) {c : Byte} (hc : isdigit c = false)
    (s : List Byte) : Reads (digits n.toNat ++ c :: s) (.number n) (c :: s) := by
  obtain ⟨d, ds, hd, hds, htext, hval⟩ := digits_cons n.toNat
  obtain ⟨hdigit, hfirst⟩ := digit_chr hd
  have hscan := scanDigits_append valueTooLarge_small hds hc s (by rw [hval]; exact hn) 0
  rw [hval, BitVec.ofNat_toNat, BitVec.setWidth_eq] at hscan
  rw [Reads, htext, List.cons_append, nextToken_ident (isIdent_of_isdigit _ hdigit), lexRegister,
    if_neg (not_R_of_isdigit _ hdigit), lexWord, if_pos hdigit, hfirst, hscan]
  rfl

theorem reads_register {r : Word} (hr : r.toNat < 2 ^ 63) {c : Byte} (hc : isdigit c = false)
    (s : List Byte) :
    Reads (chr 'R' :: digits r.toNat ++ c :: s) (.register r) (c :: s) := by
  have hall : ∀ c ∈ Nat.toDigits 10 r.toNat, c.isDigit :=
    fun c hc => Nat.isDigit_of_mem_toDigits (by decide) (by decide) hc
  have hval : Nat.ofDigitChars 10 (Nat.toDigits 10 r.toNat) 0 = r.toNat :=
    Nat.ofDigitChars_ten_toDigits
  have hscan := scanDigits_append regTooLarge_small hall hc s (by rw [hval]; exact hr) 0
  rw [hval, BitVec.ofNat_toNat, BitVec.setWidth_eq] at hscan
  have hlen : 0 < 0 + (Nat.toDigits 10 r.toNat).length := by
    rw [Nat.zero_add]
    exact Nat.length_toDigits_pos
  have hR : isIdent (chr 'R') := by decide
  rw [Reads, List.cons_append, nextToken_ident hR, lexRegister, if_pos rfl, digits]
  rw [show (0 : Word) = BitVec.ofNat 64 0 from rfl, hscan, Except.ok_bind]
  simp only [if_pos hlen]
  rfl

theorem reads_name {text : List Byte} (htext : IsName text) {c : Byte} (hc : isIdent c = false)
    (s : List Byte) : Reads (text ++ c :: s) (.ident text) (c :: s) := by
  cases text with
  | nil => exact htext.elim
  | cons d text =>
    obtain ⟨hd, hall⟩ := htext
    have hdigit : ¬ isdigit d := by rw [isdigit_of_islower d hd]; decide
    have hquote : d ≠ chr '"' := quote_of_isIdent d (isIdent_of_islower d hd)
    rw [Reads, List.cons_append, nextToken_ident (isIdent_of_islower d hd), lexRegister,
      if_neg (not_R_of_islower d hd), lexWord, if_neg hdigit, if_neg hquote, if_pos hd,
      spanChars_append hall hc]
    rfl

theorem lexWord_upper {c : Byte} (hc : isupper c) (s : List Byte) :
    lexWord c s = spanChars isupper s >>= fun x => .ok (.ok, .mnemonic (c :: x.1), x.2) := by
  have hdigit : ¬ isdigit c := by rw [isdigit_of_isupper c hc]; decide
  have hquote : c ≠ chr '"' := quote_of_isIdent c (isIdent_of_isupper c hc)
  have hlower : ¬ islower c := by rw [islower_of_isupper c hc]; decide
  rw [lexWord, if_neg hdigit, if_neg hquote, if_neg hlower, if_pos hc]
  rfl

/-- Behind `R` alone there is no digit, and the cursor goes back. -/
theorem lexRegister_back (c : Byte) {d : Byte} (hd : isdigit d = false)
    (s : List Byte) : lexRegister c (d :: s) = lexWord c (d :: s) := by
  have hd' : ¬ isdigit d := by rw [hd]; decide
  rw [lexRegister, scanDigits, if_neg hd']
  split
  · rfl
  · rfl

theorem reads_mnemonic {text : List Byte} (hne : text ≠ []) (hall : ∀ c ∈ text, isupper c)
    {c : Byte} (hc : isupper c = false) (hR : text = [chr 'R'] → isdigit c = false)
    (s : List Byte) : Reads (text ++ c :: s) (.mnemonic text) (c :: s) := by
  cases text with
  | nil => exact absurd rfl hne
  | cons d text =>
    have hd : isupper d := hall d (List.mem_cons_self ..)
    have htext : ∀ c ∈ text, isupper c := fun e he => hall e (List.mem_cons_of_mem _ he)
    have hword : lexRegister d (text ++ c :: s) = lexWord d (text ++ c :: s) := by
      cases text with
      | nil =>
        by_cases hdR : d = chr 'R'
        · exact lexRegister_back d (hR (by rw [hdR])) s
        · rw [lexRegister, if_neg hdR]
      | cons e text =>
        exact lexRegister_back d (isdigit_of_isupper e (htext e (List.mem_cons_self ..))) _
    rw [Reads, List.cons_append, nextToken_ident (isIdent_of_isupper d hd), hword,
      lexWord_upper hd, spanChars_append htext hc]
    rfl

theorem nextToken_quote (s : List Byte) : nextToken (chr '"' :: s) = scanString [] 32 s := by
  have hblank : isBlank (chr '"') = false := by decide
  have hpunct : punctuation (chr '"') = none := by decide
  have hslash : chr '"' ≠ chr '/' := by decide
  have hR : chr '"' ≠ chr 'R' := by decide
  have hdigit : ¬ isdigit (chr '"') := by decide
  rw [nextToken_cons hblank, hpunct]
  simp only [lexComment_of_ne hslash]
  rw [lexRegister, if_neg hR, lexWord, if_neg hdigit, if_pos rfl]

theorem reads_string {text : List Byte} (h : ∀ c ∈ text, Plain c) (s : List Byte) :
    Reads (chr '"' :: text ++ [chr '"'] ++ s) (.string text) s := by
  rw [Reads, List.append_assoc, List.cons_append, List.singleton_append, nextToken_quote,
    scanString_append h s (Nat.zero_le 32) (by decide), List.nil_append]

/-- **A token is read back from its text.** -/
theorem reads_text {tok : Token} (hsound : tok.Sound) {c : Byte} (hends : tok.Ends c)
    {blanks : List Byte} (hblanks : ∀ b ∈ blanks, isBlank b) (s : List Byte) :
    Reads (blanks ++ tok.text ++ c :: s) tok (c :: s) := by
  rw [Reads, List.append_assoc, nextToken_blanks hblanks]
  cases tok with
  | openBracket => exact reads_punctuation (by decide) _
  | closeBracket => exact reads_punctuation (by decide) _
  | comma => exact reads_punctuation (by decide) _
  | dot => exact reads_punctuation (by decide) _
  | colon => exact reads_punctuation (by decide) _
  | plus => exact reads_punctuation (by decide) _
  | minus => exact reads_punctuation (by decide) _
  | newline => exact reads_punctuation (by decide) _
  | eof => exact reads_punctuation (by decide) _
  | string text => exact reads_string hsound _
  | number n => exact reads_number hsound hends s
  | ident text => exact reads_name hsound hends s
  | register r => exact reads_register hsound hends s
  | mnemonic text => exact reads_mnemonic hsound.1 hsound.2 hends.1 hends.2 s

/-! ## Runs -/

/-- The lexer reads these tokens one after the other. -/
inductive Reading : List Byte → List Token → List Byte → Prop
  | nil (s : List Byte) : Reading s [] s
  | cons {s s' s'' : List Byte} {tok : Token} {toks : List Token} :
      Reads s tok s' → Reading s' toks s'' → Reading s (tok :: toks) s''

theorem Reads.unique {s : List Byte} {t t' : Token} {r r' : List Byte} (h : Reads s t r)
    (h' : Reads s t' r') : t = t' ∧ r = r' := by
  have heq := h.symm.trans h'
  simp only [Except.ok.injEq, Prod.mk.injEq, true_and] at heq
  exact heq

theorem Reading.uncons {s s' : List Byte} {tok : Token} {toks : List Token}
    (h : Reading s (tok :: toks) s') : ∃ r, Reads s tok r ∧ Reading r toks s' := by
  cases h with
  | cons hread hrest => exact ⟨_, hread, hrest⟩

theorem Reading.append {s s' s'' : List Byte} {toks toks' : List Token} (h : Reading s toks s')
    (h' : Reading s' toks' s'') : Reading s (toks ++ toks') s'' := by
  induction h with
  | nil s => exact h'
  | cons hread _ ih => exact .cons hread (ih h')

theorem Reading.split {s s' : List Byte} {toks toks' : List Token}
    (h : Reading s (toks ++ toks') s') : ∃ r, Reading s toks r ∧ Reading r toks' s' := by
  induction toks generalizing s with
  | nil => exact ⟨s, .nil s, h⟩
  | cons tok toks ih =>
    obtain ⟨r, hread, hrest⟩ := Reading.uncons h
    obtain ⟨r', hleft, hright⟩ := ih hrest
    exact ⟨r', .cons hread hleft, hright⟩

/-- `next` on a token that is read. -/
theorem next_reads {lexer : Lexer} {tok : Token} {s : List Byte}
    (h : Reads lexer.cursor tok s) : next lexer = .ok (tok, { lexer with cursor := s }) := by
  rw [Reads] at h
  rw [next, lexerNextToken, h]
  rfl

/-- What `next` returns was read. -/
theorem reads_of_next {lexer lexer' : Lexer} {tok : Token} (h : next lexer = .ok (tok, lexer')) :
    Reads lexer.cursor tok lexer'.cursor ∧ lexer' = { lexer with cursor := lexer'.cursor } := by
  rw [next] at h
  obtain ⟨⟨status, tok₀, lexer₀⟩, hlex, h⟩ := Except.bind_eq_ok.mp h
  rw [lexerNextToken] at hlex
  obtain ⟨⟨status₁, tok₁, cursor⟩, hnext, hlex⟩ := Except.bind_eq_ok.mp hlex
  cases hlex
  by_cases hstatus : status = .ok
  · subst hstatus
    cases h
    exact ⟨hnext, rfl⟩
  · simp only [hstatus, ne_eq, not_false_eq_true, if_true] at h
    cases h

end BSVM
