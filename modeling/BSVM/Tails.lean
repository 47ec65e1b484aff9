/-
# `BSVM.Tails` — the lexer on lines that begin alike

Two lines `a ++ u` and `a ++ u'` are read alike up to the end of `a`, if neither
`u` nor `u'` goes on with the last token of `a` (`Soft`).  What happens at the
end of `a` depends on what is open there (`LocalStep`):

    nothing       the next token is the first of the tail
    a comment     it goes on to the end of the line
    a slash       the tail could make it a comment
    a string      the tail could close it

`scan` tells whether `a` leaves a string or a comment open; a tail after which it
does not matter is `Hard`.  `tails_follow` is the instance of `Follows` for
tails that begin with an end of the line, and its two corollaries are about
the lines of a buffer:

    line_newline    what stands behind a newline and its NUL does not matter
    line_comment    a comment may be replaced by another
-/
import BSVM.Following

namespace BSVM

/-! ## Strings and comments -/

/-- What the characters of a line are part of. -/
inductive Scan where
  | code | slash | string | escape | comment
  deriving DecidableEq, Repr

def scanStep : Scan → Byte → Scan
  | .code, c => if c = chr '"' then .string else if c = chr '/' then .slash else .code
  | .slash, c => if c = chr '/' then .comment else if c = chr '"' then .string else .code
  | .string, c => if c = chr '\\' then .escape else if c = chr '"' then .code else .string
  | .escape, _ => .string
  | .comment, _ => .comment

def scan (state : Scan) (text : List Byte) : Scan :=
  text.foldl scanStep state

@[simp] theorem scan_cons (state : Scan) (c : Byte) (text : List Byte) :
    scan state (c :: text) = scan (scanStep state c) text := rfl

theorem scan_append (state : Scan) (a b : List Byte) :
    scan state (a ++ b) = scan (scan state a) b :=
  List.foldl_append

theorem scan_comment (text : List Byte) : scan .comment text = .comment := by
  induction text with
  | nil => rfl
  | cons c text ih => exact ih

/-- A character that opens nothing. -/
theorem scanStep_code {c : Byte} (hquote : c ≠ chr '"') (hslash : c ≠ chr '/') :
    scanStep .code c = .code := by
  rw [scanStep, if_neg hquote, if_neg hslash]

theorem scan_ident {text : List Byte} (h : ∀ c ∈ text, isIdent c) : scan .code text = .code := by
  induction text with
  | nil => rfl
  | cons c text ih =>
    have hc : isIdent c := h c (List.mem_cons_self ..)
    rw [scan_cons, scanStep_code (quote_of_isIdent c hc) (slash_of_isIdent c hc)]
    exact ih fun d hd => h d (List.mem_cons_of_mem _ hd)

/-! ## Tails -/

/-- No identifier, number or mnemonic goes on with it. -/
def Soft (u : List Byte) : Prop :=
  ∃ h v, u = h :: v ∧ isIdent h = false

/-- At the newline of a line, or its NUL. -/
def EndHead (r : List Byte) : Prop :=
  ∃ d t, r = d :: t ∧ (d = chr '\n' ∨ d = nul)

/-- A tail that ends the line, and is followed by an end. -/
structure Tail (u : List Byte) : Prop where
  soft : Soft u
  ends : ∃ e r, isEndOfInstr e ∧ EndHead r ∧ Reads u e r

/-- And does so in a comment, in a string and behind a slash. -/
structure Hard (u : List Byte) : Prop extends Tail u where
  comment : ∃ w r, spanChars inComment u = .ok (w, r) ∧ EndHead r
  slash : startsComment (chr '/') u = .ok false
  string : ∀ str strSize, Buffered str strSize →
    (∃ r, scanString str strSize u = .ok (.missingQuote, .string [], r)) ∧
    ∃ r, scanString str strSize (chr '\\' :: u) = .ok (.unknownEscapeSequence, .string [], r)

/-! ## Loops -/

theorem spanChars_local {p : Byte → Bool} (hp : ∀ c, p c → isIdent c) (a : List Byte) :
    ∃ w a', a = w ++ a' ∧ (∀ c ∈ w, p c) ∧
      ∀ u, Soft u → spanChars p (a ++ u) = .ok (w, a' ++ u) := by
  induction a with
  | nil =>
    refine ⟨[], [], rfl, fun c hc => absurd hc List.not_mem_nil, ?_⟩
    rintro _ ⟨h, v, rfl, hh⟩
    have hph : ¬ p h := fun hph => by rw [hp h hph] at hh; cases hh
    rw [List.nil_append, spanChars, if_neg hph]
  | cons c a ih =>
    by_cases hc : p c
    · obtain ⟨w, a', rfl, hall, hspan⟩ := ih
      refine ⟨c :: w, a', rfl, List.forall_mem_cons.mpr ⟨hc, hall⟩, fun u hu => ?_⟩
      rw [List.cons_append, spanChars, if_pos hc, hspan u hu]
      rfl
    · refine ⟨[], c :: a, rfl, fun d hd => absurd hd List.not_mem_nil, fun u _ => ?_⟩
      rw [List.cons_append, spanChars, if_neg hc]

theorem scanDigits_local (tooLarge : Word → Bool) (v : Word) (len : Nat) (a : List Byte) :
    ∃ v' len' w a', a = w ++ a' ∧ (∀ c ∈ w, isdigit c) ∧
      ∀ u, Soft u → scanDigits tooLarge v len (a ++ u) = .ok (v', len', a' ++ u) := by
  induction a generalizing v len with
  | nil =>
    refine ⟨some v, len, [], [], rfl, fun c hc => absurd hc List.not_mem_nil, ?_⟩
    rintro _ ⟨h, t, rfl, hh⟩
    have hdigit : ¬ isdigit h := fun hd => by rw [isIdent_of_isdigit h hd] at hh; cases hh
    rw [List.nil_append, scanDigits, if_neg hdigit]
  | cons c a ih =>
    by_cases hc : isdigit c
    · by_cases hv : tooLarge v
      · refine ⟨none, len, [], c :: a, rfl, fun d hd => absurd hd List.not_mem_nil, fun u _ => ?_⟩
        rw [List.cons_append, scanDigits, if_pos hc, if_pos hv]
      · obtain ⟨v', len', w, a', rfl, hall, hscan⟩ := ih (v * 10 + digit c) (len + 1)
        refine ⟨v', len', c :: w, a', rfl, List.forall_mem_cons.mpr ⟨hc, hall⟩, fun u hu => ?_⟩
        rw [List.cons_append, scanDigits, if_pos hc, if_neg hv]
        exact hscan u hu
    · refine ⟨some v, len, [], c :: a, rfl, fun d hd => absurd hd List.not_mem_nil, fun u _ => ?_⟩
      rw [List.cons_append, scanDigits, if_neg hc]

/-- A string is closed, or refused, before the tail, or it is open there. -/
inductive LocalString (str : List Byte) (strSize : Nat) (a : List Byte) : Prop
  | inside (status : LexerError) (tok : Token) (a' : List Byte) : (∀ n, tok ≠ .number n) →
      isEndOfInstr tok = false → (status = .ok → scan .string a = scan .code a') →
      (∀ u, scanString str strSize (a ++ u) = .ok (status, tok, a' ++ u)) →
      LocalString str strSize a
  | opened (status : LexerError) : status ≠ .ok → scan .string a ≠ .code →
      (∀ u, Hard u → ∃ r, scanString str strSize (a ++ u) = .ok (status, .string [], r)) →
      LocalString str strSize a

theorem string_local {n : Nat} {a : List Byte} (hn : a.length ≤ n) {str : List Byte}
    {strSize : Nat} (h : Buffered str strSize) : LocalString str strSize a := by
  have hstring : ∀ m : Word, Token.string [] ≠ .number m := fun m hm => by cases hm
  induction n generalizing a str strSize with
  | zero =>
    rw [List.eq_nil_of_length_eq_zero (Nat.le_zero.mp hn)]
    refine .opened .missingQuote (fun h => by cases h) (fun h => by cases h) fun u hu => ?_
    exact (hu.string str strSize h).1
  | succ n ih =>
    cases stringStep h a with
    | nil _ =>
      refine .opened .missingQuote (fun h => by cases h) (fun h => by cases h) fun u hu => ?_
      exact (hu.string str strSize h).1
    | quote s hs => exact .inside .ok _ s (fun m hm => by cases hm) rfl (fun _ => rfl) fun u => hs _
    | nul s hs =>
      refine .inside .missingQuote _ (nul :: s) hstring rfl (fun h => ?_) fun u => hs _
      cases h
    | cut _ =>
      refine .opened .unknownEscapeSequence (fun h => by cases h) (by decide) fun u hu => ?_
      exact (hu.string str strSize h).2
    | unknown e s hs =>
      refine .inside .unknownEscapeSequence _ (e :: s) hstring rfl (fun h => ?_) fun u => hs _
      cases h
    | escape e s he hs =>
      simp only [List.length_cons] at hn
      have hback : scan .string (chr '\\' :: e :: s) = scan .string s := rfl
      cases ih (a := s) (by omega) (h.store (escapeSequence e)) with
      | inside status tok a' hnumber hend hscan hu =>
        exact .inside status tok a' hnumber hend hscan fun u => (hs (s ++ u)).trans (hu u)
      | opened status hstatus hscan hu =>
        refine .opened status hstatus hscan fun u hhard => ?_
        obtain ⟨r, hr⟩ := hu u hhard
        exact ⟨r, (hs (s ++ u)).trans hr⟩
    | char c s _ hquote hback hs =>
      simp only [List.length_cons] at hn
      have hstep : scan .string (c :: s) = scan .string s := by
        rw [scan_cons, scanStep, if_neg hback, if_neg hquote]
      cases ih (a := s) (by omega) (h.store c) with
      | inside status tok a' hnumber hend hscan hu =>
        refine .inside status tok a' hnumber hend ?_ fun u => (hs (s ++ u)).trans (hu u)
        rw [hstep]
        exact hscan
      | opened status hstatus hscan hu =>
        refine .opened status hstatus (by rw [hstep]; exact hscan) fun u hhard => ?_
        obtain ⟨r, hr⟩ := hu u hhard
        exact ⟨r, (hs (s ++ u)).trans hr⟩

/-! ## One token -/

/-- What the lexer does with the end of `a` in sight. -/
inductive LocalStep (f : List Byte → Exec Lexed) (a : List Byte) : Prop
  | inside (status : LexerError) (tok : Token) (a' : List Byte) :
      (status = .ok ∨ (∃ n, tok = .number n) → scan .code a = .code → scan .code a' = .code) →
      (∀ u, Soft u → f (a ++ u) = .ok (status, tok, a' ++ u)) → LocalStep f a
  | blank : (∀ u, Soft u → f (a ++ u) = nextToken u) → LocalStep f a
  | comment : scan .code a ≠ .code →
      (∀ u, Soft u → f (a ++ u) =
        spanChars inComment u >>= fun x => .ok (.ok, commentEnd x.2, x.2)) →
      LocalStep f a
  | slash : scan .code a ≠ .code →
      (∀ u, Soft u → startsComment (chr '/') u = .ok false →
        f (a ++ u) = .ok (.invalidToken, .eof, chr '/' :: u)) →
      LocalStep f a
  | string (status : LexerError) : status ≠ .ok → scan .code a ≠ .code →
      (∀ u, Hard u → ∃ r, f (a ++ u) = .ok (status, .string [], r)) → LocalStep f a

theorem LocalStep.congr {f g : List Byte → Exec Lexed} {a b : List Byte} (h : LocalStep g b)
    (hab : scan .code a = scan .code b) (hfg : ∀ u, Soft u → f (a ++ u) = g (b ++ u)) :
    LocalStep f a := by
  cases h with
  | inside status tok a' hscan hu =>
    refine .inside status tok a' ?_ fun u hs => (hfg u hs).trans (hu u hs)
    rw [hab]
    exact hscan
  | blank hu => exact .blank fun u hs => (hfg u hs).trans (hu u hs)
  | comment hscan hu =>
    exact .comment (by rw [hab]; exact hscan) fun u hs => (hfg u hs).trans (hu u hs)
  | slash hscan hu =>
    refine .slash (by rw [hab]; exact hscan) fun u hs hstart => ?_
    exact (hfg u hs).trans (hu u hs hstart)
  | string status hstatus hscan hu =>
    refine .string status hstatus (by rw [hab]; exact hscan) fun u hhard => ?_
    obtain ⟨r, hr⟩ := hu u hhard
    exact ⟨r, (hfg u hhard.soft).trans hr⟩

/-- Behind characters that open nothing. -/
theorem scan_behind {c : Byte} {w a' : List Byte} (hc : isIdent c) (hw : ∀ d ∈ w, isIdent d)
    (h : scan .code (c :: (w ++ a')) = .code) : scan .code a' = .code := by
  rw [← List.cons_append, scan_append, scan_ident (List.forall_mem_cons.mpr ⟨hc, hw⟩)] at h
  exact h

theorem word_local (c : Byte) (a : List Byte) : LocalStep (atCursor lexWord) (c :: a) := by
  by_cases hdigit : isdigit c
  · obtain ⟨v, len, w, a', rfl, hw, hscan⟩ := scanDigits_local valueTooLarge (digit c) 0 a
    refine .inside (numeral v).1 (numeral v).2 a' (fun _ => ?_) fun u hu => ?_
    · exact scan_behind (isIdent_of_isdigit c hdigit) fun d hd => isIdent_of_isdigit d (hw d hd)
    · rw [List.cons_append, atCursor, lexWord_digit hdigit, hscan u hu]
      rfl
  by_cases hquote : c = chr '"'
  · subst hquote
    have hword : ∀ u, atCursor lexWord (chr '"' :: a ++ u) = scanString [] 32 (a ++ u) := by
      intro u
      rw [List.cons_append, atCursor, lexWord_quote]
    have hbuffer : Buffered [] 32 := ⟨Nat.zero_le _, by decide⟩
    cases string_local (Nat.le_refl a.length) hbuffer with
    | inside status tok a' hnumber hend hscan hu =>
      refine .inside status tok a' ?_ fun u _ => (hword u).trans (hu u)
      rintro (hstatus | ⟨n, hn⟩) hcode
      · exact (hscan hstatus).symm.trans hcode
      · exact absurd hn (hnumber n)
    | opened status hstatus hscan hu =>
      refine .string status hstatus hscan fun u hhard => ?_
      obtain ⟨r, hr⟩ := hu u hhard
      exact ⟨r, (hword u).trans hr⟩
  by_cases hlower : islower c
  · obtain ⟨w, a', rfl, hw, hspan⟩ := spanChars_local (p := isIdent) (fun _ h => h) a
    refine .inside .ok (.ident (c :: w)) a' (fun _ => ?_) fun u hu => ?_
    · exact scan_behind (isIdent_of_islower c hlower) hw
    · rw [List.cons_append, atCursor, lexWord_lower hlower]
      show (spanChars isIdent (w ++ a' ++ u) >>= _) = _
      rw [hspan u hu]
      rfl
  by_cases hupper : isupper c
  · obtain ⟨w, a', rfl, hw, hspan⟩ := spanChars_local isIdent_of_isupper a
    refine .inside .ok (.mnemonic (c :: w)) a' (fun _ => ?_) fun u hu => ?_
    · exact scan_behind (isIdent_of_isupper c hupper) fun d hd => isIdent_of_isupper d (hw d hd)
    · rw [List.cons_append, atCursor, lexWord_upper hupper, hspan u hu]
      rfl
  · refine .inside .invalidToken .eof (c :: a) ?_ fun u _ => ?_
    · rintro (h | ⟨n, h⟩) <;> cases h
    · rw [List.cons_append, atCursor, lexWord, if_neg hdigit, if_neg hquote, if_neg hlower,
        if_neg hupper]

theorem register_local (c : Byte) (a : List Byte) :
    LocalStep (atCursor lexRegister) (c :: a) := by
  by_cases hR : c = chr 'R'
  · subst hR
    obtain ⟨v, len, w, a', ha, hw, hscan⟩ := scanDigits_local regTooLarge 0 0 a
    cases v with
    | none =>
      refine .inside .invalidToken (.register 0) a' ?_ fun u hu => ?_
      · rintro (h | ⟨n, h⟩) <;> cases h
      · rw [List.cons_append, atCursor, lexRegister_R, hscan u hu]
        rfl
    | some reg =>
      by_cases hlen : 0 < len
      · refine .inside .ok (.register reg) a' (fun _ => ?_) fun u hu => ?_
        · rw [ha]
          exact scan_behind (by decide) fun d hd => isIdent_of_isdigit d (hw d hd)
        · rw [List.cons_append, atCursor, lexRegister_R, hscan u hu]
          exact if_pos hlen
      · refine (word_local (chr 'R') a).congr rfl fun u hu => ?_
        rw [List.cons_append, atCursor, lexRegister_R, hscan u hu]
        exact if_neg hlen
  · refine (word_local c a).congr rfl fun u _ => ?_
    show lexRegister c (a ++ u) = lexWord c (a ++ u)
    rw [lexRegister, if_neg hR]

theorem inComment_local (a : List Byte) :
    (∃ w c a', a = w ++ c :: a' ∧ ∀ u, spanChars inComment (a ++ u) = .ok (w, c :: a' ++ u)) ∨
      ∀ u, spanChars inComment (a ++ u) =
        spanChars inComment u >>= fun x => .ok (a ++ x.1, x.2) := by
  induction a with
  | nil =>
    right
    intro u
    rw [List.nil_append]
    cases spanChars inComment u <;> rfl
  | cons c a ih =>
    by_cases hc : inComment c
    · rcases ih with ⟨w, d, a', rfl, hspan⟩ | hspan
      · refine .inl ⟨c :: w, d, a', rfl, fun u => ?_⟩
        rw [List.cons_append, spanChars, if_pos hc, hspan u]
        rfl
      · refine .inr fun u => ?_
        rw [List.cons_append, spanChars, if_pos hc, hspan u]
        cases spanChars inComment u <;> rfl
    · refine .inl ⟨[], c, a, rfl, fun u => ?_⟩
      rw [List.cons_append, spanChars, if_neg hc]

theorem comment_local (a : List Byte) :
    LocalStep (atCursor lexComment) (chr '/' :: chr '/' :: a) := by
  have hopen : scan .code (chr '/' :: chr '/' :: a) ≠ .code := by
    intro h
    have hcomment : scan .code (chr '/' :: chr '/' :: a) = .comment := scan_comment a
    rw [hcomment] at h
    cases h
  have hlex : ∀ u, atCursor lexComment (chr '/' :: chr '/' :: a ++ u) =
      spanChars inComment (a ++ u) >>= fun x => .ok (.ok, commentEnd x.2, x.2) :=
    fun u => lexComment_true (a ++ u)
  rcases inComment_local a with ⟨w, c, a', ha, hspan⟩ | hspan
  · refine .inside .ok (commentEnd (c :: a')) (c :: a') (fun _ h => absurd h hopen) fun u _ => ?_
    rw [hlex u, hspan u]
    rfl
  · refine .comment hopen fun u _ => ?_
    rw [hlex u, hspan u]
    cases spanChars inComment u <;> rfl

theorem punctuation_slash : punctuation (chr '/') = none := by decide

theorem punctuation_quote : punctuation (chr '"') = none := by decide

theorem nextToken_local (a : List Byte) : LocalStep nextToken a := by
  induction a with
  | nil => exact .blank fun u _ => rfl
  | cons c a ih =>
    by_cases hblank : isBlank c
    · refine ih.congr ?_ fun u _ => nextToken_blank hblank (a ++ u)
      rw [scan_cons, scanStep_code]
      · rintro rfl
        cases hblank
      · rintro rfl
        cases hblank
    · have hblank : isBlank c = false := by simpa using hblank
      cases hpunct : punctuation c with
      | some token =>
        refine .inside .ok token a (fun _ h => ?_) fun u _ => reads_punctuation hpunct (a ++ u)
        rw [scan_cons, scanStep_code] at h
        · exact h
        · rintro rfl
          rw [punctuation_quote] at hpunct
          cases hpunct
        · rintro rfl
          rw [punctuation_slash] at hpunct
          cases hpunct
      | none =>
        have hnext : ∀ u, nextToken (c :: a ++ u) = lexComment c (a ++ u) := by
          intro u
          rw [List.cons_append, nextToken_cons hblank, hpunct]
        by_cases hslash : c = chr '/'
        · subst hslash
          cases a with
          | nil =>
            refine .slash (by decide) fun u _ hstart => ?_
            rw [hnext u]
            exact lexComment_false hstart
          | cons d a =>
            by_cases hd : d = chr '/'
            · subst hd
              exact (comment_local a).congr rfl fun u _ => hnext u
            · refine (register_local (chr '/') (d :: a)).congr rfl fun u _ => ?_
              refine (hnext u).trans (lexComment_false ?_)
              simp [startsComment, hd]
        · refine (register_local c a).congr rfl fun u _ => ?_
          exact (hnext u).trans (lexComment_of_ne hslash)

/-! ## Two lines -/

/-- Two lines that differ in their tails; an open string or comment goes on to
the end of both. -/
def Alike (s s' : List Byte) : Prop :=
  ∃ a u u', s = a ++ u ∧ s' = a ++ u' ∧ Tail u ∧ Tail u' ∧
    (scan .code a = .code ∨ Hard u ∧ Hard u')

/-- And behind the first end. -/
def AlikeEnd (s s' : List Byte) : Prop :=
  Alike s s' ∨ EndHead s ∧ EndHead s'

theorem EndHead.reads {s : List Byte} (h : EndHead s) : ∃ e r, isEndOfInstr e ∧ Reads s e r := by
  obtain ⟨d, t, rfl, rfl | rfl⟩ := h
  · exact ⟨.newline, t, rfl, reads_punctuation (by decide) t⟩
  · exact ⟨.eof, t, rfl, reads_punctuation (by decide) t⟩

theorem isEndOfInstr_commentEnd (r : List Byte) : isEndOfInstr (commentEnd r) := by
  rw [commentEnd]
  split <;> rfl

theorem alike_follows : Follows (fun _ => False) Alike AlikeEnd := by
  have hstep : ∀ {s s'}, Alike s s' →
      Lockstep (fun _ => False) (SameToken Alike AlikeEnd) (nextToken s) (nextToken s') := by
    rintro _ _ ⟨a, u, u', rfl, rfl, hu, hu', hopen⟩
    cases nextToken_local a with
    | inside status tok a' hscan hnext =>
      rw [hnext u hu.soft, hnext u' hu'.soft]
      have hrest : status = .ok ∨ (∃ n, tok = .number n) → Alike (a' ++ u) (a' ++ u') :=
        fun h => ⟨a', u, u', rfl, rfl, hu, hu', hopen.imp (hscan h) id⟩
      exact .ok (sameToken (hnext u hu.soft) hrest fun h => .inl (hrest (.inl h)))
    | blank hnext =>
      obtain ⟨e, r, he, hr, hreads⟩ := hu.ends
      obtain ⟨e', r', he', hr', hreads'⟩ := hu'.ends
      rw [hnext u hu.soft, hnext u' hu'.soft, hreads, hreads']
      exact .ok (.last e e' r r' he he' (.inr ⟨hr, hr'⟩))
    | comment hscan hnext =>
      obtain ⟨hhard, hhard'⟩ := hopen.resolve_left hscan
      obtain ⟨w, r, hspan, hr⟩ := hhard.comment
      obtain ⟨w', r', hspan', hr'⟩ := hhard'.comment
      rw [hnext u hu.soft, hnext u' hu'.soft, hspan, hspan']
      exact .ok (.last _ _ r r' (isEndOfInstr_commentEnd r) (isEndOfInstr_commentEnd r')
        (.inr ⟨hr, hr'⟩))
    | slash hscan hnext =>
      obtain ⟨hhard, hhard'⟩ := hopen.resolve_left hscan
      rw [hnext u hu.soft hhard.slash, hnext u' hu'.soft hhard'.slash]
      exact .ok (.refused _ _ _ _ (fun h => by cases h) (fun n h => by cases h)
        fun h => by cases h)
    | string status hstatus hscan hnext =>
      obtain ⟨hhard, hhard'⟩ := hopen.resolve_left hscan
      obtain ⟨r, hr⟩ := hnext u hhard
      obtain ⟨r', hr'⟩ := hnext u' hhard'
      rw [hr, hr']
      exact .ok (.refused _ _ _ _ hstatus (fun n h => by cases h) fun h => by cases h)
  refine ⟨hstep, ?_⟩
  rintro s s' (h | ⟨h, h'⟩)
  · exact (hstep h).mono fun x y hxy => hxy.mono fun _ _ _ => trivial
  · obtain ⟨e, r, he, hr⟩ := h.reads
    obtain ⟨e', r', he', hr'⟩ := h'.reads
    rw [hr, hr']
    exact .ok (.last e e' r r' he he' trivial)

theorem parseLine_alike (ptr : Nat → Word) (IR : Option Slot) (l : Lexer) {s s' : List Byte}
    (h : Alike s s') : parseLine ptr s IR l = parseLine ptr s' IR l :=
  (parseLine_follows alike_follows ptr IR h (Eq.refl l.line)).eq_of_not_stop fun _ h => h.elim

/-! ## The tails of a buffer -/

theorem endHead_newline (t : List Byte) : EndHead (chr '\n' :: t) :=
  ⟨_, t, rfl, .inl rfl⟩

theorem endHead_nul (t : List Byte) : EndHead (nul :: t) :=
  ⟨_, t, rfl, .inr rfl⟩

theorem spanChars_stop {p : Byte → Bool} {c : Byte} (hc : p c = false) (t : List Byte) :
    spanChars p (c :: t) = .ok ([], c :: t) := by
  rw [spanChars, if_neg (by rw [hc]; decide)]

/-- A string that goes on up to a NUL. -/
theorem scanString_open {c : Byte} (hc : escapeSequence c = EOF) {str : List Byte}
    {strSize : Nat} (h : Buffered str strSize) (t : List Byte) :
    ∃ r, scanString str strSize (chr '\\' :: c :: t) = .ok (.unknownEscapeSequence, .string [], r)
    := by
  rw [scanString_escape h, if_pos hc]
  exact ⟨_, rfl⟩

theorem scanString_nul (str : List Byte) (strSize : Nat) (t : List Byte) :
    scanString str strSize (nul :: t) = .ok (.missingQuote, .string [], nul :: t) := by
  rw [scanString, if_pos rfl]

theorem hard_newline (t : List Byte) : Hard (chr '\n' :: nul :: t) where
  soft := ⟨_, _, rfl, by decide⟩
  ends := ⟨.newline, nul :: t, rfl, endHead_nul t, reads_punctuation (by decide) _⟩
  comment := ⟨[], _, spanChars_stop (by decide) _, endHead_newline _⟩
  slash := by simp [startsComment]; decide
  string str strSize h := by
    refine ⟨⟨nul :: t, ?_⟩, scanString_open (by decide) h _⟩
    rw [scanString_char h (by decide) (by decide) (by decide), scanString_nul]

theorem inComment_eq_false (c : Byte) (h : inComment c = false) : c = chr '\n' ∨ c = nul := by
  rw [inComment, Bool.and_eq_false_iff] at h
  simpa using h

/-- A comment stops at an end. -/
theorem tail_comment {z : List Byte} (h : nul ∈ z) : Tail (chr '/' :: chr '/' :: z) where
  soft := ⟨_, _, rfl, by decide⟩
  ends := by
    obtain ⟨w, r, hspan, -⟩ := spanChars_total inComment_nul h
    obtain ⟨-, -, d, t, hr, hd⟩ := spanChars_ok hspan
    refine ⟨commentEnd r, r, isEndOfInstr_commentEnd r, ⟨d, t, hr, inComment_eq_false d hd⟩, ?_⟩
    rw [Reads, nextToken_cons (by decide), punctuation_slash]
    show lexComment (chr '/') (chr '/' :: z) = _
    rw [lexComment_true, hspan]
    rfl

section

variable (ptr : Nat → Word) (IR : Option Slot) (l : Lexer)

/-- What stands behind a newline and its NUL does not matter. -/
theorem line_newline (w t t' : List Byte) :
    parseLine ptr (w ++ chr '\n' :: nul :: t) IR l
      = parseLine ptr (w ++ chr '\n' :: nul :: t') IR l :=
  parseLine_alike ptr IR l ⟨w, _, _, rfl, rfl, (hard_newline t).toTail, (hard_newline t').toTail,
    .inr ⟨hard_newline t, hard_newline t'⟩⟩

/-- A comment may be replaced by another. -/
theorem line_comment {w : List Byte} (hw : scan .code w = .code) {z z' : List Byte}
    (hz : nul ∈ z) (hz' : nul ∈ z') :
    parseLine ptr (w ++ chr '/' :: chr '/' :: z) IR l
      = parseLine ptr (w ++ chr '/' :: chr '/' :: z') IR l :=
  parseLine_alike ptr IR l ⟨w, _, _, rfl, rfl, tail_comment hz, tail_comment hz', .inl hw⟩

end

end BSVM
