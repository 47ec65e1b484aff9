/-
# `BSVM.LexerRuns` — from one token to the end of the line

A line that is printed (`Printed`) is read back, token by token, up to its
newline (`printed_reads`).

On any other line the lexer still comes to an end.  A token that is not an error
consumes a character (`consumes_nextToken`), and only the NUL that ends the
buffer can be consumed as `TOKEN_EOF` (`nextToken_advances`), so that one call
for each character and one more are enough (`calls_le`).
-/
import BSVM.Rendering
import BSVM.Scanning

namespace BSVM

/-! ## Printed lines -/

/-- A token that may stand inside a line, strings apart. -/
def Token.Inner : Token → Prop
  | .string _ | .newline | .eof => False
  | _ => True

/-- Every token is written out, with blanks behind it. -/
inductive Printed : List Token → List Byte → Prop
  | newline : Printed [] [chr '\n']
  | comment (text : List Byte) : (∀ c ∈ text, inComment c) →
      Printed [] (chr '/' :: chr '/' :: text ++ [chr '\n'])
  | token (tok : Token) (toks : List Token) (b : Byte) (blanks line : List Byte) :
      tok.Inner → tok.Sound → isBlank b → (∀ b ∈ blanks, isBlank b) → Printed toks line →
      Printed (tok :: toks) (tok.text ++ b :: blanks ++ line)

theorem not_isIdent_of_isBlank {b : Byte} (h : isBlank b) : isIdent b = false := by
  cases hb : isIdent b with
  | true =>
    rw [isBlank_of_isIdent b hb] at h
    cases h
  | false => rfl

theorem Reading.blanks {blanks s r : List Byte} {tok : Token} {toks : List Token}
    (h : ∀ b ∈ blanks, isBlank b) (hread : Reading s (tok :: toks) r) :
    Reading (blanks ++ s) (tok :: toks) r := by
  obtain ⟨s', htok, hrest⟩ := hread.uncons
  exact .cons (htok.blanks h) hrest

/-- **A printed line is read back**, and then its newline. -/
theorem printed_reads {toks : List Token} {line : List Byte} (h : Printed toks line)
    (rest : List Byte) : ∃ r, Reading (line ++ rest) (toks ++ [.newline]) r := by
  induction h with
  | newline => exact ⟨rest, .cons (reads_newline rest) (.nil rest)⟩
  | comment text htext =>
    have hread := reads_comment htext rest
    rw [List.append_assoc]
    exact ⟨_, .cons hread (.nil _)⟩
  | token tok toks b blanks line _ hsound hb hblanks _ ih =>
    obtain ⟨r, hrest⟩ := ih
    have hends : tok.Ends b := ends_of_not_isIdent tok (not_isIdent_of_isBlank hb)
    have htok : Reads (tok.text ++ b :: (blanks ++ (line ++ rest))) tok
        (b :: (blanks ++ (line ++ rest))) :=
      reads_text hsound hends (fun _ h => absurd h List.not_mem_nil) _
    have hblanks' : ∀ c ∈ b :: blanks, isBlank c := List.forall_mem_cons.mpr ⟨hb, hblanks⟩
    have hnext : Reading (b :: blanks ++ (line ++ rest)) (toks ++ [.newline]) r := by
      cases toks with
      | nil => exact hrest.blanks hblanks'
      | cons tok' toks => exact hrest.blanks hblanks'
    refine ⟨r, ?_⟩
    rw [List.append_assoc, List.append_assoc]
    exact .cons htok hnext

/-- `RTN R1 [ x + 5 ]`, with a blank behind each token. -/
theorem printed_operands :
    ∃ r, Reading ("RTN R1 [ x + 5 ] \n".toList.map chr ++ [nul])
      [.mnemonic [chr 'R', chr 'T', chr 'N'], .register 1, .openBracket, .ident [chr 'x'], .plus,
        .number 5, .closeBracket, .newline] r := by
  have hcons : ∀ (tok : Token) {toks : List Token} {line : List Byte}, tok.Inner → tok.Sound →
      Printed toks line → Printed (tok :: toks) (tok.text ++ [chr ' '] ++ line) :=
    fun tok _ _ hin hs h => .token tok _ (chr ' ') [] _ hin hs rfl
      (fun _ h => absurd h List.not_mem_nil) h
  have hclose := hcons .closeBracket trivial trivial .newline
  have hfive := hcons (.number 5) trivial (show (5 : Word).toNat < 2 ^ 63 by decide) hclose
  have hplus := hcons .plus trivial trivial hfive
  have hx := hcons (.ident [chr 'x']) trivial ⟨by decide, by decide⟩ hplus
  have hopen := hcons .openBracket trivial trivial hx
  have hone := hcons (.register 1) trivial (show (1 : Word).toNat < 2 ^ 63 by decide) hopen
  have hrtn := hcons (.mnemonic [chr 'R', chr 'T', chr 'N']) trivial ⟨by simp, by decide⟩ hone
  exact printed_reads hrtn [nul]

/-! ## Progress -/

/-- Where an object ends with `n` characters left, a token leaves fewer. -/
def Consumes (n : Nat) (lexed : Lexed) : Prop :=
  lexed.1 = .ok → lexed.2.2.length < n

theorem consumes_rest {w r s : List Byte} (h : w ++ r = s) {status : LexerError} {tok : Token} :
    Consumes (s.length + 1) (status, tok, r) := by
  intro _
  show r.length < s.length + 1
  rw [← h, List.length_append]
  omega

theorem consumes_word (c : Byte) (s : List Byte) :
    Returns (lexWord c s) (Consumes (s.length + 1)) := by
  rcases lexWord_scans c s with ⟨-, hscans⟩ | hrefused
  · rintro ⟨status, tok, r⟩ h
    obtain ⟨w, hw, -⟩ := hscans.rest h
    exact consumes_rest hw
  · rw [hrefused]
    exact Returns.ok_iff.mpr fun hstatus => by cases hstatus

theorem consumes_register (c : Byte) (s : List Byte) :
    Returns (lexRegister c s) (Consumes (s.length + 1)) := by
  by_cases hR : c = chr 'R'
  · subst hR
    rw [lexRegister_R, Returns.bind_iff]
    rintro ⟨value, len, cursor⟩ hs
    obtain ⟨w, hw, -⟩ := (scans_digits regTooLarge 0 0 s).rest hs
    cases value with
    | none => exact Returns.ok_iff.mpr (consumes_rest hw)
    | some reg =>
      exact Returns.ite_iff.mpr ⟨fun _ => Returns.ok_iff.mpr (consumes_rest hw),
        fun _ => consumes_word _ s⟩
  · rw [lexRegister, if_neg hR]
    exact consumes_word c s

theorem consumes_nextToken (s : List Byte) : Returns (nextToken s) (Consumes s.length) := by
  induction s with
  | nil => exact Returns.error_iff.mpr trivial
  | cons c s ih =>
    by_cases hblank : isBlank c
    · rw [nextToken_blank hblank]
      exact Returns.mono ih fun _ h hok => Nat.lt_succ_of_lt (h hok)
    · have hblank : isBlank c = false := by simpa using hblank
      rw [nextToken_cons hblank]
      cases punctuation c with
      | some token => exact Returns.ok_iff.mpr fun _ => Nat.lt_succ_self s.length
      | none =>
        cases hstart : startsComment c s with
        | error e =>
          simp only [lexComment, hstart]
          exact Returns.error_iff.mpr trivial
        | ok b =>
          cases b with
          | true =>
            obtain ⟨rfl, s', rfl⟩ := startsComment_true hstart
            simp only [lexComment_true, Returns.bind_iff]
            rintro ⟨text, r⟩ hspan
            have hrest : chr '/' :: text ++ r = chr '/' :: s' := by
              rw [(spanChars_ok hspan).1]
              rfl
            exact Returns.ok_iff.mpr (consumes_rest hrest)
          | false =>
            simp only [lexComment_false hstart]
            exact consumes_register c s

/-- What a token that is not an error does to the cursor, `w` being what stands in
front of the NUL. -/
structure Advances (w : List Byte) (tok : Token) (r : List Byte) : Prop where
  within : (∃ c ∈ w, isBlank c = false) → ∃ u v, u ≠ [] ∧ u ++ v = w ∧ r = v ++ [nul]
  past : (∀ c ∈ w, isBlank c) → tok = .eof ∧ r = []

/-- The NUL is behind what has none in it. -/
theorem append_before_nul {u r w : List Byte} (hu : nul ∉ u) (h : u ++ r = w ++ [nul]) :
    ∃ v, u ++ v = w ∧ r = v ++ [nul] := by
  rcases List.append_eq_append_iff.mp h with ⟨v, hw, hr⟩ | ⟨v, hu', hr⟩
  · exact ⟨v, hw.symm, hr⟩
  · cases v with
    | nil =>
      rw [List.append_nil] at hu'
      exact ⟨[], by rw [List.append_nil, hu'], hr.symm⟩
    | cons c v =>
      have hc : nul = c := (List.cons.inj hr).1
      rw [hu', ← hc] at hu
      exact absurd (List.mem_append_right w List.mem_cons_self) hu

theorem nextToken_advances {w : List Byte} (hw : nul ∉ w) {tok : Token} {r : List Byte}
    (h : Reads (w ++ [nul]) tok r) : Advances w tok r where
  past hblank := by
    obtain ⟨htok, hr⟩ := h.unique (reads_nul hblank [])
    exact ⟨htok, hr⟩
  within := by
    rintro ⟨c, hc, hcblank⟩
    have hless : r.length < (w ++ [nul]).length := consumes_nextToken _ _ h rfl
    rcases scans_nextToken (w ++ [nul]) with hscans | ⟨blanks, t, hblanks, hsplit⟩
    · obtain ⟨u, hu, hunul⟩ := hscans.rest h
      obtain ⟨v, huv, hr⟩ := append_before_nul hunul hu
      refine ⟨u, v, ?_, huv, hr⟩
      rintro rfl
      rw [← huv, hr] at hless
      exact absurd hless (Nat.lt_irrefl _)
    · -- with nothing but blanks in front of the NUL, `c` is one of them
      have hbnul : nul ∉ blanks := fun h0 => by
        have hnul := hblanks nul h0
        rw [isBlank_nul] at hnul
        cases hnul
      obtain ⟨v, hv, ht⟩ := append_before_nul hbnul hsplit.symm
      cases v with
      | nil =>
        rw [List.append_nil] at hv
        rw [hblanks c (hv ▸ hc)] at hcblank
        cases hcblank
      | cons d v =>
        have hd : nul = d := (List.cons.inj ht).1
        rw [← hv, ← hd] at hw
        exact absurd (List.mem_append_right blanks List.mem_cons_self) hw

/-- Reading up to the end of the line, or an error, takes this many calls. -/
inductive LexerCalls : List Byte → Nat → Prop
  | last {s : List Byte} {status : LexerError} {tok : Token} {r : List Byte} :
      nextToken s = .ok (status, tok, r) → status ≠ .ok ∨ isEndOfInstr tok → LexerCalls s 1
  | more {s : List Byte} {tok : Token} {r : List Byte} {n : Nat} :
      Reads s tok r → isEndOfInstr tok = false → LexerCalls r n → LexerCalls s (n + 1)

theorem calls_le {n : Nat} {w : List Byte} (hn : w.length ≤ n) (hw : nul ∉ w) (t : List Byte) :
    ∃ k, LexerCalls (w ++ nul :: t) k ∧ k ≤ w.length + 1 := by
  induction n generalizing w with
  | zero =>
    rw [List.eq_nil_of_length_eq_zero (Nat.le_zero.mp hn)]
    have heof : Reads (nul :: t) .eof t := reads_punctuation (by decide) t
    exact ⟨1, .last heof (.inr rfl), Nat.le_refl _⟩
  | succ n ih =>
    obtain ⟨status, tok, r, h⟩ := nextToken_total (List.mem_append_right w List.mem_cons_self)
    have hext : nextToken (w ++ nul :: t) = .ok (status, tok, r ++ t) := by
      rw [List.append_cons]
      exact nextToken_extend h t
    by_cases hlast : status ≠ .ok ∨ isEndOfInstr tok
    · exact ⟨1, .last hext hlast, Nat.le_add_left ..⟩
    · obtain ⟨hstatus, htok⟩ := not_or.mp hlast
      rw [not_not.mp hstatus] at h hext
      have hend : isEndOfInstr tok = false := by simpa using htok
      have hadvances := nextToken_advances hw h
      have hinner : ∃ c ∈ w, isBlank c = false := by
        by_contra hnone
        obtain ⟨heof, -⟩ := hadvances.past fun c hc => by
          by_contra hblank
          exact hnone ⟨c, hc, by simpa using hblank⟩
        rw [heof] at htok
        exact htok rfl
      obtain ⟨u, v, hu, rfl, rfl⟩ := hadvances.within hinner
      have hpos : 0 < u.length := List.length_pos_iff.mpr hu
      rw [List.length_append] at hn ⊢
      obtain ⟨k, hcalls, hk⟩ := ih (w := v) (by omega) fun h0 => hw (List.mem_append_right u h0)
      have hread : Reads (u ++ v ++ nul :: t) tok (v ++ nul :: t) := by
        rw [List.append_cons v nul t]
        exact hext
      exact ⟨k + 1, .more hread hend hcalls, by omega⟩

/-- **The lexer stops.**  `w` is what stands in front of the first NUL and `t`, maybe
nothing, what the buffer holds behind it. -/
theorem lexer_progress {w : List Byte} (hw : nul ∉ w) :
    (∃ status tok r, (∀ t, nextToken (w ++ nul :: t) = .ok (status, tok, r ++ t)) ∧
      (status = .ok → Advances w tok r)) ∧
    ∀ t, ∃ n, LexerCalls (w ++ nul :: t) n ∧ n ≤ w.length + 1 := by
  obtain ⟨status, tok, r, h⟩ := nextToken_total (List.mem_append_right w List.mem_cons_self)
  refine ⟨⟨status, tok, r, fun t => ?_, ?_⟩, calls_le (Nat.le_refl _) hw⟩
  · rw [List.append_cons]
    exact nextToken_extend h t
  · rintro rfl
    exact nextToken_advances hw h

/-- A backslash in front of the NUL. -/
theorem lexer_progress_escape :
    (∃ status tok r, (∀ t, nextToken ([chr '"', chr '\\'] ++ nul :: t) =
        .ok (status, tok, r ++ t)) ∧ (status = .ok → Advances [chr '"', chr '\\'] tok r)) ∧
    ∀ t, ∃ n, LexerCalls ([chr '"', chr '\\'] ++ nul :: t) n ∧ n ≤ 3 :=
  lexer_progress (by decide)

end BSVM
