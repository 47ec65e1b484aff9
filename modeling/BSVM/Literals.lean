/-
# `BSVM.Literals` — numbers and strings as they are written

The loop over the digits of a number tests `value * 10` against `INT64_MAX` and
adds the digit behind the test.  Two values get past it: where the digits up to
some point are 9223372036854775808 or ...809, the sum does not fit
(`number_iff`).  A register's number is not signed, and has room for both.

The loop over a string turns every escape back into the character that it was
written for but `\"`, which it takes for a tab (`string_iff`).
-/
import BSVM.Lib.Horner
import BSVM.Scanning

namespace BSVM

/-! ## Digits -/

def figures (d : List Byte) : List Nat :=
  d.map fun c => (digit c).toNat

/-- The decimal value. -/
def decimal (d : List Byte) : Nat :=
  Horner.value 10 0 (figures d)

theorem digit_lt {c : Byte} (h : isdigit c) : (digit c).toNat < 10 := by
  have hc : 48 ≤ c.toNat ∧ c.toNat ≤ 57 := between h
  have h0 : (chr '0').toNat = 48 := rfl
  rw [digit, BitVec.toNat_setWidth, BitVec.toNat_sub, h0]
  omega

theorem figures_lt {d : List Byte} (h : ∀ c ∈ d, isdigit c) : ∀ n ∈ figures d, n < 10 := by
  intro n hn
  obtain ⟨c, hc, rfl⟩ := List.mem_map.mp hn
  exact digit_lt (h c hc)

theorem add_digit (v : Nat) (c : Byte) :
    BitVec.ofNat 64 v * 10 + digit c = BitVec.ofNat 64 (10 * v + (digit c).toNat) := by
  rw [BitVec.ofNat_add, BitVec.ofNat_mul, BitVec.mul_comm, BitVec.ofNat_toNat, BitVec.setWidth_eq]
  rfl

/-- What a loop over digits returns, with the guarded loop's number. -/
def Scanned (result : Option Nat) (len : Nat) (cursor : List Byte)
    (x : Exec (Option Word × Nat × List Byte)) : Prop :=
  match result with
  | some n => x = .ok (some (BitVec.ofNat 64 n), len, cursor)
  | none => ∃ len' r, x = .ok (none, len', r)

/-- A loop over digits is the guarded loop, as long as that stays where its test is
the one on numbers. -/
theorem scan_guarded {tooLarge : Word → Bool} {bound limit : Nat}
    (htest : ∀ v < bound, tooLarge (BitVec.ofNat 64 v) = decide (limit < 10 * v)) {d : List Byte}
    (hd : ∀ c ∈ d, isdigit c) {c : Byte} (hc : isdigit c = false) (s : List Byte) {v : Nat}
    (hv : ∀ n ∈ Horner.reached 10 limit v (figures d), n < bound) (len : Nat) :
    Scanned (Horner.guarded 10 limit v (figures d)) (len + d.length) (c :: s)
      (scanDigits tooLarge (BitVec.ofNat 64 v) len (d ++ c :: s)) := by
  induction d generalizing v len with
  | nil =>
    show scanDigits tooLarge (BitVec.ofNat 64 v) len (c :: s) = _
    rw [scanDigits, hc]
    rfl
  | cons e d ih =>
    obtain ⟨he, hd⟩ := List.forall_mem_cons.mp hd
    obtain ⟨hlt, hv⟩ := List.forall_mem_cons.mp hv
    rw [List.cons_append, scanDigits, if_pos he, htest v hlt, figures, List.map_cons,
      Horner.guarded]
    by_cases hlarge : limit < 10 * v
    · rw [if_pos hlarge, if_pos (decide_eq_true hlarge)]
      exact ⟨_, _, rfl⟩
    · rw [if_neg hlarge] at hv
      have hrest := ih hd hv (len + 1)
      rw [if_neg hlarge, if_neg (by simpa using hlarge), add_digit, List.length_cons,
        Nat.add_comm d.length, ← Nat.add_assoc]
      exact hrest

/-! ## Numbers -/

/-- The products and digits that a loop adds up, in order. -/
def additions (tooLarge : Word → Bool) (value : Word) : List Byte → List (Word × Byte)
  | [] => []
  | c :: s =>
      if isdigit c then
        if tooLarge value then [] else (value, c) :: additions tooLarge (value * 10 + digit c) s
      else []

/-- `value * 10 + (*cursor - '0')` fits in an `int64_t`. -/
def AdditionFits (x : Word × Byte) : Prop :=
  x.1.toInt * 10 + (digit x.2).toNat < 2 ^ 63

/-- A number, the digit `e` and then `d`, is read for what it says or is refused, and
the accumulator does not overflow. -/
structure ReadsNumber (e : Byte) (d cursor : List Byte) : Prop where
  small : decimal (e :: d) < 2 ^ 63 → ∃ n : Word, n.toInt = decimal (e :: d) ∧
    nextToken (e :: d ++ cursor) = .ok (.ok, .number n, cursor)
  large : 2 ^ 63 ≤ decimal (e :: d) → ∃ tok r,
    nextToken (e :: d ++ cursor) = .ok (.invalidToken, tok, r)
  fits : ∀ x ∈ additions valueTooLarge (digit e) (d ++ cursor), AdditionFits x

theorem toInt_ofNat {v : Nat} (h : v < 2 ^ 63) : (BitVec.ofNat 64 v).toInt = v := by
  have hv : (BitVec.ofNat 64 v).toNat = v := Nat.mod_eq_of_lt (by omega)
  rw [BitVec.toInt_eq_toNat_of_lt (by omega), hv]

theorem valueTooLarge_eq {v : Nat} (h : v < 2 ^ 63) :
    valueTooLarge (BitVec.ofNat 64 v) = decide (2 ^ 63 - 1 < 10 * v) := by
  rw [valueTooLarge, toInt_ofNat h]
  exact decide_eq_decide.mpr (by omega)

/-- No overflow is what the guarded loop stays within its limit for. -/
theorem additions_fit_iff {d : List Byte} (hd : ∀ c ∈ d, isdigit c) {c : Byte}
    (hc : isdigit c = false) (s : List Byte) {v : Nat} (hv : v < 2 ^ 63) :
    (∀ x ∈ additions valueTooLarge (BitVec.ofNat 64 v) (d ++ c :: s), AdditionFits x) ↔
      ∀ n ∈ Horner.reached 10 (2 ^ 63 - 1) v (figures d), n < 2 ^ 63 := by
  induction d generalizing v with
  | nil =>
    rw [List.nil_append, additions, hc]
    exact ⟨fun _ => List.forall_mem_singleton.mpr hv, fun _ => List.forall_mem_nil _⟩
  | cons e d ih =>
    obtain ⟨he, hd⟩ := List.forall_mem_cons.mp hd
    rw [List.cons_append, additions, if_pos he, valueTooLarge_eq hv, figures, List.map_cons,
      Horner.reached, List.forall_mem_cons, and_iff_right hv]
    by_cases hlarge : 2 ^ 63 - 1 < 10 * v
    · rw [if_pos hlarge, if_pos (decide_eq_true hlarge)]
      exact ⟨fun _ => List.forall_mem_nil _, fun _ => List.forall_mem_nil _⟩
    · have hfirst : AdditionFits (BitVec.ofNat 64 v, e) ↔ 10 * v + (digit e).toNat < 2 ^ 63 := by
        show (BitVec.ofNat 64 v).toInt * 10 + (digit e).toNat < 2 ^ 63 ↔ _
        rw [toInt_ofNat hv]
        omega
      rw [if_neg hlarge, if_neg (by simpa using hlarge), add_digit, List.forall_mem_cons, hfirst]
      by_cases hnext : 10 * v + (digit e).toNat < 2 ^ 63
      · rw [and_iff_right hnext]
        exact ih hd hnext
      · exact ⟨fun h => absurd h.1 hnext, fun h => absurd (h _ Horner.mem_reached_self) hnext⟩

theorem nextToken_number {e : Byte} (he : isdigit e) (s : List Byte) :
    nextToken (e :: s) = scanDigits valueTooLarge (digit e) 0 s >>=
      fun x => .ok ((numeral x.1).1, (numeral x.1).2, x.2.2) := by
  rw [nextToken_ident (isIdent_of_isdigit e he), lexRegister, if_neg (not_R_of_isdigit e he),
    lexWord_digit he]

/-- Only two numbers are above the limit by their last digit. -/
theorem edge_iff {n : Nat} :
    (2 ^ 63 - 1 < n → 2 ^ 63 - 1 < 10 * (n / 10)) ↔ n ≠ 2 ^ 63 ∧ n ≠ 2 ^ 63 + 1 := by
  omega

/-- The first digit is not tested. -/
theorem within_iff {e : Byte} (he : isdigit e) {d : List Byte} (hd : ∀ c ∈ d, isdigit c) :
    (∀ n ∈ Horner.reached 10 (2 ^ 63 - 1) (digit e).toNat (figures d), n < 2 ^ 63) ↔
      ∀ p, p <+: e :: d → decimal p ≠ 2 ^ 63 ∧ decimal p ≠ 2 ^ 63 + 1 := by
  have hlt := digit_lt he
  have hle : ∀ n, n < 2 ^ 63 ↔ n ≤ 2 ^ 63 - 1 := fun n => by omega
  simp only [hle]
  rw [Horner.reached_le_iff (figures_lt hd) (by omega)]
  simp only [edge_iff]
  constructor
  · intro h p hp
    rcases List.prefix_cons_iff.mp hp with rfl | ⟨p, rfl, hrest⟩
    · exact ⟨by decide, by decide⟩
    · have hedge := h (figures p) (hrest.map _)
      have hfirst : decimal (e :: p) = Horner.value 10 (digit e).toNat (figures p) := by
        rw [decimal, figures, List.map_cons, Horner.value_cons, Nat.mul_zero, Nat.zero_add]
        rfl
      rw [hfirst]
      exact hedge
  · intro h q hq
    obtain ⟨p, hp, rfl⟩ : ∃ p, p <+: d ∧ q = figures p := by
      refine ⟨d.take q.length, List.take_prefix .., ?_⟩
      rw [figures, List.map_take]
      exact List.prefix_iff_eq_take.mp hq
    have hedge := h (e :: p) ((List.prefix_cons_inj e).mpr hp)
    rw [decimal, figures, List.map_cons, Horner.value_cons, Nat.mul_zero, Nat.zero_add] at hedge
    exact hedge

/-- **A number is read for what it says**, or refused, exactly if no beginning of it is
9223372036854775808 or ...809. -/
theorem number_iff {e : Byte} {d : List Byte} (he : isdigit e) (hd : ∀ c ∈ d, isdigit c)
    {c : Byte} (hc : isdigit c = false) (s : List Byte) :
    ReadsNumber e d (c :: s) ↔
      ∀ p, p <+: e :: d → decimal p ≠ 2 ^ 63 ∧ decimal p ≠ 2 ^ 63 + 1 := by
  have hlt := digit_lt he
  have hfirst : BitVec.ofNat 64 (digit e).toNat = digit e := by
    rw [BitVec.ofNat_toNat, BitVec.setWidth_eq]
  have hfits := additions_fit_iff hd hc s (v := (digit e).toNat) (by omega)
  rw [hfirst] at hfits
  rw [← within_iff he hd, ← hfits]
  refine ⟨fun h => h.fits, fun h => ?_⟩
  have hreached := hfits.mp h
  have hedge := (within_iff he hd).mp hreached (e :: d) (List.prefix_refl _)
  have hscan := scan_guarded (fun v hv => valueTooLarge_eq hv) hd hc s hreached 0
  have hvalue : Horner.guarded 10 (2 ^ 63 - 1) (digit e).toNat (figures d) =
      if 2 ^ 63 ≤ decimal (e :: d) then none else some (decimal (e :: d)) := by
    have heq := @Horner.guarded_eq 10 (2 ^ 63 - 1) 0 ((digit e).toNat :: figures d)
      (List.cons_ne_nil _ _) (List.forall_mem_cons.mpr ⟨hlt, figures_lt hd⟩)
    rw [Horner.guarded, if_neg (by decide), Nat.mul_zero, Nat.zero_add] at heq
    rw [heq]
    refine if_congr ?_ rfl rfl
    have hnot := edge_iff.mpr hedge
    show 2 ^ 63 - 1 < 10 * (decimal (e :: d) / 10) ↔ _
    omega
  rw [hvalue, hfirst] at hscan
  refine ⟨fun hsmall => ?_, fun hlarge => ?_, h⟩
  · rw [if_neg (Nat.not_le.mpr hsmall)] at hscan
    refine ⟨BitVec.ofNat 64 (decimal (e :: d)), toInt_ofNat hsmall, ?_⟩
    rw [List.cons_append, nextToken_number he, show _ = _ from hscan]
    rfl
  · rw [if_pos hlarge] at hscan
    obtain ⟨len, r, hscan⟩ := hscan
    refine ⟨.number 0, r, ?_⟩
    rw [List.cons_append, nextToken_number he, hscan]
    rfl

/-- `07` in front of a blank. -/
theorem number_seven : ReadsNumber (chr '0') [chr '7'] [chr ' '] := by
  refine (number_iff (e := chr '0') (by decide) (by decide) (by decide) []).mpr fun p hp => ?_
  rcases List.prefix_cons_iff.mp hp with rfl | ⟨q, rfl, hq⟩
  · decide
  rcases List.prefix_cons_iff.mp hq with rfl | ⟨q', rfl, hq'⟩
  · decide
  · rw [List.prefix_nil.mp hq']
    decide

/-- 9223372036854775808 is read as `INT64_MIN`. -/
theorem number_past_max :
    let d := "223372036854775808".toList.map chr
    nextToken (chr '9' :: d ++ [nul]) = .ok (.ok, .number (BitVec.intMin 64), [nul]) ∧
      ¬ ReadsNumber (chr '9') d [nul] := by
  intro d
  have hread : nextToken (chr '9' :: d ++ [nul]) =
      .ok (.ok, .number (BitVec.intMin 64), [nul]) := by decide
  refine ⟨hread, fun h => ?_⟩
  obtain ⟨tok, r, hrefused⟩ := h.large (by decide)
  rw [hread] at hrefused
  cases hrefused

/-! ## Strings -/

/-- What stands behind the backslash, of a character that is not written raw. -/
def escapeOf (c : Byte) : Option Byte :=
  if c = chr '\n' then some (chr 'n')
  else if c = chr '\t' then some (chr 't')
  else if c = chr '\r' then some (chr 'r')
  else if c = chr '"' then some (chr '"')
  else if c = chr '\\' then some (chr '\\')
  else if c = nul then some (chr '0')
  else none

def escaped (c : Byte) : List Byte :=
  match escapeOf c with
  | some e => [chr '\\', e]
  | none => [c]

def quoted (s : List Byte) : List Byte :=
  chr '"' :: s.flatMap escaped ++ [chr '"']

/-- The character that is stored. -/
def readBack (c : Byte) : Byte :=
  if c = chr '"' then chr '\t' else c

theorem escapeSequence_back : ∀ c e, escapeOf c = some e →
    escapeSequence e = readBack c ∧ escapeSequence e ≠ EOF := by
  intro c e h
  rw [escapeOf] at h
  repeat' split at h
  all_goals cases h
  all_goals subst c; decide

theorem raw {c : Byte} (h : escapeOf c = none) :
    readBack c = c ∧ c ≠ nul ∧ c ≠ chr '"' ∧ c ≠ chr '\\' := by
  have hne : ∀ d, (escapeOf d).isSome → c ≠ d := by
    rintro d hd rfl
    rw [h] at hd
    cases hd
  have hquote : c ≠ chr '"' := hne _ rfl
  exact ⟨if_neg hquote, hne _ rfl, hquote, hne _ rfl⟩

theorem scanString_escaped {str : List Byte} {strSize : Nat} (h : Buffered str strSize) (c : Byte)
    (s : List Byte) : scanString str strSize (escaped c ++ s) =
      scanString (str ++ [readBack c]) (grown str strSize) s := by
  rw [escaped]
  cases hc : escapeOf c with
  | none =>
    obtain ⟨hback, hnul, hquote, hslash⟩ := raw hc
    rw [hback]
    exact scanString_char h hnul hquote hslash s
  | some e =>
    obtain ⟨hback, heof⟩ := escapeSequence_back c e hc
    rw [← hback]
    exact (scanString_escape h e s).trans (if_neg heof)

theorem scanString_quoted {s : List Byte} {str : List Byte} {strSize : Nat}
    (h : Buffered str strSize) (rest : List Byte) :
    scanString str strSize (s.flatMap escaped ++ chr '"' :: rest) =
      .ok (.ok, .string (str ++ s.map readBack), rest) := by
  induction s generalizing str strSize with
  | nil =>
    rw [List.map_nil, List.append_nil]
    show scanString str strSize (chr '"' :: rest) = _
    rw [scanString, if_neg (by decide), if_pos rfl]
  | cons c s ih =>
    have hstored : str ++ (c :: s).map readBack = str ++ [readBack c] ++ s.map readBack := by
      rw [List.append_assoc]
      rfl
    rw [List.flatMap_cons, List.append_assoc, scanString_escaped h, ih (h.store _), hstored]

theorem nextToken_quoted (s rest : List Byte) :
    nextToken (quoted s ++ rest) = .ok (.ok, .string (s.map readBack), rest) := by
  rw [quoted, List.append_assoc, List.cons_append, List.singleton_append, nextToken_quote,
    scanString_quoted ⟨Nat.zero_le _, by decide⟩, List.nil_append]

/-- **A string is read back** exactly if there is no `"` in it. -/
theorem string_iff (s rest : List Byte) :
    Reads (quoted s ++ rest) (.string s) rest ↔ chr '"' ∉ s := by
  have hback : Reads (quoted s ++ rest) (.string s) rest ↔ s.map readBack = s := by
    rw [Reads, nextToken_quoted]
    simp only [Except.ok.injEq, Prod.mk.injEq, Token.string.injEq, true_and, and_true]
  have hself : ∀ c, readBack c = c ↔ c ≠ chr '"' := by
    intro c
    rw [readBack]
    split
    case isTrue hc => exact ⟨fun h => absurd (h.trans hc) (by decide), fun h => absurd hc h⟩
    case isFalse hc => exact ⟨fun _ => hc, fun _ => rfl⟩
  have hsame : s.map readBack = s ↔ ∀ c ∈ s, readBack c = c := by
    have h : s.map readBack = s.map id ↔ _ := List.map_inj_left
    rwa [List.map_id] at h
  rw [hback, hsame]
  simp only [hself]
  exact ⟨fun h hmem => h _ hmem rfl, fun h c hc heq => h (heq ▸ hc)⟩

/-- `"\""` is read as a tab. -/
theorem quote_read_as_tab :
    nextToken (quoted [chr '"'] ++ [nul]) = .ok (.ok, .string [chr '\t'], [nul]) ∧
      ¬ Reads (quoted [chr '"'] ++ [nul]) (.string [chr '"']) [nul] := by
  have hread : nextToken (quoted [chr '"'] ++ [nul]) = .ok (.ok, .string [chr '\t'], [nul]) := by
    decide
  refine ⟨hread, fun h => ?_⟩
  rw [Reads, hread] at h
  revert h
  decide

end BSVM
