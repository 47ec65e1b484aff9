/-
# `BSVM.RegisterNumbers` — from the number behind `R` to the byte in the code

The lexer keeps 64 bits of the number and refuses it from 2^63 + 2 on.  A plain
operand is compared with `UINT8_MAX`; the base of an operand in brackets is cut
to a byte without a test, so that `[R256]` is assembled as `[R0]`
(`register_iff`).

    nextToken_register   what the lexer makes of the digits
    operand_base         the register of an operand is the token's last byte
    register_emitted     and that byte is emitted
-/
import BSVM.Emission
import BSVM.Literals
import BSVM.Resolution
import BSVM.RoundTrip
import BSVM.Terminator

namespace BSVM

/-! ## How a register is written -/

/-- `Rn`, `[Rn]`, and `[Rn+k]` or `[Rn-k]`. -/
inductive RegForm where
  | plain
  | ind
  | idx (neg : Bool)

/-- The tokens in front of the register. -/
def RegForm.front : RegForm → List Token
  | .plain => []
  | .ind | .idx _ => [.openBracket]

/-- The tokens behind it. -/
def RegForm.back : RegForm → Word → List Token
  | .plain, _ => []
  | .ind, _ => [.closeBracket]
  | .idx neg, k => [sign neg, .number k, .closeBracket]

/-- The tokens in front of an operand of an instruction, and where its register
stands in the code. -/
inductive Before : List Token → Nat → Prop
  | first (text : List Byte) : Before [.mnemonic text] 2
  | second (text : List Byte) (a : List Token) : Accepted a →
      Before (.mnemonic text :: (a ++ [.comma])) 3

/-- A line with an operand in which `d` is the number of the register, and the place
of that register. -/
inductive WrittenIn (d : List Byte) (form : RegForm) : List Byte → Nat → Prop
  | mk {buffer s r blanks : List Byte} {toks : List Token} {place : Nat} {c : Byte} {k : Word} :
      Before toks place → (∀ b ∈ blanks, isBlank b) → isdigit c = false →
      Reading buffer (toks ++ form.front) (blanks ++ (chr 'R' :: d ++ c :: s)) →
      Reading (c :: s) (form.back k) r → WrittenIn d form buffer place

/-- The line is parsed, both passes accept a list with its node, and the node's
instruction has this address in the code. -/
inductive Assembles (buffer : List Byte) : Nat → HostArray → Prop
  | mk {ptr : Nat → Word} {slot : Slot} {lexer : Lexer} {node : IRNode} {irList : IRList}
      {pre post : List IRNode} {status₁ status₂ : AsmError} {ass₀ ass₁ ass₂ : Assembler} :
      parseLine ptr buffer (some slot) lexer = .ok (.ok node) →
      irList.nodes = pre ++ node :: post →
      assemblerFirstPass status₁ ass₀ irList = .ok (.ok, ass₁) →
      assemblerSecondPass status₂ ass₁ irList = .ok (.ok, ass₂) →
      Assembles buffer (layoutOf pre).text ass₂.bytecode

/-- Wherever the number is written so, it is the byte in the code. -/
def RegisterExact (d : List Byte) (form : RegForm) : Prop :=
  ∀ {buffer place address code}, WrittenIn d form buffer place → Assembles buffer address code →
    ∃ byte, code.read (address + place) = some byte ∧ byte.toNat = decimal d

/-! ## The lexer -/

theorem regTooLarge_eq {v : Nat} (h : v < 2 ^ 64) :
    regTooLarge (BitVec.ofNat 64 v) = decide (2 ^ 63 - 1 < 10 * v) := by
  have hv : (BitVec.ofNat 64 v).toNat = v := Nat.mod_eq_of_lt h
  rw [regTooLarge, hv, Nat.mul_comm]

/-- The digits are read up to 2^63 + 1. -/
theorem nextToken_register {d : List Byte} (hne : d ≠ []) (hd : ∀ c ∈ d, isdigit c) {c : Byte}
    (hc : isdigit c = false) (s : List Byte) :
    (2 ^ 63 + 2 ≤ decimal d ∧
      ∃ r, nextToken (chr 'R' :: d ++ c :: s) = .ok (.invalidToken, .register 0, r)) ∨
    (decimal d < 2 ^ 63 + 2 ∧
      Reads (chr 'R' :: d ++ c :: s) (.register (BitVec.ofNat 64 (decimal d))) (c :: s)) := by
  have hfigures := figures_lt hd
  have hreached : ∀ n ∈ Horner.reached 10 (2 ^ 63 - 1) 0 (figures d), n < 2 ^ 64 := fun n hn =>
    Nat.lt_trans (Horner.reached_lt hfigures (by decide) n hn) (by decide)
  have hscan := scan_guarded (fun v hv => regTooLarge_eq hv) hd hc s hreached 0
  rw [Horner.guarded_eq (by simpa [figures] using hne) hfigures, ← decimal] at hscan
  have hR : isIdent (chr 'R') := by decide
  rw [Reads, List.cons_append, nextToken_ident hR, lexRegister_R]
  by_cases hlarge : 2 ^ 63 + 2 ≤ decimal d
  · have hlimit : 2 ^ 63 - 1 < 10 * (decimal d / 10) := by omega
    rw [if_pos hlimit] at hscan
    obtain ⟨len, r, hscan⟩ := hscan
    refine .inl ⟨hlarge, r, ?_⟩
    rw [show scanDigits regTooLarge 0 0 (d ++ c :: s) = _ from hscan]
    rfl
  · have hlimit : ¬ 2 ^ 63 - 1 < 10 * (decimal d / 10) := by omega
    rw [if_neg hlimit] at hscan
    have hlen : 0 < 0 + d.length := by
      rw [Nat.zero_add]
      exact List.length_pos_iff.mpr hne
    refine .inr ⟨Nat.not_le.mp hlarge, ?_⟩
    rw [show scanDigits regTooLarge 0 0 (d ++ c :: s) = _ from hscan, Except.ok_bind]
    exact if_pos hlen

/-! ## The parser -/

theorem parseLine_instr {ptr : Nat → Word} {buffer s text : List Byte} {slot : Slot}
    {lexer : Lexer} {node : IRNode}
    (h : parseLine ptr buffer (some slot) lexer = .ok (.ok node))
    (hread : Reads buffer (.mnemonic text) s) :
    ∃ l', parseInstr ptr slot text ⟨s, lexer.line⟩ = .ok (.ok (node.body, l')) := by
  have hnext : next { lexer with cursor := buffer } = .ok (.mnemonic text, ⟨s, lexer.line⟩) :=
    next_iff.mpr ⟨hread, rfl⟩
  unfold parseLine at h
  rw [hnext, Except.ok_bind] at h
  obtain ⟨x, hx, h⟩ := Except.bind_eq_ok.mp h
  cases hx
  exact node_ok h

/-! ## The operand -/

/-- An operand with this register. -/
inductive HasBase (b : Byte) : Operand → Prop
  | reg : HasBase b (.reg b)
  | memReg : HasBase b (.memReg b)
  | memIdx (k : Word) : HasBase b (.memIdx b k)

theorem operand_base {ptr w : Word} {ope o : Operand} {form : RegForm} {toks : List Token}
    (h : Accepts ptr ope (form.front ++ .register w :: toks) o) :
    HasBase (w.setWidth 8) o ∧ (form = .plain → w.toNat ≤ 255) := by
  cases form with
  | plain =>
    cases h with
    | reg w hw => exact ⟨.reg, fun _ => hw⟩
  | ind | idx neg =>
    refine ⟨?_, fun hform => by cases hform⟩
    cases h with
    | memReg w => exact .memReg
    | memIdx w neg k => exact .memIdx _
    | loose t u n ht => cases ht

/-- What an accepted operand begins with, if it begins like the form. -/
theorem accepts_front {ptr : Word} {ope o : Operand} {as : List Token} {form : RegForm}
    {cursor r r₁ : List Byte} (hacc : Accepts ptr ope as o) (hrun : Reading cursor as r₁)
    (hfront : Reading cursor form.front r) :
    ∃ tok toks r', as = form.front ++ tok :: toks ∧ Reads r tok r' := by
  obtain ⟨tok, toks, rfl⟩ : ∃ tok toks, as = tok :: toks := by
    cases hacc <;> exact ⟨_, _, rfl⟩
  obtain ⟨r', hread, hrest⟩ := hrun.uncons
  cases form with
  | plain =>
    cases hfront
    exact ⟨tok, toks, r', rfl, hread⟩
  | ind | idx neg =>
    obtain ⟨r'', hopen, hnil⟩ := hfront.uncons
    cases hnil
    obtain ⟨rfl, rfl⟩ := hread.unique hopen
    obtain ⟨t, ts, rfl, -⟩ := hacc.bracket
    obtain ⟨r₂, hread', -⟩ := hrest.uncons
    exact ⟨t, ts, r₂, rfl, hread'⟩

/-- Tokens that are accepted are all that is accepted there. -/
theorem accepted_unique {ptr : Word} {ope o : Operand} {as as' : List Token}
    {cursor r r' : List Byte} (hacc : Accepts ptr ope as o) (hrun : Reading cursor as r)
    (hacc' : Accepted as') (hrun' : Reading cursor as' r') : r = r' := by
  obtain ⟨o₀, hacc₀⟩ := hacc'
  obtain ⟨o', hacc'⟩ := hacc₀.change ptr ope
  cases as with
  | nil => cases hacc
  | cons tok toks =>
    cases as' with
    | nil => cases hacc'
    | cons tok' toks' =>
      obtain ⟨s, hread, hrest⟩ := hrun.uncons
      obtain ⟨s', hread', hrest'⟩ := hrun'.uncons
      obtain ⟨rfl, rfl⟩ := hread.unique hread'
      have h : parseInstrOPE ptr ope tok ⟨s, 0⟩ = .ok (.ok (o, ⟨r, 0⟩)) :=
        parseInstrOPE_iff.mpr ⟨toks, ⟨hrest, rfl⟩, hacc⟩
      have h' : parseInstrOPE ptr ope tok ⟨s, 0⟩ = .ok (.ok (o', ⟨r', 0⟩)) :=
        parseInstrOPE_iff.mpr ⟨toks', ⟨hrest', rfl⟩, hacc'⟩
      cases h.symm.trans h'
      rfl

/-- The token that the number of a register is read as. -/
theorem register_token {d : List Byte} (hne : d ≠ []) (hd : ∀ c ∈ d, isdigit c) {c : Byte}
    (hc : isdigit c = false) {s blanks : List Byte} (hblanks : ∀ b ∈ blanks, isBlank b)
    {tok : Token} {r : List Byte} (h : Reads (blanks ++ (chr 'R' :: d ++ c :: s)) tok r) :
    decimal d < 2 ^ 63 + 2 ∧ tok = .register (BitVec.ofNat 64 (decimal d)) := by
  rw [Reads, nextToken_blanks hblanks] at h
  rcases nextToken_register hne hd hc s with ⟨-, r', hinvalid⟩ | ⟨hlt, hread⟩
  · cases hinvalid.symm.trans h
  · exact ⟨hlt, (Reads.unique h hread).1⟩

/-- The number of a register as an operand has it. -/
theorem number_cut (n : Nat) : (BitVec.ofNat 64 n).setWidth 8 = BitVec.ofNat 8 n :=
  BitVec.setWidth_ofNat_of_le (by decide) n

/-- The register of an accepted operand, wherever the operand stands. -/
theorem accepts_written {d : List Byte} (hne : d ≠ []) (hd : ∀ c ∈ d, isdigit c)
    {form : RegForm} {blanks s cursor r : List Byte} {c : Byte} (hblanks : ∀ b ∈ blanks, isBlank b)
    (hc : isdigit c = false) {ptr : Word} {ope o : Operand} {as : List Token}
    (hacc : Accepts ptr ope as o) (hrun : Reading cursor as r)
    (hfront : Reading cursor form.front (blanks ++ (chr 'R' :: d ++ c :: s))) :
    decimal d < 2 ^ 63 + 2 ∧ (form = .plain → decimal d < 256) ∧
      HasBase (BitVec.ofNat 8 (decimal d)) o := by
  obtain ⟨tok, toks, r', rfl, hread⟩ := accepts_front hacc hrun hfront
  obtain ⟨hlt, rfl⟩ := register_token hne hd hc hblanks hread
  obtain ⟨hbase, hplain⟩ := operand_base hacc
  rw [number_cut] at hbase
  refine ⟨hlt, fun hform => ?_, hbase⟩
  have hsmall := hplain hform
  rw [BitVec.toNat_ofNat, Nat.mod_eq_of_lt (by omega)] at hsmall
  omega

/-- The line does not end where an operand of the form begins. -/
theorem front_not_end {d : List Byte} (hne : d ≠ []) (hd : ∀ c ∈ d, isdigit c) {form : RegForm}
    {blanks s cursor r : List Byte} {c : Byte} (hblanks : ∀ b ∈ blanks, isBlank b)
    (hc : isdigit c = false) {e : Token}
    (hfront : Reading cursor form.front (blanks ++ (chr 'R' :: d ++ c :: s)))
    (hread : Reads cursor e r) : ¬ isEndOfInstr e := by
  intro hend
  cases form with
  | plain =>
    cases hfront
    obtain ⟨-, rfl⟩ := register_token hne hd hc hblanks hread
    cases hend
  | ind | idx neg =>
    obtain ⟨_, hopen, -⟩ := hfront.uncons
    rw [(hread.unique hopen).1] at hend
    cases hend

/-- Nor does it where tokens are accepted. -/
theorem accepted_not_end {as : List Token} (hacc : Accepted as) {cursor r r' : List Byte}
    (hrun : Reading cursor as r) {e : Token} (hread : Reads cursor e r') : ¬ isEndOfInstr e := by
  intro hend
  obtain ⟨o, hacc⟩ := hacc
  cases as with
  | nil => cases hacc
  | cons tok toks =>
    obtain ⟨_, hread', -⟩ := hrun.uncons
    rw [(hread.unique hread').1] at hend
    cases hacc <;> cases hend

/-- The operand whose register has this place. -/
def operandAt (place : Nat) (a b : Operand) : Operand :=
  if place = 2 then a else b

/-- **The register of a written operand is the number, cut to a byte**, and a plain one
is not cut. -/
theorem operand_written {d : List Byte} (hne : d ≠ []) (hd : ∀ c ∈ d, isdigit c)
    {form : RegForm} {buffer : List Byte} {place : Nat} (hwritten : WrittenIn d form buffer place)
    {ptr : Nat → Word} {slot : Slot} {lexer : Lexer} {node : IRNode}
    (hparse : parseLine ptr buffer (some slot) lexer = .ok (.ok node)) :
    decimal d < 2 ^ 63 + 2 ∧ (form = .plain → decimal d < 256) ∧ (place = 2 ∨ place = 3) ∧
      ∃ op a b, node.body = .instr op a b ∧
        HasBase (BitVec.ofNat 8 (decimal d)) (operandAt place a b) := by
  obtain ⟨hbefore, hblanks, hc, hrun, -⟩ := hwritten
  cases hbefore with
  | first text =>
    obtain ⟨s₁, hname, hfront⟩ := hrun.uncons
    obtain ⟨l', hinstr⟩ := parseLine_instr hparse hname
    obtain ⟨op, a, b, hbody, ⟨e, l, hnext, hend, -⟩ | ⟨as, l₁, -, -, has, hacc, -⟩⟩ :=
      parseInstr_ok hinstr
    · obtain ⟨hread, -⟩ := next_iff.mp hnext
      exact absurd hend (front_not_end hne hd hblanks hc hfront hread)
    · obtain ⟨hlt, hplain, hbase⟩ := accepts_written hne hd hblanks hc hacc has.1 hfront
      exact ⟨hlt, hplain, .inl rfl, op, a, b, hbody, hbase⟩
  | second text as₀ has₀ =>
    obtain ⟨s₁, hname, hrest⟩ := hrun.uncons
    obtain ⟨s₃, hleft, hfront⟩ := hrest.split
    obtain ⟨s₂, hfirst, hcomma⟩ := hleft.split
    obtain ⟨l', hinstr⟩ := parseLine_instr hparse hname
    obtain ⟨op, a, b, hbody, ⟨e, l, hnext, hend, -⟩ | ⟨as, l₁, tok, l₂, has, hacc, hsep, hrest⟩⟩ :=
      parseInstr_ok hinstr
    · obtain ⟨hread, -⟩ := next_iff.mp hnext
      exact absurd hend (accepted_not_end has₀ hfirst hread)
    · obtain ⟨hread, -⟩ := next_iff.mp hsep
      rw [accepted_unique hacc has.1 has₀ hfirst] at hread
      obtain ⟨_, hread', hnil⟩ := hcomma.uncons
      cases hnil
      obtain ⟨rfl, hcursor⟩ := hread.unique hread'
      rcases hrest with ⟨hend, -⟩ | ⟨-, bs, l₃, hbs, hacc'⟩
      · cases hend
      · have hrun' := hbs.1
        rw [hcursor] at hrun'
        obtain ⟨hlt, hplain, hbase⟩ := accepts_written hne hd hblanks hc hacc' hrun' hfront
        exact ⟨hlt, hplain, .inr rfl, op, a, b, hbody, hbase⟩

/-! ## The code -/

/-- The register of an operand is emitted in its place. -/
theorem register_emitted {irList : IRList} {pre : List IRNode} {op : OpCode} {a b : Operand}
    {i : Instruction} {size place : Nat} {byte : Byte} (h : Placed irList pre op a b i size)
    (hplace : place = 2 ∨ place = 3) (hbase : HasBase byte (operandAt place a b)) :
    (encoding i)[place]? = some byte := by
  have hbyte : ∀ {o}, HasBase byte o → o.base = byte := fun ho => by cases ho <;> rfl
  obtain ⟨mode, word, hmode, -, rfl⟩ := denote_iff.mp h.denotes
  rcases hplace with rfl | rfl
  · have ha : HasBase byte a := hbase
    have hnone : mode ≠ .none := by
      rintro rfl
      rcases instrMode_cases hmode with ⟨-, rfl, -⟩ | ⟨-, -, hm⟩ | ⟨-, -, hm⟩
      · cases ha
      · exact Operand.mode_ne_none hm
      · exact Operand.mode_ne_none hm
    rw [← hbyte ha]
    exact encoding_a hnone
  · have hb : HasBase byte b := hbase
    rcases instrMode_cases hmode with ⟨-, -, rfl, -⟩ | ⟨-, rfl, -⟩ | ⟨hn, -, hm⟩
    · cases hb
    · cases hb
    · have hB : codecB mode = true := by
        cases hb <;> cases hm <;> rfl
      rw [encoding_b hB, if_pos hn, hbyte hb]

/-! ## A base that is cut -/

/-- What stands behind the register, the offset being 0. -/
def RegForm.tail : RegForm → List Byte
  | .plain => []
  | .ind => [chr ']']
  | .idx neg => [chr (if neg then '-' else '+'), chr '0', chr ']']

/-- `LD R0,[` and the register. -/
def loadLine (d : List Byte) (form : RegForm) : List Byte :=
  [chr 'L', chr 'D', chr ' ', chr 'R', chr '0', chr ',', chr '['] ++
    (chr 'R' :: d ++ (form.tail ++ [chr '\n', nul]))

/-- The operand in brackets. -/
def RegForm.operand (b : Byte) : RegForm → Operand
  | .plain => .reg b
  | .ind => .memReg b
  | .idx neg => .memIdx b (signed neg 0)

theorem loadLine_reading (d : List Byte) (form : RegForm) :
    Reading (loadLine d form) [.mnemonic [chr 'L', chr 'D'], .register 0, .comma, .openBracket]
      (chr 'R' :: d ++ (form.tail ++ [chr '\n', nul])) := by
  refine .cons rfl (.cons rfl (.cons rfl (.cons rfl (.nil _))))

theorem tail_reading {form : RegForm} (hform : form ≠ .plain) :
    (∃ c s, form.tail ++ [chr '\n', nul] = c :: s ∧ isdigit c = false) ∧
      Reading (form.tail ++ [chr '\n', nul]) (form.back 0) [chr '\n', nul] := by
  cases form with
  | plain => exact absurd rfl hform
  | ind => exact ⟨⟨_, _, rfl, rfl⟩, .cons rfl (.nil _)⟩
  | idx neg =>
    cases neg <;>
      exact ⟨⟨_, _, rfl, rfl⟩, .cons rfl (.cons rfl (.cons rfl (.nil _)))⟩

theorem loadLine_operand {d : List Byte} (hne : d ≠ []) (hd : ∀ c ∈ d, isdigit c)
    (hlt : decimal d < 2 ^ 63 + 2) {form : RegForm} (hform : form ≠ .plain) (ptr : Word)
    (ope : Operand) :
    parseInstrOPE ptr ope .openBracket ⟨chr 'R' :: d ++ (form.tail ++ [chr '\n', nul]), 0⟩ =
      .ok (.ok (form.operand (BitVec.ofNat 8 (decimal d)), ⟨[chr '\n', nul], 0⟩)) := by
  obtain ⟨⟨c, s, hsplit, hc⟩, htail⟩ := tail_reading hform
  have hreg : Reads (chr 'R' :: d ++ c :: s) (.register (BitVec.ofNat 64 (decimal d))) (c :: s) :=
    (nextToken_register hne hd hc s).elim (fun h => absurd h.1 (Nat.not_le.mpr hlt)) fun h => h.2
  rw [hsplit] at htail ⊢
  rw [← number_cut]
  refine parseInstrOPE_iff.mpr ⟨_, ⟨.cons hreg htail, rfl⟩, ?_⟩
  cases form with
  | plain => exact absurd rfl hform
  | ind => exact .memReg _
  | idx neg => exact .memIdx _ neg 0

theorem loadLine_parsed {d : List Byte} (hne : d ≠ []) (hd : ∀ c ∈ d, isdigit c)
    (hlt : decimal d < 2 ^ 63 + 2) {form : RegForm} (hform : form ≠ .plain)
    (ptr : Nat → Word) (slot : Slot) : parseLine ptr (loadLine d form) (some slot) ⟨[], 0⟩ =
      .ok (.ok ⟨1, .instr .ld (.reg 0) (form.operand (BitVec.ofNat 8 (decimal d)))⟩) := by
  obtain ⟨s₁, hname, hrest⟩ := (loadLine_reading d form).uncons
  obtain ⟨s₂, hreg, hrest⟩ := hrest.uncons
  obtain ⟨s₃, hcomma, hrest⟩ := hrest.uncons
  obtain ⟨s₄, hopen, hnil⟩ := hrest.uncons
  cases hnil
  have hnext : ∀ {s s' tok}, Reads s tok s' → next ⟨s, 0⟩ = .ok (tok, ⟨s', 0⟩) := fun h =>
    next_iff.mpr ⟨h, rfl⟩
  have hinstr : parseInstr ptr slot (word OpCode.ld.mnemonic) ⟨s₁, 0⟩ =
      .ok (.ok (.instr .ld (.reg 0) (form.operand (BitVec.ofNat 8 (decimal d))), ⟨[nul], 0⟩)) :=
    parseInstr_second (hnext hreg) rfl rfl (hnext hcomma) (hnext hopen)
      (loadLine_operand hne hd hlt hform (ptr 1) slot.b)
      (lineEnd_iff.mpr ⟨.newline, rfl, rfl, rfl⟩)
  rw [word_mnemonic] at hinstr
  have htext : parseInstr ptr slot [chr 'L', chr 'D'] ⟨s₁, 0⟩ = _ := hinstr
  unfold parseLine
  rw [hnext hname, Except.ok_bind]
  dsimp only [access]
  rw [Except.ok_bind, htext]
  rfl

theorem loads_assemble {form : RegForm} (hform : form ≠ .plain) (b : Byte) :
    ∃ irList ass₁ ass₂, irList.nodes =
        [⟨0, .dir .text .none⟩, ⟨1, .instr .ld (.reg 0) (form.operand b)⟩] ∧
      assemblerFirstPass .ok .zero irList = .ok (.ok, ass₁) ∧
      assemblerSecondPass .ok ass₁ irList = .ok (.ok, ass₂) := by
  have hfits : 2 * sizeofIRNode < 2 ^ 64 := by decide
  let irList : IRList :=
    ⟨[⟨0, .dir .text .none⟩, ⟨1, .instr .ld (.reg 0) (form.operand b)⟩], hfits⟩
  have htext : Arranged .ok [⟨0, .dir .text .none⟩] :=
    arranged_concat.mpr ⟨arranged_nil .ok, .toText⟩
  have hload : Admits (layoutOf [⟨0, .dir .text .none⟩]) .ok
      (.instr .ld (.reg 0) (form.operand b)) := by
    cases form with
    | plain => exact absurd rfl hform
    | ind | idx neg => exact .instr rfl rfl rfl fun _ => rfl
  have harranged : Arranged .ok ([⟨0, .dir .text .none⟩] ++
      [⟨1, .instr .ld (.reg 0) (form.operand b)⟩]) := arranged_concat.mpr ⟨htext, hload⟩
  obtain ⟨ass₁, h₁⟩ : ∃ ass₁, assemblerFirstPass .ok .zero irList = .ok (.ok, ass₁) :=
    firstPass_ok_iff.mpr harranged
  have hresolved : ∀ node ∈ irList.nodes, Resolved ass₁.symtable node.body := by
    refine List.forall_mem_cons.mpr ⟨⟨(fun x hx => by cases hx), trivial⟩, ?_⟩
    refine List.forall_mem_singleton.mpr ⟨fun x hx => ?_, trivial⟩
    cases form <;> cases hx
  have hdata : (layoutOf irList.nodes).data < 2 ^ 64 := show 0 < 2 ^ 64 by decide
  obtain ⟨ass₂, h₂⟩ := (secondPass_ok_iff h₁).mpr ⟨hdata, harranged, hresolved⟩
  exact ⟨irList, ass₁, ass₂, rfl, h₁, h₂⟩

/-- A base that does not fit in a byte is not the byte in the code. -/
theorem base_cut {d : List Byte} (hne : d ≠ []) (hd : ∀ c ∈ d, isdigit c) {form : RegForm}
    (hform : form ≠ .plain) (hlarge : 256 ≤ decimal d) (hlt : decimal d < 2 ^ 63 + 2) :
    ¬ RegisterExact d form := by
  intro hexact
  obtain ⟨irList, ass₁, ass₂, hnodes, h₁, h₂⟩ :=
    loads_assemble hform (BitVec.ofNat 8 (decimal d))
  obtain ⟨⟨c, s, hsplit, hc⟩, htail⟩ := tail_reading hform
  have hreading := loadLine_reading d form
  rw [hsplit] at hreading htail
  have hfront : form.front = [.openBracket] := by
    cases form with
    | plain => exact absurd rfl hform
    | ind | idx neg => rfl
  have hbefore : Before [.mnemonic [chr 'L', chr 'D'], .register 0, .comma] 3 :=
    .second _ [.register 0] ⟨_, .reg 0 (by decide)⟩
  have hblanks : ∀ b ∈ [], isBlank b := List.forall_mem_nil _
  have hwritten : WrittenIn d form (loadLine d form) 3 := by
    refine .mk hbefore hblanks hc ?_ htail
    rw [hfront]
    exact hreading
  have hsplit : irList.nodes = [⟨0, .dir .text .none⟩] ++ _ :: [] := hnodes
  have hassembles : Assembles (loadLine d form) _ ass₂.bytecode :=
    .mk (loadLine_parsed hne hd hlt hform (fun _ => 0) ⟨.none, .none⟩) hsplit h₁ h₂
  obtain ⟨byte, -, hbyte⟩ := hexact hwritten hassembles
  have := byte.isLt
  omega

/-! ## The number and the byte -/

/-- **The register in the code is the one that is written** exactly if the operand is
plain, the number fits in a byte, or the lexer refuses it. -/
theorem register_iff {d : List Byte} (hne : d ≠ []) (hd : ∀ c ∈ d, isdigit c) (form : RegForm) :
    RegisterExact d form ↔ form = .plain ∨ decimal d < 256 ∨ 2 ^ 63 + 2 ≤ decimal d := by
  constructor
  · intro hexact
    by_contra hnot
    obtain ⟨hform, hrange⟩ := not_or.mp hnot
    obtain ⟨hlarge, hlt⟩ := not_or.mp hrange
    exact base_cut hne hd hform (Nat.not_lt.mp hlarge) (Nat.not_le.mp hlt) hexact
  · intro hcond buffer place address code hwritten hassembles
    cases hassembles with
    | @mk _ _ _ node irList _ _ _ _ _ _ _ hparse hsplit h₁ h₂ =>
      obtain ⟨line, body⟩ := node
      obtain ⟨hlt, hplain, hplace, op, a, b, rfl, hbase⟩ :=
        operand_written hne hd hwritten hparse
      obtain ⟨i, size, hi⟩ := instr_placed h₁ h₂ hsplit
      obtain ⟨s, -, hcursor, -, hread⟩ := instr_emitted h₁ h₂ hsplit hi
      have hbyte := register_emitted hi hplace hbase
      obtain ⟨hplaced, -⟩ := List.getElem?_eq_some_iff.mp hbyte
      rw [encoding_length hi.sized] at hplaced
      have hsmall : decimal d < 256 := by
        rcases hcond with hform | hsmall | hlarge
        · exact hplain hform
        · exact hsmall
        · exact absurd hlt (Nat.not_lt.mpr hlarge)
      refine ⟨BitVec.ofNat 8 (decimal d), ?_, Nat.mod_eq_of_lt hsmall⟩
      rw [← hcursor, hread place hplaced, hbyte]

/-- `[R7]`. -/
theorem register_seven : RegisterExact [chr '7'] .ind :=
  (register_iff (by decide) (by decide) .ind).mpr (.inr (.inl (by decide)))

/-- `LD R0,[R256]` is assembled with register 0. -/
theorem register_cut :
    let d := [chr '2', chr '5', chr '6']
    ∃ code, Assembles (loadLine d .ind) 0 code ∧ code.read 3 = some 0 ∧ ¬ RegisterExact d .ind := by
  intro d
  have hd : ∀ c ∈ d, isdigit c := by decide
  have hlt : decimal d < 2 ^ 63 + 2 := by decide
  have hform : RegForm.ind ≠ .plain := nofun
  have hparse := loadLine_parsed (List.cons_ne_nil _ _) hd hlt hform (fun _ => 0) ⟨.none, .none⟩
  let irList : IRList :=
    ⟨[⟨0, .dir .text .none⟩, ⟨1, .instr .ld (.reg 0) (.memReg 0)⟩], by decide⟩
  have hsplit : irList.nodes = [⟨0, .dir .text .none⟩] ++ [⟨1, .instr .ld (.reg 0) (.memReg 0)⟩] :=
    rfl
  obtain ⟨ass₁, ass₂, h₁, h₂, hread⟩ : ∃ ass₁ ass₂,
      assemblerFirstPass .ok .zero irList = .ok (.ok, ass₁) ∧
        assemblerSecondPass .ok ass₁ irList = .ok (.ok, ass₂) ∧ ass₂.bytecode.read 3 = some 0 :=
    ⟨_, _, rfl, rfl, rfl⟩
  have hcut : ¬ RegisterExact d .ind :=
    base_cut (List.cons_ne_nil _ _) hd hform (by decide) hlt
  exact ⟨_, .mk hparse hsplit h₁ h₂, hread, hcut⟩

end BSVM
