/-
# `BSVM.Names` — the tables of names

`strncmp` stops behind the characters of the token, so a name is accepted for
every text that it begins with: `S` is `SUB`, the first of the table that does.
An extension of a name, or any other text, is accepted for none
(`strnEq_iff`), and no name begins another of its table (`op_apart`,
`dir_apart`).
-/
import BSVM.Rendering

namespace BSVM

/-! ## Look-up in a buffer -/

/-- `!strncmp(name, str, len)`, as far as the two objects reach. -/
def strncmpZero : List Byte → List Byte → Nat → Exec Bool
  | _, _, 0 => .ok true
  | a :: name, b :: str, len + 1 =>
      if a ≠ b then .ok false
      else if a = nul then .ok true
      else strncmpZero name str len
  | _, _, _ + 1 => .error .table

/-- `op_lookup(str, len)`. -/
def opLookupAt (str : List Byte) (len : Nat) : Exec (Option OpCode) :=
  OpCode.all.findM? fun op => strncmpZero op.mnemonic str len

/-- `dir_lookup(str, len)`. -/
def dirLookupAt (str : List Byte) (len : Nat) : Exec (Option DirType) :=
  DirType.all.findM? fun type => strncmpZero type.mnemonic str len

def OpCode.name (op : OpCode) : List Byte :=
  word op.mnemonic

def DirType.name (type : DirType) : List Byte :=
  BSVM.word type.mnemonic

/-- The entry with this name was found, or there is none. -/
def Recognises {α : Type} (name : α → List Byte) (s : List Byte) : Option α → Prop
  | some x => name x = s
  | none => ∀ x, name x ≠ s

/-- A text in front of the rest of its line is recognised. -/
structure Recognised (s rest : List Byte) : Prop where
  op : ∃ op, opLookupAt (s ++ rest) s.length = .ok op ∧ Recognises OpCode.name s op
  dir : ∃ type, dirLookupAt (s ++ rest) s.length = .ok type ∧ Recognises DirType.name s type

/-- There are more characters in the name. -/
def ProperPrefix (s name : List Byte) : Prop :=
  s <+: name ∧ s ≠ name

/-! ## The comparison -/

theorem strncmpZero_eq (name s rest : List Byte) :
    strncmpZero (name ++ [nul]) (s ++ rest) s.length = .ok (strnEq (name ++ [nul]) s) := by
  induction s generalizing name with
  | nil => rw [List.length_nil, strncmpZero, strnEq]
  | cons b s ih =>
    cases name with
    | nil =>
      show strncmpZero [nul] (b :: (s ++ rest)) (s.length + 1) = .ok (strnEq [nul] (b :: s))
      rw [strncmpZero, strnEq]
      split <;> rfl
    | cons a name =>
      show strncmpZero (a :: (name ++ [nul])) (b :: (s ++ rest)) (s.length + 1) =
        .ok (strnEq (a :: (name ++ [nul])) (b :: s))
      rw [strncmpZero, strnEq, ih]
      split
      · rfl
      · split <;> rfl

/-- A text without a NUL is accepted for the names that it begins. -/
theorem strnEq_iff {s : List Byte} (hs : nul ∉ s) (name : List Byte) :
    strnEq (name ++ [nul]) s ↔ s <+: name := by
  induction s generalizing name with
  | nil => exact ⟨fun _ => List.nil_prefix .., fun _ => by rw [strnEq]⟩
  | cons b s ih =>
    have hb : nul ≠ b := List.ne_of_not_mem_cons hs
    cases name with
    | nil =>
      rw [List.nil_append, strnEq, if_pos hb, List.prefix_nil]
      exact ⟨fun h => absurd h Bool.false_ne_true, fun h => absurd h (List.cons_ne_nil _ _)⟩
    | cons a name =>
      rw [List.cons_append, strnEq, List.cons_prefix_cons, ← ih (List.not_mem_of_not_mem_cons hs)]
      by_cases hab : a = b
      · rw [if_neg (not_not.mpr hab), if_neg (by rw [hab]; exact hb.symm)]
        exact ⟨fun h => ⟨hab.symm, h⟩, fun h => h.2⟩
      · rw [if_pos hab]
        exact ⟨fun h => absurd h Bool.false_ne_true, fun h => absurd h.1.symm hab⟩

theorem mnemonic_name (op : OpCode) : op.mnemonic = op.name ++ [nul] := by
  rw [OpCode.name, word_mnemonic, mnemonic_eq]

theorem dirMnemonic_name (type : DirType) : type.mnemonic = type.name ++ [nul] := by
  cases type <;> rfl

theorem opLookupAt_eq (s rest : List Byte) :
    opLookupAt (s ++ rest) s.length = .ok (opLookup s) := by
  have hstep : ∀ op : OpCode, strncmpZero op.mnemonic (s ++ rest) s.length =
      .ok (strnEq op.mnemonic s) := by
    intro op
    rw [mnemonic_name]
    exact strncmpZero_eq op.name s rest
  rw [opLookupAt, funext hstep]
  exact List.findM?_pure _ _

theorem dirLookupAt_eq (s rest : List Byte) :
    dirLookupAt (s ++ rest) s.length = .ok (dirLookup s) := by
  have hstep : ∀ type : DirType, strncmpZero type.mnemonic (s ++ rest) s.length =
      .ok (strnEq type.mnemonic s) := by
    intro type
    rw [dirMnemonic_name]
    exact strncmpZero_eq type.name s rest
  rw [dirLookupAt, funext hstep]
  exact List.findM?_pure _ _

/-! ## The tables -/

theorem OpCode.mem_all (op : OpCode) : op ∈ OpCode.all := by
  cases op <;> decide

theorem DirType.mem_all (type : DirType) : type ∈ DirType.all := by
  cases type <;> decide

/-- No name begins another one. -/
theorem op_apart {a b : OpCode} (h : a.name <+: b.name) : a.name = b.name := by
  have hall : (OpCode.all.all fun a => OpCode.all.all fun b =>
      !(a.letters.map chr).isPrefixOf (b.letters.map chr) ||
        a.letters.map chr == b.letters.map chr) = true := by decide +kernel
  have hab := List.all_eq_true.mp (List.all_eq_true.mp hall a a.mem_all) b b.mem_all
  rw [OpCode.name, OpCode.name, word_mnemonic, word_mnemonic] at h ⊢
  rw [List.isPrefixOf_iff_prefix.mpr h] at hab
  exact beq_iff_eq.mp hab

theorem dir_apart {a b : DirType} (h : a.name <+: b.name) : a.name = b.name := by
  have hall : (DirType.all.all fun a => DirType.all.all fun b =>
      !a.name.isPrefixOf b.name || a.name == b.name) = true := by rfl
  have hab := List.all_eq_true.mp (List.all_eq_true.mp hall a a.mem_all) b b.mem_all
  rw [List.isPrefixOf_iff_prefix.mpr h] at hab
  exact beq_iff_eq.mp hab

/-! ## Names are recognised -/

/-- What a look-up finds is the text itself, unless some name goes on behind it. -/
theorem find_recognises_iff {α : Type} {all : List α} (hall : ∀ x, x ∈ all)
    {name : α → List Byte} {p : α → Bool} {s : List Byte} (hp : ∀ x, p x ↔ s <+: name x)
    (happart : ∀ x y, name x <+: name y → name x = name y) :
    Recognises name s (all.find? p) ↔ ¬ ∃ x, ProperPrefix s (name x) := by
  cases hfind : all.find? p with
  | none =>
    have hnone : ∀ x, ¬ s <+: name x := fun x hx =>
      List.find?_eq_none.mp hfind x (hall x) ((hp x).mpr hx)
    refine ⟨fun _ => ?_, fun _ x hx => hnone x ⟨[], by rw [List.append_nil, hx]⟩⟩
    rintro ⟨x, hx, -⟩
    exact hnone x hx
  | some x =>
    have hx : s <+: name x := (hp x).mp (List.find?_some hfind)
    constructor
    · rintro (rfl : name x = s) ⟨y, hy, hne⟩
      exact hne (happart x y hy)
    · intro h
      by_contra hne
      exact h ⟨x, hx, fun heq => hne heq.symm⟩

/-- **Names are recognised** exactly if the text is no beginning of a longer name. -/
theorem names_iff {s : List Byte} (hnul : nul ∉ s) (rest : List Byte) :
    Recognised s rest ↔
      ¬ ((∃ op : OpCode, ProperPrefix s op.name) ∨ ∃ type : DirType, ProperPrefix s type.name) := by
  have hop : Recognises OpCode.name s (opLookup s) ↔ ¬ ∃ op : OpCode, ProperPrefix s op.name := by
    refine find_recognises_iff OpCode.mem_all (fun op => ?_) (fun a b => op_apart)
    rw [mnemonic_name]
    exact strnEq_iff hnul op.name
  have hdir : Recognises DirType.name s (dirLookup s) ↔
      ¬ ∃ type : DirType, ProperPrefix s type.name := by
    refine find_recognises_iff DirType.mem_all (fun type => ?_) (fun a b => dir_apart)
    rw [dirMnemonic_name]
    exact strnEq_iff hnul type.name
  rw [not_or, ← hop, ← hdir]
  constructor
  · rintro ⟨⟨op, hopAt, hopName⟩, type, hdirAt, hdirName⟩
    rw [opLookupAt_eq] at hopAt
    rw [dirLookupAt_eq] at hdirAt
    cases hopAt
    cases hdirAt
    exact ⟨hopName, hdirName⟩
  · rintro ⟨hopName, hdirName⟩
    exact ⟨⟨_, opLookupAt_eq s rest, hopName⟩, _, dirLookupAt_eq s rest, hdirName⟩

/-- `LD` in front of a blank. -/
theorem names_ld : Recognised [chr 'L', chr 'D'] [chr ' '] := by
  have hld : OpCode.ld.name = [chr 'L', chr 'D'] := word_mnemonic .ld
  refine (names_iff (by decide) [chr ' ']).mpr ?_
  rintro (⟨op, hop, hne⟩ | ⟨type, ⟨t, ht⟩, -⟩)
  · rw [← hld] at hop hne
    exact hne (op_apart hop)
  · have hname : IsName type.name := word_isName type
    rw [← ht] at hname
    exact absurd hname.1 (by decide)

/-- `S` is taken for `SUB`. -/
theorem beginning_accepted :
    opLookupAt [chr 'S', chr ' '] 1 = .ok (some .sub) ∧ ¬ Recognised [chr 'S'] [chr ' '] := by
  have hsub : opLookupAt [chr 'S', chr ' '] 1 = .ok (some .sub) := by rfl
  refine ⟨hsub, fun h => ?_⟩
  obtain ⟨op, hat, hname⟩ := h.op
  cases hsub.symm.trans hat
  revert hname
  rw [Recognises, OpCode.name, word_mnemonic]
  decide

end BSVM
