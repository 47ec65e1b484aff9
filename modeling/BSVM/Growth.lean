/-
# `BSVM.Growth` — the arrays of the toolchain that `realloc` makes larger

Three arrays double when they are full.  What they ask `realloc` for:

    str        2 * str_size    bytes, of which an element takes one
    symtable   2 * size        bytes, of which an element takes 16
    IRList     2 * prog_size   bytes, and `IRList` keeps the old address

`arrays_hold_iff` says when the next element can be stored behind the others: in a
string always, in the symbol table below 16 labels, in the list below 128 nodes.
-/
import BSVM.Lib.Growable
import BSVM.Acceptance
import BSVM.Scanning
import BSVM.Parser

namespace BSVM

open Growable

/-! ## The characters of a string -/

def stringArray (str : List Byte) (strSize : Nat) : Growable := ⟨str.length, strSize, strSize⟩

theorem stringArray_grow (str : List Byte) (strSize : Nat) :
    stringArray str (grown str strSize) = (stringArray str strSize).grow (2 * ·) :=
  apply_ite (stringArray str) _ _ _

theorem buffered_iff {str : List Byte} {strSize : Nat} :
    Buffered str strSize ↔ (stringArray str strSize).Sound 1 := by
  constructor
  · exact fun h => ⟨h.1, h.2, (Nat.mul_one _).symm⟩
  · exact fun h => ⟨h.le, h.pos⟩

/-- The store succeeds where the character fits. -/
theorem storeChar_ok_iff {str : List Byte} {strSize : Nat} {c : Byte} :
    (∃ str', storeChar str strSize c = .ok str') ↔
      ((stringArray str strSize).count + 1) * 1 ≤ (stringArray str strSize).bytes := by
  rw [storeChar, Nat.mul_one]
  by_cases h : str.length < strSize
  · rw [if_pos h]
    exact ⟨fun _ => h, fun _ => ⟨_, rfl⟩⟩
  · rw [if_neg h]
    refine ⟨?_, fun h' => absurd h' h⟩
    rintro ⟨_, ⟨⟩⟩

/-- The rounds of the loop over the string `s`: what is stored, `str_size`, and the
characters that are left. -/
inductive StringAt (s : List Byte) : List Byte → Nat → List Byte → Prop
  | start : StringAt s [] 32 s
  | escape {str : List Byte} {strSize : Nat} {e : Byte} {t : List Byte} :
      StringAt s str strSize (chr '\\' :: e :: t) → escapeSequence e ≠ EOF →
      StringAt s (str ++ [escapeSequence e]) (grown str strSize) t
  | char {str : List Byte} {strSize : Nat} {c : Byte} {t : List Byte} :
      StringAt s str strSize (c :: t) → c ≠ nul → c ≠ chr '"' → c ≠ chr '\\' →
      StringAt s (str ++ [c]) (grown str strSize) t

variable {s str t : List Byte} {strSize : Nat}

theorem StringAt.buffered (h : StringAt s str strSize t) : Buffered str strSize := by
  induction h with
  | start => exact ⟨Nat.zero_le _, by decide⟩
  | escape _ _ ih => exact ih.store _
  | char _ _ _ _ ih => exact ih.store _

/-- These are the rounds that `scanString` goes through. -/
theorem StringAt.scan (h : StringAt s str strSize t) :
    scanString [] 32 s = scanString str strSize t := by
  induction h with
  | start => rfl
  | escape hat he ih => rw [ih, scanString_escape hat.buffered, if_neg he]
  | char hat hnul hquote hback ih =>
    rw [ih, scanString_char hat.buffered hnul hquote hback]

theorem StringAt.holds (h : StringAt s str strSize t) :
    Holds 1 (stringArray str strSize) (stringArray str (grown str strSize)) := by
  rw [stringArray_grow]
  exact (buffered_iff.mp h.buffered).holds (Nat.mul_one _).symm

/-! ## The symbol table -/

def SymbolTable.array (symtable : SymbolTable) : Growable :=
  ⟨symtable.table.length, symtable.size, symtable.bytes⟩

/-- `if (symbol_table->next == symbol_table->size)`. -/
def SymbolTable.grow (symtable : SymbolTable) : SymbolTable :=
  if symtable.table.length = symtable.size then
    { symtable with size := 2 * symtable.size, bytes := 2 * symtable.size }
  else symtable

theorem SymbolTable.grow_array (symtable : SymbolTable) :
    symtable.grow.array = symtable.array.grow (2 * ·) :=
  apply_ite SymbolTable.array _ _ _

/-- `addToSymbolTable` succeeds where the symbol fits. -/
theorem addToSymbolTable_ok_iff {symtable : SymbolTable} {symbol : Symbol} :
    (∃ symtable', addToSymbolTable symtable symbol = .ok symtable') ↔
      (symtable.grow.array.count + 1) * sizeofSymbol ≤ symtable.grow.array.bytes := by
  have hadd : addToSymbolTable symtable symbol =
      if (symtable.grow.table.length + 1) * sizeofSymbol ≤ symtable.grow.bytes then
        .ok { symtable.grow with table := symtable.grow.table ++ [symbol] }
      else .error .table := rfl
  rw [hadd]
  by_cases h : (symtable.grow.table.length + 1) * sizeofSymbol ≤ symtable.grow.bytes
  · rw [if_pos h]
    exact ⟨fun _ => h, fun _ => ⟨_, rfl⟩⟩
  · rw [if_neg h]
    refine ⟨?_, fun h' => absurd h' h⟩
    rintro ⟨_, ⟨⟩⟩

/-- The table of the first pass behind some nodes. -/
theorem symtable_sound {status : AsmError} {ass₀ : Assembler} {nodes : List IRNode} {s : FirstPass}
    (h : runPass .ok firstPassNode nodes (.start status ass₀) = .ok (.ok, s)) :
    s.ass.symtable.array.Sound sizeofSymbol := by
  have hhere := FirstHere.of_run h
  have hfew := (firstPass_accepts_iff.mp ⟨s, h⟩).few
  refine ⟨?_, ?_, ?_⟩
  · show s.ass.symtable.table.length ≤ s.ass.symtable.size
    rw [hhere.length, hhere.size]
    exact hfew
  · show 0 < s.ass.symtable.size
    rw [hhere.size]
    decide
  · show s.ass.symtable.bytes = s.ass.symtable.size * sizeofSymbol
    rw [hhere.size, hhere.bytes]

theorem symtable_holds_iff {status : AsmError} {ass₀ : Assembler} {nodes : List IRNode}
    {s : FirstPass} (h : runPass .ok firstPassNode nodes (.start status ass₀) = .ok (.ok, s)) :
    Holds sizeofSymbol s.ass.symtable.array s.ass.symtable.grow.array ↔
      (layoutOf nodes).labels.length < 16 := by
  have hhere := FirstHere.of_run h
  have hsize : s.ass.symtable.array.size = 16 := hhere.size
  have htable : s.ass.symtable.array.count = (layoutOf nodes).labels.length := hhere.length
  rw [SymbolTable.grow_array, (symtable_sound h).holds_iff (by rw [hsize]; decide), htable, hsize]

/-! ## The list of nodes -/

def ParserState.array (s : ParserState) : Growable := ⟨s.nodes.length, s.progSize, s.block⟩

theorem ParserState.grow_array (s : ParserState) :
    s.grow.array = s.array.grow fun _ => 0 :=
  apply_ite ParserState.array _ _ _

theorem room_iff {s : ParserState} :
    s.room = true ↔ (s.array.count + 1) * sizeofIRNode ≤ s.array.bytes :=
  decide_eq_true_iff

/-- A round leaves a node in the list, or clears the next one. -/
theorem parserStep_array {host : ParserHost} {s s' : ParserState} {piece : List Byte}
    (h : parserStep host s piece = .ok s') :
    s'.array = s.grow.array.push ∨ s'.array = s.grow.array ∧ s.grow.room = true := by
  rw [parserStep] at h
  dsimp only at h
  obtain ⟨status, -, hstatus⟩ := Except.bind_eq_ok.mp h
  have hpush : ∀ node : IRNode, (⟨(s.grow.nodes ++ [node]).length, s.grow.progSize, s.grow.block⟩ :
      Growable) = s.grow.array.push := by
    intro node
    rw [List.length_append]
    rfl
  cases status with
  | ok node =>
    cases hstatus
    exact .inl (hpush _)
  | error e =>
    cases e with
    | empty =>
      dsimp only at hstatus
      split at hstatus
      · next hroom =>
        cases hstatus
        exact .inr ⟨rfl, hroom⟩
      · cases hstatus
    | _ =>
      cases hstatus
      exact .inl (hpush _)

/-- The list as it was made, or without a block. -/
def Listed (a : Growable) : Prop :=
  (a.Sound sizeofIRNode ∧ a.size = 128) ∨ (128 < a.count ∧ a.bytes = 0)

theorem Listed.lt_of_fits {a : Growable} (h : Listed a)
    (hfits : ((a.grow fun _ => 0).count + 1) * sizeofIRNode ≤ (a.grow fun _ => 0).bytes) :
    a.count < 128 := by
  rcases h with ⟨hsound, hsize⟩ | ⟨hcount, hbytes⟩
  · rw [← hsize]
    exact hsound.lt_of_fits (by rw [hsize]; decide) hfits
  · have hzero : (a.grow fun _ => 0).bytes = 0 := by
      rw [Growable.grow]
      split
      · rfl
      · exact hbytes
    rw [hzero, sizeofIRNode] at hfits
    omega

theorem Listed.sound_of_lt {a : Growable} (h : Listed a) (hlt : a.count < 128) :
    a.Sound sizeofIRNode ∧ a.size = 128 :=
  h.resolve_right fun hgone => absurd hgone.1 (Nat.not_lt.mpr hlt.le)

theorem Listed.holds_iff {a : Growable} (h : Listed a) :
    Holds sizeofIRNode a (a.grow fun _ => 0) ↔ a.count < 128 := by
  refine ⟨fun hholds => h.lt_of_fits hholds.fits, fun hlt => ?_⟩
  obtain ⟨hsound, hsize⟩ := h.sound_of_lt hlt
  exact hsound.holds_of_lt (hsize ▸ hlt)

theorem Listed.push {a : Growable} (h : Listed a) : Listed (a.grow fun _ => 0).push := by
  rcases h with ⟨hsound, hsize⟩ | ⟨hcount, hbytes⟩
  · by_cases hfull : a.count = a.size
    · rw [grow_full hfull]
      refine .inr ⟨?_, rfl⟩
      show 128 < a.count + 1
      omega
    · rw [grow_free hfull]
      exact .inl ⟨⟨lt_of_le_of_ne hsound.le hfull, hsound.pos, hsound.bytes⟩, hsize⟩
  · refine .inr ?_
    rw [Growable.grow]
    split
    · exact ⟨Nat.lt_succ_of_lt hcount, rfl⟩
    · exact ⟨Nat.lt_succ_of_lt hcount, hbytes⟩

theorem Listed.step {host : ParserHost} {s s' : ParserState} {piece : List Byte}
    (h : Listed s.array) (hstep : parserStep host s piece = .ok s') : Listed s'.array := by
  rcases parserStep_array hstep with hpush | ⟨hsame, hroom⟩
  · rw [hpush, ParserState.grow_array]
    exact h.push
  · rw [hsame]
    rw [room_iff, ParserState.grow_array] at hroom
    have hlt := h.lt_of_fits hroom
    rw [ParserState.grow_array, grow_free (by rw [(h.sound_of_lt hlt).2]; exact hlt.ne)]
    exact h

theorem listed_start : Listed ParserState.start.array :=
  .inl ⟨⟨Nat.zero_le _, by decide, rfl⟩, rfl⟩

theorem run_listed {host : ParserHost} {ys : List (List Byte)} {s : ParserState}
    (h : ys.foldlM (parserStep host) .start = .ok s) : Listed s.array := by
  refine Returns.foldlM (Q := fun s : ParserState => Listed s.array) ?_ listed_start s h
  exact fun _ _ s hs s' hstep => hs.step hstep

theorem irList_holds_iff {host : ParserHost} {ys : List (List Byte)} {s : ParserState}
    (h : ys.foldlM (parserStep host) .start = .ok s) :
    Holds sizeofIRNode s.array s.grow.array ↔ s.nodes.length < 128 := by
  rw [ParserState.grow_array]
  exact (run_listed h).holds_iff

/-- A list that is returned was never grown. -/
theorem parser_few {host : ParserHost} {file : Option (List Byte)} {closes : Bool}
    {nodes : List IRNode} (h : parser host file closes = .ok nodes) : nodes.length ≤ 128 := by
  cases file with
  | none => cases h
  | some file =>
    obtain ⟨s, hrun, h⟩ := Except.bind_eq_ok.mp h
    split at h
    · cases h
    · split at h
      · next hroom =>
        cases h
        rcases run_listed hrun with ⟨hsound, hsize⟩ | ⟨hcount, hbytes⟩
        · exact hsize ▸ hsound.le
        · have hcount' : 128 < s.nodes.length := hcount
          have hbytes' : s.block = 0 := hbytes
          rw [hbytes', sizeofIRNode] at hroom
          omega
      · cases h

/-! ## Lists and files of labels -/

/-- Sixteen labels in the text section. -/
def sixteenLabels : List IRNode :=
  ⟨1, .dir .text .none⟩ :: (List.range 16).map fun k =>
    ⟨BitVec.ofNat 64 (k + 2), .label (.ident (mkIdent 0 [chr 'a' + BitVec.ofNat 8 k]))⟩

/-- The line `a:`. -/
def labelLine : List Byte := [chr 'a', chr ':', chr '\n']

theorem parseLine_labelLine (ptr : Nat → Word) (slot : Slot) (l : Lexer) (rest : List Byte) :
    parseLine ptr (labelLine ++ nul :: rest) (some slot) l
      = .ok (.ok ⟨l.line + 1, .label (.ident (mkIdent (ptr 0) [chr 'a']))⟩) := rfl

theorem parserStep_labelLine (host : ParserHost) {s : ParserState} (hroom : s.grow.room = true) :
    ∃ s', parserStep host s labelLine = .ok s' ∧ s'.array = s.grow.array.push := by
  have hstr : ({ s.grow with str := fill labelLine s.str } : ParserState).room = true := hroom
  have hstep : parserStep host s labelLine = .ok { s.grow with
      str := fill labelLine s.str
      nodes := s.grow.nodes ++
        [⟨s.grow.line + 1, .label (.ident (mkIdent (host.ptr s.grow.line 0) [chr 'a']))⟩]
      cleared := false
      line := s.grow.line + 1 } := by
    rw [parserStep]
    dsimp only
    rw [hstr, if_pos rfl, fill, parseLine_labelLine]
    rfl
  refine ⟨_, hstep, ?_⟩
  show (⟨(s.grow.nodes ++ [_]).length, s.grow.progSize, s.grow.block⟩ : Growable) = _
  rw [List.length_append]
  rfl

/-- So many lines leave so many nodes. -/
theorem run_labelLines (host : ParserHost) {n : Nat} (hn : n ≤ 128) :
    ∃ s, (List.replicate n labelLine).foldlM (parserStep host) .start = .ok s ∧
      s.array = ⟨n, 128, 128 * sizeofIRNode⟩ := by
  induction n with
  | zero => exact ⟨_, rfl, rfl⟩
  | succ n ih =>
    obtain ⟨s, hrun, harray⟩ := ih (Nat.le_of_succ_le hn)
    have hgrow : s.grow.array = ⟨n, 128, 128 * sizeofIRNode⟩ := by
      rw [ParserState.grow_array, harray]
      exact grow_free (Nat.ne_of_lt hn)
    have hroom : s.grow.room = true := by
      rw [room_iff, hgrow]
      exact Nat.mul_le_mul_right sizeofIRNode hn
    obtain ⟨s', hstep, hpush⟩ := parserStep_labelLine host hroom
    refine ⟨s', ?_, hpush.trans (by rw [hgrow]; rfl)⟩
    rw [List.replicate_succ', List.foldlM_append, hrun, Except.ok_bind, List.foldlM_cons, hstep]
    rfl

/-! ## All three -/

/-! ## All three -/

/-- **The next element can be stored behind the others** in a string always, in the
symbol table below 16 labels, in the list below 128 nodes. -/
theorem arrays_hold_iff {status : AsmError} {ass₀ : Assembler} {nodes : List IRNode}
    {pass : FirstPass} {host : ParserHost} {ys : List (List Byte)} {state : ParserState}
    (hpass : runPass .ok firstPassNode nodes (.start status ass₀) = .ok (.ok, pass))
    (hstate : ys.foldlM (parserStep host) .start = .ok state) (hat : StringAt s str strSize t) :
    (Holds sizeofSymbol pass.ass.symtable.array pass.ass.symtable.grow.array ↔
      (layoutOf nodes).labels.length < 16) ∧
    (Holds sizeofIRNode state.array state.grow.array ↔ state.nodes.length < 128) ∧
    Holds 1 (stringArray str strSize) (stringArray str (grown str strSize)) :=
  ⟨symtable_holds_iff hpass, irList_holds_iff hstate, hat.holds⟩

/-- A sixteenth symbol behind `a`, …, `o`, a 128th node behind 127 lines, and a third
character behind `a\n`. -/
theorem arrays_hold_next : ∃ pass state,
    runPass .ok firstPassNode (sixteenLabels.take 16) (.start .ok .zero) = .ok (.ok, pass) ∧
    (List.replicate 127 labelLine).foldlM
      (parserStep ⟨fun _ _ => 0, fun _ => zeroNode⟩) .start = .ok state ∧
    state.nodes.length = 127 ∧
    Holds sizeofSymbol pass.ass.symtable.array pass.ass.symtable.grow.array ∧
    Holds sizeofIRNode state.array state.grow.array ∧
    Holds 1 (stringArray [chr 'a', chr '\n'] 32)
      (stringArray [chr 'a', chr '\n'] (grown [chr 'a', chr '\n'] 32)) := by
  obtain ⟨state, hrun, harray⟩ := run_labelLines ⟨fun _ _ => 0, fun _ => zeroNode⟩ (n := 127)
    (by decide)
  have hcount : state.nodes.length = 127 := congrArg Growable.count harray
  -- the rounds over `a`, `\`, `n`, `b`
  have hat : StringAt [chr 'a', chr '\\', chr 'n', chr 'b'] ([chr 'a'] ++ [chr '\n'])
      (grown [chr 'a'] (grown [] 32)) [chr 'b'] :=
    .escape (e := chr 'n') (.char .start (by decide) (by decide) (by decide)) (by decide)
  have hpass : runPass .ok firstPassNode (sixteenLabels.take 16) (.start .ok .zero)
      = .ok (.ok, _) := rfl
  obtain ⟨hsymbols, hlist, hstring⟩ := arrays_hold_iff hpass hrun hat
  exact ⟨_, state, hpass, hrun, hcount, hsymbols.mpr (by decide),
    hlist.mpr (hcount ▸ by decide), hstring⟩

set_option maxRecDepth 8000 in
/-- A symbol behind sixteen, and a node behind 128, cannot be stored. -/
theorem arrays_outgrown :
    (∃ s, runPass .ok firstPassNode sixteenLabels (.start .ok .zero) = .ok (.ok, s) ∧
      ¬ Holds sizeofSymbol s.ass.symtable.array s.ass.symtable.grow.array) ∧
    ∃ s, (List.replicate 128 labelLine).foldlM
        (parserStep ⟨fun _ _ => 0, fun _ => zeroNode⟩) .start = .ok s ∧
      ¬ Holds sizeofIRNode s.array s.grow.array := by
  constructor
  · refine ⟨_, rfl, fun hholds => ?_⟩
    exact absurd hholds.fits (by decide)
  · obtain ⟨s, hrun, harray⟩ := run_labelLines ⟨fun _ _ => 0, fun _ => zeroNode⟩ (le_refl 128)
    refine ⟨s, hrun, fun hholds => ?_⟩
    have hfits := hholds.fits
    rw [ParserState.grow_array, harray] at hfits
    exact absurd hfits (by decide)

end BSVM
