/-
# `BSVM.Listing` — what a listing denotes

The assembler's input by itself, with no passes.  A listing lays its nodes out
in two sections, whose offsets are numbers that do not wrap, and gives each
label the address of the place it stands at:

    text     the offset
    data     DATA_BASE and the offset

An instruction denotes a `struct Instruction` once its labels have addresses
(`denote`), and has a size before they have.
-/
import BSVM.Assembler
import BSVM.Decode

namespace BSVM

/-! ## Names -/

/-- A C string, without its NUL. -/
def cName (s : List Byte) : List Byte :=
  s.takeWhile (· != 0)

@[simp] theorem cName_nul (s : List Byte) : cName (0 :: s) = [] :=
  rfl

@[simp] theorem cName_cons {a : Byte} (s : List Byte) (ha : a ≠ 0) :
    cName (a :: s) = a :: cName s :=
  List.takeWhile_cons_of_pos (bne_iff_ne.mpr ha)

/-! ## Instructions -/

/-- The mode that the last operand selects; a register that is the only operand
has one of its own. -/
def Operand.mode (alone : Bool) : Operand → Option Mode
  | .value _ | .ident _ => some .imm
  | .reg _ => some (if alone then .regu else .reg)
  | .memIdent _ | .memValue _ | .memIdxIdent _ _ => some .dir
  | .memReg _ => some .ind
  | .memIdx _ _ => some .idx
  | .none | .string _ => Option.none

/-- The mode of an instruction, if its operands are as many as it takes. -/
def instrMode (op : OpCode) (a b : Operand) : Option Mode :=
  match getArgsCount op, a, b with
  | 0, .none, .none => some .none
  | 1, a, .none => a.mode true
  | 2, .reg _, b => b.mode false
  | _, _, _ => none

/-- The register that an operand names. -/
def Operand.base : Operand → Byte
  | .reg r | .memReg r | .memIdx r _ => r
  | .none | .value _ | .ident _ | .string _ | .memIdent _ | .memValue _ | .memIdxIdent _ _ => 0

/-- The word that an operand stands for, under the addresses of the labels. -/
def Operand.word (env : Ident → Option Word) : Operand → Option Word
  | .value v | .memValue v | .memIdx _ v => some v
  | .ident x | .memIdent x => env x
  | .memIdxIdent x k => (env x).map (· + k)
  | .none | .reg _ | .memReg _ | .string _ => some 0

/-- The instruction. -/
def denote (env : Ident → Option Word) (op : OpCode) (a b : Operand) : Option Instruction := do
  let mode ← instrMode op a b
  if getArgsCount op = 2 then
    let word ← b.word env
    return { opcode := op, mode := mode, a := a.base, b := b.base, args := word }
  else
    let word ← a.word env
    return { opcode := op, mode := mode, a := a.base, b := 0, args := word }

/-- Its size, whatever its labels are. -/
def instrSize (op : OpCode) (a b : Operand) : Nat :=
  match instrMode op a b with
  | none => 0
  | some mode => ((modeSize mode).toOption).getD 0

/-! ## Directives -/

/-- The size of the data of a directive. -/
def dirSize : DirType → Operand → Nat
  | .byte, _ => 1
  | .word, _ | .addr, _ => 8
  | .string, .string x => x.length.toNat
  | _, _ => 0

/-- The section that a node adds bytes to. -/
def IRBody.emits : IRBody → Section
  | .instr _ _ _ => .text
  | .dir .byte _ | .dir .word _ | .dir .addr _ | .dir .string _ => .data
  | _ => .undefined

/-! ## The layout -/

structure Layout where
  sect : Section
  text : Nat
  data : Nat
  /-- the labels so far, each with its address -/
  labels : List (List Byte × Nat)
  /-- the label of the entry directive, if there was one -/
  entry : Option Ident

def Layout.start : Layout where
  sect := .undefined
  text := 0
  data := 0
  labels := []
  entry := none

/-- The address that a section has come to. -/
def Layout.place (L : Layout) (sect : Section) : Nat :=
  if sect = .data then DATA_BASE + L.data else L.text

/-- The address of the next byte. -/
def Layout.here (L : Layout) : Nat :=
  L.place L.sect

def Layout.after (L : Layout) (node : IRNode) : Layout :=
  match node.body with
  | .label name =>
      match name.asIdent with
      | .ok x => { L with labels := L.labels ++ [(x.str, L.here)] }
      | .error _ => L
  | .dir .text _ => { L with sect := .text }
  | .dir .data _ => { L with sect := .data }
  | .dir .entry operand =>
      match operand.asIdent with
      | .ok x => { L with entry := some x }
      | .error _ => L
  | .dir type operand => { L with data := L.data + dirSize type operand }
  | .instr op a b => { L with text := L.text + instrSize op a b }

/-- The layout of the nodes before some point. -/
def layoutOf (nodes : List IRNode) : Layout :=
  nodes.foldl Layout.after .start

theorem layoutOf_concat (nodes : List IRNode) (node : IRNode) :
    layoutOf (nodes ++ [node]) = (layoutOf nodes).after node := by
  rw [layoutOf, layoutOf, List.foldl_append]
  rfl

theorem Layout.after_label (L : Layout) {name : Operand} {x : Ident} (line : Word)
    (hx : name.asIdent = .ok x) :
    L.after ⟨line, .label name⟩ = { L with labels := L.labels ++ [(x.str, L.here)] } := by
  rw [Layout.after]
  dsimp only
  rw [hx]

theorem Layout.after_entry (L : Layout) {operand : Operand} {x : Ident} (line : Word)
    (hx : operand.asIdent = .ok x) :
    L.after ⟨line, .dir .entry operand⟩ = { L with entry := some x } := by
  rw [Layout.after]
  dsimp only
  rw [hx]

/-- The address of the first label of that name. -/
def Layout.address (L : Layout) (x : Ident) : Option Word :=
  (L.labels.find? fun label => cName x.str == cName label.1).map fun label =>
    BitVec.ofNat 64 label.2

theorem place_after {L : Layout} {sect : Section} {node : IRNode} (hsect : sect ≠ .undefined)
    (h : node.body.emits ≠ sect) : (L.after node).place sect = L.place sect := by
  obtain ⟨line, body⟩ := node
  cases body with
  | label name =>
      dsimp only [Layout.after]
      cases name.asIdent <;> rfl
  | dir type operand =>
      cases type with
      | text | data => rfl
      | entry =>
          dsimp only [Layout.after]
          cases operand.asIdent <;> rfl
      | byte | word | addr | string =>
          have hdata : sect ≠ .data := h.symm
          rw [Layout.place, Layout.place, if_neg hdata, if_neg hdata]
          rfl
  | instr op a b =>
      have hdata : sect = .data := by
        cases sect with
        | undefined => exact absurd rfl hsect
        | text => exact absurd rfl h
        | data => rfl
      rw [Layout.place, Layout.place, if_pos hdata, if_pos hdata]
      rfl

/-- Nodes that add nothing to a section do not move its place. -/
theorem place_foldl {L : Layout} {sect : Section} {nodes : List IRNode} (hsect : sect ≠ .undefined)
    (h : ∀ node ∈ nodes, node.body.emits ≠ sect) :
    (nodes.foldl Layout.after L).place sect = L.place sect := by
  induction nodes generalizing L with
  | nil => rfl
  | cons node nodes ih =>
      obtain ⟨hnode, hnodes⟩ := List.forall_mem_cons.mp h
      exact (ih hnodes).trans (place_after hsect hnode)

/-! ## The code -/

def IRBody.code (env : Ident → Option Word) : IRBody → List Byte
  | .instr op a b => (denote env op a b).elim [] encoding
  | _ => []

@[simp] theorem code_label (env : Ident → Option Word) (name : Operand) :
    (IRBody.label name).code env = [] :=
  rfl

@[simp] theorem code_dir (env : Ident → Option Word) (type : DirType) (operand : Operand) :
    (IRBody.dir type operand).code env = [] :=
  rfl

theorem code_instr {env : Ident → Option Word} {op : OpCode} {a b : Operand} {i : Instruction}
    (h : denote env op a b = some i) : (IRBody.instr op a b).code env = encoding i := by
  rw [IRBody.code, h]
  rfl

/-- The code of the nodes before some point. -/
def codeOf (env : Ident → Option Word) (nodes : List IRNode) : List Byte :=
  nodes.flatMap fun node => node.body.code env

theorem codeOf_concat (env : Ident → Option Word) (nodes : List IRNode) (node : IRNode) :
    codeOf env (nodes ++ [node]) = codeOf env nodes ++ node.body.code env := by
  rw [codeOf, codeOf, List.flatMap_append, List.flatMap_singleton]

/-- What denotes, and what it denotes. -/
theorem denote_iff {env : Ident → Option Word} {op : OpCode} {a b : Operand} {i : Instruction} :
    denote env op a b = some i ↔ ∃ mode word, instrMode op a b = some mode ∧
      (if getArgsCount op = 2 then b else a).word env = some word ∧
      i = { opcode := op, mode := mode, a := a.base,
            b := if getArgsCount op = 2 then b.base else 0, args := word } := by
  rw [denote, Option.bind_eq_bind, Option.bind_eq_some_iff]
  refine exists_congr fun mode => ?_
  by_cases hn : getArgsCount op = 2
  · rw [if_pos hn, if_pos hn, if_pos hn, Option.bind_eq_bind, Option.bind_eq_some_iff,
      exists_and_left]
    refine and_congr_right fun _ => exists_congr fun word => and_congr_right fun _ => ?_
    exact Option.some_inj.trans eq_comm
  · rw [if_neg hn, if_neg hn, if_neg hn, Option.bind_eq_bind, Option.bind_eq_some_iff,
      exists_and_left]
    refine and_congr_right fun _ => exists_congr fun word => and_congr_right fun _ => ?_
    exact Option.some_inj.trans eq_comm

theorem denote_mode {env : Ident → Option Word} {op : OpCode} {a b : Operand} {i : Instruction}
    (h : denote env op a b = some i) : instrMode op a b = some i.mode := by
  obtain ⟨mode, word, hmode, -, rfl⟩ := denote_iff.mp h
  exact hmode

theorem denote_opcode {env : Ident → Option Word} {op : OpCode} {a b : Operand} {i : Instruction}
    (h : denote env op a b = some i) : i.opcode = op := by
  obtain ⟨mode, word, -, -, rfl⟩ := denote_iff.mp h
  rfl

/-- The three numbers of operands. -/
theorem instrMode_cases {op : OpCode} {a b : Operand} {mode : Mode}
    (h : instrMode op a b = some mode) :
    (getArgsCount op = 0 ∧ a = .none ∧ b = .none ∧ mode = .none) ∨
      (getArgsCount op = 1 ∧ b = .none ∧ a.mode true = some mode) ∨
      (getArgsCount op = 2 ∧ (∃ r, a = .reg r) ∧ b.mode false = some mode) := by
  unfold instrMode at h
  split at h
  · next hn =>
      cases h
      exact Or.inl ⟨hn, rfl, rfl, rfl⟩
  · next hn => exact Or.inr (Or.inl ⟨hn, rfl, h⟩)
  · next hn => exact Or.inr (Or.inr ⟨hn, ⟨_, rfl⟩, h⟩)
  · cases h

theorem Operand.mode_ne_none {x : Operand} {alone : Bool} : x.mode alone ≠ some .none := by
  cases x <;> cases alone <;> exact nofun

/-- An instruction has no mode exactly when it takes no operands. -/
theorem instrMode_none_iff {op : OpCode} {a b : Operand} {mode : Mode}
    (h : instrMode op a b = some mode) : mode = .none ↔ getArgsCount op = 0 := by
  rcases instrMode_cases h with ⟨hn, -, -, rfl⟩ | ⟨hn, -, hm⟩ | ⟨hn, -, hm⟩
  · exact ⟨fun _ => hn, fun _ => rfl⟩
  · refine ⟨?_, fun h0 => absurd (hn.symm.trans h0) (by decide)⟩
    rintro rfl
    exact absurd hm Operand.mode_ne_none
  · refine ⟨?_, fun h0 => absurd (hn.symm.trans h0) (by decide)⟩
    rintro rfl
    exact absurd hm Operand.mode_ne_none

/-- The fields that the mode does not use are zero. -/
structure Instruction.Canonical (i : Instruction) : Prop where
  a : i.mode = .none → i.a = 0
  b : codecB i.mode = false → i.b = 0
  args : codecARGS i.mode = false → i.args = 0

theorem Operand.word_eq_zero {env : Ident → Option Word} {x : Operand} {alone : Bool} {mode : Mode}
    {word : Word} (hm : x.mode alone = some mode) (hargs : codecARGS mode = false)
    (hword : x.word env = some word) : word = 0 := by
  cases x <;> cases alone <;> cases hm <;> cases hargs <;> cases hword <;> rfl

theorem Operand.base_eq_zero {x : Operand} {mode : Mode} (hm : x.mode false = some mode)
    (hb : codecB mode = false) : x.base = 0 := by
  cases x <;> cases hm <;> cases hb <;> rfl

theorem denote_canonical {env : Ident → Option Word} {op : OpCode} {a b : Operand} {i : Instruction}
    (h : denote env op a b = some i) : i.Canonical := by
  obtain ⟨mode, word, hmode, hword, rfl⟩ := denote_iff.mp h
  rcases instrMode_cases hmode with ⟨hn, rfl, -, rfl⟩ | ⟨hn, -, hm⟩ | ⟨hn, -, hm⟩
  · rw [if_neg (by rw [hn]; decide)] at hword
    cases hword
    refine ⟨fun _ => rfl, fun _ => if_neg ?_, fun _ => rfl⟩
    rw [hn]
    decide
  · have hone : ¬ getArgsCount op = 2 := by
      rw [hn]
      decide
    rw [if_neg hone] at hword
    refine ⟨?_, fun _ => if_neg hone, fun hargs => Operand.word_eq_zero hm hargs hword⟩
    rintro rfl
    exact absurd hm Operand.mode_ne_none
  · rw [if_pos hn] at hword
    refine ⟨?_, fun hb => (if_pos hn).trans (Operand.base_eq_zero hm hb),
      fun hargs => Operand.word_eq_zero hm hargs hword⟩
    rintro rfl
    exact absurd hm Operand.mode_ne_none

/-! ## Sizes -/

theorem instrSize_eq {op : OpCode} {a b : Operand} {mode : Mode} {size : Nat}
    (hmode : instrMode op a b = some mode) (hsize : modeSize mode = .ok size) :
    instrSize op a b = size := by
  rw [instrSize, hmode]
  dsimp only
  rw [hsize]
  rfl

theorem instrSize_le (op : OpCode) (a b : Operand) : instrSize op a b ≤ 12 := by
  rw [instrSize]
  cases instrMode op a b with
  | none => decide
  | some mode =>
      cases mode with
      | other raw => exact Nat.zero_le 12
      | _ => decide

theorem text_after_le (L : Layout) (node : IRNode) : (L.after node).text ≤ L.text + 12 := by
  obtain ⟨line, body⟩ := node
  cases body with
  | label name =>
      dsimp only [Layout.after]
      cases name.asIdent <;> exact Nat.le_add_right _ _
  | dir type operand =>
      cases type with
      | entry =>
          dsimp only [Layout.after]
          cases operand.asIdent <;> exact Nat.le_add_right _ _
      | _ => exact Nat.le_add_right _ _
  | instr op a b => exact Nat.add_le_add_left (instrSize_le op a b) _

theorem text_foldl_le (nodes : List IRNode) (L : Layout) :
    (nodes.foldl Layout.after L).text ≤ L.text + 12 * nodes.length := by
  induction nodes generalizing L with
  | nil => exact Nat.le_refl _
  | cons node nodes ih =>
      have hnode := text_after_le L node
      have hrest := ih (L.after node)
      rw [List.foldl_cons, List.length_cons]
      omega

/-- The code of a list that exists is smaller than the address space. -/
theorem IRList.text_lt (irList : IRList) : (layoutOf irList.nodes).text < 2 ^ 64 := by
  have hle := text_foldl_le irList.nodes .start
  have hfits := irList.fits
  have hstart : Layout.start.text = 0 := rfl
  rw [layoutOf]
  simp only [sizeofIRNode] at hfits
  omega

/-! ## Layouts grow -/

variable {L L' : Layout}

/-- The second comes later in some listing. -/
structure Layout.Le (L L' : Layout) : Prop where
  text : L.text ≤ L'.text
  data : L.data ≤ L'.data
  labels : L.labels <+: L'.labels

theorem Layout.Le.refl (L : Layout) : L.Le L :=
  ⟨Nat.le_refl _, Nat.le_refl _, List.prefix_refl _⟩

theorem Layout.Le.trans {L'' : Layout} (h : L.Le L') (h' : L'.Le L'') : L.Le L'' :=
  ⟨h.text.trans h'.text, h.data.trans h'.data, h.labels.trans h'.labels⟩

theorem Layout.le_after (L : Layout) (node : IRNode) : L.Le (L.after node) := by
  obtain ⟨line, body⟩ := node
  cases body with
  | label name =>
      dsimp only [Layout.after]
      cases name.asIdent with
      | ok x => exact ⟨Nat.le_refl _, Nat.le_refl _, List.prefix_append _ _⟩
      | error e => exact .refl L
  | dir type operand =>
      cases type with
      | text | data => exact ⟨Nat.le_refl _, Nat.le_refl _, List.prefix_refl _⟩
      | entry =>
          dsimp only [Layout.after]
          cases operand.asIdent with
          | ok x => exact ⟨Nat.le_refl _, Nat.le_refl _, List.prefix_refl _⟩
          | error e => exact .refl L
      | _ => exact ⟨Nat.le_refl _, Nat.le_add_right _ _, List.prefix_refl _⟩
  | instr op a b => exact ⟨Nat.le_add_right _ _, Nat.le_refl _, List.prefix_refl _⟩

theorem Layout.le_foldl (nodes : List IRNode) (L : Layout) : L.Le (nodes.foldl Layout.after L) := by
  induction nodes generalizing L with
  | nil => exact .refl L
  | cons node nodes ih => exact (L.le_after node).trans (ih (L.after node))

theorem layoutOf_le {nodes pre post : List IRNode} (h : nodes = pre ++ post) :
    (layoutOf pre).Le (layoutOf nodes) := by
  rw [h, layoutOf, layoutOf, List.foldl_append]
  exact Layout.le_foldl post _

/-- A label is laid out at the place its node stands at. -/
theorem label_mem {nodes pre post : List IRNode} {line : Word} {name : Operand} {x : Ident}
    (h : nodes = pre ++ ⟨line, .label name⟩ :: post) (hx : name.asIdent = .ok x) :
    (x.str, (layoutOf pre).here) ∈ (layoutOf nodes).labels := by
  have hsplit : nodes = (pre ++ [⟨line, .label name⟩]) ++ post := by
    rw [h, List.append_cons]
  refine (layoutOf_le hsplit).labels.subset ?_
  rw [layoutOf_concat, Layout.after_label _ line hx]
  exact List.mem_append_right _ (List.mem_singleton_self _)

/-- Where no two labels have the same name, each has its own address. -/
theorem Layout.address_of_mem {x y : Ident} {here : Nat}
    (hnames : (L.labels.map fun label => cName label.1).Nodup)
    (hmem : (x.str, here) ∈ L.labels) (hy : cName y.str = cName x.str) :
    L.address y = some (BitVec.ofNat 64 here) := by
  rw [Layout.address]
  cases hfind : L.labels.find? fun label => cName y.str == cName label.1 with
  | none =>
      rw [List.find?_eq_none] at hfind
      exact absurd (beq_iff_eq.mpr hy) (hfind _ hmem)
  | some label =>
      have hname : cName y.str = cName label.1 :=
        beq_iff_eq.mp (List.find?_some hfind :)
      have hsame : label = (x.str, here) :=
        List.inj_on_of_nodup_map hnames (List.mem_of_find?_eq_some hfind) hmem (hname ▸ hy)
      rw [hsame]
      rfl

end BSVM
