/-
# `BSVM.Emission` — the code that the second pass emits

The bytecode is the encodings of the instructions that the nodes denote, one
behind the other (`CodeEmitted`).  A label has its address before the second
pass begins, so it does not matter whether it stands before or after its use.
-/
import BSVM.Layout

namespace BSVM

/-! ## The entry -/

theorem FirstStep.entry_kept {ass₀ : Assembler} {L : Layout} {node : IRNode} {s s' : FirstPass}
    {x : Ident} (hstep : FirstStep { s with ass.errorLine := node.line } node.body s')
    (hat : FirstAt ass₀ L s) (hx : L.entry = some x) : (L.after node).entry = some x := by
  obtain ⟨line, body⟩ := node
  cases hstep with
  | label hname => exact L.after_label line hname ▸ hx
  | data hform => exact hform.after L line ▸ hx
  | toData | toText | instr => exact hx
  | entry hfirst =>
      have hseen := hat.entryOk
      rw [hx] at hseen
      cases hfirst.symm.trans hseen

/-- Once there is an entry, the rest of an accepted list has none. -/
theorem entry_foldl {ass₀ : Assembler} {L : Layout} {nodes : List IRNode} {s s' : FirstPass}
    {x : Ident} (hat : FirstAt ass₀ L s) (hx : L.entry = some x)
    (hrun : runPass .ok firstPassNode nodes s = .ok (.ok, s')) :
    (nodes.foldl Layout.after L).entry = some x := by
  induction nodes generalizing L s with
  | nil => exact hx
  | cons node nodes ih =>
      obtain ⟨s₁, hnode, hrun⟩ := runPass_cons.mp hrun
      have hstep := firstPassNode_step hnode
      exact ih (hat.step hstep) (hstep.entry_kept hat hx) hrun

section
variable {status₁ status₂ : AsmError} {ass₀ ass₁ ass₂ : Assembler} {irList : IRList}

/-- The entry of the layout is the one entry directive of the list. -/
theorem entry_of_mem (h : assemblerFirstPass status₁ ass₀ irList = .ok (.ok, ass₁))
    {line : Word} {x : Ident} (hmem : ⟨line, .dir .entry (.ident x)⟩ ∈ irList.nodes) :
    (layoutOf irList.nodes).entry = some x := by
  obtain ⟨pre, post, hsplit⟩ := List.append_of_mem hmem
  obtain ⟨s, _, -, hat, hpost⟩ := firstPass_at h hsplit
  obtain ⟨s₁, hnode, hrun⟩ := runPass_cons.mp hpost
  have hat₁ := hat.step (firstPassNode_step hnode)
  rw [hsplit, layoutOf, List.foldl_append, List.foldl_cons]
  exact entry_foldl hat₁ rfl hrun

theorem entry_none {nodes : List IRNode}
    (h : ∀ node ∈ nodes, ∀ operand, node.body ≠ .dir .entry operand) :
    (layoutOf nodes).entry = none := by
  have hkeep : ∀ (nodes : List IRNode) (L : Layout),
      (∀ node ∈ nodes, ∀ operand, node.body ≠ .dir .entry operand) →
      (nodes.foldl Layout.after L).entry = L.entry := by
    intro nodes
    induction nodes with
    | nil => exact fun _ _ => rfl
    | cons node nodes ih =>
        intro L h
        obtain ⟨hnode, hnodes⟩ := List.forall_mem_cons.mp h
        refine (ih (L.after node) hnodes).trans ?_
        obtain ⟨line, body⟩ := node
        cases body with
        | label name =>
            dsimp only [Layout.after]
            cases name.asIdent <;> rfl
        | dir type operand =>
            cases type with
            | entry => exact absurd rfl (hnode operand)
            | _ => rfl
        | instr op a b => rfl
  exact hkeep nodes .start h

/-! ## Labels -/

/-- A label denotes the address its node is laid out at. -/
theorem address_of_label (h : assemblerFirstPass status₁ ass₀ irList = .ok (.ok, ass₁))
    {pre post : List IRNode} {line : Word} {name : Operand} {x y : Ident}
    (hsplit : irList.nodes = pre ++ ⟨line, .label name⟩ :: post) (hx : name.asIdent = .ok x)
    (hy : cName y.str = cName x.str) :
    (layoutOf irList.nodes).address y = some (BitVec.ofNat 64 (layoutOf pre).here) :=
  Layout.address_of_mem (firstPass_result h).names (label_mem hsplit hx) hy

/-! ## Instructions -/

theorem codeOf_split {env : Ident → Option Word} {nodes pre post : List IRNode} {line : Word}
    {op : OpCode} {a b : Operand} {i : Instruction}
    (hsplit : nodes = pre ++ ⟨line, .instr op a b⟩ :: post) (hi : denote env op a b = some i) :
    codeOf env nodes = codeOf env pre ++ (encoding i ++ codeOf env post) := by
  rw [hsplit, codeOf, List.flatMap_append, List.flatMap_cons, code_instr hi]
  rfl

/-- The instruction of a node of an accepted list, and where its bytes are. -/
structure Placed (irList : IRList) (pre : List IRNode) (op : OpCode) (a b : Operand)
    (i : Instruction) (size : Nat) : Prop where
  denotes : denote (layoutOf irList.nodes).address op a b = some i
  sized : modeSize i.mode = .ok size
  handled : hasHandler i.opcode i.mode = true
  fits : (layoutOf pre).text + size ≤ (layoutOf irList.nodes).text
  bytes : ∀ k < size,
    (codeOf (layoutOf irList.nodes).address irList.nodes)[(layoutOf pre).text + k]? =
      (encoding i)[k]?

theorem instr_placed (h₁ : assemblerFirstPass status₁ ass₀ irList = .ok (.ok, ass₁))
    (h₂ : assemblerSecondPass status₂ ass₁ irList = .ok (.ok, ass₂))
    {pre post : List IRNode} {line : Word} {op : OpCode} {a b : Operand}
    (hsplit : irList.nodes = pre ++ ⟨line, .instr op a b⟩ :: post) :
    ∃ i size, Placed irList pre op a b i size := by
  obtain ⟨s, _, -, hat, hpost, -⟩ := secondPass_at h₁ h₂ hsplit
  obtain ⟨_, hnode, -⟩ := runPass_cons.mp hpost
  have htable : Represents s.ass.symtable.table (layoutOf irList.nodes).labels :=
    hat.symtable ▸ (firstPass_result h₁).table
  cases secondPassNode_step hnode with
  | @instr _ _ _ mode reg i size bytecode hsect hmode hreg hset hstore hsize =>
      have hdenote := denote_ok htable hmode hreg hset
      have hlen := encoding_length hsize
      have hcode := codeOf_split hsplit hdenote
      obtain ⟨_, -, hend, -⟩ := secondPass_end h₁ h₂
      have htotal := hend.codeLength
      rw [hcode, List.length_append, List.length_append, hat.codeLength, hlen] at htotal
      refine ⟨i, size, hdenote, hsize, ?_, by omega, fun k hk => ?_⟩
      · obtain ⟨_, _, -, -, hfirst⟩ := firstPass_node h₁ hsplit
        cases hfirst with
        | @instr _ _ _ mode' _ _ hmode' hhandler _ =>
            have hsame : mode' = i.mode := Option.some.inj
              ((getModeFromOperands_ok hmode').symm.trans (denote_mode hdenote))
            rw [denote_opcode hdenote, ← hsame]
            exact hhandler
      · rw [hcode, ← hat.codeLength, List.getElem?_append_right (Nat.le_add_right _ _),
          Nat.add_sub_cancel_left, List.getElem?_append_left (by omega)]

/-- What is asked of the bytecode, of the header, and of the labels they refer to. -/
structure CodeEmitted (status₂ : AsmError) (irList : IRList) (ass₁ ass₂ : Assembler)
    (address : Ident → Option Word) : Prop where
  /-- at the address of an instruction are the bytes that encode it -/
  instr : ∀ pre line op a b post, irList.nodes = pre ++ ⟨line, .instr op a b⟩ :: post →
    ∃ s i size bytes,
      runPass .ok secondPassNode pre (.start status₂ ass₁) = .ok (.ok, s) ∧
      denote address op a b = some i ∧ modeSize i.mode = .ok size ∧
      instructionEncode i (ass₂.headers.codeSize - s.textAddr).toNat = (size, bytes) ∧
      ∀ k < size, ass₂.bytecode.read (s.textAddr.toNat + k) = bytes[k]?
  /-- a label is the cursor of the section it stands in -/
  label : ∀ pre line name x post, irList.nodes = pre ++ ⟨line, .label name⟩ :: post →
    name.asIdent = .ok x → ∃ s,
      runPass .ok secondPassNode pre (.start status₂ ass₁) = .ok (.ok, s) ∧
      ∀ y : Ident, cName y.str = cName x.str → address y = some (s.cursor s.sect)
  entry : ∀ line x, ⟨line, .dir .entry (.ident x)⟩ ∈ irList.nodes →
    address x = some ass₂.headers.entryPoint
  noEntry : (∀ node ∈ irList.nodes, ∀ operand, node.body ≠ .dir .entry operand) →
    ass₂.headers.entryPoint = 0

theorem instr_emitted (h₁ : assemblerFirstPass status₁ ass₀ irList = .ok (.ok, ass₁))
    (h₂ : assemblerSecondPass status₂ ass₁ irList = .ok (.ok, ass₂))
    {pre post : List IRNode} {line : Word} {op : OpCode} {a b : Operand} {i : Instruction}
    {size : Nat} (hsplit : irList.nodes = pre ++ ⟨line, .instr op a b⟩ :: post)
    (hi : Placed irList pre op a b i size) :
    ∃ s, runPass .ok secondPassNode pre (.start status₂ ass₁) = .ok (.ok, s) ∧
      s.textAddr.toNat = (layoutOf pre).text ∧
      instructionEncode i (ass₂.headers.codeSize - s.textAddr).toNat = (size, encoding i) ∧
      ∀ k < size, ass₂.bytecode.read (s.textAddr.toNat + k) = (encoding i)[k]? := by
  obtain ⟨s, _, hrun, hat, -, -⟩ := secondPass_at h₁ h₂ hsplit
  obtain ⟨s', -, hend, rfl⟩ := secondPass_end h₁ h₂
  have hfits := hi.fits
  have hlen := encoding_length hi.sized
  have hcursor : s.textAddr.toNat = (layoutOf pre).text :=
    hat.text_toNat (by have := irList.text_lt; omega)
  have hremaining := hat.remaining (firstPass_result h₁) irList.text_lt (by omega)
  refine ⟨s, hrun, hcursor, ?_, fun k hk => ?_⟩
  · rw [hend.codeSize, hremaining, instructionEncode_fits (by omega), hlen]
  · rw [HostArray.read, hend.bytecode, Written.written_zipIdx, hcursor, hi.bytes k hk]

end

/-- **The code is what the instructions denote, and the entry point is the
entry.** -/
theorem code_emitted (status₁ status₂ : AsmError) (irList : IRList) (ass₁ ass₂ : Assembler) :
    assemblerFirstPass status₁ .zero irList = .ok (.ok, ass₁) →
      assemblerSecondPass status₂ ass₁ irList = .ok (.ok, ass₂) →
      CodeEmitted status₂ irList ass₁ ass₂ (layoutOf irList.nodes).address := by
  intro h₁ h₂
  obtain ⟨s, -, hat, rfl⟩ := secondPass_end h₁ h₂
  constructor
  · intro pre line op a b post hsplit
    obtain ⟨i, size, hi⟩ := instr_placed h₁ h₂ hsplit
    obtain ⟨s', hrun, -, henc, hread⟩ := instr_emitted h₁ h₂ hsplit hi
    exact ⟨s', i, size, encoding i, hrun, hi.denotes, hi.sized, henc, hread⟩
  · intro pre line name x post hsplit hx
    obtain ⟨s', _, hrun, hat', -, -⟩ := secondPass_at h₁ h₂ hsplit
    refine ⟨s', hrun, fun y hy => ?_⟩
    rw [address_of_label h₁ hsplit hx hy, hat'.cursor, hat'.sect]
    rfl
  · intro line x hmem
    exact hat.entry x (entry_of_mem h₁ hmem)
  · intro hno
    rw [hat.noEntry (entry_none hno), (firstPass_result h₁).entryPoint]
    rfl

/-- A jump over a label that is defined later, and back to the entry. -/
def backAndForth : IRList where
  nodes := [⟨1, .dir .entry (.ident ⟨[109, 0], 0, 2⟩)⟩, ⟨2, .dir .text .none⟩,
    ⟨3, .instr .jmp (.ident ⟨[120, 0], 0, 2⟩) .none⟩, ⟨4, .label (.ident ⟨[109, 0], 0, 2⟩)⟩,
    ⟨5, .instr .ld (.reg 1) (.memIdxIdent ⟨[100, 0], 0, 2⟩ 8)⟩,
    ⟨6, .label (.ident ⟨[120, 0], 0, 2⟩)⟩, ⟨7, .instr .jmp (.ident ⟨[109, 0], 0, 2⟩) .none⟩,
    ⟨8, .dir .data .none⟩, ⟨9, .label (.ident ⟨[100, 0], 0, 2⟩)⟩, ⟨10, .dir .word (.value 5)⟩,
    ⟨11, .dir .word (.value 6)⟩]
  fits := by decide

theorem code_emitted_back_and_forth : ∃ ass₁ ass₂,
    assemblerFirstPass .ok .zero backAndForth = .ok (.ok, ass₁) ∧
      assemblerSecondPass .ok ass₁ backAndForth = .ok (.ok, ass₂) ∧
      CodeEmitted .ok backAndForth ass₁ ass₂ (layoutOf backAndForth.nodes).address :=
  ⟨_, _, rfl, rfl, code_emitted .ok .ok backAndForth _ _ rfl rfl⟩

end BSVM
