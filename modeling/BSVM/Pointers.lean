/-
# `BSVM.Pointers` — what the passes make of the pointers of the host

An identifier is a pointer and the object it points to.  The first pass looks
at the objects only.  So does the second on what the first accepts, with one
exception: a `.word` with an identifier, whose eight bytes are the pointer.
-/
import BSVM.Resolution

namespace BSVM

/-! ## Without the pointers -/

def Ident.forget (x : Ident) : Ident :=
  { x with ptr := 0 }

def Operand.forget : Operand → Operand
  | .none => .none
  | .value v => .value v
  | .reg r => .reg r
  | .ident x => .ident x.forget
  | .string x => .string x.forget
  | .memIdent x => .memIdent x.forget
  | .memValue v => .memValue v
  | .memReg r => .memReg r
  | .memIdx r k => .memIdx r k
  | .memIdxIdent x k => .memIdxIdent x.forget k

def IRBody.forget : IRBody → IRBody
  | .instr op a b => .instr op a.forget b.forget
  | .label name => .label name.forget
  | .dir type operand => .dir type operand.forget

def IRNode.forget (node : IRNode) : IRNode :=
  { node with body := node.body.forget }

def IRList.forget (irList : IRList) : IRList where
  nodes := irList.nodes.map IRNode.forget
  fits := by
    rw [List.length_map]
    exact irList.fits

@[simp] theorem type_forget (operand : Operand) : operand.forget.type = operand.type := by
  cases operand <;> rfl

/-! ## The first pass -/

theorem getModeFromOperands_forget (a b : Operand) (argsCount : Nat) (status : AsmError) :
    getModeFromOperands a.forget b.forget argsCount status =
      getModeFromOperands a b argsCount status := by
  have hlast : (if argsCount = 1 then a.forget else b.forget).type =
      (if argsCount = 1 then a else b).type := by
    split <;> exact type_forget _
  rw [getModeFromOperands, getModeFromOperands, type_forget, type_forget]
  dsimp only
  rw [hlast]

theorem firstPassInstr_forget (op : OpCode) (a b : Operand) (s : FirstPass) :
    firstPassInstr op a.forget b.forget s = firstPassInstr op a b s := by
  rw [firstPassInstr, firstPassInstr, getModeFromOperands_forget]

theorem firstPassNode_forget (node : IRNode) (s : FirstPass) :
    firstPassNode node.forget s = firstPassNode node s := by
  obtain ⟨line, body⟩ := node
  cases body with
  | label name => cases name <;> rfl
  | dir type operand => cases type <;> cases operand <;> rfl
  | instr op a b => exact firstPassInstr_forget op a b _

/-- The first pass does not look at the pointers. -/
theorem assemblerFirstPass_forget (status : AsmError) (ass : Assembler) (irList : IRList) :
    assemblerFirstPass status ass irList.forget = assemblerFirstPass status ass irList := by
  have hrun : ∀ s, runPass .ok firstPassNode irList.forget.nodes s =
      runPass .ok firstPassNode irList.nodes s :=
    fun s => runPass_map fun node _ => firstPassNode_forget node
  rw [assemblerFirstPass, assemblerFirstPass, hrun]

/-! ## The second pass -/

/-- No pointer is stored for a node. -/
def IRBody.PointerFree (body : IRBody) : Prop :=
  ∀ x, body ≠ .dir .word (.ident x)

theorem setOperand_forget (symtable : SymbolTable) (n : Nat) (ope : Operand) (instr : Instruction) :
    setOperand symtable n ope.forget instr = setOperand symtable n ope instr := by
  cases ope <;> rfl

theorem secondPassInstr_forget {op : OpCode} {a b : Operand} {mode : Mode}
    (hmode : instrMode op a b = some mode) (s : SecondPass) :
    secondPassInstr op a.forget b.forget s = secondPassInstr op a b s := by
  have hreg : firstReg (getArgsCount op) a.forget = firstReg (getArgsCount op) a := by
    rcases instrMode_cases hmode with ⟨-, rfl, -⟩ | ⟨hn, -⟩ | ⟨-, ⟨r, rfl⟩, -⟩
    · rfl
    · rw [firstReg, firstReg, hn]
      rfl
    · rfl
  have hope : (if getArgsCount op ≤ 1 then a.forget else b.forget) =
      (if getArgsCount op ≤ 1 then a else b).forget := by
    split <;> rfl
  rw [secondPassInstr, secondPassInstr]
  dsimp only
  rw [getModeFromOperands_forget, hreg, hope]
  simp only [setOperand_forget]

/-- `.addr` with a label looks at the name only. -/
theorem secondPassDir_addr {x y : Ident} (h : y.str = x.str) (s : SecondPass) :
    secondPassDir .addr (.ident y) s = secondPassDir .addr (.ident x) s := by
  rw [secondPassDir, secondPassDir]
  simp only [Operand.type, if_true, Operand.asIdent, Except.ok_bind, h]

theorem secondPassNode_forget {L : Layout} {status : AsmError} {node : IRNode}
    (h : Admits L status node.body) (hfree : node.body.PointerFree) (s : SecondPass) :
    secondPassNode node.forget s = secondPassNode node s := by
  obtain ⟨line, body⟩ := node
  cases h with
  | label | toData | toText | entry => rfl
  | data hform =>
      cases hform with
      | wordIdent x => exact absurd rfl (hfree x)
      | addrIdent x =>
          have hname : x.forget.str = x.str := rfl
          exact secondPassDir_addr hname _
      | _ => rfl
  | instr _ hmode => exact secondPassInstr_forget hmode _

/-- Where no pointer is stored, the second pass does not look at them. -/
theorem assemblerSecondPass_forget {status₁ status₂ : AsmError} {ass₀ ass₁ : Assembler}
    {irList : IRList} (h₁ : assemblerFirstPass status₁ ass₀ irList = .ok (.ok, ass₁))
    (hfree : ∀ node ∈ irList.nodes, node.body.PointerFree) (ass : Assembler) :
    assemblerSecondPass status₂ ass irList.forget = assemblerSecondPass status₂ ass irList := by
  have harranged : Arranged status₁ irList.nodes := firstPass_ok_iff.mp ⟨ass₁, h₁⟩
  have hrun : ∀ s, runPass .ok secondPassNode irList.forget.nodes s =
      runPass .ok secondPassNode irList.nodes s := by
    refine fun s => runPass_map fun node hnode => ?_
    obtain ⟨pre, post, hsplit⟩ := List.append_of_mem hnode
    exact secondPassNode_forget (harranged.admits hsplit) (hfree node hnode)
  rw [assemblerSecondPass, assemblerSecondPass, hrun]

theorem pointerFree_forget {body : IRBody} : body.forget.PointerFree ↔ body.PointerFree := by
  constructor
  · rintro h x rfl
    exact h x.forget rfl
  · intro h x hbody
    cases body with
    | dir type operand =>
        cases operand <;> cases hbody
        exact h _ rfl
    | _ => cases hbody

/-! ## Two lists that differ in their pointers -/

section
variable {irList irList' : IRList} (h : irList'.forget = irList.forget)

include h in
theorem firstPass_same (status : AsmError) (ass : Assembler) :
    assemblerFirstPass status ass irList' = assemblerFirstPass status ass irList := by
  rw [← assemblerFirstPass_forget, h, assemblerFirstPass_forget]

include h in
theorem pointerFree_same (hfree : ∀ node ∈ irList.nodes, node.body.PointerFree) :
    ∀ node ∈ irList'.nodes, node.body.PointerFree := by
  intro node hnode
  have hmem : node.forget ∈ irList.forget.nodes := by
    rw [← h]
    exact List.mem_map_of_mem hnode
  obtain ⟨node', hnode', hsame⟩ := List.mem_map.mp hmem
  have hbody : node'.body.forget = node.body.forget := congrArg IRNode.body hsame
  exact pointerFree_forget.mp (hbody ▸ pointerFree_forget.mpr (hfree node' hnode'))

include h in
theorem secondPass_same {status₁ status₂ : AsmError} {ass₀ ass₁ : Assembler}
    (h₁ : assemblerFirstPass status₁ ass₀ irList = .ok (.ok, ass₁))
    (hfree : ∀ node ∈ irList.nodes, node.body.PointerFree) (ass : Assembler) :
    assemblerSecondPass status₂ ass irList' = assemblerSecondPass status₂ ass irList := by
  have h₁' := (firstPass_same h status₁ ass₀).trans h₁
  rw [← assemblerSecondPass_forget h₁' (pointerFree_same h hfree), h,
    assemblerSecondPass_forget h₁ hfree]

end

end BSVM
