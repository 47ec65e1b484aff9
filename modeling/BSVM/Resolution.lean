/-
# `BSVM.Resolution` — which listings the second pass accepts

On an arranged listing the second pass either ends well or reports a label
that is not defined (`secondPass_answers`), unless a string is shorter than it
says, the data does not fit in the address space, or a name has no NUL.  It
accepts exactly the listings whose references are found (`secondPass_ok_iff`).
-/
import BSVM.Acceptance

namespace BSVM

/-- The label of an operand. -/
def Operand.label? : Operand → Option Ident
  | .ident x | .memIdent x | .memIdxIdent x _ => some x
  | _ => Option.none

/-- The label that the second pass looks up for a node. -/
def IRBody.ref? : IRBody → Option Ident
  | .instr op a b => (if getArgsCount op ≤ 1 then a else b).label?
  | .dir .addr operand | .dir .entry operand => operand.label?
  | _ => none

/-- A string is as long as it says. -/
def IRBody.Stocked : IRBody → Prop
  | .dir .string (.string x) => x.length.toNat ≤ x.str.length
  | _ => True

theorem setOperand_progress {symtable : SymbolTable} {n : Nat} {ope : Operand}
    (instr : Instruction) (hstring : ∀ x, ope ≠ .string x)
    (hlookup : ∀ x ∈ ope.label?, ∃ r, getSymbolAddr symtable x.str = .ok r) :
    (∃ instr', setOperand symtable n ope instr = .ok (some instr') ∧ instr'.mode = instr.mode) ∨
      setOperand symtable n ope instr = .ok none ∧
        ∃ x ∈ ope.label?, getSymbolAddr symtable x.str = .ok none := by
  have hbase : ∀ r, (instr.setBase n r).mode = instr.mode := by
    intro r
    rw [Instruction.setBase]
    split <;> rfl
  cases ope with
  | string x => exact absurd rfl (hstring x)
  | none | value | memValue => exact Or.inl ⟨_, rfl, rfl⟩
  | reg r | memReg r => exact Or.inl ⟨_, rfl, hbase r⟩
  | memIdx r k => exact Or.inl ⟨_, rfl, hbase r⟩
  | ident x | memIdent x | memIdxIdent x k =>
      obtain ⟨r, hr⟩ := hlookup x rfl
      unfold setOperand
      dsimp only
      rw [hr]
      cases r with
      | none => exact Or.inr ⟨rfl, x, rfl, hr⟩
      | some addr => exact Or.inl ⟨_, rfl, rfl⟩

/-- The second pass behind some nodes, with what decides whether it goes on. -/
structure SecondHere (status : AsmError) (ass₁ : Assembler) (env : Ident → Option Word)
    (nodes : List IRNode) (s : SecondPass) : Prop where
  here : SecondAt ass₁ env (layoutOf nodes) (codeOf env nodes) s
  status : s.status = (textPart nodes).foldl IRBody.status status

/-- What the second pass asks of a node that the first accepts. -/
structure Resolved (symtable : SymbolTable) (body : IRBody) : Prop where
  found : ∀ x ∈ body.ref?, ∃ addr, getSymbolAddr symtable x.str = .ok (some addr)
  stocked : body.Stocked

section
variable {ass₀ ass₁ : Assembler} {total L : Layout} {env : Ident → Option Word} {code : List Byte}
  {line : Word} {s s' : SecondPass} {s₁ s₁' : FirstPass}

theorem SecondAt.store_ok {type : DirType} {operand : Operand} {bytes : List Byte}
    (h : SecondAt ass₁ env L code s) (hres : FirstResult ass₀ ass₁ total)
    (hdata : total.data < 2 ^ 64) (hform : DataForm type operand)
    (hle : (L.after ⟨line, .dir type operand⟩).Le total)
    (hlen : bytes.length = dirSize type operand) :
    ∃ data, s.ass.data.storeAll s.dataAddr bytes = .ok data := by
  have hcursor : s.dataAddr.toNat = L.data :=
    toNat_cursor h.data (lt_of_le_of_lt h.dataFits ass₁.headers.dataSize.isLt)
  have hend := hle.data
  rw [hform.after L line] at hend
  obtain ⟨stored, -, harray⟩ := h.dataArray
  refine storeAll_ok ?_
  rw [hcursor, hlen, harray]
  dsimp only at hend ⊢
  rw [hres.dataSize, BitVec.toNat_ofNat, Nat.mod_eq_of_lt hdata]
  exact hend

theorem setOperand_found {symtable : SymbolTable} {n : Nat} {ope : Operand}
    {instr instr' : Instruction} (h : setOperand symtable n ope instr = .ok (some instr')) :
    ∀ x ∈ ope.label?, ∃ addr, getSymbolAddr symtable x.str = .ok (some addr) := by
  intro x hx
  cases ope with
  | ident y | memIdent y | memIdxIdent y k =>
      cases hx
      unfold setOperand at h
      obtain ⟨found, hfound, h⟩ := Except.bind_eq_ok.mp h
      cases found with
      | none => cases h
      | some addr => exact ⟨addr, hfound⟩
  | _ => cases hx

/-- A round that ends well found what it asked for. -/
theorem SecondStep.resolved {body : IRBody} (hfirst : FirstStep s₁ body s₁')
    (hstep : SecondStep s body s') :
    Resolved s.ass.symtable body ∧ (body.tests = true → s.status = .ok) := by
  cases hfirst with
  | label | toData | toText => exact ⟨⟨nofun, trivial⟩, nofun⟩
  | data hform hsect =>
      cases hstep with
      | data _ hbytes _ =>
          cases hform with
          | byte | word | wordIdent | addr => exact ⟨⟨nofun, trivial⟩, nofun⟩
          | addrIdent x =>
              cases hbytes with
              | addrValue htype hv => exact absurd rfl htype
              | @addr _ addr haddr =>
                  refine ⟨⟨fun y hy => ?_, trivial⟩, nofun⟩
                  cases hy
                  exact ⟨addr, haddr⟩
          | string x =>
              cases hbytes with
              | string hx hlength =>
                  cases hx
                  exact ⟨⟨nofun, hlength⟩, nofun⟩
      | _ => cases hform
  | entry hone =>
      cases hstep with
      | data _ hbytes _ => cases hbytes
      | @entry _ x addr hx haddr =>
          refine ⟨⟨fun y hy => ?_, trivial⟩, nofun⟩
          cases hx
          cases hy
          exact ⟨addr, haddr⟩
  | instr =>
      cases hstep with
      | instr _ hmode _ hset _ _ =>
          exact ⟨⟨setOperand_found hset, trivial⟩,
            (getModeFromOperands_iff (getModeFromOperands_ok hmode)).mp hmode⟩

end

/-- A round ends well, or reports a label that is not defined. -/
def Answers (symtable : SymbolTable) (body : IRBody) (round : SecondRound) : Prop :=
  ∃ r s', round = .ok (r, s') ∧
    (r = .ok ∨ r = .labelUndefined ∧ ∃ x ∈ body.ref?, getSymbolAddr symtable x.str = .ok none)

theorem Answers.good {symtable : SymbolTable} {body : IRBody} {round : SecondRound}
    (h : ∃ s', round = .ok (.ok, s')) : Answers symtable body round := by
  obtain ⟨s', h⟩ := h
  exact ⟨.ok, s', h, Or.inl rfl⟩

theorem Answers.undefined {symtable : SymbolTable} {body : IRBody} {round : SecondRound}
    (h : ∃ s', round = .ok (.labelUndefined, s'))
    (hnone : ∃ x ∈ body.ref?, getSymbolAddr symtable x.str = .ok none) :
    Answers symtable body round := by
  obtain ⟨s', h⟩ := h
  exact ⟨.labelUndefined, s', h, Or.inr ⟨rfl, hnone⟩⟩

section
variable {s : SecondPass}

theorem secondPassDir_answers {type : DirType} {operand : Operand} (hform : DataForm type operand)
    (hsect : s.sect = .data)
    (hstore : ∀ bytes : List Byte, bytes.length = dirSize type operand →
      ∃ data, s.ass.data.storeAll s.dataAddr bytes = .ok data)
    (hlookup : ∀ x ∈ (IRBody.dir type operand).ref?, ∃ r,
      getSymbolAddr s.ass.symtable x.str = .ok r)
    (hstock : (IRBody.dir type operand).Stocked) :
    Answers s.ass.symtable (.dir type operand) (secondPassDir type operand s) := by
  have hdata : ¬ s.sect ≠ .data := not_not.mpr hsect
  have hword : ∀ v, dirSize type operand = 8 → operand.asValue = .ok v →
      Answers s.ass.symtable (.dir type operand) (secondPassWord operand s) := by
    intro v hsize hv
    obtain ⟨data, hdata'⟩ := hstore (encodeArgs v) (by rw [hsize, encodeArgs_length])
    refine .good ?_
    rw [secondPassWord, if_neg hdata, hv, Except.ok_bind, hdata']
    exact ⟨_, rfl⟩
  cases hform with
  | byte v =>
      obtain ⟨data, hdata'⟩ := hstore [v.setWidth 8] rfl
      refine .good ?_
      unfold secondPassDir
      dsimp only
      rw [if_neg hdata, Operand.asValue, Except.ok_bind, hdata']
      exact ⟨_, rfl⟩
  | word v => exact hword v rfl rfl
  | wordIdent x => exact hword x.ptr rfl rfl
  | addr v =>
      unfold secondPassDir
      dsimp only
      rw [if_neg hdata, if_neg (by rw [Operand.type]; decide)]
      exact hword v rfl rfl
  | addrIdent x =>
      obtain ⟨r, hr⟩ := hlookup x rfl
      unfold secondPassDir
      dsimp only
      rw [if_neg hdata, Operand.type, if_pos rfl, Operand.asIdent, Except.ok_bind, hr,
        Except.ok_bind]
      cases r with
      | none => exact ⟨.labelUndefined, s, rfl, Or.inr ⟨rfl, x, rfl, hr⟩⟩
      | some addr =>
          obtain ⟨data, hdata'⟩ := hstore (addrBytes addr) (addrBytes_length addr)
          refine .good ?_
          dsimp only
          rw [hdata']
          exact ⟨_, rfl⟩
  | string x =>
      have hlength : (x.str.take x.length.toNat).length = dirSize .string (.string x) := by
        rw [List.length_take, Nat.min_eq_left hstock]
        rfl
      obtain ⟨data, hdata'⟩ := hstore _ hlength
      refine .good ?_
      unfold secondPassDir
      dsimp only
      rw [if_neg hdata, Operand.asIdent, Except.ok_bind, if_neg (Nat.not_lt.mpr hstock), hdata']
      exact ⟨_, rfl⟩

theorem secondPassInstr_answers {op : OpCode} {a b : Operand} {mode : Mode} {size : Nat}
    (hsect : s.sect = .text) (hmode : instrMode op a b = some mode)
    (hsize : modeSize mode = .ok size)
    (hstatus : (IRBody.instr op a b).tests = true → s.status = .ok)
    (hstore : ∀ instr, modeSize instr.mode = .ok size → ∃ bytecode,
      s.ass.bytecode.storeAll s.textAddr
        (instructionEncode instr (s.ass.headers.codeSize - s.textAddr).toNat).2 = .ok bytecode)
    (hlookup : ∀ x ∈ (IRBody.instr op a b).ref?, ∃ r,
      getSymbolAddr s.ass.symtable x.str = .ok r) :
    Answers s.ass.symtable (.instr op a b) (secondPassInstr op a b s) := by
  have hreg : ∃ reg, firstReg (getArgsCount op) a = .ok reg := by
    rw [firstReg]
    rcases instrMode_cases hmode with ⟨hn, -⟩ | ⟨hn, -⟩ | ⟨hn, ⟨r, rfl⟩, -⟩
    · exact ⟨0, if_neg (by rw [hn]; decide)⟩
    · exact ⟨0, if_neg (by rw [hn]; decide)⟩
    · exact ⟨r, if_pos hn⟩
  have hstring : ∀ x, (if getArgsCount op ≤ 1 then a else b) ≠ .string x := by
    intro x hx
    rcases instrMode_cases hmode with ⟨hn, rfl, -⟩ | ⟨hn, -, hm⟩ | ⟨hn, -, hm⟩
    all_goals rw [hn] at hx
    · cases hx
    · obtain rfl : a = .string x := hx
      cases hm
    · obtain rfl : b = .string x := hx
      cases hm
  obtain ⟨reg, hreg⟩ := hreg
  let zeroed : Instruction := { zeroInstr with opcode := op, mode := mode, a := reg }
  rw [secondPassInstr, if_neg (not_not.mpr hsect)]
  dsimp only
  rw [(getModeFromOperands_iff hmode).mpr hstatus]
  dsimp only
  rw [if_neg (by decide), hreg, Except.ok_bind]
  rcases setOperand_progress zeroed hstring hlookup with ⟨instr, hset, hsame⟩ | ⟨hset, hnone⟩
  · have hsize' : modeSize instr.mode = .ok size := by rw [hsame]; exact hsize
    obtain ⟨bytecode, hbytecode⟩ := hstore instr hsize'
    refine .good ?_
    rw [hset, Except.ok_bind]
    dsimp only
    rw [hbytecode, Except.ok_bind, hsize']
    exact ⟨_, rfl⟩
  · refine .undefined ?_ hnone
    rw [hset]
    exact ⟨_, rfl⟩

end

/-! ## The whole pass -/

theorem Arranged.init {status : AsmError} {nodes post : List IRNode}
    (h : Arranged status (nodes ++ post)) : Arranged status nodes := by
  induction post using List.reverseRecOn with
  | nil => exact List.append_nil nodes ▸ h
  | append_singleton post node ih =>
      rw [← List.append_assoc] at h
      exact ih (arranged_concat.mp h).1

/-- An arranged listing is admitted at every node. -/
theorem Arranged.admits {status : AsmError} {nodes pre post : List IRNode} {node : IRNode}
    (h : Arranged status nodes) (hsplit : nodes = pre ++ node :: post) :
    Admits (layoutOf pre) ((textPart pre).foldl IRBody.status status) node.body := by
  rw [hsplit, List.append_cons] at h
  exact (arranged_concat.mp h.init).2

theorem SecondHere.start (status : AsmError) (ass₁ : Assembler) (env : Ident → Option Word) :
    SecondHere status ass₁ env [] (.start status ass₁) where
  here := .start status ass₁ env
  status := rfl

section
variable {status₁ status₂ : AsmError} {ass₀ ass₁ : Assembler} {irList : IRList}

theorem SecondHere.step {pre post : List IRNode} {node : IRNode} {s s' : SecondPass}
    (h₁ : assemblerFirstPass status₁ ass₀ irList = .ok (.ok, ass₁))
    (hsplit : irList.nodes = pre ++ node :: post)
    (h : SecondHere status₂ ass₁ (layoutOf irList.nodes).address pre s)
    (hnode : secondPassNode node s = .ok (.ok, s')) :
    SecondHere status₂ ass₁ (layoutOf irList.nodes).address (pre ++ [node]) s' := by
  refine ⟨h.here.next h₁ hsplit hnode, ?_⟩
  have hsect := h.here.sect
  have hstep := secondPassNode_step hnode
  obtain ⟨line, body⟩ := node
  cases hstep with
  | instr htext =>
      rw [status_concat status₂ fun _ => hsect.symm.trans htext]
      rfl
  | @data type operand =>
      rw [status_concat status₂ (by intro hemits; cases type <;> cases hemits)]
      exact h.status
  | _ =>
      rw [status_concat status₂ (by intro hemits; cases hemits)]
      exact h.status

theorem SecondHere.answers {pre post : List IRNode} {node : IRNode} {s : SecondPass}
    (h₁ : assemblerFirstPass status₁ ass₀ irList = .ok (.ok, ass₁))
    (hsplit : irList.nodes = pre ++ node :: post)
    (hdata : (layoutOf irList.nodes).data < 2 ^ 64)
    (h : SecondHere status₂ ass₁ (layoutOf irList.nodes).address pre s)
    (hlookup : ∀ x ∈ node.body.ref?, ∃ r, getSymbolAddr ass₁.symtable x.str = .ok r)
    (hstock : node.body.Stocked)
    (hstatus : node.body.tests = true → s.status = .ok) :
    Answers ass₁.symtable node.body (secondPassNode node s) := by
  have hres := firstPass_result h₁
  have htotal := irList.text_lt
  have hle : ((layoutOf pre).after node).Le (layoutOf irList.nodes) := by
    rw [← layoutOf_concat]
    exact layoutOf_le (hsplit.trans (List.append_cons _ _ _))
  obtain ⟨s₁, s₁', -, hat₁, hfirst⟩ := firstPass_node h₁ hsplit
  rw [← h.here.symtable] at hlookup ⊢
  have hsect : s.sect = s₁.sect := h.here.sect.trans hat₁.sect.symm
  obtain ⟨line, body⟩ := node
  cases hfirst with
  | label => exact .good ⟨_, rfl⟩
  | data hform hdata₁ =>
      exact secondPassDir_answers (s := { s with ass.errorLine := line }) hform
        (hsect.trans hdata₁) (fun bytes hlen => h.here.store_ok hres hdata hform hle hlen) hlookup
        hstock
  | toData | toText => exact .good ⟨_, rfl⟩
  | @entry x hone =>
      obtain ⟨r, hr⟩ := hlookup x rfl
      rw [secondPassNode]
      dsimp only
      rw [secondPassDir, Operand.asIdent, Except.ok_bind, hr, Except.ok_bind]
      cases r with
      | none => exact .undefined ⟨_, rfl⟩ ⟨x, rfl, hr⟩
      | some addr => exact .good ⟨_, rfl⟩
  | @instr op a b mode size htext hmode hhandler hsize =>
      have hmode' := getModeFromOperands_ok hmode
      refine secondPassInstr_answers (s := { s with ass.errorLine := line }) (hsect.trans htext)
        hmode' hsize hstatus (fun instr hinstr => ?_) hlookup
      have hend : (layoutOf pre).text + size ≤ (layoutOf irList.nodes).text :=
        instrSize_eq hmode' hsize ▸ hle.text
      have hlen := encoding_length hinstr
      have hremaining := h.here.remaining hres htotal (by omega)
      dsimp only
      rw [h.here.codeSize, hremaining, instructionEncode_fits (by omega)]
      refine storeAll_ok ?_
      rw [h.here.text_toNat (by omega), h.here.bytecode, hlen]
      dsimp only
      rw [toNat_cursor hres.codeSize htotal]
      exact hend

/-- What the second pass may return. -/
def Returned (symtable : SymbolTable) (nodes : List IRNode) (r : AsmError) : Prop :=
  r = .ok ∨ r = .labelUndefined ∧
    ∃ node ∈ nodes, ∃ x ∈ node.body.ref?, getSymbolAddr symtable x.str = .ok none

/-- The second pass on an arranged listing answers. -/
theorem secondPass_answers (h₁ : assemblerFirstPass status₁ ass₀ irList = .ok (.ok, ass₁))
    (hdata : (layoutOf irList.nodes).data < 2 ^ 64) (harranged : Arranged status₂ irList.nodes)
    (hlookup : ∀ node ∈ irList.nodes, ∀ x ∈ node.body.ref?, ∃ r,
      getSymbolAddr ass₁.symtable x.str = .ok r)
    (hstock : ∀ node ∈ irList.nodes, node.body.Stocked) :
    ∃ r ass₂, assemblerSecondPass status₂ ass₁ irList = .ok (r, ass₂) ∧
      Returned ass₁.symtable irList.nodes r := by
  have hstep : ∀ pre node post s, irList.nodes = pre ++ node :: post →
      SecondHere status₂ ass₁ (layoutOf irList.nodes).address pre s → ∃ r s',
        secondPassNode node s = .ok (r, s') ∧ Returned ass₁.symtable irList.nodes r ∧
        (r = .ok → SecondHere status₂ ass₁ (layoutOf irList.nodes).address (pre ++ [node]) s') := by
    intro pre node post s hsplit hat
    have hmem : node ∈ irList.nodes := by
      rw [hsplit]
      exact List.mem_append_right _ List.mem_cons_self
    have hstatus : node.body.tests = true → s.status = .ok := by
      rw [hat.status]
      exact (harranged.admits hsplit).status
    obtain ⟨r, s', hnode, hr⟩ :=
      hat.answers h₁ hsplit hdata (hlookup node hmem) (hstock node hmem) hstatus
    refine ⟨r, s', hnode, hr.imp_right fun ⟨hr, hx⟩ => ⟨hr, node, hmem, hx⟩, ?_⟩
    rintro rfl
    exact hat.step h₁ hsplit hnode
  obtain ⟨r, s', hrun, hr, -⟩ :=
    runPass_progress (Q := Returned ass₁.symtable irList.nodes) (.start status₂ ass₁ _)
      (Or.inl rfl) hstep
  refine ⟨r, s'.ass, ?_, hr⟩
  rw [assemblerSecondPass, hrun]
  rfl

/-- What a second pass has seen that came through some nodes. -/
structure SecondSeen (status : AsmError) (ass₁ : Assembler) (env : Ident → Option Word)
    (nodes : List IRNode) (s : SecondPass) : Prop where
  here : SecondHere status ass₁ env nodes s
  arranged : Arranged status nodes
  resolved : ∀ node ∈ nodes, Resolved ass₁.symtable node.body

theorem SecondSeen.step {pre post : List IRNode} {node : IRNode} {s s' : SecondPass}
    (h₁ : assemblerFirstPass status₁ ass₀ irList = .ok (.ok, ass₁))
    (hsplit : irList.nodes = pre ++ node :: post)
    (h : SecondSeen status₂ ass₁ (layoutOf irList.nodes).address pre s)
    (hnode : secondPassNode node s = .ok (.ok, s')) :
    SecondSeen status₂ ass₁ (layoutOf irList.nodes).address (pre ++ [node]) s' := by
  have hadmits := (firstPass_ok_iff.mp ⟨ass₁, h₁⟩).admits hsplit
  obtain ⟨_, _, -, -, hfirst⟩ := firstPass_node h₁ hsplit
  obtain ⟨hresolved, hstatus⟩ := (secondPassNode_step hnode).resolved hfirst
  have hsame : s.ass.symtable = ass₁.symtable := h.here.here.symtable
  refine ⟨h.here.step h₁ hsplit hnode, arranged_concat.mpr ⟨h.arranged, ?_⟩,
    List.forall_mem_append.mpr ⟨h.resolved, List.forall_mem_singleton.mpr (hsame ▸ hresolved)⟩⟩
  exact hadmits.congr (h.here.status ▸ hstatus)

/-- **The second pass accepts exactly the arranged listings whose references are
found.** -/
theorem secondPass_ok_iff (h₁ : assemblerFirstPass status₁ ass₀ irList = .ok (.ok, ass₁)) :
    (∃ ass₂, assemblerSecondPass status₂ ass₁ irList = .ok (.ok, ass₂)) ↔
      (layoutOf irList.nodes).data < 2 ^ 64 ∧ Arranged status₂ irList.nodes ∧
        ∀ node ∈ irList.nodes, Resolved ass₁.symtable node.body := by
  constructor
  · rintro ⟨ass₂, h₂⟩
    refine ⟨data_lt h₁ h₂, ?_⟩
    rw [assemblerSecondPass] at h₂
    obtain ⟨⟨r, s'⟩, hrun, h₂⟩ := Except.bind_eq_ok.mp h₂
    cases h₂
    have hstart : SecondSeen status₂ ass₁ (layoutOf irList.nodes).address []
        (.start status₂ ass₁) :=
      ⟨.start status₂ ass₁ _, arranged_nil status₂, List.forall_mem_nil _⟩
    have hkeep : ∀ pre node post s s', irList.nodes = pre ++ node :: post →
        SecondSeen status₂ ass₁ (layoutOf irList.nodes).address pre s →
        secondPassNode node s = .ok (.ok, s') →
        SecondSeen status₂ ass₁ (layoutOf irList.nodes).address (pre ++ [node]) s' :=
      fun _ _ _ _ _ hsplit hseen hnode => hseen.step h₁ hsplit hnode
    obtain ⟨_, -, hseen, -⟩ :=
      runPass_at hstart hkeep hrun (List.append_nil irList.nodes).symm
    exact ⟨hseen.arranged, hseen.resolved⟩
  · rintro ⟨hdata, harranged, hresolved⟩
    have hlookup : ∀ node ∈ irList.nodes, ∀ x ∈ node.body.ref?, ∃ r,
        getSymbolAddr ass₁.symtable x.str = .ok r := by
      intro node hnode x hx
      obtain ⟨addr, haddr⟩ := (hresolved node hnode).found x hx
      exact ⟨some addr, haddr⟩
    obtain ⟨r, ass₂, h₂, rfl | ⟨-, node, hnode, x, hx, hnone⟩⟩ :=
      secondPass_answers h₁ hdata harranged hlookup fun node hnode => (hresolved node hnode).stocked
    · exact ⟨ass₂, h₂⟩
    · obtain ⟨addr, haddr⟩ := (hresolved node hnode).found x hx
      cases hnone.symm.trans haddr

end

end BSVM
