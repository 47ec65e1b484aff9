/-
# `BSVM.ControlFlow` — where `pc` can be in a program that jumps to labels only

The invariant of a run has two halves, and each needs the other:

    the code is what was loaded    no FAS and no system call was executed, since
                                   only instructions of the program were
    `pc` is between instructions   what is decoded there is the instruction of
                                   the node, since the code is what was loaded

Behind the end of the code, up to `DATA_BASE`, every byte is zero, which is no
instruction.  A step there, and a step that `cpu_step` finds truncated, leaves
the machine as it is.
-/
import BSVM.Image
import BSVM.Transfer

namespace BSVM

variable {host : Host} {vm vm' : VM} {i : Instruction}

/-! ## Handlers that leave `pc` alone -/

abbrev KeepsPc (vm : VM) (r : Result) : Prop := r.2.pc = vm.pc

theorem setReg_pc {k : Byte} {v : Word} (h : vm.setReg k v = .ok vm') : vm'.pc = vm.pc := by
  obtain ⟨_, rfl⟩ := setReg_cases h
  rfl

theorem memWrite64_pc (vm : VM) (addr v : Word) : Returns (memWrite64 vm addr v) (KeepsPc vm) := by
  rintro ⟨status, vm'⟩ h
  rcases memWrite64_cases h with ⟨-, -, rfl⟩ | ⟨-, -, rfl⟩
  · rfl
  · rfl

theorem finish_pc (a : Byte) (res v : Word) (c o : Bool) :
    Returns (finish (setSR vm res c o) a v) (KeepsPc vm) := by
  refine Returns.bind_iff.mpr fun vm₁ hset => Returns.ok_iff.mpr ?_
  have hpc := setReg_pc hset
  rw [setSR_eq] at hpc
  exact hpc

theorem dataOp_pc {opcode : OpCode} {op : DataOp} (hop : dataOp host opcode = some op) (a : Byte)
    (y : Word) : Returns (op vm a y) (KeepsPc vm) := by
  cases opcode <;> cases hop
  case div =>
    refine Returns.guard rfl fun _ => .bind fun x => ?_
    exact Returns.ite_iff.mpr ⟨fun _ => Returns.error_iff.mpr trivial, fun _ => finish_pc _ _ _ _ _⟩
  case cmp =>
    refine .bind fun x => Returns.ok_iff.mpr ?_
    rw [setSRSUB, setSR_eq]
  case shl =>
    refine .bind fun x => .bind fun res => Returns.bind_iff.mpr ?_
    exact .bind fun out => Returns.ok_iff.mpr (finish_pc _ _ _ _ _)
  case shr =>
    refine .bind fun x => .bind fun res => Returns.bind_iff.mpr ?_
    exact .bind fun out => Returns.ok_iff.mpr (finish_pc _ _ _ _ _)
  case ld => exact Returns.bind_iff.mpr fun vm₁ hset => Returns.ok_iff.mpr (setReg_pc hset)
  all_goals exact .bind fun x => finish_pc _ _ _ _ _

theorem data_pc {op : DataOp} {handler : InstrHandler} (hop : dataOp host i.opcode = some op)
    (hh : getHandler host i.opcode i.mode = some handler) :
    Returns (handler vm i) (KeepsPc vm) := by
  rw [data_handler_eq hop hh]
  refine Returns.guard rfl fun _ => .bind fun r => ?_
  exact Returns.ite_iff.mpr ⟨fun _ => dataOp_pc hop _ _, fun _ => Returns.ok_iff.mpr rfl⟩

section
variable {op : AddrOp} (hop : ∀ a addr, Returns (op vm a addr) (KeepsPc vm))
include hop

theorem atDIR_pc : Returns (atDIR op vm i) (KeepsPc vm) :=
  Returns.guard rfl fun _ => Returns.guard rfl fun _ => hop _ _

theorem atIND_pc : Returns (atIND op vm i) (KeepsPc vm) :=
  Returns.guard rfl fun _ => .bind fun _ => Returns.guard rfl fun _ => hop _ _

theorem atIDX_pc : Returns (atIDX op vm i) (KeepsPc vm) :=
  Returns.guard rfl fun _ => .bind fun _ => Returns.guard rfl fun _ => hop _ _

end

theorem bodyST_pc (a : Byte) (addr : Word) : Returns (bodyST vm a addr) (KeepsPc vm) :=
  .bind fun _ => memWrite64_pc _ _ _

theorem bodySWP_pc (a : Byte) (addr : Word) : Returns (bodySWP vm a addr) (KeepsPc vm) := by
  refine .bind fun r => Returns.ite_iff.mpr ⟨fun _ => .bind fun x => ?_, fun _ => ?_⟩
  · refine Returns.bind_iff.mpr fun r hwrite => ?_
    have hpc : KeepsPc vm r := memWrite64_pc _ _ _ r hwrite
    refine Returns.ite_iff.mpr ⟨fun _ => ?_, fun _ => Returns.ok_iff.mpr hpc⟩
    exact Returns.bind_iff.mpr fun vm₁ hset => Returns.ok_iff.mpr ((setReg_pc hset).trans hpc)
  · exact Returns.ok_iff.mpr rfl

theorem instrSWPR_pc : Returns (instrSWPR vm i) (KeepsPc vm) := by
  refine Returns.guard rfl fun _ => .bind fun tmp => .bind fun b => ?_
  refine Returns.bind_iff.mpr fun vm₁ h₁ => Returns.bind_iff.mpr fun vm₂ h₂ => ?_
  exact Returns.ok_iff.mpr ((setReg_pc h₂).trans (setReg_pc h₁))

theorem pushWord_pc (v : Word) : Returns (pushWord vm v) (KeepsPc vm) := by
  refine Returns.bind_iff.mpr fun r hwrite => ?_
  have hpc : KeepsPc vm r := memWrite64_pc { vm with sp := vm.sp - 8 } _ _ r hwrite
  exact Returns.ite_iff.mpr ⟨fun _ => Returns.ok_iff.mpr hpc, fun _ => Returns.ok_iff.mpr hpc⟩

theorem instrPOP_pc : Returns (instrPOP vm i) (KeepsPc vm) := by
  refine Returns.guard rfl fun _ => Returns.guard rfl fun _ => .bind fun r => ?_
  refine Returns.ite_iff.mpr ⟨fun _ => ?_, fun _ => Returns.ok_iff.mpr rfl⟩
  refine Returns.bind_iff.mpr fun vm₁ hset => Returns.ok_iff.mpr ?_
  have hpc := setReg_pc hset
  exact hpc

/-- The operations that go on with the next instruction. -/
theorem straight_pc {handler : InstrHandler}
    (hh : getHandler host i.opcode i.mode = some handler) (hjump : i.opcode.isJump = false)
    (hcall : i.opcode ≠ .call) (hrtn : i.opcode ≠ .rtn) (hrst : i.opcode ≠ .rst)
    (htrap : i.opcode ≠ .trap) (hfas : i.opcode ≠ .fas) :
    Returns (handler vm i) (KeepsPc vm) := by
  cases handled hh with
  | data hop hh => exact data_pc hop hh
  | neg | not => exact Returns.guard rfl fun _ => .bind fun x => finish_pc _ _ _ _ _
  | std => exact atDIR_pc bodyST_pc
  | sti => exact atIND_pc bodyST_pc
  | stx => exact atIDX_pc bodyST_pc
  | swpr => exact instrSWPR_pc
  | swpd => exact atDIR_pc bodySWP_pc
  | swpi => exact atIND_pc bodySWP_pc
  | swpx => exact atIDX_pc bodySWP_pc
  | push => exact Returns.guard rfl fun _ => Returns.guard rfl fun _ => pushWord_pc _
  | pushr =>
    exact Returns.guard rfl fun _ => Returns.guard rfl fun _ => .bind fun x => pushWord_pc x
  | pop => exact instrPOP_pc
  | fas hop => exact absurd hop hfas
  | call hop => exact absurd hop hcall
  | rtn hop => exact absurd hop hrtn
  | nop | halt => exact Returns.ok_iff.mpr rfl
  | rst hop => exact absurd hop hrst
  | trap hop => exact absurd hop htrap
  | jmp hop =>
    rw [hop] at hjump
    cases hjump
  | conditional j hop =>
    rw [hop] at hjump
    cases j <;> cases hjump

/-- `pc` is left alone, or a transfer sets it to its target. -/
theorem handler_pc {handler : InstrHandler}
    (hh : getHandler host i.opcode i.mode = some handler) (hrtn : i.opcode ≠ .rtn)
    (hrst : i.opcode ≠ .rst) (htrap : i.opcode ≠ .trap) (hfas : i.opcode ≠ .fas) :
    Returns (handler vm i) fun r =>
      r.2.pc = vm.pc ∨ ((i.opcode.isJump = true ∨ i.opcode = .call) ∧
        r.2.pc = targetWord vm i) := by
  intro r hrun
  by_cases ht : transfers vm i = true
  · have hop : i.opcode.isJump = true ∨ i.opcode = .call := by
      rw [transfers] at ht
      split at ht
      · next j hcond =>
          left
          rw [OpCode.isJump, hcond]
          exact Bool.or_true _
      · rcases of_decide_eq_true ht with hjmp | hcall | hrtn' | hrst'
        · left
          rw [hjmp]
          rfl
        · exact Or.inr hcall
        · exact absurd hrtn' hrtn
        · exact absurd hrst' hrst
    have hout : TransferOutcome vm i r.1 r.2 := transfer_outcome hh ht r hrun
    obtain ⟨status, vm'⟩ := r
    cases hout with
    | stopped | refused | unpushed => exact Or.inl rfl
    | taken _ _ hpc => exact Or.inr ⟨hop, hpc⟩
  · left
    cases hcond : i.opcode.condition? with
    | some j =>
        have hop := opcode_of_condition hcond
        rw [hop] at hh
        obtain ⟨jmp, -, rfl⟩ := conditional_handler hh
        have hskip : j.skips i.mode vm = true := by
          rw [transfers, hcond] at ht
          simpa using ht
        rw [skipIf, if_pos hskip] at hrun
        cases hrun
        rfl
    | none =>
        rw [transfers, hcond] at ht
        have hno := of_decide_eq_false (Bool.not_eq_true _ ▸ ht)
        refine straight_pc hh ?_ (fun h => hno (Or.inr (Or.inl h))) hrtn hrst htrap hfas r hrun
        rw [OpCode.isJump, hcond, decide_eq_false fun h => hno (Or.inl h)]
        rfl

/-! ## Between instructions -/

/-- The address of an instruction, or the end of the code. -/
def Boundary (nodes : List IRNode) (n : Nat) : Prop :=
  (∃ pre line op a b post, nodes = pre ++ ⟨line, .instr op a b⟩ :: post ∧
    n = (layoutOf pre).text) ∨ n = (layoutOf nodes).text

/-- The text of any point of the list ends between two instructions. -/
theorem boundary_at {nodes pre post : List IRNode} (h : nodes = pre ++ post) :
    Boundary nodes (layoutOf pre).text := by
  induction post generalizing pre with
  | nil =>
      rw [List.append_nil] at h
      exact Or.inr (h ▸ rfl)
  | cons node post ih =>
      by_cases hemits : node.body.emits = .text
      · obtain ⟨line, body⟩ := node
        cases body with
        | instr op a b => exact Or.inl ⟨pre, line, op, a, b, post, h, rfl⟩
        | label name => cases hemits
        | dir type operand => cases type <;> cases hemits
      · have hplace : ((layoutOf pre).after node).text = (layoutOf pre).text :=
          place_after (nofun : Section.text ≠ .undefined) hemits
        rw [← hplace, ← layoutOf_concat]
        exact ih (h.trans (List.append_cons _ _ _))

/-- No boundary is inside an instruction. -/
theorem Boundary.outside {nodes pre post : List IRNode} {line : Word} {op : OpCode} {a b : Operand}
    {n : Nat} (h : Boundary nodes n) (hsplit : nodes = pre ++ ⟨line, .instr op a b⟩ :: post) :
    n ≤ (layoutOf pre).text ∨ (layoutOf pre).text + instrSize op a b ≤ n := by
  have hafter : (layoutOf (pre ++ [⟨line, .instr op a b⟩])).text =
      (layoutOf pre).text + instrSize op a b := by
    rw [layoutOf_concat]
    rfl
  rw [← hafter]
  rcases h with ⟨pre', line', op', a', b', post', hsplit', rfl⟩ | rfl
  · rcases List.append_eq_append_iff.mp (hsplit'.symm.trans hsplit) with
      ⟨mid, hpre, -⟩ | ⟨mid, hpre', hmid⟩
    · exact Or.inl (layoutOf_le hpre).text
    · cases mid with
      | nil =>
          rw [List.append_nil] at hpre'
          exact Or.inl (hpre' ▸ Nat.le_refl _)
      | cons node mid =>
          obtain ⟨rfl, -⟩ := List.cons.inj hmid
          exact Or.inr (layoutOf_le (hpre'.trans (List.append_cons _ _ _))).text
  · exact Or.inr (layoutOf_le (hsplit.trans (List.append_cons _ _ _))).text

/-! ## Programs that jump to labels only -/

/-- A label of the text section is called so. -/
def TextLabel (irList : IRList) (x : Ident) : Prop :=
  ∃ pre line name y post, irList.nodes = pre ++ ⟨line, .label name⟩ :: post ∧
    name.asIdent = .ok y ∧ cName y.str = cName x.str ∧ (layoutOf pre).sect = .text

/-- JMP, the conditional jumps and CALL have a text label as their one operand,
and so has the entry directive; nothing else transfers control, or writes where
its address is not tested. -/
structure LabelOnly (irList : IRList) : Prop where
  entry : ∀ line x, ⟨line, .dir .entry (.ident x)⟩ ∈ irList.nodes → TextLabel irList x
  targets : ∀ line op a b, ⟨line, .instr op a b⟩ ∈ irList.nodes →
    op.isJump = true ∨ op = .call → ∃ x, a = .ident x ∧ b = .none ∧ TextLabel irList x
  others : ∀ line op a b, ⟨line, .instr op a b⟩ ∈ irList.nodes →
    op ≠ .rtn ∧ op ≠ .rst ∧ op ≠ .trap ∧ op ≠ .fas

/-- One call of `cpu_step`, the structure it decodes into being zero.  A call
that accesses a byte outside the array leaves no machine. -/
def ZeroedStep (vm vm' : VM) : Prop :=
  ∃ (host : Host) (status : VmError), cpuStep (host.withInstr zeroInstr) vm = .ok (status, vm')

abbrev ZeroedSteps : VM → VM → Prop := Relation.ReflTransGen ZeroedStep

section
variable {status₁ status₂ : AsmError} {irList : IRList} {ass₁ ass₂ : Assembler} {vm₀ : VM}

/-- The address of a text label is between instructions. -/
theorem TextLabel.boundary {x : Ident} (hx : TextLabel irList x)
    (h₁ : assemblerFirstPass status₁ .zero irList = .ok (.ok, ass₁)) :
    ∃ addr, (layoutOf irList.nodes).address x = some addr ∧
      Boundary irList.nodes addr.toNat := by
  obtain ⟨pre, line, name, y, post, hsplit, hy, hname, hsect⟩ := hx
  refine ⟨_, address_of_label h₁ hsplit hy hname.symm, ?_⟩
  have hhere : (layoutOf pre).here = (layoutOf pre).text := by
    rw [Layout.here, hsect]
    rfl
  have hlt := lt_of_le_of_lt (layoutOf_le hsplit).text irList.text_lt
  rw [hhere, toNat_cursor rfl hlt]
  exact boundary_at hsplit

/-- The program starts between instructions. -/
theorem Loaded.starts (h : Loaded status₁ status₂ irList ass₁ ass₂ vm₀)
    (hlabel : LabelOnly irList) : Boundary irList.nodes vm₀.pc.toNat := by
  obtain ⟨bin, hbin, hload⟩ := h.load
  obtain ⟨-, -, data, -, hbinary⟩ := binary_eq h.first h.second
  obtain rfl := Except.ok.inj (hbinary.symm.trans hbin)
  have hpc : vm₀.pc = ass₂.headers.entryPoint := by rw [loadProgram_ok hload]
  obtain ⟨s, -, hat, rfl⟩ := secondPass_end h.first h.second
  rw [hpc]
  by_cases hentry : ∃ node ∈ irList.nodes, ∃ operand, node.body = .dir .entry operand
  · obtain ⟨⟨line, body⟩, hmem, operand, hbody⟩ := hentry
    dsimp only at hbody
    subst hbody
    obtain ⟨pre, post, hsplit⟩ := List.append_of_mem hmem
    obtain ⟨_, _, -, -, hstep⟩ := firstPass_node h.first hsplit
    cases hstep with
    | data hform => cases hform
    | @entry x _ =>
        obtain ⟨addr, haddr, hbound⟩ := (hlabel.entry line x hmem).boundary h.first
        have hpoint := hat.entry x (entry_of_mem h.first hmem)
        obtain rfl := Option.some.inj (haddr.symm.trans hpoint)
        exact hbound
  · have hno : ∀ node ∈ irList.nodes, ∀ operand, node.body ≠ .dir .entry operand :=
      fun node hnode operand hbody => hentry ⟨node, hnode, operand, hbody⟩
    rw [hat.noEntry (entry_none hno), (firstPass_result h.first).entryPoint]
    exact boundary_at (List.nil_append irList.nodes).symm

/-! ## The invariant -/

/-- The code is what was loaded, and `pc` is between instructions. -/
structure OnTrack (irList : IRList) (vm₀ vm : VM) : Prop where
  code : SameCode vm₀ vm
  pc : Boundary irList.nodes vm.pc.toNat

/-- Behind the code there is nothing to execute. -/
theorem Loaded.step_end (h : Loaded status₁ status₂ irList ass₁ ass₂ vm₀)
    (hsame : SameCode vm₀ vm) (hpc : vm.pc.toNat = (layoutOf irList.nodes).text)
    (hstep : ZeroedStep vm vm') : vm' = vm := by
  obtain ⟨host, status, hstep⟩ := hstep
  obtain ⟨bin, hbin, hload⟩ := h.load
  obtain ⟨hcode, -, data, -, hbinary⟩ := binary_eq h.first h.second
  obtain rfl := Except.ok.inj (hbinary.symm.trans hbin)
  have hzero : ∀ k, (layoutOf irList.nodes).text ≤ k → k < DATA_BASE →
      byteAt vm.memory k = 0 := by
    intro k hk hdata
    have hmem : k < MEM_SIZE := by
      simp only [DATA_BASE, MEM_SIZE] at hdata ⊢
      omega
    rw [byteAt_lt hmem, hsame ⟨k, hmem⟩ hdata, loadProgram_ok hload]
    dsimp only
    rw [overlay_outside (Or.inl hdata), overlay_outside (Or.inr ?_)]
    · rfl
    · rw [hcode]
      exact (Nat.zero_add _).trans_le hk
  rcases cpuStep_cases hstep with ⟨-, hvm'⟩ | ⟨i, hdata, ⟨size, hfetch, hsize⟩, handler, hhandler⟩
  · exact hvm'
  · rw [fetch_eq] at hfetch
    split at hfetch
    · cases hfetch
      cases hsize
    · next hroom =>
        rw [hzero _ hpc.ge hdata, hzero _ (by omega) (by omega)] at hfetch
        cases hfetch
        cases hhandler

/-- What is executed at an instruction is that instruction. -/
theorem EncodedAt.executes {size : Nat} {i' : Instruction} (h : EncodedAt vm i size)
    (hcanon : i.Canonical) (hexec : Executes (host.withInstr zeroInstr) vm i') : i' = i := by
  obtain ⟨-, ⟨consumed, hfetch, hsize⟩, -⟩ := hexec
  rw [h.fetch_eq hcanon] at hfetch
  split at hfetch
  · cases hfetch
    rfl
  · next hno =>
      cases hfetch
      exact absurd hsize (modeSize_ne_two (not_or.mp hno).1)

theorem target_imm (hop : i.opcode.isJump = true ∨ i.opcode = .call) (hm : i.mode = .imm) :
    targetWord vm i = i.args := by
  obtain ⟨opcode, mode, a, b, args⟩ := i
  dsimp only at hop hm
  subst hm
  rcases hop with hop | rfl
  · cases opcode <;> cases hop <;> rfl
  · rfl

/-- A transfer of such a program goes to a label. -/
theorem LabelOnly.target (hlabel : LabelOnly irList)
    (h₁ : assemblerFirstPass status₁ .zero irList = .ok (.ok, ass₁)) {pre : List IRNode}
    {line : Word} {op : OpCode} {a b : Operand} {size : Nat}
    (hmem : ⟨line, .instr op a b⟩ ∈ irList.nodes) (hi : Placed irList pre op a b i size)
    (hop : i.opcode.isJump = true ∨ i.opcode = .call) (vm : VM) :
    Boundary irList.nodes (targetWord vm i).toNat := by
  have hopcode := denote_opcode hi.denotes
  rw [hopcode] at hop
  obtain ⟨x, rfl, rfl, hx⟩ := hlabel.targets line op a b hmem hop
  obtain ⟨addr, haddr, hbound⟩ := hx.boundary h₁
  -- all of them have one operand
  have hcount : getArgsCount op = 1 := by
    rcases hop with hop | rfl
    · cases op <;> cases hop <;> rfl
    · rfl
  obtain ⟨mode, word, hmode, hword, rfl⟩ := denote_iff.mp hi.denotes
  rw [if_neg (by rw [hcount]; decide)] at hword
  obtain rfl := Option.some.inj (haddr.symm.trans hword)
  have himm : some .imm = some mode := by
    rw [← hmode, instrMode]
    · rfl
    · exact hcount
  rw [target_imm hop (Option.some.inj himm).symm]
  exact hbound

theorem OnTrack.step (h : Loaded status₁ status₂ irList ass₁ ass₂ vm₀) (hlabel : LabelOnly irList)
    (hat : OnTrack irList vm₀ vm) (hstep : ZeroedStep vm vm') : OnTrack irList vm₀ vm' := by
  rcases hat.pc with ⟨pre, line, op, a, b, post, hsplit, hpc⟩ | hend
  · obtain ⟨host, status, hstep⟩ := hstep
    rcases cpuStep_cases hstep with ⟨-, rfl⟩ | ⟨i, hexec⟩
    · exact hat
    · obtain ⟨i', size, hi⟩ := instr_placed h.first h.second hsplit
      have henc := h.encodedAt hi hat.code hpc
      obtain rfl := henc.executes (denote_canonical hi.denotes) hexec
      have hmem : ⟨line, .instr op a b⟩ ∈ irList.nodes := hsplit ▸ List.mem_append_cons_self
      obtain ⟨hrtn, hrst, htrap, hfas⟩ := hlabel.others line op a b hmem
      rw [← denote_opcode hi.denotes] at hrtn hrst htrap hfas
      obtain ⟨handler, size', vm₁, hh, hsize, hrun, rfl⟩ := cpuStep_executes hexec hstep
      obtain rfl := Except.ok.inj (hi.sized.symm.trans hsize)
      have hcode : SameCode vm vm₁ :=
        (handler_effective hh vm _ hrun).sameCode hfas htrap hrst
      -- where the handler leaves `pc`, and what is behind the instruction
      have hleft : Boundary irList.nodes vm₁.pc.toNat := by
        rcases handler_pc hh hrtn hrst htrap hfas _ hrun with hkeep | ⟨hop, hgo⟩
        · exact hkeep ▸ hat.pc
        · exact hgo ▸ hlabel.target h.first hmem hi hop vm
      have hnext : Boundary irList.nodes (vm.pc + BitVec.ofNat 64 size).toNat := by
        have hroom := henc.room
        have hend : (layoutOf (pre ++ [⟨line, .instr op a b⟩])).text = vm.pc.toNat + size := by
          rw [layoutOf_concat, hpc, ← instrSize_eq (denote_mode hi.denotes) hi.sized]
          rfl
        rw [toNat_add_ofNat (by simp only [DATA_BASE] at hroom; omega), ← hend]
        exact boundary_at (hsplit.trans (List.append_cons _ _ _))
      refine ⟨hat.code.trans (fun k hk => ?_), ?_⟩
      · rw [advance_memory]
        exact hcode k hk
      · rw [advance]
        split
        · next hsame => exact hsame.2 ▸ hnext
        · exact hleft
  · rw [h.step_end hat.code hend hstep]
    exact hat

theorem OnTrack.steps (h : Loaded status₁ status₂ irList ass₁ ass₂ vm₀) (hlabel : LabelOnly irList)
    (hrun : ZeroedSteps vm₀ vm) : OnTrack irList vm₀ vm := by
  induction hrun with
  | refl => exact ⟨.refl vm₀, h.starts hlabel⟩
  | tail _ hlast ih => exact ih.step h hlabel hlast

/-! ## What is asked of `pc` -/

/-- `pc` is where the second pass was when it came to an instruction, or at the
end of the code, and not inside any instruction. -/
structure OnInstruction (status₂ : AsmError) (irList : IRList) (ass₁ ass₂ : Assembler)
    (pc : Word) : Prop where
  place : (∃ pre line op a b post s, irList.nodes = pre ++ ⟨line, .instr op a b⟩ :: post ∧
    runPass .ok secondPassNode pre (.start status₂ ass₁) = .ok (.ok, s) ∧ pc = s.textAddr) ∨
    pc = ass₂.headers.codeSize
  outside : ∀ pre line op a b post s, irList.nodes = pre ++ ⟨line, .instr op a b⟩ :: post →
    runPass .ok secondPassNode pre (.start status₂ ass₁) = .ok (.ok, s) →
    ¬ (s.textAddr.toNat < pc.toNat ∧ pc.toNat < s.textAddr.toNat + instrSize op a b)

theorem Boundary.onInstruction {pc : Word} (h : Boundary irList.nodes pc.toNat)
    (h₁ : assemblerFirstPass status₁ .zero irList = .ok (.ok, ass₁))
    (h₂ : assemblerSecondPass status₂ ass₁ irList = .ok (.ok, ass₂)) :
    OnInstruction status₂ irList ass₁ ass₂ pc := by
  have hcursor : ∀ {pre line op a b post}, irList.nodes = pre ++ ⟨line, .instr op a b⟩ :: post →
      ∃ s, runPass .ok secondPassNode pre (.start status₂ ass₁) = .ok (.ok, s) ∧
        s.textAddr.toNat = (layoutOf pre).text := by
    intro pre line op a b post hsplit
    obtain ⟨i, size, hi⟩ := instr_placed h₁ h₂ hsplit
    obtain ⟨s, hrun, htext, -, -⟩ := instr_emitted h₁ h₂ hsplit hi
    exact ⟨s, hrun, htext⟩
  constructor
  · rcases h with ⟨pre, line, op, a, b, post, hsplit, hpc⟩ | hend
    · obtain ⟨s, hrun, htext⟩ := hcursor hsplit
      exact Or.inl ⟨pre, line, op, a, b, post, s, hsplit, hrun,
        BitVec.eq_of_toNat_eq (hpc.trans htext.symm)⟩
    · obtain ⟨hcode, -⟩ := binary_eq h₁ h₂
      exact Or.inr (BitVec.eq_of_toNat_eq (hend.trans hcode.symm))
  · rintro pre line op a b post s hsplit hrun ⟨hafter, hbefore⟩
    obtain ⟨s', hrun', htext⟩ := hcursor hsplit
    cases hrun'.symm.trans hrun
    rcases h.outside hsplit with hle | hge
    · omega
    · omega

end

/-- **A loaded program whose only transfers are jumps and calls to text labels
stays between its instructions.** -/
theorem label_only_stays (status₁ status₂ : AsmError) (irList : IRList) (ass₁ ass₂ : Assembler)
    (vm₀ vm : VM) :
    Loaded status₁ status₂ irList ass₁ ass₂ vm₀ → LabelOnly irList → ZeroedSteps vm₀ vm →
      OnInstruction status₂ irList ass₁ ass₂ vm.pc := by
  intro h hlabel hrun
  exact (OnTrack.steps h hlabel hrun).pc.onInstruction h.first h.second

theorem backAndForth_labelOnly : LabelOnly backAndForth := by
  have hm : TextLabel backAndForth ⟨[109, 0], 0, 2⟩ :=
    ⟨backAndForth.nodes.take 3, _, _, _, backAndForth.nodes.drop 4, rfl, rfl, rfl, rfl⟩
  have hx : TextLabel backAndForth ⟨[120, 0], 0, 2⟩ :=
    ⟨backAndForth.nodes.take 5, _, _, _, backAndForth.nodes.drop 6, rfl, rfl, rfl, rfl⟩
  constructor
  · intro line x hmem
    simp [backAndForth] at hmem
    exact hmem.2 ▸ hm
  · intro line op a b hmem hop
    simp [backAndForth] at hmem
    rcases hmem with ⟨-, rfl, rfl, rfl⟩ | ⟨-, rfl, -, -⟩ | ⟨-, rfl, rfl, rfl⟩
    · exact ⟨_, rfl, rfl, hx⟩
    · rcases hop with hop | hop <;> cases hop
    · exact ⟨_, rfl, rfl, hm⟩
  · intro line op a b hmem
    simp [backAndForth] at hmem
    rcases hmem with ⟨-, rfl, -⟩ | ⟨-, rfl, -⟩ | ⟨-, rfl, -⟩
    all_goals decide

/-- It loads a word and goes on behind the load. -/
theorem label_only_stays_back_and_forth : ∃ ass₁ ass₂ vm₀ vm,
    Loaded .ok .ok backAndForth ass₁ ass₂ vm₀ ∧ ZeroedStep vm₀ vm ∧ vm.pc = 22 ∧
      OnInstruction .ok backAndForth ass₁ ass₂ vm.pc := by
  have hloaded : ∃ ass₁ ass₂ vm₀, Loaded .ok .ok backAndForth ass₁ ass₂ vm₀ ∧
      ∃ vm, ZeroedStep vm₀ vm ∧ vm.pc = 22 :=
    ⟨_, _, _, ⟨rfl, rfl, _, rfl, rfl⟩, _, ⟨default, .ok, rfl⟩, rfl⟩
  obtain ⟨ass₁, ass₂, vm₀, h, vm, hstep, hpc⟩ := hloaded
  exact ⟨ass₁, ass₂, vm₀, vm, h, hstep, hpc,
    label_only_stays .ok .ok backAndForth ass₁ ass₂ vm₀ vm h backAndForth_labelOnly
      (.single hstep)⟩

end BSVM
