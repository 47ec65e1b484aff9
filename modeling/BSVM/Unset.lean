/-
# `BSVM.Unset` — what the local `status` of a pass held before

Neither pass sets `status` before its loop.  An instruction that takes no
operands and has none leaves it as it is, any other instruction sets it, and
behind both it is tested.  Two runs of a pass, whatever they held on entry, go
alike until they come to such an instruction first of all; there one goes on
and the other exits (`unset_iff`).
-/
import BSVM.Lib.TwoRuns
import BSVM.Resolution

namespace BSVM

/-! ## What is seen of a pass -/

/-- What `CHK_ASM_STATUS` prints behind a node, the status and the line, where it exits. -/
def IRNode.report (node : IRNode) (sect : Section) (status : AsmError) :
    Option (AsmError × Word) :=
  match node.body with
  | .instr op a b =>
      let (_, status) := getModeFromOperands a b (getArgsCount op) status
      if sect = .text ∧ status ≠ .ok then some (status, node.line) else none
  | _ => none

/-- The result of a pass, and what it has printed. -/
structure Outcome where
  result : Exec (AsmError × Assembler)
  printed : Option (AsmError × Word)
  deriving DecidableEq

/-- The report of the round that exits. -/
def printed {α : Type} : Except (Fault × Option (AsmError × Word)) α → Option (AsmError × Word)
  | .error (_, report) => report
  | .ok _ => none

def firstOutcome (status : AsmError) (ass : Assembler) (irList : IRList) : Outcome where
  result := assemblerFirstPass status ass irList
  printed := printed (runNoted .ok firstPassNode (fun node s => node.report s.sect s.status)
    irList.nodes (.start status ass))

def secondOutcome (status : AsmError) (ass : Assembler) (irList : IRList) : Outcome where
  result := assemblerSecondPass status ass irList
  printed := printed (runNoted .ok secondPassNode (fun node s => node.report s.sect s.status)
    irList.nodes (.start status ass))

/-! ## Instructions that leave it as it is -/

/-- An instruction that takes no operands and has none. -/
def IRBody.LeavesStatus : IRBody → Prop
  | .instr op a b => getArgsCount op = 0 ∧ a = .none ∧ b = .none
  | _ => False

theorem getModeFromOperands_leaves (status : AsmError) :
    getModeFromOperands .none .none 0 status = (.none, status) :=
  rfl

theorem getModeFromOperands_sets {op : OpCode} {a b : Operand}
    (h : ¬ (IRBody.instr op a b).LeavesStatus) (status status' : AsmError) :
    getModeFromOperands a b (getArgsCount op) status =
      getModeFromOperands a b (getArgsCount op) status' := by
  rw [getModeFromOperands, getModeFromOperands]
  by_cases hn : getArgsCount op = 0
  · rw [if_pos hn, if_pos hn]
    by_cases hsome : a.type ≠ .none ∨ b.type ≠ .none
    · rw [if_pos hsome, if_pos hsome]
    · rw [not_or, not_not, not_not] at hsome
      exact absurd ⟨hn, type_none.mp hsome.1, type_none.mp hsome.2⟩ h
  · rw [if_neg hn, if_neg hn]

theorem report_sets {op : OpCode} {a b : Operand} (h : ¬ (IRBody.instr op a b).LeavesStatus)
    (line : Word) (sect : Section) (status status' : AsmError) :
    IRNode.report ⟨line, .instr op a b⟩ sect status =
      IRNode.report ⟨line, .instr op a b⟩ sect status' := by
  rw [IRNode.report, IRNode.report]
  dsimp only
  rw [getModeFromOperands_sets h status status']

/-- None of the nodes is an instruction. -/
def NoInstr (nodes : List IRNode) : Prop :=
  ∀ node ∈ nodes, node.body.emits ≠ .text

/-- The first instruction that the first pass comes to leaves `status` as it is. -/
inductive OpensBare : List IRNode → Prop
  | mk {pre post : List IRNode} {node : IRNode} (hpre : NoInstr pre) (hpass : Arranged .ok pre)
      (hsect : (layoutOf pre).sect = .text) (hnode : node.body.LeavesStatus) :
      OpensBare (pre ++ node :: post)

theorem noInstr_concat {nodes : List IRNode} {node : IRNode} :
    NoInstr (nodes ++ [node]) ↔ NoInstr nodes ∧ node.body.emits ≠ .text := by
  rw [NoInstr, List.forall_mem_append, List.forall_mem_singleton]
  exact Iff.rfl

theorem tests_eq_false {body : IRBody} (h : body.emits ≠ .text) : body.tests = false := by
  cases body with
  | instr op a b => exact absurd rfl h
  | label name => rfl
  | dir type operand => rfl

/-- Without instructions nothing tests `status`. -/
theorem Arranged.any {status : AsmError} {nodes : List IRNode} (h : Arranged status nodes)
    (hnone : NoInstr nodes) (status' : AsmError) : Arranged status' nodes := by
  induction nodes using List.reverseRecOn with
  | nil => exact arranged_nil status'
  | append_singleton nodes node ih =>
      obtain ⟨hpre, hnode⟩ := noInstr_concat.mp hnone
      obtain ⟨h, hadmits⟩ := arranged_concat.mp h
      refine arranged_concat.mpr ⟨ih h hpre, hadmits.congr fun htests => ?_⟩
      rw [tests_eq_false hnode] at htests
      cases htests

theorem status_kept {nodes : List IRNode} (hnone : NoInstr nodes) (status : AsmError) :
    (textPart nodes).foldl IRBody.status status = status := by
  induction nodes using List.reverseRecOn with
  | nil => rfl
  | append_singleton nodes node ih =>
      obtain ⟨hpre, hnode⟩ := noInstr_concat.mp hnone
      rw [status_concat status fun hemits => absurd hemits hnode, ih hpre]
      obtain ⟨line, body⟩ := node
      cases body with
      | instr op a b => exact absurd rfl hnode
      | label name => rfl
      | dir type operand => rfl

/-! ## Two runs

`Twin` relates two states that differ in nothing but `status`. -/

/-- Behind some nodes the states of the two runs are the same, unless there was no
instruction. -/
def SoFar {σ : Type} (Twin : σ → σ → Prop) (pre : List IRNode) (s t : σ) : Prop :=
  s = t ∨ Twin s t ∧ NoInstr pre

/-- The last of these nodes in both runs. -/
def RoundAlike {σ : Type} (Twin : σ → σ → Prop) (pre : List IRNode) (x y : AsmError × σ) : Prop :=
  SameAnswer Twin x y ∧ (x.1 = .ok → SoFar Twin pre x.2 y.2)

section
variable {σ : Type} {Twin : σ → σ → Prop} {pre : List IRNode} {x y : AsmError × σ}

theorem SoFar.twin (hrefl : ∀ s, Twin s s) {s t : σ} (h : SoFar Twin pre s t) : Twin s t := by
  rcases h with rfl | ⟨htwin, -⟩
  · exact hrefl s
  · exact htwin

theorem RoundAlike.refl (hrefl : ∀ s, Twin s s) (x : AsmError × σ) : RoundAlike Twin pre x x :=
  ⟨⟨rfl, hrefl x.2⟩, fun _ => Or.inl rfl⟩

theorem RoundAlike.instr (h : SameAnswer Twin x y ∧ (x.1 = .ok → x.2 = y.2)) :
    RoundAlike Twin pre x y :=
  ⟨h.1, fun hgo => Or.inl (h.2 hgo)⟩

theorem RoundAlike.other {node : IRNode} (hnone : NoInstr pre) (hnode : node.body.emits ≠ .text)
    (h : SameAnswer Twin x y) : RoundAlike Twin (pre ++ [node]) x y :=
  ⟨h, fun _ => Or.inr ⟨h.2, noInstr_concat.mpr ⟨hnone, hnode⟩⟩⟩

end

theorem dir_noInstr (type : DirType) (operand : Operand) :
    (IRBody.dir type operand).emits ≠ .text := by
  cases type <;> exact nofun

/-! ## The first pass -/

def FirstPass.Twin (s t : FirstPass) : Prop :=
  ∃ status, t = { s with status := status }

theorem FirstPass.Twin.refl (s : FirstPass) : s.Twin s :=
  ⟨s.status, rfl⟩

theorem firstPassLabel_twice (name : Operand) (s : FirstPass) (status : AsmError) :
    Lockstep (fun _ => False) (SameAnswer FirstPass.Twin) (firstPassLabel name s)
      (firstPassLabel name { s with status := status }) := by
  refine .bind_same name.asIdent fun ident => ?_
  refine .bind_same (isInSymbolTable s.ass.symtable ident.str) fun found => ?_
  refine .ite (fun _ => .ok ⟨rfl, _, rfl⟩) fun _ => ?_
  refine .ite (fun _ => .ok ⟨rfl, _, rfl⟩) fun _ => ?_
  refine .bind_same (addToSymbolTable s.ass.symtable _) fun symtable => ?_
  exact .ok ⟨rfl, _, rfl⟩

theorem firstPassDir_twice (type : DirType) (operand : Operand) (s : FirstPass)
    (status : AsmError) :
    Lockstep (fun _ => False) (SameAnswer FirstPass.Twin) (firstPassDir type operand s)
      (firstPassDir type operand { s with status := status }) := by
  cases type with
  | byte | word | addr | entry =>
      refine .ite (fun _ => .ok ⟨rfl, _, rfl⟩) fun _ => ?_
      exact .ite (fun _ => .ok ⟨rfl, _, rfl⟩) fun _ => .ok ⟨rfl, _, rfl⟩
  | string =>
      refine .ite (fun _ => .ok ⟨rfl, _, rfl⟩) fun _ => ?_
      refine .bind_same operand.asIdent fun ident => ?_
      exact .ite (fun _ => .ok ⟨rfl, _, rfl⟩) fun _ => .ok ⟨rfl, _, rfl⟩
  | data | text => exact .ite (fun _ => .ok ⟨rfl, _, rfl⟩) fun _ => .ok ⟨rfl, _, rfl⟩

theorem firstPassInstr_twice {op : OpCode} {a b : Operand} {s : FirstPass} (line : Word)
    (hset : s.sect = .text → ¬ (IRBody.instr op a b).LeavesStatus) (status : AsmError) :
    Lockstep (fun _ => False) (fun x y => SameAnswer FirstPass.Twin x y ∧ (x.1 = .ok → x.2 = y.2))
      ((firstPassInstr op a b s).mapError fun e =>
        (e, IRNode.report ⟨line, .instr op a b⟩ s.sect s.status))
      ((firstPassInstr op a b { s with status := status }).mapError fun e =>
        (e, IRNode.report ⟨line, .instr op a b⟩ s.sect status)) := by
  by_cases hsect : s.sect = .text
  · have hmode := getModeFromOperands_sets (hset hsect) s.status status
    have hreport := report_sets (hset hsect) line s.sect s.status status
    have hround : firstPassInstr op a b s = firstPassInstr op a b { s with status := status } := by
      rw [firstPassInstr, firstPassInstr, if_neg (not_not.mpr hsect), if_neg (not_not.mpr hsect)]
      dsimp only
      rw [hmode]
    rw [hreport, hround]
    exact .refl (fun x => ⟨⟨rfl, x.2.status, rfl⟩, fun _ => rfl⟩) _
  · rw [firstPassInstr, firstPassInstr, if_pos hsect, if_pos hsect]
    exact .ok ⟨⟨rfl, status, rfl⟩, fun hgo => by cases hgo⟩

section
variable {irList : IRList}

/-- A round, while no instruction was seen, or from one state. -/
theorem firstRound_twice {ass₀ : Assembler} {status : AsmError} (h : ¬ OpensBare irList.nodes)
    {pre post : List IRNode} {node : IRNode} {s t : FirstPass}
    (hsplit : irList.nodes = pre ++ node :: post)
    (hrun : runPass .ok firstPassNode pre (.start status ass₀) = .ok (.ok, s))
    (hbefore : SoFar FirstPass.Twin pre s t) :
    Lockstep (fun _ => False) (RoundAlike FirstPass.Twin (pre ++ [node]))
      ((firstPassNode node s).mapError fun e => (e, node.report s.sect s.status))
      ((firstPassNode node t).mapError fun e => (e, node.report t.sect t.status)) := by
  rcases hbefore with rfl | ⟨⟨status', rfl⟩, hnone⟩
  · exact .refl (RoundAlike.refl FirstPass.Twin.refl) _
  · obtain ⟨line, body⟩ := node
    cases body with
    | label name =>
        have hround := firstPassLabel_twice name { s with ass.errorLine := line } status'
        exact (hround.mapError (·, none)).mono fun _ _ => .other hnone nofun
    | dir type operand =>
        have hround := firstPassDir_twice type operand { s with ass.errorLine := line } status'
        exact (hround.mapError (·, none)).mono fun _ _ => .other hnone (dir_noInstr type operand)
    | instr op a b =>
        have hset : s.sect = .text → ¬ (IRBody.instr op a b).LeavesStatus := by
          intro htext hleaves
          have hsect := (FirstHere.of_run hrun).here.sect
          have hpass := (firstPass_accepts_iff.mp ⟨s, hrun⟩).any hnone .ok
          refine h ?_
          rw [hsplit]
          exact .mk hnone hpass (hsect.symm.trans htext) hleaves
        have hround :=
          firstPassInstr_twice (s := { s with ass.errorLine := line }) line hset status'
        exact hround.mono fun _ _ => .instr

/-- Two runs of the first pass. -/
theorem firstRun_twice (ass₀ : Assembler) (h : ¬ OpensBare irList.nodes)
    (status status' : AsmError) :
    Lockstep (fun _ => False) (SameAnswer FirstPass.Twin)
      (runNoted .ok firstPassNode (fun node s => node.report s.sect s.status) irList.nodes
        (.start status ass₀))
      (runNoted .ok firstPassNode (fun node s => node.report s.sect s.status) irList.nodes
        (.start status' ass₀)) := by
  have hstart : SoFar FirstPass.Twin [] (.start status ass₀) (.start status' ass₀) :=
    Or.inr ⟨⟨status', rfl⟩, List.forall_mem_nil _⟩
  refine runPass_twice hstart (fun _ _ => SoFar.twin FirstPass.Twin.refl) ?_
  intro pre node post s t hsplit hrun hbefore
  exact firstRound_twice h hsplit (runNoted_eq_ok.mp hrun) hbefore

end

/-! ## The second pass -/

def SecondPass.Twin (s t : SecondPass) : Prop :=
  ∃ status, t = { s with status := status }

theorem SecondPass.Twin.refl (s : SecondPass) : s.Twin s :=
  ⟨s.status, rfl⟩

theorem secondPassWord_twice (operand : Operand) (s : SecondPass) (status : AsmError) :
    Lockstep (fun _ => False) (SameAnswer SecondPass.Twin) (secondPassWord operand s)
      (secondPassWord operand { s with status := status }) := by
  refine .ite (fun _ => .ok ⟨rfl, _, rfl⟩) fun _ => ?_
  refine .bind_same operand.asValue fun value => ?_
  refine .bind_same (s.ass.data.storeAll s.dataAddr _) fun data => ?_
  exact .ok ⟨rfl, _, rfl⟩

theorem secondPassDir_twice (type : DirType) (operand : Operand) (s : SecondPass)
    (status : AsmError) :
    Lockstep (fun _ => False) (SameAnswer SecondPass.Twin) (secondPassDir type operand s)
      (secondPassDir type operand { s with status := status }) := by
  cases type with
  | byte =>
      refine .ite (fun _ => .ok ⟨rfl, _, rfl⟩) fun _ => ?_
      refine .bind_same operand.asValue fun value => ?_
      refine .bind_same (s.ass.data.storeAll s.dataAddr _) fun data => ?_
      exact .ok ⟨rfl, _, rfl⟩
  | addr =>
      refine .ite (fun _ => .ok ⟨rfl, _, rfl⟩) fun _ => ?_
      refine .ite (fun _ => ?_) fun _ => secondPassWord_twice operand s status
      refine .bind_same operand.asIdent fun ident => ?_
      refine .bind_same (getSymbolAddr s.ass.symtable ident.str) fun found => ?_
      cases found with
      | none => exact .ok ⟨rfl, _, rfl⟩
      | some addr =>
          refine .bind_same (s.ass.data.storeAll s.dataAddr _) fun data => ?_
          exact .ok ⟨rfl, _, rfl⟩
  | word => exact secondPassWord_twice operand s status
  | data | text => exact .ok ⟨rfl, _, rfl⟩
  | entry =>
      refine .bind_same operand.asIdent fun ident => ?_
      refine .bind_same (getSymbolAddr s.ass.symtable ident.str) fun found => ?_
      cases found with
      | none => exact .ok ⟨rfl, _, rfl⟩
      | some addr => exact .ok ⟨rfl, _, rfl⟩
  | string =>
      refine .ite (fun _ => .ok ⟨rfl, _, rfl⟩) fun _ => ?_
      refine .bind_same operand.asIdent fun ident => ?_
      refine .ite (fun _ => .error _) fun _ => ?_
      refine .bind_same (s.ass.data.storeAll s.dataAddr _) fun data => ?_
      exact .ok ⟨rfl, _, rfl⟩

theorem secondPassInstr_twice {op : OpCode} {a b : Operand} {s : SecondPass} (line : Word)
    (hset : ¬ (IRBody.instr op a b).LeavesStatus) (status : AsmError) :
    Lockstep (fun _ => False) (fun x y => SameAnswer SecondPass.Twin x y ∧ (x.1 = .ok → x.2 = y.2))
      ((secondPassInstr op a b s).mapError fun e =>
        (e, IRNode.report ⟨line, .instr op a b⟩ s.sect s.status))
      ((secondPassInstr op a b { s with status := status }).mapError fun e =>
        (e, IRNode.report ⟨line, .instr op a b⟩ s.sect status)) := by
  by_cases hsect : s.sect = .text
  · have hmode := getModeFromOperands_sets hset s.status status
    have hreport := report_sets hset line s.sect s.status status
    have hround :
        secondPassInstr op a b s = secondPassInstr op a b { s with status := status } := by
      rw [secondPassInstr, secondPassInstr, if_neg (not_not.mpr hsect),
        if_neg (not_not.mpr hsect)]
      dsimp only
      rw [hmode]
    rw [hreport, hround]
    exact .refl (fun x => ⟨⟨rfl, x.2.status, rfl⟩, fun _ => rfl⟩) _
  · rw [secondPassInstr, secondPassInstr, if_pos hsect, if_pos hsect]
    exact .ok ⟨⟨rfl, status, rfl⟩, fun hgo => by cases hgo⟩

/-- An instruction that leaves `status` as it is, in a listing that the first
pass accepts and does not begin with one, has another before it. -/
theorem sets_of_noInstr {ass₀ ass₁ : Assembler} {irList : IRList} {status : AsmError}
    (h : ¬ OpensBare irList.nodes)
    (h₁ : assemblerFirstPass status ass₀ irList = .ok (.ok, ass₁)) {pre post : List IRNode}
    {node : IRNode} (hsplit : irList.nodes = pre ++ node :: post) (hnone : NoInstr pre) :
    ¬ node.body.LeavesStatus := by
  intro hleaves
  have harranged := firstPass_ok_iff.mp ⟨ass₁, h₁⟩
  have hadmits := harranged.admits hsplit
  rw [hsplit] at h harranged
  refine h (.mk hnone (harranged.init.any hnone .ok) ?_ hleaves)
  generalize node.body = body at hadmits hleaves
  cases hadmits with
  | instr hsect => exact hsect
  | _ => cases hleaves

section
variable {ass₀ ass₁ : Assembler} {irList : IRList} {status₁ : AsmError}

theorem secondRound_twice (h : ¬ OpensBare irList.nodes)
    (h₁ : assemblerFirstPass status₁ ass₀ irList = .ok (.ok, ass₁)) {pre post : List IRNode}
    {node : IRNode} {s t : SecondPass} (hsplit : irList.nodes = pre ++ node :: post)
    (hbefore : SoFar SecondPass.Twin pre s t) :
    Lockstep (fun _ => False) (RoundAlike SecondPass.Twin (pre ++ [node]))
      ((secondPassNode node s).mapError fun e => (e, node.report s.sect s.status))
      ((secondPassNode node t).mapError fun e => (e, node.report t.sect t.status)) := by
  rcases hbefore with rfl | ⟨⟨status', rfl⟩, hnone⟩
  · exact .refl (RoundAlike.refl SecondPass.Twin.refl) _
  · have hset := sets_of_noInstr h h₁ hsplit hnone
    obtain ⟨line, body⟩ := node
    cases body with
    | label name => exact .ok (.other hnone nofun ⟨rfl, status', rfl⟩)
    | dir type operand =>
        have hround := secondPassDir_twice type operand { s with ass.errorLine := line } status'
        exact (hround.mapError (·, none)).mono fun _ _ => .other hnone (dir_noInstr type operand)
    | instr op a b =>
        have hround :=
          secondPassInstr_twice (s := { s with ass.errorLine := line }) line hset status'
        exact hround.mono fun _ _ => .instr

/-- Two runs of the second pass on what the first accepts. -/
theorem secondRun_twice (h : ¬ OpensBare irList.nodes)
    (h₁ : assemblerFirstPass status₁ ass₀ irList = .ok (.ok, ass₁)) (status status' : AsmError) :
    Lockstep (fun _ => False) (SameAnswer SecondPass.Twin)
      (runNoted .ok secondPassNode (fun node s => node.report s.sect s.status) irList.nodes
        (.start status ass₁))
      (runNoted .ok secondPassNode (fun node s => node.report s.sect s.status) irList.nodes
        (.start status' ass₁)) := by
  have hstart : SoFar SecondPass.Twin [] (.start status ass₁) (.start status' ass₁) :=
    Or.inr ⟨⟨status', rfl⟩, List.forall_mem_nil _⟩
  refine runPass_twice hstart (fun _ _ => SoFar.twin SecondPass.Twin.refl) ?_
  intro pre node post s t hsplit _ hbefore
  exact secondRound_twice h h₁ hsplit hbefore

end

/-! ## Outcomes -/

theorem printed_eq {σ : Type} {Q : σ → σ → Prop}
    {x y : Except (Fault × Option (AsmError × Word)) σ}
    (h : Lockstep (fun _ => False) Q x y) : printed x = printed y := by
  cases h with
  | stop he => exact he.elim
  | error e => rfl
  | ok hab => rfl

theorem firstOutcome_eq {ass₀ : Assembler} {irList : IRList} (h : ¬ OpensBare irList.nodes)
    (status status' : AsmError) :
    firstOutcome status ass₀ irList = firstOutcome status' ass₀ irList := by
  have hrun := firstRun_twice ass₀ h status status'
  have hloop := hrun.mapError Prod.fst
  rw [runNoted_forget, runNoted_forget] at hloop
  have hresult : Lockstep (fun _ => False) Eq (assemblerFirstPass status ass₀ irList)
      (assemblerFirstPass status' ass₀ irList) := by
    refine hloop.bind ?_
    rintro ⟨r, s⟩ ⟨_, _⟩ ⟨rfl, status, rfl⟩
    exact .refl (fun _ => rfl) _
  rw [firstOutcome, firstOutcome, printed_eq hrun, hresult.eq_of_not_stop fun _ => False.elim]

theorem secondOutcome_eq {ass₀ ass₁ : Assembler} {irList : IRList} {status₁ : AsmError}
    (h : ¬ OpensBare irList.nodes)
    (h₁ : assemblerFirstPass status₁ ass₀ irList = .ok (.ok, ass₁)) (status status' : AsmError) :
    secondOutcome status ass₁ irList = secondOutcome status' ass₁ irList := by
  have hrun := secondRun_twice h h₁ status status'
  have hloop := hrun.mapError Prod.fst
  rw [runNoted_forget, runNoted_forget] at hloop
  have hresult : Lockstep (fun _ => False) Eq (assemblerSecondPass status ass₁ irList)
      (assemblerSecondPass status' ass₁ irList) := by
    refine hloop.bind ?_
    rintro ⟨r, s⟩ ⟨_, _⟩ ⟨rfl, status, rfl⟩
    exact .ok rfl
  rw [secondOutcome, secondOutcome, printed_eq hrun, hresult.eq_of_not_stop fun _ => False.elim]

theorem firstPassNode_leaves {node : IRNode} {s : FirstPass} (hnode : node.body.LeavesStatus)
    (hsect : s.sect = .text) (hstatus : s.status ≠ .ok) :
    firstPassNode node s = .error .exit ∧
      node.report s.sect s.status = some (s.status, node.line) := by
  obtain ⟨line, body⟩ := node
  cases body with
  | label name => exact hnode.elim
  | dir type operand => exact hnode.elim
  | instr op a b =>
      obtain ⟨hn, rfl, rfl⟩ := hnode
      constructor
      · unfold firstPassNode firstPassInstr
        dsimp only
        rw [if_neg (not_not.mpr hsect), hn, getModeFromOperands_leaves]
        exact if_pos hstatus
      · unfold IRNode.report
        dsimp only
        rw [hn, getModeFromOperands_leaves]
        exact if_pos ⟨hsect, hstatus⟩

/-- The first pass comes to the instruction, and exits with what `status` held. -/
theorem firstOutcome_leaves (ass₀ : Assembler) {irList : IRList} {pre post : List IRNode}
    {node : IRNode} (status : AsmError) (hsplit : irList.nodes = pre ++ node :: post)
    (hpre : NoInstr pre) (hpass : Arranged .ok pre) (hsect : (layoutOf pre).sect = .text)
    (hnode : node.body.LeavesStatus) (hstatus : status ≠ .ok) :
    firstOutcome status ass₀ irList = ⟨.error .exit, some (status, node.line)⟩ := by
  obtain ⟨s, hrun⟩ : ∃ s, runPass .ok firstPassNode pre (.start status ass₀) = .ok (.ok, s) :=
    firstPass_accepts_iff.mpr (hpass.any hpre status)
  have hat := FirstHere.of_run hrun
  have hs : s.status = status := hat.status.trans (status_kept hpre status)
  obtain ⟨hexit, hreport⟩ :=
    firstPassNode_leaves hnode (hat.here.sect.trans hsect) (fun h => hstatus (hs.symm.trans h))
  have hnoted : runNoted .ok firstPassNode (fun node s => node.report s.sect s.status)
      (pre ++ node :: post) (.start status ass₀) =
      .error (.exit, node.report s.sect s.status) := runNoted_fails hrun hexit
  have hloop : runPass .ok firstPassNode (pre ++ node :: post) (.start status ass₀) =
      .error .exit := by
    rw [← runNoted_forget, hnoted]
    rfl
  rw [firstOutcome, assemblerFirstPass, hsplit, hnoted, hloop]
  dsimp only [printed]
  rw [hreport, hs]
  rfl

/-! ## Listings -/

/-- A text section of instructions that take no operands and have none. -/
def BareText (nodes : List IRNode) : Prop :=
  ∃ line instrs, nodes = ⟨line, .dir .text .none⟩ :: instrs ∧
    ∀ node ∈ instrs, node.body.LeavesStatus

/-- What the passes make of a listing does not depend on what `status` held on
entry, and a text section of bare instructions is accepted. -/
structure StatusFree (ass₀ : Assembler) (irList : IRList) : Prop where
  first : ∀ status status',
    firstOutcome status ass₀ irList = firstOutcome status' ass₀ irList
  second : ∀ status₁ ass₁, assemblerFirstPass status₁ ass₀ irList = .ok (.ok, ass₁) →
    ∀ status status', secondOutcome status ass₁ irList = secondOutcome status' ass₁ irList
  bare : BareText irList.nodes → ∀ status₁ status₂, ∃ ass₁ ass₂,
    assemblerFirstPass status₁ ass₀ irList = .ok (.ok, ass₁) ∧
      assemblerSecondPass status₂ ass₁ irList = .ok (.ok, ass₂)

theorem arranged_text (status : AsmError) (line : Word) :
    Arranged status [⟨line, .dir .text .none⟩] := by
  have htext : Arranged status ([] ++ [⟨line, .dir .text .none⟩]) :=
    arranged_concat.mpr ⟨arranged_nil status, .toText⟩
  exact htext

theorem opensBare_of_bareText {line : Word} {node : IRNode} {instrs : List IRNode}
    (hnode : node.body.LeavesStatus) : OpensBare (⟨line, .dir .text .none⟩ :: node :: instrs) := by
  have hpre : NoInstr [⟨line, .dir .text .none⟩] :=
    List.forall_mem_singleton.mpr fun hemits => nomatch hemits
  exact .mk hpre (arranged_text .ok line) rfl hnode

/-- **The passes do not depend on what `status` held on entry exactly when the
first instruction that they come to sets it.** -/
theorem unset_iff (ass₀ : Assembler) (irList : IRList) :
    StatusFree ass₀ irList ↔ ¬ OpensBare irList.nodes := by
  constructor
  · intro h hopens
    generalize hnodes : irList.nodes = nodes at hopens
    cases hopens with
    | mk hpre hpass hsect hnode =>
        -- two values that are refused, each with its own message
        have htext := firstOutcome_leaves ass₀ .notATextSection hnodes hpre hpass hsect
          hnode (by decide)
        have hdata := firstOutcome_leaves ass₀ .notADataSection hnodes hpre hpass hsect
          hnode (by decide)
        have hsame := h.first .notATextSection .notADataSection
        rw [htext, hdata] at hsame
        cases hsame
  · intro h
    refine ⟨firstOutcome_eq h, fun _ _ h₁ => secondOutcome_eq h h₁, ?_⟩
    rintro ⟨line, instrs, hnodes, hleaves⟩ status₁ status₂
    cases instrs with
    | nil =>
        have harranged := arranged_text status₁ line
        rw [← hnodes] at harranged
        obtain ⟨ass₁, h₁⟩ : ∃ ass₁, assemblerFirstPass status₁ ass₀ irList = .ok (.ok, ass₁) :=
          firstPass_ok_iff.mpr harranged
        have h₂ : ∃ ass₂, assemblerSecondPass status₂ ass₁ irList = .ok (.ok, ass₂) := by
          rw [assemblerSecondPass, hnodes]
          exact ⟨_, rfl⟩
        exact ⟨ass₁, h₂.imp fun _ h₂ => ⟨h₁, h₂⟩⟩
    | cons node instrs =>
        rw [hnodes] at h
        exact absurd (opensBare_of_bareText (hleaves node List.mem_cons_self)) h

/-- `.text` and `NOP`. -/
def nopOnly : IRList where
  nodes := [⟨1, .dir .text .none⟩, ⟨2, .instr .nop .none .none⟩]
  fits := by decide

theorem nop_refused : ¬ StatusFree .zero nopOnly ∧ BareText nopOnly.nodes ∧
    assemblerFirstPass .notATextSection .zero nopOnly = .error .exit ∧
    ∃ ass₁ ass₂, assemblerFirstPass .ok .zero nopOnly = .ok (.ok, ass₁) ∧
      assemblerSecondPass .ok ass₁ nopOnly = .ok (.ok, ass₂) := by
  have hexit : assemblerFirstPass .notATextSection .zero nopOnly = .error .exit := rfl
  have hbare : BareText nopOnly.nodes :=
    ⟨1, [⟨2, .instr .nop .none .none⟩], rfl, List.forall_mem_singleton.mpr ⟨rfl, rfl, rfl⟩⟩
  refine ⟨fun h => ?_, hbare, hexit, _, _, rfl, rfl⟩
  obtain ⟨_, _, h₁, -⟩ := h.bare hbare .notATextSection .ok
  rw [hexit] at h₁
  cases h₁

end BSVM
