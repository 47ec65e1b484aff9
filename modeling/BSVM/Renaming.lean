/-
# `BSVM.Renaming` — the names of the labels do not matter

What a source is assembled to depends on which names are equal, and on nothing else
about them.  Two sources that say the same up to the names are assembled in step:

    a name      compares as its other name does        (`Matches`)
    a table     is searched with the same result       (`findSymbol_alike`)
    a pass      answers the same and emits the same    (`firstPass_alike`, `secondPass_alike`)

so `main_bsm` does the same for both (`renamed_source_alike`): it writes the same
file, or fails in the same way.  Blanks, comments and empty lines may differ as well.
The directive `.word` with a name is left out, as it stores a pointer.
-/
import BSVM.Lib.TwoRuns
import BSVM.Toolchain

namespace BSVM

/-! ## Names and operands -/

section
variable {ρ : List Byte → List Byte → Prop}

/-- Pairs of names that compare as each other. -/
def Matches (ρ : List Byte → List Byte → Prop) : Prop :=
  ∀ s s' t t', ρ s s' → ρ t t' → strEq s t = strEq s' t'

/-- Operands that differ in their names and pointers at most. -/
inductive Operand.Alike (ρ : List Byte → List Byte → Prop) : Operand → Operand → Prop
  | ident {x y : Ident} (h : ρ x.str y.str) : Alike ρ (.ident x) (.ident y)
  | memIdent {x y : Ident} (h : ρ x.str y.str) : Alike ρ (.memIdent x) (.memIdent y)
  | memIdxIdent {x y : Ident} (k : Word) (h : ρ x.str y.str) :
      Alike ρ (.memIdxIdent x k) (.memIdxIdent y k)
  | string {x y : Ident} (hstr : x.str = y.str) (hlength : x.length = y.length) :
      Alike ρ (.string x) (.string y)
  | same {a : Operand} (h : a.asIdent = .error .uninitialised) : Alike ρ a a

inductive IRBody.Alike (ρ : List Byte → List Byte → Prop) : IRBody → IRBody → Prop
  | label {x y : Ident} (h : ρ x.str y.str) : Alike ρ (.label (.ident x)) (.label (.ident y))
  | dir (type : DirType) {a b : Operand} (h : a.Alike ρ b) : Alike ρ (.dir type a) (.dir type b)
  | instr (op : OpCode) {a b a' b' : Operand} (ha : a.Alike ρ a') (hb : b.Alike ρ b') :
      Alike ρ (.instr op a b) (.instr op a' b')

theorem Operand.Alike.type {a b : Operand} (h : a.Alike ρ b) : a.type = b.type := by
  cases h <;> rfl

theorem getModeFromOperands_alike {a b a' b' : Operand} (ha : a.Alike ρ a') (hb : b.Alike ρ b')
    (argsCount : Nat) (status : AsmError) :
    getModeFromOperands a b argsCount status = getModeFromOperands a' b' argsCount status := by
  have hlast : (if argsCount = 1 then a else b).type = (if argsCount = 1 then a' else b').type := by
    split
    · exact ha.type
    · exact hb.type
  rw [getModeFromOperands, getModeFromOperands, ha.type, hb.type]
  dsimp only
  rw [hlast]

/-! ## The symbol table -/

/-- A symbol under its other name. -/
def Symbol.Alike (ρ : List Byte → List Byte → Prop) (s t : Symbol) : Prop :=
  ρ s.string t.string ∧ s.addr = t.addr

structure SymbolTable.Alike (ρ : List Byte → List Byte → Prop) (s t : SymbolTable) : Prop where
  table : List.Forall₂ (Symbol.Alike ρ) s.table t.table
  size : s.size = t.size
  bytes : s.bytes = t.bytes

theorem findSymbol_alike (hρ : Matches ρ) {x y : List Byte} (hxy : ρ x y)
    {table table' : List Symbol} (h : List.Forall₂ (Symbol.Alike ρ) table table') :
    Lockstep (fun _ => False) (Option.Rel (Symbol.Alike ρ)) (findSymbol x table)
      (findSymbol y table') := by
  induction h with
  | nil => exact .ok .none
  | cons hsymbol _ ih =>
      rw [findSymbol, findSymbol, hρ _ _ _ _ hxy hsymbol.1]
      exact .bind_same _ fun _ => .ite (fun _ => .ok (.some hsymbol)) fun _ => ih

theorem isInSymbolTable_alike (hρ : Matches ρ) {x y : List Byte} (hxy : ρ x y)
    {s t : SymbolTable} (h : s.Alike ρ t) :
    Lockstep (fun _ => False) Eq (isInSymbolTable s x) (isInSymbolTable t y) := by
  refine .bind (findSymbol_alike hρ hxy h.table) fun r r' hr => .ok ?_
  cases hr <;> rfl

theorem getSymbolAddr_alike (hρ : Matches ρ) {x y : List Byte} (hxy : ρ x y)
    {s t : SymbolTable} (h : s.Alike ρ t) :
    Lockstep (fun _ => False) Eq (getSymbolAddr s x) (getSymbolAddr t y) := by
  refine .bind (findSymbol_alike hρ hxy h.table) fun r r' hr => .ok ?_
  cases hr with
  | none => rfl
  | some hsymbol => exact congrArg some hsymbol.2

theorem addToSymbolTable_alike {s t : SymbolTable} {a b : Symbol} (h : s.Alike ρ t)
    (hsymbol : a.Alike ρ b) :
    Lockstep (fun _ => False) (SymbolTable.Alike ρ) (addToSymbolTable s a)
      (addToSymbolTable t b) := by
  obtain ⟨table, size, bytes⟩ := s
  obtain ⟨table', size', bytes'⟩ := t
  obtain ⟨htable, rfl, rfl⟩ := h
  have hlen : table.length = table'.length := htable.length_eq
  have hgrown := List.rel_append htable (List.Forall₂.cons hsymbol .nil)
  rw [addToSymbolTable, addToSymbolTable]
  dsimp only
  rw [hlen]
  split
  · dsimp only
    rw [hlen]
    exact .ite (fun _ => .ok ⟨hgrown, rfl, rfl⟩) fun _ => .error _
  · dsimp only
    rw [hlen]
    exact .ite (fun _ => .ok ⟨hgrown, rfl, rfl⟩) fun _ => .error _

/-! ## The first pass -/

/-- The lines of the nodes may differ. -/
structure Assembler.Alike (ρ : List Byte → List Byte → Prop) (ass ass' : Assembler) : Prop where
  symtable : ass.symtable.Alike ρ ass'.symtable
  headers : ass.headers = ass'.headers
  bytecode : ass.bytecode = ass'.bytecode
  data : ass.data = ass'.data

/-- The states of the pass differ in the assembler alone. -/
def FirstPass.Alike (ρ : List Byte → List Byte → Prop) (s t : FirstPass) : Prop :=
  ∃ ass, s.ass.Alike ρ ass ∧ t = { s with ass := ass }

/-- The answers of a round, or of a pass, for both sources. -/
abbrev SameRound {σ : Type} (Q : σ → σ → Prop) (x y : Exec (AsmError × σ)) : Prop :=
  Lockstep (fun _ => False) (SameAnswer Q) x y

theorem firstPassLabel_alike (hρ : Matches ρ) {x y : Ident} (hxy : ρ x.str y.str)
    {s t : FirstPass} (h : s.Alike ρ t) :
    SameRound (FirstPass.Alike ρ) (firstPassLabel (.ident x) s) (firstPassLabel (.ident y) t) := by
  obtain ⟨ass, hass, rfl⟩ := h
  rw [firstPassLabel, firstPassLabel]
  dsimp only [Operand.asIdent, Except.ok_bind]
  refine .bind (isInSymbolTable_alike hρ hxy hass.symtable) ?_
  rintro found _ rfl
  refine .ite (fun _ => .ok ⟨rfl, ass, hass, rfl⟩) fun _ => ?_
  refine .ite (fun _ => .ok ⟨rfl, ass, hass, rfl⟩) fun _ => ?_
  refine .bind (addToSymbolTable_alike hass.symtable ⟨hxy, rfl⟩) fun table table' htable => ?_
  exact .ok ⟨rfl, { ass with symtable := table' },
    ⟨htable, hass.headers, hass.bytecode, hass.data⟩, rfl⟩

theorem firstPassDir_alike (type : DirType) {a b : Operand} (hab : a.Alike ρ b)
    {s t : FirstPass} (h : s.Alike ρ t) :
    SameRound (FirstPass.Alike ρ) (firstPassDir type a s) (firstPassDir type b t) := by
  obtain ⟨ass, hass, rfl⟩ := h
  have hend : ∀ (r : AsmError) (s' : FirstPass), s'.ass = s.ass →
      SameRound (FirstPass.Alike ρ) (.ok (r, s')) (.ok (r, { s' with ass := ass })) := by
    intro r s' hs'
    exact .ok ⟨rfl, ass, hs' ▸ hass, rfl⟩
  cases type with
  | byte | word | addr | entry =>
      rw [firstPassDir, firstPassDir, hab.type]
      exact .ite (fun _ => hend _ s rfl) fun _ => .ite (fun _ => hend _ s rfl) fun _ => hend _ _ rfl
  | data | text =>
      rw [firstPassDir, firstPassDir, hab.type]
      exact .ite (fun _ => hend _ s rfl) fun _ => hend _ _ rfl
  | string =>
      rw [firstPassDir, firstPassDir, hab.type]
      refine .ite (fun _ => hend _ s rfl) fun hstring => ?_
      obtain ⟨y, rfl⟩ := type_string.mp (not_not.mp hstring)
      cases hab with
      | @string x y _ hlength =>
          dsimp only [Operand.asIdent, Except.ok_bind]
          rw [hlength]
          exact .ite (fun _ => hend _ _ rfl) fun _ => hend _ _ rfl
      | same hnone => cases hnone

theorem firstPassInstr_alike (op : OpCode) {a b a' b' : Operand} (ha : a.Alike ρ a')
    (hb : b.Alike ρ b') {s t : FirstPass} (h : s.Alike ρ t) :
    SameRound (FirstPass.Alike ρ) (firstPassInstr op a b s) (firstPassInstr op a' b' t) := by
  obtain ⟨ass, hass, rfl⟩ := h
  rw [firstPassInstr, firstPassInstr, getModeFromOperands_alike ha hb]
  dsimp only
  refine .ite (fun _ => .ok ⟨rfl, ass, hass, rfl⟩) fun _ => ?_
  refine .ite (fun _ => .error _) fun _ => ?_
  refine .ite (fun _ => .ok ⟨rfl, ass, hass, rfl⟩) fun _ => ?_
  exact .bind_same _ fun _ => .ok ⟨rfl, ass, hass, rfl⟩

/-- A round of the first pass. -/
theorem firstPassNode_alike (hρ : Matches ρ) {node node' : IRNode}
    (hbody : node.body.Alike ρ node'.body) {s t : FirstPass} (h : s.Alike ρ t) :
    SameRound (FirstPass.Alike ρ) (firstPassNode node s) (firstPassNode node' t) := by
  obtain ⟨line, body⟩ := node
  obtain ⟨line', body'⟩ := node'
  obtain ⟨ass, hass, rfl⟩ := h
  have hline : ({ s with ass.errorLine := line } : FirstPass).Alike ρ
      { s with ass := { ass with errorLine := line' } } :=
    ⟨{ ass with errorLine := line' },
      ⟨hass.symtable, hass.headers, hass.bytecode, hass.data⟩, rfl⟩
  cases hbody with
  | label hxy => exact firstPassLabel_alike hρ hxy hline
  | dir type hab => exact firstPassDir_alike type hab hline
  | instr op ha hb => exact firstPassInstr_alike op ha hb hline

/-- The nodes of two lists, in pairs. -/
abbrev NodesAlike (ρ : List Byte → List Byte → Prop) (nodes nodes' : List IRNode) : Prop :=
  List.Forall₂ (fun node node' => node.body.Alike ρ node'.body) nodes nodes'

theorem firstPass_alike (hρ : Matches ρ) {irList irList' : IRList}
    (hnodes : NodesAlike ρ irList.nodes irList'.nodes) (status : AsmError) (ass : Assembler) :
    SameRound (Assembler.Alike ρ) (assemblerFirstPass status ass irList)
      (assemblerFirstPass status ass irList') := by
  have hstart : (FirstPass.start status ass).Alike ρ (.start status ass) :=
    ⟨_, ⟨⟨.nil, rfl, rfl⟩, rfl, rfl, rfl⟩, rfl⟩
  have hround : ∀ n ∈ irList.nodes, ∀ n', n.body.Alike ρ n'.body → ∀ s t : FirstPass,
      s.Alike ρ t → SameRound (FirstPass.Alike ρ) (firstPassNode n s) (firstPassNode n' t) :=
    fun _ _ _ hbody _ _ => firstPassNode_alike hρ hbody
  rw [assemblerFirstPass, assemblerFirstPass]
  refine .bind (runPass_related hnodes hround hstart) ?_
  rintro ⟨r, s⟩ ⟨_, _⟩ ⟨rfl, ass', hass, rfl⟩
  refine .ite (fun _ => .ok ⟨rfl, hass⟩) fun _ => ?_
  exact .ok ⟨rfl, hass.symtable, by dsimp only; rw [hass.headers], hass.bytecode, hass.data⟩

/-! ## The second pass -/

def SecondPass.Alike (ρ : List Byte → List Byte → Prop) (s t : SecondPass) : Prop :=
  ∃ ass, s.ass.Alike ρ ass ∧ t = { s with ass := ass }

/-- The word at an operand, or the label that is missing. -/
theorem setOperand_alike (hρ : Matches ρ) {a b : Operand} (hab : a.Alike ρ b)
    {s t : SymbolTable} (h : s.Alike ρ t) (n : Nat) (instr : Instruction) :
    Lockstep (fun _ => False) Eq (setOperand s n a instr) (setOperand t n b instr) := by
  cases hab with
  | ident hxy | memIdent hxy | memIdxIdent k hxy =>
      refine .bind (getSymbolAddr_alike hρ hxy h) ?_
      rintro addr _ rfl
      exact .ok rfl
  | string => exact .error _
  | same hnone => cases a <;> first | exact .ok rfl | cases hnone

theorem firstReg_alike {op : OpCode} {a b a' : Operand} {mode : Mode}
    (hmode : instrMode op a b = some mode) (ha : a.Alike ρ a') :
    firstReg (getArgsCount op) a = firstReg (getArgsCount op) a' := by
  rcases instrMode_cases hmode with ⟨hn, -⟩ | ⟨hn, -⟩ | ⟨-, ⟨r, rfl⟩, -⟩
  · rw [firstReg, firstReg, hn]
    rfl
  · rw [firstReg, firstReg, hn]
    rfl
  · cases ha with
    | same => rfl

theorem secondPassInstr_alike (hρ : Matches ρ) {op : OpCode} {a b a' b' : Operand} {mode : Mode}
    (hmode : instrMode op a b = some mode) (ha : a.Alike ρ a') (hb : b.Alike ρ b')
    {s t : SecondPass} (h : s.Alike ρ t) :
    SameRound (SecondPass.Alike ρ) (secondPassInstr op a b s) (secondPassInstr op a' b' t) := by
  obtain ⟨ass, hass, rfl⟩ := h
  have hope : (if getArgsCount op ≤ 1 then a else b).Alike ρ
      (if getArgsCount op ≤ 1 then a' else b') := by
    split
    · exact ha
    · exact hb
  rw [secondPassInstr, secondPassInstr]
  dsimp only
  rw [getModeFromOperands_alike ha hb, firstReg_alike hmode ha]
  refine .ite (fun _ => .ok ⟨rfl, ass, hass, rfl⟩) fun _ => ?_
  refine .ite (fun _ => .error _) fun _ => ?_
  refine .bind_same _ fun reg => .bind (setOperand_alike hρ hope hass.symtable _ _) ?_
  rintro instr? _ rfl
  cases instr? with
  | none => exact .ok ⟨rfl, ass, hass, rfl⟩
  | some instr =>
      dsimp only
      rw [hass.headers, hass.bytecode]
      refine .bind_same _ fun bytecode => .bind_same _ fun size => ?_
      exact .ok ⟨rfl, { ass with bytecode := bytecode },
        ⟨hass.symtable, rfl, rfl, hass.data⟩, rfl⟩

/-- A directive that both passes accept. -/
theorem secondPassDir_alike (hρ : Matches ρ) {L : Layout} {status : AsmError} {type : DirType}
    {a b : Operand} (hadmits : Admits L status (.dir type a))
    (hfree : (IRBody.dir type a).PointerFree) (hab : a.Alike ρ b) {s t : SecondPass}
    (h : s.Alike ρ t) :
    SameRound (SecondPass.Alike ρ) (secondPassDir type a s) (secondPassDir type b t) := by
  obtain ⟨ass, hass, rfl⟩ := h
  have hstop : ∀ r : AsmError,
      SameRound (SecondPass.Alike ρ) (.ok (r, s)) (.ok (r, { s with ass := ass })) :=
    fun _ => .ok ⟨rfl, ass, hass, rfl⟩
  have hstore : ∀ (cursor : Word) (bytes : List Byte) (addr : Word),
      SameRound (SecondPass.Alike ρ)
        (do
          let data ← s.ass.data.storeAll cursor bytes
          return (.ok, { s with ass.data := data, dataAddr := addr }))
        (do
          let data ← ass.data.storeAll cursor bytes
          return (.ok, { s with ass := { ass with data := data }, dataAddr := addr })) := by
    intro cursor bytes addr
    rw [hass.data]
    refine .bind_same _ fun data => ?_
    exact .ok ⟨rfl, { ass with data := data }, ⟨hass.symtable, hass.headers, hass.bytecode, rfl⟩,
      rfl⟩
  cases hadmits with
  | data hform =>
      cases hform with
      | byte v =>
          cases hab with
          | same => exact .ite (fun _ => hstop _) fun _ => hstore _ _ _
      | word v =>
          cases hab with
          | same => exact .ite (fun _ => hstop _) fun _ => hstore _ _ _
      | wordIdent x => exact absurd rfl (hfree x)
      | addr v =>
          cases hab with
          | same =>
              refine .ite (fun _ => hstop _) fun _ => ?_
              refine .ite (fun htype => by cases htype) fun _ => ?_
              rw [secondPassWord, secondPassWord]
              exact .ite (fun _ => hstop _) fun _ => hstore _ _ _
      | addrIdent x =>
          cases hab with
          | ident hxy =>
              rw [secondPassDir, secondPassDir]
              simp only [Operand.type, if_true, Operand.asIdent, Except.ok_bind]
              refine .ite (fun _ => hstop _) fun _ => ?_
              refine .bind (getSymbolAddr_alike hρ hxy hass.symtable) ?_
              rintro addr? _ rfl
              cases addr? with
              | none => exact hstop _
              | some addr => exact hstore _ _ _
          | same hnone => cases hnone
      | string x =>
          cases hab with
          | @string x y hstr hlength =>
              refine .ite (fun _ => hstop _) fun _ => ?_
              dsimp only [Operand.asIdent, Except.ok_bind]
              rw [hstr, hlength]
              exact .ite (fun _ => .error _) fun _ => hstore _ _ _
          | same hnone => cases hnone
  | toData | toText =>
      cases hab with
      | same => exact .ok ⟨rfl, ass, hass, rfl⟩
  | entry =>
      cases hab with
      | ident hxy =>
          rw [secondPassDir, secondPassDir]
          dsimp only [Operand.asIdent, Except.ok_bind]
          refine .bind (getSymbolAddr_alike hρ hxy hass.symtable) ?_
          rintro addr? _ rfl
          cases addr? with
          | none => exact hstop _
          | some addr =>
              exact .ok ⟨rfl, { ass with headers.entryPoint := addr },
                ⟨hass.symtable, by dsimp only; rw [hass.headers], hass.bytecode, hass.data⟩, rfl⟩
      | same hnone => cases hnone

/-- A round of the second pass, at a node that the first has accepted. -/
theorem secondPassNode_alike (hρ : Matches ρ) {L : Layout} {status : AsmError}
    {node node' : IRNode} (hadmits : Admits L status node.body) (hfree : node.body.PointerFree)
    (hbody : node.body.Alike ρ node'.body) {s t : SecondPass} (h : s.Alike ρ t) :
    SameRound (SecondPass.Alike ρ) (secondPassNode node s) (secondPassNode node' t) := by
  obtain ⟨line, body⟩ := node
  obtain ⟨line', body'⟩ := node'
  obtain ⟨ass, hass, rfl⟩ := h
  have hline : ({ s with ass.errorLine := line } : SecondPass).Alike ρ
      { s with ass := { ass with errorLine := line' } } :=
    ⟨{ ass with errorLine := line' },
      ⟨hass.symtable, hass.headers, hass.bytecode, hass.data⟩, rfl⟩
  cases hbody with
  | label hxy => exact .ok ⟨rfl, hline⟩
  | dir type hab => exact secondPassDir_alike hρ hadmits hfree hab hline
  | instr op ha hb =>
      cases hadmits with
      | instr _ hmode => exact secondPassInstr_alike hρ hmode ha hb hline

theorem secondPass_alike (hρ : Matches ρ) {irList irList' : IRList} {status₁ : AsmError}
    (hnodes : NodesAlike ρ irList.nodes irList'.nodes) (harranged : Arranged status₁ irList.nodes)
    (hfree : ∀ node ∈ irList.nodes, node.body.PointerFree) (status : AsmError)
    {ass ass' : Assembler} (h : ass.Alike ρ ass') :
    SameRound (Assembler.Alike ρ) (assemblerSecondPass status ass irList)
      (assemblerSecondPass status ass' irList') := by
  have hstart : (SecondPass.start status ass).Alike ρ (.start status ass') :=
    ⟨(SecondPass.start status ass').ass, ⟨h.symtable,
      congrArg (fun headers : BinaryHeader => { headers with magicNumber := MAGIC_NUMBER })
        h.headers,
      congrArg (fun headers : BinaryHeader => malloc headers.codeSize) h.headers,
      congrArg (fun headers : BinaryHeader => malloc headers.dataSize) h.headers⟩, rfl⟩
  rw [assemblerSecondPass, assemblerSecondPass]
  refine .bind (runPass_related hnodes (fun node hnode node' hbody s t hst => ?_) hstart) ?_
  · obtain ⟨pre, post, hsplit⟩ := List.append_of_mem hnode
    exact secondPassNode_alike hρ (harranged.admits hsplit) (hfree node hnode) hbody hst
  · rintro ⟨r, s⟩ ⟨_, _⟩ ⟨rfl, ass₂, hass, rfl⟩
    exact .ok ⟨rfl, hass⟩

/-! ## `main_bsm` -/

/-- Two sources that are parsed to the same nodes, up to names. -/
theorem mainBsm_alike (hρ : Matches ρ) {host host' : ParserHost} {source source' : List Byte}
    {irList irList' : IRList} (hparse : parser host (some source) true = .ok irList.nodes)
    (hparse' : parser host' (some source') true = .ok irList'.nodes)
    (hnodes : NodesAlike ρ irList.nodes irList'.nodes)
    (hfree : ∀ node ∈ irList.nodes, node.body.PointerFree) (status₁ status₂ : AsmError)
    (calls : Calls) :
    mainBsm host status₁ status₂ calls (some source) true =
      mainBsm host' status₁ status₂ calls (some source') true := by
  rw [mainBsm_parsed hparse, mainBsm_parsed hparse']
  refine @Lockstep.eq_of_not_stop _ _ (fun _ => False) _ _ ?_ fun _ => False.elim
  have hfirst := firstPass_alike hρ hnodes status₁ .zero
  generalize hx : assemblerFirstPass status₁ .zero irList = x at hfirst ⊢
  generalize assemblerFirstPass status₁ .zero irList' = y at hfirst ⊢
  cases hfirst with
  | stop hstop => exact hstop.elim
  | error f => exact .error f
  | @ok a b hab =>
      obtain ⟨r, ass⟩ := a
      obtain ⟨_, ass'⟩ := b
      obtain ⟨rfl, hass⟩ := hab
      refine .ite (fun _ => .error _) fun hr => ?_
      obtain rfl : r = .ok := not_not.mp hr
      have harranged : Arranged status₁ irList.nodes := firstPass_ok_iff.mp ⟨ass, hx⟩
      refine .bind (secondPass_alike hρ hnodes harranged hfree status₂ hass) ?_
      rintro ⟨r, ass₂⟩ ⟨_, ass₂'⟩ ⟨rfl, hass₂⟩
      refine .ite (fun _ => .error _) fun _ => ?_
      have hbin : ass₂.binary = ass₂'.binary := by
        rw [Assembler.binary, Assembler.binary, hass₂.headers, hass₂.bytecode, hass₂.data]
      rw [hbin]
      exact .refl (fun _ => rfl) _

end

/-! ## Sources -/

def SourceOperand.rename (f : Name → Name) : SourceOperand → SourceOperand
  | .ident x => .ident (f x)
  | .memIdent x => .memIdent (f x)
  | .memIdxIdent x neg k => .memIdxIdent (f x) neg k
  | .value v => .value v
  | .reg r => .reg r
  | .memValue n => .memValue n
  | .memReg r => .memReg r
  | .memIdx r neg k => .memIdx r neg k

def SourceArg.rename (f : Name → Name) : SourceArg → SourceArg
  | .ident x => .ident (f x)
  | .none => .none
  | .value v => .value v
  | .string text => .string text

def Source.rename (f : Name → Name) : Source → Source
  | .label x => .label (f x)
  | .dir type arg => .dir type (arg.rename f)
  | .instr0 op => .instr0 op
  | .instr1 op a => .instr1 op (a.rename f)
  | .instr2 op r b => .instr2 op r (b.rename f)

def SourceOperand.names : SourceOperand → List Name
  | .ident x | .memIdent x | .memIdxIdent x _ _ => [x]
  | _ => []

def SourceArg.names : SourceArg → List Name
  | .ident x => [x]
  | _ => []

/-- The names that a line uses. -/
def Source.names : Source → List Name
  | .label x => [x]
  | .dir _ arg => arg.names
  | .instr0 _ => []
  | .instr1 _ a => a.names
  | .instr2 _ _ b => b.names

/-- What the lines say, without those that say nothing. -/
def sources (lines : List SourceLine) : List Source :=
  lines.filterMap SourceLine.source

section
variable {f : Name → Name} {names : Set Name}

/-- A name and its other name, each with its NUL. -/
def Renamed (f : Name → Name) (names : Set Name) (s t : List Byte) : Prop :=
  ∃ x ∈ names, s = x.text ++ [nul] ∧ t = (f x).text ++ [nul]

/-- Names are compared as their characters are. -/
theorem strEq_names {s t : List Byte} (hs : nul ∉ s) (ht : nul ∉ t) :
    strEq (s ++ [nul]) (t ++ [nul]) = .ok (decide (s = t)) := by
  induction s generalizing t with
  | nil =>
      cases t with
      | nil => rfl
      | cons b t =>
          have hb : nul ≠ b := fun h => ht (h ▸ List.mem_cons_self)
          rw [List.nil_append, List.cons_append, strEq, if_pos hb]
          rfl
  | cons a s ih =>
      have ha : a ≠ nul := fun h => hs (h ▸ List.mem_cons_self)
      cases t with
      | nil =>
          rw [List.cons_append, List.nil_append, strEq, if_pos ha]
          rfl
      | cons b t =>
          rw [List.cons_append, List.cons_append, strEq]
          by_cases hab : a = b
          · subst hab
            have hrest := ih (fun h => hs (List.mem_cons_of_mem _ h))
              fun h => ht (List.mem_cons_of_mem _ h)
            rw [if_neg (not_not.mpr rfl), if_neg ha, hrest]
            simp only [List.cons.injEq, true_and]
          · rw [if_pos hab]
            simp only [List.cons.injEq, hab, false_and, decide_false]

theorem Name.nul_not_mem (x : Name) : nul ∉ x.text :=
  fun h => ne_nul_of_isIdent nul (x.isName.isIdent _ h) rfl

theorem renamed_matches (hf : Set.InjOn f names) : Matches (Renamed f names) := by
  rintro _ _ _ _ ⟨x, hx, rfl, rfl⟩ ⟨y, hy, rfl, rfl⟩
  have htext : ∀ x y : Name, x.text = y.text ↔ x = y := by
    rintro ⟨s, hs⟩ ⟨t, ht⟩
    exact ⟨fun h => by cases h; rfl, fun h => congrArg Name.text h⟩
  rw [strEq_names x.nul_not_mem y.nul_not_mem, strEq_names (f x).nul_not_mem (f y).nul_not_mem]
  congr 1
  rw [decide_eq_decide, htext, htext]
  exact (hf.eq_iff hx hy).symm

/-! ## What the parser makes of them -/

theorem SourceOperand.rename_alike (p p' : Word) {a : SourceOperand}
    (hnames : ∀ x ∈ a.names, x ∈ names) :
    (a.operand p).Alike (Renamed f names) ((a.rename f).operand p') := by
  cases a with
  | ident x => exact .ident ⟨x, hnames x List.mem_cons_self, rfl, rfl⟩
  | memIdent x => exact .memIdent ⟨x, hnames x List.mem_cons_self, rfl, rfl⟩
  | memIdxIdent x neg k => exact .memIdxIdent _ ⟨x, hnames x List.mem_cons_self, rfl, rfl⟩
  | value | reg | memValue | memReg | memIdx => exact .same rfl

theorem SourceArg.rename_alike (p p' : Word) {arg : SourceArg}
    (hnames : ∀ x ∈ arg.names, x ∈ names) :
    (arg.operand p).Alike (Renamed f names) ((arg.rename f).operand p') := by
  cases arg with
  | ident x => exact .ident ⟨x, hnames x List.mem_cons_self, rfl, rfl⟩
  | string text => exact .string rfl rfl
  | none | value => exact .same rfl

theorem Source.rename_alike (p p' : Nat → Word) {source : Source}
    (hnames : ∀ x ∈ source.names, x ∈ names) :
    (source.body p).Alike (Renamed f names) ((source.rename f).body p') := by
  cases source with
  | label x => exact .label ⟨x, hnames x List.mem_cons_self, rfl, rfl⟩
  | dir type arg => exact .dir type (arg.rename_alike _ _ hnames)
  | instr0 op => exact .instr op (.same rfl) (.same rfl)
  | instr1 op a => exact .instr op (a.rename_alike _ _ hnames) (.same rfl)
  | instr2 op r b => exact .instr op (.same rfl) (b.rename_alike _ _ hnames)

/-- The node is that of the line, whatever the pointers are. -/
def Source.Node (source : Source) (node : IRNode) : Prop :=
  ∃ p, node.body = source.body p

/-- The nodes of a list of lines are those of what it says, one by one. -/
theorem listed_sources (host : ParserHost) (k : Word) (lines : List SourceLine) :
    List.Forall₂ Source.Node (sources lines) (listed host k lines) := by
  induction lines generalizing k with
  | nil => exact .nil
  | cons line lines ih =>
      obtain ⟨source, text, hrenders, hfits⟩ := line
      cases source with
      | none => exact ih (k + 1)
      | some source => exact .cons ⟨_, rfl⟩ (ih (k + 1))

theorem listed_length (host : ParserHost) (k : Word) (lines : List SourceLine) :
    (listed host k lines).length = (sources lines).length :=
  (listed_sources host k lines).length_eq.symm

theorem source_of_node {srcs : List Source} {nodes : List IRNode}
    (h : List.Forall₂ Source.Node srcs nodes) {node : IRNode} (hnode : node ∈ nodes) :
    ∃ source ∈ srcs, source.Node node := by
  induction h with
  | nil => exact absurd hnode List.not_mem_nil
  | cons hhead _ ih =>
      rcases List.mem_cons.mp hnode with rfl | hmem
      · exact ⟨_, List.mem_cons_self, hhead⟩
      · obtain ⟨source, hsource, hn⟩ := ih hmem
        exact ⟨source, List.mem_cons_of_mem _ hsource, hn⟩

theorem rename_nodes {srcs : List Source} {nodes nodes' : List IRNode}
    (h : List.Forall₂ Source.Node srcs nodes)
    (h' : List.Forall₂ Source.Node (srcs.map (Source.rename f)) nodes')
    (hnames : ∀ source ∈ srcs, ∀ x ∈ source.names, x ∈ names) :
    NodesAlike (Renamed f names) nodes nodes' := by
  induction h generalizing nodes' with
  | nil =>
      cases h'
      exact .nil
  | cons hnode _ ih =>
      obtain ⟨hhead, htail⟩ := List.forall_mem_cons.mp hnames
      cases h' with
      | cons hnode' hrest =>
          obtain ⟨p, hp⟩ := hnode
          obtain ⟨p', hp'⟩ := hnode'
          refine .cons ?_ (ih hrest htail)
          rw [hp, hp']
          exact Source.rename_alike p p' hhead

end

/-- The names that the lines use. -/
def usedNames (lines : List SourceLine) : Set Name :=
  { x | ∃ source ∈ sources lines, x ∈ source.names }

theorem listed_pointerFree {host : ParserHost} {k : Word} {lines : List SourceLine}
    (hfree : ∀ x, .dir .word (.ident x) ∉ sources lines) :
    ∀ node ∈ listed host k lines, node.body.PointerFree := by
  intro node hnode x hbody
  obtain ⟨source, hsource, p, hp⟩ := source_of_node (listed_sources host k lines) hnode
  rw [hbody] at hp
  cases source with
  | dir type arg =>
      cases arg <;> cases hp
      exact hfree _ hsource
  | _ => cases hp

/-- **The names of the labels do not matter**, and neither do blanks, comments and empty
lines. -/
theorem renamed_source_alike (host host' : ParserHost) (status₁ status₂ : AsmError)
    (calls : Calls) (f : Name → Name) (lines lines' : List SourceLine)
    (hsame : sources lines' = (sources lines).map (Source.rename f))
    (hf : Set.InjOn f (usedNames lines))
    (hfree : ∀ x, .dir .word (.ident x) ∉ sources lines)
    (hroom : (sources lines.dropLast).length < 128 ↔ (sources lines'.dropLast).length < 128) :
    mainBsm host status₁ status₂ calls (some (written lines)) true =
      mainBsm host' status₁ status₂ calls (some (written lines')) true := by
  rw [← listed_length host 0, ← listed_length host' 0] at hroom
  by_cases hfew : (listed host 0 lines.dropLast).length < 128
  · let irList : IRList :=
      { nodes := listed host 0 lines, fits := fits_of_few (parser_few (parser_written hfew)) }
    let irList' : IRList :=
      { nodes := listed host' 0 lines'
        fits := fits_of_few (parser_few (parser_written (hroom.mp hfew))) }
    have hparse : parser host (some (written lines)) true = .ok irList.nodes := parser_written hfew
    have hparse' : parser host' (some (written lines')) true = .ok irList'.nodes :=
      parser_written (hroom.mp hfew)
    have hnodes : NodesAlike (Renamed f (usedNames lines)) irList.nodes irList'.nodes :=
      rename_nodes (listed_sources host 0 lines) (hsame ▸ listed_sources host' 0 lines')
        fun source hsource x hx => ⟨source, hsource, hx⟩
    exact mainBsm_alike (renamed_matches hf) hparse hparse' hnodes (listed_pointerFree hfree)
      status₁ status₂ calls
  · rw [mainBsm_lost hfew, mainBsm_lost fun hfew' => hfew (hroom.mpr hfew')]

def nameY : Name where
  text := [chr 'y', chr '1']
  isName := ⟨rfl, List.all_eq_true.mp rfl⟩

/-- `// x` -/
def commentLine : SourceLine where
  source := none
  text := [chr '/', chr '/', chr 'x', chr '\n']
  renders := .comment [] [chr 'x'] nofun (by decide)
  fits := by decide

/-- `countdownLines` behind a comment, with another name for the label. -/
def renamedLines : List SourceLine :=
  commentLine :: countdownLines.take 2 ++ [.plain (.label nameY) (by decide)] ++
    (countdownLines.drop 3).take 1 ++ [.plain (.instr1 .jne (.ident nameY)) (by decide)] ++
    countdownLines.drop 5

theorem renamed_source_alike_countdown :
    mainBsm oneBlock .ok .ok noFailure (some (written countdownLines)) true =
      mainBsm oneBlock .ok .ok noFailure (some (written renamedLines)) true := by
  refine renamed_source_alike oneBlock oneBlock .ok .ok noFailure (fun _ => nameY) countdownLines
    renamedLines rfl ?_ ?_ (by decide)
  · have hused : ∀ source ∈ sources countdownLines, ∀ x ∈ source.names, x = nameX := by
      simp [sources, countdownLines, SourceLine.plain, Source.names, SourceArg.names,
        SourceOperand.names]
    rintro x ⟨source, hsource, hx⟩ y ⟨source', hsource', hy⟩ -
    rw [hused source hsource x hx, hused source' hsource' y hy]
  · intro x hx
    simp [sources, countdownLines, SourceLine.plain] at hx

end BSVM
