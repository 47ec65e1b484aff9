/-
# `BSVM.Acceptance` — which listings the first pass accepts

It accepts exactly the arranged ones (`firstPass_accepts_iff`): at most 16
labels, which can be told apart, one entry, and nothing in a section that it
does not belong to.

`status` is tested behind every instruction, and an instruction without
operands does not set it.  A listing that begins with such an instruction is
accepted or not by what the local variable happens to hold.
-/
import BSVM.Emission
import BSVM.Parts

namespace BSVM

/-! ## Comparing names -/

theorem strEq_comm (s t : List Byte) : strEq s t = strEq t s := by
  induction s generalizing t with
  | nil => cases t <;> rfl
  | cons a s ih =>
      cases t with
      | nil => rfl
      | cons b t =>
          rw [strEq, strEq]
          by_cases hab : a = b
          · subst hab
            rw [ih]
          · rw [if_pos hab, if_pos (Ne.symm hab)]

/-- Equal names compare alike. -/
theorem strEq_congr {s t : List Byte} (h : strEq s t = .ok true) (u : List Byte) :
    strEq s u = strEq t u := by
  induction s generalizing t u with
  | nil => cases h
  | cons a s ih =>
      cases t with
      | nil => cases h
      | cons b t =>
          rw [strEq] at h
          split at h
          · cases h
          · next hab =>
              obtain rfl : a = b := not_not.mp hab
              cases u with
              | nil => rfl
              | cons c u =>
                  rw [strEq, strEq]
                  split at h
                  · next ha => rw [if_pos ha, if_pos ha]
                  · rw [ih h u]

/-- Two names that can be told apart. -/
def Apart (s t : List Byte) : Prop :=
  strEq s t = .ok false

theorem Apart.symm {s t : List Byte} (h : Apart s t) : Apart t s :=
  (strEq_comm t s).trans h

theorem findSymbol_none {s : List Byte} {table : List Symbol} :
    findSymbol s table = .ok none ↔ ∀ symbol ∈ table, Apart s symbol.string := by
  induction table with
  | nil => exact ⟨fun _ => List.forall_mem_nil _, fun _ => rfl⟩
  | cons symbol table ih =>
      rw [findSymbol, Except.bind_eq_ok, List.forall_mem_cons]
      constructor
      · rintro ⟨found, hfound, h⟩
        split at h
        · cases h
        · next hne =>
            rw [Bool.not_eq_true] at hne
            rw [hne] at hfound
            exact ⟨hfound, ih.mp h⟩
      · rintro ⟨hfound, h⟩
        exact ⟨false, hfound, ih.mpr h⟩

theorem findSymbol_some {s : List Byte} {table : List Symbol} {symbol : Symbol}
    (h : findSymbol s table = .ok (some symbol)) :
    symbol ∈ table ∧ strEq s symbol.string = .ok true := by
  induction table with
  | nil => cases h
  | cons first table ih =>
      rw [findSymbol] at h
      obtain ⟨found, hfound, h⟩ := Except.bind_eq_ok.mp h
      split at h
      · next heq =>
          cases h
          exact ⟨List.mem_cons_self, heq ▸ hfound⟩
      · obtain ⟨hmem, hstr⟩ := ih h
        exact ⟨List.mem_cons_of_mem _ hmem, hstr⟩

/-- Among symbols that can be told apart, the one of that name is found. -/
theorem findSymbol_of_mem {s : List Byte} {table : List Symbol} {symbol : Symbol}
    (hapart : table.Pairwise fun t u => Apart t.string u.string) (hmem : symbol ∈ table)
    (hs : strEq s symbol.string = .ok true) : findSymbol s table = .ok (some symbol) := by
  induction table with
  | nil => cases hmem
  | cons first table ih =>
      obtain ⟨hfirst, hrest⟩ := List.pairwise_cons.mp hapart
      rw [findSymbol]
      rcases List.mem_cons.mp hmem with rfl | hmem
      · rw [hs]
        rfl
      · have hne : strEq s first.string = .ok false :=
          (strEq_congr hs first.string).trans (hfirst symbol hmem).symm
        rw [hne]
        exact ih hrest hmem

/-- The order of the symbols does not matter. -/
theorem findSymbol_perm {s : List Byte} {table table' : List Symbol} {symbol : Symbol}
    (hperm : table.Perm table') (hapart : table.Pairwise fun t u => Apart t.string u.string)
    (h : findSymbol s table = .ok (some symbol)) : findSymbol s table' = .ok (some symbol) := by
  obtain ⟨hmem, hs⟩ := findSymbol_some h
  have hapart' := hperm.pairwise hapart fun h => h.symm
  exact findSymbol_of_mem hapart' (hperm.mem_iff.mp hmem) hs

/-! ## The status -/

/-- `status` behind a node. -/
def IRBody.status (status : AsmError) : IRBody → AsmError
  | .instr _ _ _ => .ok
  | _ => status

/-- An instruction that does not set `status`, and is refused unless it is `ok`. -/
def IRBody.tests : IRBody → Bool
  | .instr op _ _ => getArgsCount op == 0
  | _ => false

/-- `status` is set where it is tested. -/
def StatusSet (status : AsmError) : List IRBody → Prop
  | [] => True
  | body :: bodies => (body.tests = true → status = .ok) ∧ StatusSet (body.status status) bodies

theorem statusSet_concat {status : AsmError} {bodies : List IRBody} {body : IRBody} :
    StatusSet status (bodies ++ [body]) ↔ StatusSet status bodies ∧
      (body.tests = true → bodies.foldl IRBody.status status = .ok) := by
  induction bodies generalizing status with
  | nil =>
      rw [List.nil_append, StatusSet, StatusSet]
      exact and_comm
  | cons first bodies ih =>
      rw [List.cons_append, StatusSet, StatusSet, ih, and_assoc]
      rfl

/-- The mode of operands that fit, and `*status`. -/
theorem getModeFromOperands_eq {op : OpCode} {a b : Operand} {mode : Mode}
    (h : instrMode op a b = some mode) (status : AsmError) :
    getModeFromOperands a b (getArgsCount op) status =
      (mode, if getArgsCount op = 0 then status else .ok) := by
  rcases instrMode_cases h with ⟨hn, rfl, rfl, rfl⟩ | ⟨hn, rfl, hmode⟩ | ⟨hn, ⟨r, rfl⟩, hmode⟩
  all_goals rw [hn]
  · rfl
  · cases a <;> cases hmode <;> rfl
  · cases b <;> cases hmode <;> rfl

theorem tests_iff {op : OpCode} {a b : Operand} :
    (IRBody.instr op a b).tests = true ↔ getArgsCount op = 0 :=
  beq_iff_eq

/-- The status is `ok` where it is tested. -/
theorem getModeFromOperands_iff {op : OpCode} {a b : Operand} {mode : Mode} {status : AsmError}
    (h : instrMode op a b = some mode) :
    getModeFromOperands a b (getArgsCount op) status = (mode, .ok) ↔
      ((IRBody.instr op a b).tests = true → status = .ok) := by
  rw [getModeFromOperands_eq h, tests_iff, Prod.mk.injEq, eq_self_iff_true, true_and]
  by_cases hn : getArgsCount op = 0
  · rw [if_pos hn]
    exact ⟨fun h _ => h, fun h => h hn⟩
  · rw [if_neg hn]
    exact ⟨fun _ h => absurd h hn, fun _ => rfl⟩

/-! ## The first pass -/

/-- The conditions under which the first pass goes on at a node. -/
inductive Admits (L : Layout) (status : AsmError) : IRBody → Prop
  | label {name : Operand} {x : Ident} (hx : name.asIdent = .ok x) (hsect : L.sect ≠ .undefined)
      (hnew : ∀ label ∈ L.labels, Apart x.str label.1) (hroom : L.labels.length < 16) :
      Admits L status (.label name)
  | data {type : DirType} {operand : Operand} (hform : DataForm type operand)
      (hsect : L.sect = .data) : Admits L status (.dir type operand)
  | toData : Admits L status (.dir .data .none)
  | toText : Admits L status (.dir .text .none)
  | entry {x : Ident} (hfirst : L.entry = none) : Admits L status (.dir .entry (.ident x))
  | instr {op : OpCode} {a b : Operand} {mode : Mode} (hsect : L.sect = .text)
      (hmode : instrMode op a b = some mode) (hhandler : hasHandler op mode = true)
      (hstatus : (IRBody.instr op a b).tests = true → status = .ok) :
      Admits L status (.instr op a b)

theorem addToSymbolTable_eq {symtable : SymbolTable} (s : Symbol) (hsize : symtable.size = 16)
    (hbytes : symtable.bytes = 16 * sizeofSymbol) :
    addToSymbolTable symtable s =
      if symtable.table.length < 16 then .ok { symtable with table := symtable.table ++ [s] }
      else .error .table := by
  obtain ⟨table, size, bytes⟩ := symtable
  cases hsize
  cases hbytes
  rw [addToSymbolTable]
  dsimp only [sizeofSymbol]
  by_cases hfull : table.length = 16
  · rw [if_pos hfull]
    dsimp only
    rw [if_neg (by omega), if_neg (by omega)]
  · rw [if_neg hfull]
    by_cases hroom : table.length < 16
    · rw [if_pos hroom]
      exact if_pos (by dsimp only; omega)
    · rw [if_neg hroom]
      exact if_neg (by dsimp only; omega)

theorem instrMode_sized {op : OpCode} {a b : Operand} {mode : Mode}
    (h : instrMode op a b = some mode) : ∃ size, modeSize mode = .ok size := by
  rcases instrMode_cases h with ⟨-, -, -, rfl⟩ | ⟨-, -, hmode⟩ | ⟨-, -, hmode⟩
  · exact ⟨2, rfl⟩
  · cases a <;> cases hmode <;> exact ⟨_, rfl⟩
  · cases b <;> cases hmode <;> exact ⟨_, rfl⟩

/-! The rounds from the steps. -/

theorem Admits.status {L : Layout} {status : AsmError} {body : IRBody} (h : Admits L status body) :
    body.tests = true → status = .ok := by
  cases h with
  | instr _ _ _ hstatus => exact hstatus
  | _ => exact nofun

theorem Admits.congr {L : Layout} {status status' : AsmError} {body : IRBody}
    (h : Admits L status body) (hstatus : body.tests = true → status' = .ok) :
    Admits L status' body := by
  cases h with
  | label hx hsect hnew hroom => exact .label hx hsect hnew hroom
  | data hform hsect => exact .data hform hsect
  | toData => exact .toData
  | toText => exact .toText
  | entry hfirst => exact .entry hfirst
  | instr hsect hmode hhandler _ => exact .instr hsect hmode hhandler hstatus

section
variable {s s' : FirstPass}

theorem firstPassLabel_of_step {name : Operand} (h : FirstStep s (.label name) s') :
    firstPassLabel name s = .ok (.ok, s') := by
  cases h with
  | label hx hnew hsect hadd =>
      rw [firstPassLabel, hx, Except.ok_bind, hnew, Except.ok_bind, if_neg (by decide),
        if_neg hsect]
      dsimp only
      rw [hadd]
      rfl

theorem firstPassDir_of_step {type : DirType} {operand : Operand}
    (h : FirstStep s (.dir type operand) s') : firstPassDir type operand s = .ok (.ok, s') := by
  cases h with
  | data hform hsect =>
      have hdata : ¬ s.sect ≠ .data := not_not.mpr hsect
      cases hform with
      | string x =>
          have hsize : BitVec.ofNat 64 (dirSize .string (.string x)) = x.length :=
            BitVec.eq_of_toNat_eq (Nat.mod_eq_of_lt x.length.isLt)
          rw [hsize]
          exact if_neg hdata
      | _ => exact if_neg hdata
  | toData | toText => rfl
  | entry hfirst =>
      refine if_neg ?_
      rw [hfirst]
      decide

theorem firstPassInstr_of_step {op : OpCode} {a b : Operand}
    (h : FirstStep s (.instr op a b) s') : firstPassInstr op a b s = .ok (.ok, s') := by
  cases h with
  | instr hsect hmode hhandler hsize =>
      rw [firstPassInstr, if_neg (not_not.mpr hsect), hmode]
      dsimp only
      rw [if_neg (by decide), hhandler, if_neg (by decide), hsize]
      rfl

theorem firstPassNode_iff {node : IRNode} :
    firstPassNode node s = .ok (.ok, s') ↔
      FirstStep { s with ass.errorLine := node.line } node.body s' := by
  refine ⟨firstPassNode_step, fun h => ?_⟩
  obtain ⟨line, body⟩ := node
  cases body with
  | label name => exact firstPassLabel_of_step h
  | dir type operand => exact firstPassDir_of_step h
  | instr op a b => exact firstPassInstr_of_step h

end

/-- The first pass behind some nodes, with what decides whether it goes on. -/
structure FirstHere (status : AsmError) (ass₀ : Assembler) (nodes : List IRNode) (s : FirstPass) :
    Prop where
  here : FirstAt ass₀ (layoutOf nodes) s
  status : s.status = (textPart nodes).foldl IRBody.status status
  size : s.ass.symtable.size = 16
  bytes : s.ass.symtable.bytes = 16 * sizeofSymbol

theorem status_concat (status : AsmError) {nodes : List IRNode} {node : IRNode}
    (h : node.body.emits = .text → (layoutOf nodes).sect = .text) :
    (textPart (nodes ++ [node])).foldl IRBody.status status =
      node.body.status ((textPart nodes).foldl IRBody.status status) := by
  obtain ⟨line, body⟩ := node
  rw [textPart, part_concat, List.foldl_append]
  cases body with
  | instr op a b => rw [if_pos ⟨h rfl, rfl⟩]; rfl
  | _ => split <;> rfl

theorem FirstHere.step {status : AsmError} {ass₀ : Assembler} {nodes : List IRNode} {node : IRNode}
    {s s' : FirstPass} (h : FirstHere status ass₀ nodes s)
    (hstep : FirstStep { s with ass.errorLine := node.line } node.body s') :
    FirstHere status ass₀ (nodes ++ [node]) s' := by
  have hhere : FirstAt ass₀ (layoutOf (nodes ++ [node])) s' :=
    layoutOf_concat nodes node ▸ h.here.step hstep
  have hsect := h.here.sect
  obtain ⟨line, body⟩ := node
  cases hstep with
  | label hx hnew hsome hadd =>
      rw [addToSymbolTable_eq _ h.size h.bytes] at hadd
      split at hadd
      · cases hadd
        refine ⟨hhere, ?_, h.size, h.bytes⟩
        rw [status_concat status (by intro hemits; cases hemits)]
        exact h.status
      · cases hadd
  | data hform _ =>
      refine ⟨hhere, ?_, h.size, h.bytes⟩
      rw [status_concat status (by intro hemits; cases hform <;> cases hemits)]
      exact h.status
  | toData | toText | entry =>
      refine ⟨hhere, ?_, h.size, h.bytes⟩
      rw [status_concat status (by intro hemits; cases hemits)]
      exact h.status
  | instr htext hmode hhandler hsize =>
      refine ⟨hhere, ?_, h.size, h.bytes⟩
      rw [status_concat status fun _ => hsect.symm.trans htext]
      rfl

theorem FirstHere.length {status : AsmError} {ass₀ : Assembler} {nodes : List IRNode}
    {s : FirstPass} (h : FirstHere status ass₀ nodes s) :
    s.ass.symtable.table.length = (layoutOf nodes).labels.length := by
  rw [h.here.table, List.length_map]

/-- A name is new in the table if it is apart from every label before it. -/
theorem FirstHere.new_iff {status : AsmError} {ass₀ : Assembler} {nodes : List IRNode}
    {s : FirstPass} (h : FirstHere status ass₀ nodes s) (x : List Byte) :
    isInSymbolTable s.ass.symtable x = .ok false ↔
      ∀ label ∈ (layoutOf nodes).labels, Apart x label.1 := by
  rw [isInSymbolTable, Except.bind_eq_ok]
  constructor
  · rintro ⟨found, hfound, hnone⟩ label hlabel
    obtain rfl : found = none := Option.not_isSome_iff_eq_none.mp
      (Bool.eq_false_iff.mp (Except.ok.inj hnone))
    refine findSymbol_none.mp hfound ⟨label.1, BitVec.ofNat 64 label.2⟩ ?_
    rw [h.here.table]
    exact List.mem_map_of_mem hlabel
  · intro hall
    refine ⟨none, findSymbol_none.mpr fun symbol hsymbol => ?_, rfl⟩
    rw [h.here.table] at hsymbol
    obtain ⟨label, hlabel, rfl⟩ := List.mem_map.mp hsymbol
    exact hall label hlabel

/-- Where the first pass goes on. -/
theorem FirstHere.admits_iff {status : AsmError} {ass₀ : Assembler} {nodes : List IRNode}
    {node : IRNode} {s : FirstPass} (h : FirstHere status ass₀ nodes s) :
    (∃ s', firstPassNode node s = .ok (.ok, s')) ↔
      Admits (layoutOf nodes) ((textPart nodes).foldl IRBody.status status) node.body := by
  obtain ⟨line, body⟩ := node
  constructor
  · rintro ⟨s', hnode⟩
    cases firstPassNode_iff.mp hnode with
    | label hx hfree hsect hadd =>
        rw [addToSymbolTable_eq _ h.size h.bytes] at hadd
        split at hadd
        · next hroom =>
            exact .label hx (h.here.sect ▸ hsect) ((h.new_iff _).mp hfree) (h.length ▸ hroom)
        · cases hadd
    | data hform hsect => exact .data hform (h.here.sect.symm.trans hsect)
    | toData => exact .toData
    | toText => exact .toText
    | entry hfirst =>
        refine .entry (Option.not_isSome_iff_eq_none.mp ?_)
        rw [← h.here.entryOk]
        exact Bool.eq_false_iff.mp hfirst
    | instr hsect hmode hhandler hsize =>
        have hm := getModeFromOperands_ok hmode
        refine .instr (h.here.sect.symm.trans hsect) hm hhandler ?_
        rw [← h.status]
        exact (getModeFromOperands_iff hm).mp hmode
  · intro hadmits
    refine (exists_congr fun s' => firstPassNode_iff).mpr ?_
    cases hadmits with
    | label hx hsect hfree hroom =>
        have hadd := fun symbol => (addToSymbolTable_eq symbol h.size h.bytes).trans
          (if_pos (h.length ▸ hroom))
        exact ⟨_, .label hx ((h.new_iff _).mpr hfree) (h.here.sect ▸ hsect) (hadd _)⟩
    | data hform hsect => exact ⟨_, .data hform (h.here.sect.trans hsect)⟩
    | toData => exact ⟨_, .toData⟩
    | toText => exact ⟨_, .toText⟩
    | entry hfirst =>
        refine ⟨_, .entry ?_⟩
        rw [h.here.entryOk, hfirst]
        rfl
    | instr hsect hmode hhandler hstatus =>
        rw [← h.status] at hstatus
        obtain ⟨size, hsize⟩ := instrMode_sized hmode
        exact ⟨_, .instr (h.here.sect.trans hsect) ((getModeFromOperands_iff hmode).mpr hstatus)
          hhandler hsize⟩

/-! ## Arranged listings -/

/-- At most one entry directive, with an identifier. -/
def OneEntry (nodes : List IRNode) : Prop :=
  entries nodes = [] ∨ ∃ x, entries nodes = [.ident x]

/-- What the first pass accepts. -/
structure Arranged (status : AsmError) (nodes : List IRNode) : Prop where
  tidy : Tidy nodes
  apart : (layoutOf nodes).labels.Pairwise fun label label' => Apart label.1 label'.1
  few : (layoutOf nodes).labels.length ≤ 16
  entry : OneEntry nodes
  bare : Bare nodes
  status : StatusSet status (textPart nodes)

theorem bare_concat {nodes : List IRNode} {node : IRNode} :
    Bare (nodes ++ [node]) ↔ Bare nodes ∧ ∀ operand,
      node.body = .dir .text operand ∨ node.body = .dir .data operand → operand = .none := by
  rw [Bare, List.forall_mem_append, List.forall_mem_singleton]
  exact Iff.rfl

section
variable {L : Layout} {status : AsmError} {body : IRBody}

theorem admits_content (hcontent : body.content = true) :
    Admits L status body ↔ Fits L.sect body ∧
      (∀ name ∈ body.name?, (∀ label ∈ L.labels, Apart name label.1) ∧ L.labels.length < 16) ∧
      (body.tests = true → status = .ok) := by
  constructor
  · intro h
    cases h with
    | @label name x hx hsect hnew hroom =>
        refine ⟨?_, ?_, nofun⟩
        · cases hcur : L.sect with
          | undefined => exact absurd hcur hsect
          | text => exact .textLabel hx
          | data => exact .dataLabel hx
        · intro name hname
          rw [name_label hx] at hname
          cases hname
          exact ⟨hnew, hroom⟩
    | data hform hsect => exact ⟨hsect ▸ .dir hform, nofun, nofun⟩
    | toData | toText | entry => cases hcontent
    | instr hsect hmode hhandler hstatus =>
        exact ⟨hsect ▸ .instr hmode hhandler, nofun, hstatus⟩
  · rintro ⟨hfits, hnames, hstatus⟩
    generalize hcur : L.sect = cur at hfits
    cases hfits with
    | textLabel hx | dataLabel hx =>
        obtain ⟨hnew, hroom⟩ := hnames _ (name_label hx)
        refine .label hx ?_ hnew hroom
        rw [hcur]
        decide
    | instr hmode hhandler => exact .instr hcur hmode hhandler hstatus
    | dir hform => exact .data hform hcur

theorem admits_other (hcontent : body.content = false) :
    Admits L status body ↔
      (∀ operand, body = .dir .text operand ∨ body = .dir .data operand → operand = .none) ∧
      ∀ operand ∈ body.entry?, L.entry = none ∧ ∃ x, operand = .ident x := by
  constructor
  · intro h
    cases h with
    | label | instr => cases hcontent
    | data hform => cases hform <;> cases hcontent
    | toData | toText =>
        refine ⟨?_, nofun⟩
        rintro operand (h | h)
        all_goals
          cases h
          try rfl
    | entry hfirst =>
        refine ⟨nofun, ?_⟩
        rintro operand hoperand
        cases hoperand
        exact ⟨hfirst, _, rfl⟩
  · rintro ⟨hbare, hentry⟩
    cases body with
    | label name => cases hcontent
    | instr op a b => cases hcontent
    | dir type operand =>
        cases type with
        | text =>
            obtain rfl := hbare operand (Or.inl rfl)
            exact .toText
        | data =>
            obtain rfl := hbare operand (Or.inr rfl)
            exact .toData
        | entry =>
            obtain ⟨hfirst, x, rfl⟩ := hentry operand rfl
            exact .entry hfirst
        | _ => cases hcontent

end

theorem entry_eq_none {nodes : List IRNode} (h : entries nodes = []) :
    (layoutOf nodes).entry = none := by
  refine entry_none fun node hnode operand hbody => ?_
  have hnone : node.body.entry? = none := List.filterMap_eq_nil_iff.mp h node hnode
  rw [hbody] at hnone
  cases hnone

theorem entry_after {L : Layout} {node : IRNode} (h : node.body.entry? = none) :
    (L.after node).entry = L.entry := by
  obtain ⟨line, body⟩ := node
  cases body with
  | label name =>
      dsimp only [Layout.after]
      cases name.asIdent <;> rfl
  | dir type operand =>
      cases type with
      | entry => cases h
      | _ => rfl
  | instr op a b => rfl

theorem entry_some {body : IRBody} {operand : Operand} (h : body.entry? = some operand) :
    body = .dir .entry operand := by
  cases body with
  | dir type operand =>
      cases type <;> cases h
      rfl
  | _ => cases h

theorem concat_eq_singleton {operands : List Operand} {x y : Operand} :
    operands ++ [x] = [y] ↔ operands = [] ∧ x = y := by
  rw [List.append_eq_singleton_iff]
  simp

theorem entry_eq_some {nodes : List IRNode} {x : Ident} (h : entries nodes = [.ident x]) :
    (layoutOf nodes).entry = some x := by
  induction nodes using List.reverseRecOn with
  | nil => cases h
  | append_singleton nodes node ih =>
      rw [entries_concat] at h
      rw [layoutOf_concat]
      cases hentry : node.body.entry? with
      | none =>
          rw [hentry, Option.toList_none, List.append_nil] at h
          rw [entry_after hentry]
          exact ih h
      | some operand =>
          rw [hentry, Option.toList_some] at h
          obtain ⟨-, rfl⟩ := concat_eq_singleton.mp h
          obtain ⟨line, body⟩ := node
          obtain rfl := entry_some hentry
          exact congrArg Layout.entry (Layout.after_entry _ line rfl)

section
variable {status : AsmError} {nodes : List IRNode} {node : IRNode}

theorem OneEntry.none_iff (h : OneEntry nodes) :
    (layoutOf nodes).entry = none ↔ entries nodes = [] := by
  refine ⟨fun hnone => h.resolve_right ?_, entry_eq_none⟩
  rintro ⟨x, hx⟩
  cases hnone.symm.trans (entry_eq_some hx)

theorem oneEntry_concat :
    OneEntry (nodes ++ [node]) ↔ OneEntry nodes ∧
      ∀ operand ∈ node.body.entry?, (layoutOf nodes).entry = none ∧ ∃ x, operand = .ident x := by
  rw [OneEntry, entries_concat]
  cases hentry : node.body.entry? with
  | none =>
      rw [Option.toList_none, List.append_nil]
      exact ⟨fun h => ⟨h, fun _ hmem => by cases hmem⟩, fun h => h.1⟩
  | some operand =>
      rw [Option.toList_some]
      constructor
      · rintro (h | ⟨x, h⟩)
        · cases (List.append_eq_nil_iff.mp h).2
        · obtain ⟨hnil, hlast⟩ := concat_eq_singleton.mp h
          refine ⟨Or.inl hnil, fun _ hmem => ?_⟩
          cases hmem
          exact ⟨entry_eq_none hnil, x, hlast⟩
      · rintro ⟨hone, hnew⟩
        obtain ⟨hnone, x, rfl⟩ := hnew operand rfl
        exact Or.inr ⟨x, by rw [hone.none_iff.mp hnone, List.nil_append]⟩

/-- A new label, if there is one. -/
theorem labels_concat {labels : List (List Byte × Nat)} {name? : Option (List Byte)} {here : Nat} :
    ((labels ++ name?.toList.map fun name => (name, here)).Pairwise
        fun label label' => Apart label.1 label'.1) ∧
      (labels ++ name?.toList.map fun name => (name, here)).length ≤ 16 ↔
    (labels.Pairwise (fun label label' => Apart label.1 label'.1) ∧ labels.length ≤ 16) ∧
      ∀ name ∈ name?, (∀ label ∈ labels, Apart name label.1) ∧ labels.length < 16 := by
  cases name? with
  | none =>
      rw [Option.toList_none, List.map_nil, List.append_nil]
      exact ⟨fun h => ⟨h, fun _ hmem => by cases hmem⟩, fun h => h.1⟩
  | some name =>
      rw [Option.toList_some, List.map_singleton, List.length_append, List.length_singleton,
        List.pairwise_append]
      constructor
      · rintro ⟨⟨hapart, -, hnew⟩, hlength⟩
        refine ⟨⟨hapart, by omega⟩, fun _ hmem => ?_⟩
        cases hmem
        exact ⟨fun label hlabel => (hnew label hlabel _ (List.mem_singleton_self _)).symm, hlength⟩
      · rintro ⟨⟨hapart, -⟩, hnew⟩
        obtain ⟨hnew, hroom⟩ := hnew name rfl
        refine ⟨⟨hapart, List.pairwise_singleton _ _, fun label hlabel label' hlabel' => ?_⟩, hroom⟩
        rw [List.mem_singleton.mp hlabel']
        exact (hnew label hlabel).symm

theorem statusSet_text (hfits : Fits (layoutOf nodes).sect node.body) :
    StatusSet status (textPart (nodes ++ [node])) ↔ StatusSet status (textPart nodes) ∧
      (node.body.tests = true → (textPart nodes).foldl IRBody.status status = .ok) := by
  by_cases htext : (layoutOf nodes).sect = .text
  · rw [textPart, part_concat_mem htext hfits.content]
    exact statusSet_concat
  · rw [textPart, part_concat_skip fun h => htext h.1]
    refine (and_iff_left fun htests => absurd ?_ htext).symm
    generalize (layoutOf nodes).sect = cur at hfits
    obtain ⟨line, body⟩ := node
    cases hfits with
    | instr => rfl
    | _ => cases htests

theorem arranged_content (hcontent : node.body.content = true) :
    Arranged status (nodes ++ [node]) ↔ Arranged status nodes ∧
      Admits (layoutOf nodes) ((textPart nodes).foldl IRBody.status status) node.body := by
  have hentry : ∀ operand, node.body.entry? ≠ some operand := by
    intro operand h
    rw [entry_some h] at hcontent
    cases hcontent
  have hbare : ∀ operand, ¬ (node.body = .dir .text operand ∨ node.body = .dir .data operand) := by
    rintro operand (h | h)
    all_goals
      rw [h] at hcontent
      cases hcontent
  rw [admits_content hcontent]
  constructor
  · intro h
    obtain ⟨htidy, hfits⟩ := tidy_concat.mp h.tidy
    have hnode := hfits hcontent
    have hlabels := And.intro h.apart h.few
    rw [layoutOf_concat, labels_after, labels_concat] at hlabels
    obtain ⟨⟨hapart, hfew⟩, hnew⟩ := hlabels
    obtain ⟨hstatus, hset⟩ := (statusSet_text hnode).mp h.status
    exact ⟨⟨htidy, hapart, hfew, (oneEntry_concat.mp h.entry).1, (bare_concat.mp h.bare).1,
      hstatus⟩, hnode, hnew, hset⟩
  · rintro ⟨h, hnode, hnew, hset⟩
    obtain ⟨hapart, hfew⟩ := labels_concat.mpr ⟨⟨h.apart, h.few⟩, hnew⟩
    rw [← labels_after, ← layoutOf_concat] at hapart hfew
    exact ⟨tidy_concat.mpr ⟨h.tidy, fun _ => hnode⟩, hapart, hfew,
      oneEntry_concat.mpr ⟨h.entry, fun operand hmem => absurd hmem (hentry operand)⟩,
      bare_concat.mpr ⟨h.bare, fun operand hbody => absurd hbody (hbare operand)⟩,
      (statusSet_text hnode).mpr ⟨h.status, hset⟩⟩

theorem arranged_other (hcontent : node.body.content = false) :
    Arranged status (nodes ++ [node]) ↔ Arranged status nodes ∧
      Admits (layoutOf nodes) ((textPart nodes).foldl IRBody.status status) node.body := by
  have hskip : ∀ sect, part sect .undefined (nodes ++ [node]) = part sect .undefined nodes :=
    fun sect => part_concat_skip fun h => Bool.false_ne_true (hcontent.symm.trans h.2)
  have hlabels : (layoutOf (nodes ++ [node])).labels = (layoutOf nodes).labels := by
    rw [layoutOf_concat, labels_after, name_other hcontent]
    exact List.append_nil _
  have htidy : Tidy (nodes ++ [node]) ↔ Tidy nodes :=
    forall_congr' fun sect => by rw [hskip]
  rw [admits_other hcontent]
  constructor
  · intro h
    obtain ⟨hentry, hnew⟩ := oneEntry_concat.mp h.entry
    obtain ⟨hbare, hnode⟩ := bare_concat.mp h.bare
    have hstatus := h.status
    rw [textPart, hskip] at hstatus
    exact ⟨⟨htidy.mp h.tidy, hlabels ▸ h.apart, hlabels ▸ h.few, hentry, hbare, hstatus⟩, hnode,
      hnew⟩
  · rintro ⟨h, hnode, hnew⟩
    refine ⟨htidy.mpr h.tidy, hlabels ▸ h.apart, hlabels ▸ h.few,
      oneEntry_concat.mpr ⟨h.entry, hnew⟩, bare_concat.mpr ⟨h.bare, hnode⟩, ?_⟩
    rw [textPart, hskip]
    exact h.status

theorem arranged_concat :
    Arranged status (nodes ++ [node]) ↔ Arranged status nodes ∧
      Admits (layoutOf nodes) ((textPart nodes).foldl IRBody.status status) node.body := by
  cases hcontent : node.body.content with
  | true => exact arranged_content hcontent
  | false => exact arranged_other hcontent

end

theorem arranged_nil (status : AsmError) : Arranged status [] where
  tidy := fun _ _ hmem => by cases hmem
  apart := .nil
  few := Nat.zero_le _
  entry := Or.inl rfl
  bare := List.forall_mem_nil _
  status := trivial

theorem FirstHere.start (status : AsmError) (ass₀ : Assembler) :
    FirstHere status ass₀ [] (.start status ass₀) where
  here := ⟨rfl, rfl, rfl, rfl, List.nodup_nil, rfl, rfl⟩
  status := rfl
  size := rfl
  bytes := rfl

theorem FirstHere.of_run {status : AsmError} {ass₀ : Assembler} {nodes : List IRNode}
    {s : FirstPass} (h : runPass .ok firstPassNode nodes (.start status ass₀) = .ok (.ok, s)) :
    FirstHere status ass₀ nodes s := by
  have hkeep : ∀ pre node post s₁ s₂, nodes = pre ++ node :: post →
      FirstHere status ass₀ pre s₁ → firstPassNode node s₁ = .ok (.ok, s₂) →
      FirstHere status ass₀ (pre ++ [node]) s₂ :=
    fun _ _ _ _ _ _ hat hnode => hat.step (firstPassNode_step hnode)
  obtain ⟨_, _, hat, hnil⟩ :=
    runPass_at (.start status ass₀) hkeep h (List.append_nil nodes).symm
  cases hnil
  exact hat

/-- **The first pass accepts exactly the arranged listings.** -/
theorem firstPass_accepts_iff {status : AsmError} {ass₀ : Assembler} {nodes : List IRNode} :
    (∃ s, runPass .ok firstPassNode nodes (.start status ass₀) = .ok (.ok, s)) ↔
      Arranged status nodes := by
  induction nodes using List.reverseRecOn with
  | nil => exact ⟨fun _ => arranged_nil status, fun _ => ⟨_, rfl⟩⟩
  | append_singleton nodes node ih =>
      refine Iff.trans ?_ (arranged_concat.trans (and_congr_left fun _ => ih.symm)).symm
      constructor
      · rintro ⟨s', hrun⟩
        obtain ⟨s, hpre, hlast⟩ := runPass_append.mp hrun
        obtain ⟨s₁, hnode, -⟩ := runPass_cons.mp hlast
        exact ⟨⟨s, hpre⟩, (FirstHere.of_run hpre).admits_iff.mp ⟨s₁, hnode⟩⟩
      · rintro ⟨⟨s, hpre⟩, hadmits⟩
        obtain ⟨s', hnode⟩ := (FirstHere.of_run hpre).admits_iff.mpr hadmits
        exact ⟨s', runPass_append.mpr ⟨s, hpre, runPass_cons.mpr ⟨s', hnode, rfl⟩⟩⟩

theorem firstPass_ok_iff {status : AsmError} {ass₀ : Assembler} {irList : IRList} :
    (∃ ass₁, assemblerFirstPass status ass₀ irList = .ok (.ok, ass₁)) ↔
      Arranged status irList.nodes := by
  refine Iff.trans ?_ (@firstPass_accepts_iff status ass₀ irList.nodes)
  constructor
  · rintro ⟨ass₁, h⟩
    obtain ⟨s, _, hrun, -, -⟩ := firstPass_at h (List.append_nil irList.nodes).symm
    exact ⟨s, hrun⟩
  · rintro ⟨s, hrun⟩
    refine ⟨{ s.ass with
      headers.codeSize := s.textAddr
      headers.dataSize := s.dataAddr - BitVec.ofNat 64 DATA_BASE }, ?_⟩
    rw [assemblerFirstPass, hrun]
    rfl

end BSVM
