/-
# `BSVM.Layout` — the two passes agree on the layout

`FirstAt` and `SecondAt` relate the locals of each pass, at any point of its
loop, to the layout of the nodes before that point.  The cursors of the passes
are the offsets of the layout, and the arrays have been filled up to them.

The cursors are 64-bit numbers and wrap.  The text does not, because a node of
the list is larger than an instruction; the data does not, because a byte
behind the end of its array cannot be stored.
-/
import BSVM.Passes

namespace BSVM

/-! ## The first pass -/

/-- The first pass at a point of layout `L`. -/
structure FirstAt (ass₀ : Assembler) (L : Layout) (s : FirstPass) : Prop where
  sect : s.sect = L.sect
  text : s.textAddr = BitVec.ofNat 64 L.text
  data : s.dataAddr = BitVec.ofNat 64 (DATA_BASE + L.data)
  table : Represents s.ass.symtable.table L.labels
  names : (L.labels.map fun label => cName label.1).Nodup
  headers : s.ass.headers = ass₀.headers
  entryOk : s.entryOk = L.entry.isSome

theorem FirstAt.here {ass₀ : Assembler} {L : Layout} {s : FirstPass} (h : FirstAt ass₀ L s) :
    (if s.sect = .data then s.dataAddr else s.textAddr) = BitVec.ofNat 64 L.here := by
  rw [Layout.here, Layout.place, h.sect, h.data, h.text]
  split <;> rfl

theorem addToSymbolTable_table {symtable symtable' : SymbolTable} {s : Symbol}
    (h : addToSymbolTable symtable s = .ok symtable') :
    symtable'.table = symtable.table ++ [s] := by
  rw [addToSymbolTable] at h
  -- whether the table grows, and whether it has room then
  split at h
  all_goals
    split at h
    · cases h
      rfl
    · cases h

theorem isInSymbolTable_false {symtable : SymbolTable} {labels : List (List Byte × Nat)} {x : Ident}
    (htable : Represents symtable.table labels)
    (h : isInSymbolTable symtable x.str = .ok false) :
    cName x.str ∉ labels.map fun label => cName label.1 := by
  rw [isInSymbolTable] at h
  obtain ⟨found, hfound, h⟩ := Except.bind_eq_ok.mp h
  cases found with
  | some symbol => cases h
  | none =>
      have hnone := (findSymbol_eq hfound).symm
      rw [List.find?_eq_none, htable] at hnone
      intro hmem
      obtain ⟨label, hlabel, heq⟩ := List.mem_map.mp hmem
      refine hnone _ (List.mem_map_of_mem hlabel) ?_
      rw [heq]
      exact beq_self_eq_true _

theorem FirstAt.step {ass₀ : Assembler} {L : Layout} {node : IRNode} {s s' : FirstPass}
    (h : FirstAt ass₀ L s)
    (hstep : FirstStep { s with ass.errorLine := node.line } node.body s') :
    FirstAt ass₀ (L.after node) s' := by
  obtain ⟨line, body⟩ := node
  cases hstep with
  | @label name x symtable hx hnew hsect hadd =>
      dsimp only at hnew hadd
      rw [L.after_label line hx]
      refine { h with table := ?_, names := ?_ }
      · show symtable.table = _
        rw [addToSymbolTable_table hadd, h.here, h.table, List.map_append]
        rfl
      · rw [List.map_append, List.nodup_append]
        refine ⟨h.names, List.nodup_singleton _, ?_⟩
        rintro a ha b hb rfl
        obtain rfl := List.mem_singleton.mp hb
        exact isInSymbolTable_false h.table hnew ha
  | @data type operand hform hsect =>
      rw [hform.after L line]
      refine { h with data := ?_ }
      dsimp only
      rw [h.data, ← BitVec.ofNat_add, Nat.add_assoc]
  | toData => exact { h with sect := rfl }
  | toText => exact { h with sect := rfl }
  | entry hfirst => exact { h with entryOk := rfl }
  | @instr op a b mode size hsect hmode hhandler hsize =>
      refine { h with text := ?_ }
      show s.textAddr + BitVec.ofNat 64 size = BitVec.ofNat 64 (L.text + instrSize op a b)
      rw [h.text, instrSize_eq (getModeFromOperands_ok hmode) hsize, BitVec.ofNat_add]

/-- What the first pass leaves for the second, `L` being the layout of all nodes. -/
structure FirstResult (ass₀ ass₁ : Assembler) (L : Layout) : Prop where
  codeSize : ass₁.headers.codeSize = BitVec.ofNat 64 L.text
  dataSize : ass₁.headers.dataSize = BitVec.ofNat 64 L.data
  entryPoint : ass₁.headers.entryPoint = ass₀.headers.entryPoint
  table : Represents ass₁.symtable.table L.labels
  names : (L.labels.map fun label => cName label.1).Nodup

section
variable {status : AsmError} {ass₀ ass₁ : Assembler} {irList : IRList}

/-- The first pass comes through every point of the list, with its layout. -/
theorem firstPass_at (h : assemblerFirstPass status ass₀ irList = .ok (.ok, ass₁))
    {pre post : List IRNode} (hsplit : irList.nodes = pre ++ post) :
    ∃ s s', runPass .ok firstPassNode pre (.start status ass₀) = .ok (.ok, s) ∧
      FirstAt ass₀ (layoutOf pre) s ∧ runPass .ok firstPassNode post s = .ok (.ok, s') := by
  rw [assemblerFirstPass] at h
  obtain ⟨⟨r, s'⟩, hrun, h⟩ := Except.bind_eq_ok.mp h
  have hr : r = .ok := by
    by_contra hr
    dsimp only at h
    rw [if_pos hr] at h
    exact hr (Prod.mk.inj (Except.ok.inj h)).1
  subst hr
  have hstart : FirstAt ass₀ (layoutOf []) (.start status ass₀) :=
    ⟨rfl, rfl, rfl, rfl, List.nodup_nil, rfl, rfl⟩
  have hkeep : ∀ pre n post s₁ s₂, irList.nodes = pre ++ n :: post →
      FirstAt ass₀ (layoutOf pre) s₁ → firstPassNode n s₁ = .ok (.ok, s₂) →
      FirstAt ass₀ (layoutOf (pre ++ [n])) s₂ := by
    intro pre n post s₁ s₂ _ hat hnode
    rw [layoutOf_concat]
    exact hat.step (firstPassNode_step hnode)
  obtain ⟨s, hpre, hat, hpost⟩ := runPass_at hstart hkeep hrun hsplit
  exact ⟨s, s', hpre, hat, hpost⟩

theorem firstPass_result (h : assemblerFirstPass status ass₀ irList = .ok (.ok, ass₁)) :
    FirstResult ass₀ ass₁ (layoutOf irList.nodes) := by
  obtain ⟨s, s', hrun, hat, hnil⟩ := firstPass_at h (List.append_nil irList.nodes).symm
  cases hnil
  rw [assemblerFirstPass, hrun, Except.ok_bind] at h
  cases h
  refine ⟨hat.text, ?_, ?_, hat.table, hat.names⟩
  · show s.dataAddr - BitVec.ofNat 64 DATA_BASE = _
    rw [hat.data, BitVec.ofNat_add, BitVec.add_comm, BitVec.add_sub_cancel]
  · show s.ass.headers.entryPoint = _
    rw [hat.headers]

/-- The round of a node, and the point before it. -/
theorem firstPass_node (h : assemblerFirstPass status ass₀ irList = .ok (.ok, ass₁))
    {pre post : List IRNode} {node : IRNode} (hsplit : irList.nodes = pre ++ node :: post) :
    ∃ s s', runPass .ok firstPassNode pre (.start status ass₀) = .ok (.ok, s) ∧
      FirstAt ass₀ (layoutOf pre) s ∧
      FirstStep { s with ass.errorLine := node.line } node.body s' := by
  obtain ⟨s, _, hpre, hat, hpost⟩ := firstPass_at h hsplit
  obtain ⟨s', hnode, -⟩ := runPass_cons.mp hpost
  exact ⟨s, s', hpre, hat, firstPassNode_step hnode⟩

end

/-! ## The second pass -/

/-- The second pass at a point of layout `L`, with `code` emitted. -/
structure SecondAt (ass₁ : Assembler) (env : Ident → Option Word) (L : Layout) (code : List Byte)
    (s : SecondPass) : Prop where
  sect : s.sect = L.sect
  text : s.textAddr = BitVec.ofNat 64 L.text
  data : s.dataAddr = BitVec.ofNat 64 L.data
  symtable : s.ass.symtable = ass₁.symtable
  codeSize : s.ass.headers.codeSize = ass₁.headers.codeSize
  dataSize : s.ass.headers.dataSize = ass₁.headers.dataSize
  entry : ∀ x, L.entry = some x → env x = some s.ass.headers.entryPoint
  noEntry : L.entry = none → s.ass.headers.entryPoint = ass₁.headers.entryPoint
  bytecode : s.ass.bytecode = { size := ass₁.headers.codeSize, stores := code.zipIdx }
  codeLength : code.length = L.text
  dataArray : ∃ bytes : List Byte, bytes.length = L.data ∧
    s.ass.data = { size := ass₁.headers.dataSize, stores := bytes.zipIdx }
  dataFits : L.data ≤ ass₁.headers.dataSize.toNat

theorem SecondAt.start (status : AsmError) (ass₁ : Assembler) (env : Ident → Option Word) :
    SecondAt ass₁ env .start [] (.start status ass₁) where
  sect := rfl
  text := rfl
  data := rfl
  symtable := rfl
  codeSize := rfl
  dataSize := rfl
  entry := by
    intro x hx
    cases hx
  noEntry := fun _ => rfl
  bytecode := rfl
  codeLength := rfl
  dataArray := ⟨[], rfl, rfl⟩
  dataFits := Nat.zero_le _

/-- A cursor that has not wrapped. -/
theorem toNat_cursor {cursor : Word} {n : Nat} (h : cursor = BitVec.ofNat 64 n) (hn : n < 2 ^ 64) :
    cursor.toNat = n := by
  rw [h, BitVec.toNat_ofNat, Nat.mod_eq_of_lt hn]

theorem zipIdx_extend (l l' : List Byte) : l.zipIdx ++ l'.zipIdx l.length = (l ++ l').zipIdx := by
  rw [List.zipIdx_append, Nat.zero_add]

/-- The code that is left to be emitted. -/
theorem SecondAt.remaining {ass₀ ass₁ : Assembler} {total L : Layout} {code : List Byte}
    {env : Ident → Option Word} {s : SecondPass} (h : SecondAt ass₁ env L code s)
    (hres : FirstResult ass₀ ass₁ total) (htotal : total.text < 2 ^ 64)
    (hle : L.text ≤ total.text) :
    (ass₁.headers.codeSize - s.textAddr).toNat = total.text - L.text := by
  have hcursor : s.textAddr.toNat = L.text := toNat_cursor h.text (by omega)
  have hsize : ass₁.headers.codeSize.toNat = total.text := toNat_cursor hres.codeSize htotal
  rw [BitVec.toNat_sub_of_le, hsize, hcursor]
  rw [BitVec.le_def, hsize, hcursor]
  exact hle

theorem instructionEncode_fits {instr : Instruction} {remaining : Nat}
    (h : (encoding instr).length ≤ remaining) :
    instructionEncode instr remaining = ((encoding instr).length, encoding instr) := by
  rcases instructionEncode_eq instr remaining with ⟨-, heq⟩ | ⟨hshort, -⟩
  · exact heq
  · exact absurd h (Nat.not_le.mpr hshort)

/-- A directive that the first pass accepts, and for which bytes are stored, adds data. -/
theorem Stored.form {symtable : SymbolTable} {type : DirType} {operand : Operand}
    {bytes : List Byte} {s s' : FirstPass} (h : Stored symtable type operand bytes)
    (hfirst : FirstStep s (.dir type operand) s') : DataForm type operand := by
  cases hfirst with
  | data hform => exact hform
  | toData | toText | entry => cases h

section
variable {ass₀ ass₁ : Assembler} {total L : Layout} {env : Ident → Option Word} {code : List Byte}
  {line : Word} {s : SecondPass}

/-- The bytes of a directive go behind the data so far. -/
theorem SecondAt.store {type : DirType} {operand : Operand} {bytes : List Byte} {data : HostArray}
    (h : SecondAt ass₁ env L code s) (hform : DataForm type operand)
    (hbytes : Stored s.ass.symtable type operand bytes)
    (hdata : s.ass.data.storeAll s.dataAddr bytes = .ok data) :
    SecondAt ass₁ env (L.after ⟨line, .dir type operand⟩) code { s with
      ass.errorLine := line
      ass.data := data
      dataAddr := s.dataAddr + BitVec.ofNat 64 bytes.length } := by
  have hlen : bytes.length = dirSize type operand := hbytes.length hform
  have hcursor : s.dataAddr.toNat = L.data :=
    toNat_cursor h.data (lt_of_le_of_lt h.dataFits ass₁.headers.dataSize.isLt)
  obtain ⟨stored, hstored, harray⟩ := h.dataArray
  rw [harray] at hdata
  obtain ⟨hend, rfl⟩ := storeAll_cases (by rw [hcursor]; exact h.dataFits) hdata
  rw [hcursor, hlen] at hend
  rw [hform.after L line]
  refine { h with data := ?_, dataArray := ⟨stored ++ bytes, ?_, ?_⟩, dataFits := hend }
  · show s.dataAddr + BitVec.ofNat 64 bytes.length = BitVec.ofNat 64 (L.data + dirSize type operand)
    rw [h.data, hlen, BitVec.ofNat_add]
  · rw [List.length_append, hstored, hlen]
  · dsimp only
    rw [hcursor, ← hstored, zipIdx_extend]

/-- The bytes of an instruction go behind the code so far. -/
theorem SecondAt.emit {op : OpCode} {a b : Operand} {instr : Instruction} {size : Nat}
    {bytecode : HostArray} (h : SecondAt ass₁ env L code s) (hres : FirstResult ass₀ ass₁ total)
    (htotal : total.text < 2 ^ 64) (hle : (L.after ⟨line, .instr op a b⟩).Le total)
    (hdenote : denote env op a b = some instr) (hsize : modeSize instr.mode = .ok size)
    (hstore : s.ass.bytecode.storeAll s.textAddr
      (instructionEncode instr (s.ass.headers.codeSize - s.textAddr).toNat).2 = .ok bytecode) :
    SecondAt ass₁ env (L.after ⟨line, .instr op a b⟩) (code ++ encoding instr) { s with
      ass.errorLine := line
      ass.bytecode := bytecode
      status := .ok
      textAddr := s.textAddr + BitVec.ofNat 64 size } := by
  have hinstr : instrSize op a b = size := instrSize_eq (denote_mode hdenote) hsize
  have hlen : (encoding instr).length = size := encoding_length hsize
  -- the text ends before the end of the array
  have hend : L.text + size ≤ total.text := hinstr ▸ hle.text
  have hcursor : s.textAddr.toNat = L.text := toNat_cursor h.text (by omega)
  have hsize₁ : ass₁.headers.codeSize.toNat = total.text := toNat_cursor hres.codeSize htotal
  have hremaining := h.remaining hres htotal (by omega)
  rw [h.codeSize, hremaining, instructionEncode_fits (by omega), h.bytecode] at hstore
  obtain ⟨-, rfl⟩ := storeAll_cases (by dsimp only; omega) hstore
  refine { h with text := ?_, bytecode := ?_, codeLength := ?_ }
  · show s.textAddr + BitVec.ofNat 64 size = BitVec.ofNat 64 (L.text + instrSize op a b)
    rw [hinstr, h.text, BitVec.ofNat_add]
  · dsimp only
    rw [hcursor, ← h.codeLength, zipIdx_extend]
  · show (code ++ encoding instr).length = L.text + instrSize op a b
    rw [List.length_append, h.codeLength, hlen, hinstr]

end

theorem SecondAt.step {ass₀ ass₁ : Assembler} {total L : Layout} {code : List Byte} {node : IRNode}
    {s₁ s₁' : FirstPass} {s s' : SecondPass} (hres : FirstResult ass₀ ass₁ total)
    (htotal : total.text < 2 ^ 64) (hle : (L.after node).Le total)
    (hfirst : FirstStep s₁ node.body s₁') (h : SecondAt ass₁ total.address L code s)
    (hstep : SecondStep { s with ass.errorLine := node.line } node.body s') :
    SecondAt ass₁ total.address (L.after node) (code ++ node.body.code total.address) s' := by
  have htable : Represents s.ass.symtable.table total.labels := h.symtable ▸ hres.table
  obtain ⟨line, body⟩ := node
  cases hstep with
  | @label name =>
      rw [code_label, List.append_nil]
      cases hfirst with
      | @label _ x symtable hx hnew hsect hadd =>
          rw [L.after_label line hx]
          exact { h with sect := h.sect }
  | @data type operand bytes data hsect hbytes hdata =>
      rw [code_dir, List.append_nil]
      exact h.store (hbytes.form hfirst) hbytes hdata
  | toData =>
      rw [code_dir, List.append_nil]
      exact { h with sect := rfl }
  | toText =>
      rw [code_dir, List.append_nil]
      exact { h with sect := rfl }
  | @entry operand x addr hx haddr =>
      rw [code_dir, List.append_nil, L.after_entry line hx]
      refine { h with entry := ?_, noEntry := nofun }
      intro y hy
      cases hy
      exact (getSymbolAddr_eq htable haddr).symm
  | @instr op a b mode reg instr size bytecode hsect hmode hreg hset hstore hsize =>
      have hdenote := denote_ok htable hmode hreg hset
      rw [code_instr hdenote]
      exact h.emit hres htotal hle hdenote hsize hstore

section
variable {status₁ status₂ : AsmError} {ass₀ ass₁ ass₂ : Assembler} {irList : IRList}

/-- What a round of the second pass keeps. -/
theorem SecondAt.next (h₁ : assemblerFirstPass status₁ ass₀ irList = .ok (.ok, ass₁))
    {pre post : List IRNode} {node : IRNode} {s s' : SecondPass}
    (hsplit : irList.nodes = pre ++ node :: post)
    (hat : SecondAt ass₁ (layoutOf irList.nodes).address (layoutOf pre)
      (codeOf (layoutOf irList.nodes).address pre) s)
    (hnode : secondPassNode node s = .ok (.ok, s')) :
    SecondAt ass₁ (layoutOf irList.nodes).address (layoutOf (pre ++ [node]))
      (codeOf (layoutOf irList.nodes).address (pre ++ [node])) s' := by
  obtain ⟨s₁, s₁', -, -, hfirst⟩ := firstPass_node h₁ hsplit
  have hle : ((layoutOf pre).after node).Le (layoutOf irList.nodes) := by
    rw [← layoutOf_concat]
    exact layoutOf_le (hsplit.trans (List.append_cons _ _ _))
  rw [layoutOf_concat, codeOf_concat]
  exact hat.step (firstPass_result h₁) irList.text_lt hle hfirst (secondPassNode_step hnode)

/-- The second pass comes through every point of the list as well. -/
theorem secondPass_at (h₁ : assemblerFirstPass status₁ ass₀ irList = .ok (.ok, ass₁))
    (h₂ : assemblerSecondPass status₂ ass₁ irList = .ok (.ok, ass₂))
    {pre post : List IRNode} (hsplit : irList.nodes = pre ++ post) :
    let env := (layoutOf irList.nodes).address
    ∃ s s', runPass .ok secondPassNode pre (.start status₂ ass₁) = .ok (.ok, s) ∧
      SecondAt ass₁ env (layoutOf pre) (codeOf env pre) s ∧
      runPass .ok secondPassNode post s = .ok (.ok, s') ∧ s'.ass = ass₂ := by
  intro env
  rw [assemblerSecondPass] at h₂
  obtain ⟨⟨r, s'⟩, hrun, h₂⟩ := Except.bind_eq_ok.mp h₂
  cases h₂
  have hkeep : ∀ pre n post s s', irList.nodes = pre ++ n :: post →
      SecondAt ass₁ env (layoutOf pre) (codeOf env pre) s → secondPassNode n s = .ok (.ok, s') →
      SecondAt ass₁ env (layoutOf (pre ++ [n])) (codeOf env (pre ++ [n])) s' :=
    fun _ _ _ _ _ hnodes hat hnode => hat.next h₁ hnodes hnode
  obtain ⟨s, hpre, hat, hpost⟩ :=
    runPass_at (P := fun pre => SecondAt ass₁ env (layoutOf pre) (codeOf env pre))
      (.start status₂ ass₁ env) hkeep hrun hsplit
  exact ⟨s, s', hpre, hat, hpost, rfl⟩

/-- The second pass at the end. -/
theorem secondPass_end (h₁ : assemblerFirstPass status₁ ass₀ irList = .ok (.ok, ass₁))
    (h₂ : assemblerSecondPass status₂ ass₁ irList = .ok (.ok, ass₂)) :
    let env := (layoutOf irList.nodes).address
    ∃ s, runPass .ok secondPassNode irList.nodes (.start status₂ ass₁) = .ok (.ok, s) ∧
      SecondAt ass₁ env (layoutOf irList.nodes) (codeOf env irList.nodes) s ∧ s.ass = ass₂ := by
  intro env
  obtain ⟨s, s', hrun, hat, hnil, hass⟩ := secondPass_at h₁ h₂ (List.append_nil irList.nodes).symm
  cases hnil
  exact ⟨s, hrun, hat, hass⟩

/-- The data of a list that both passes accept is smaller than the address space. -/
theorem data_lt (h₁ : assemblerFirstPass status₁ ass₀ irList = .ok (.ok, ass₁))
    (h₂ : assemblerSecondPass status₂ ass₁ irList = .ok (.ok, ass₂)) :
    (layoutOf irList.nodes).data < 2 ^ 64 := by
  obtain ⟨s, -, hat, -⟩ := secondPass_end h₁ h₂
  exact lt_of_le_of_lt hat.dataFits ass₁.headers.dataSize.isLt

end

/-! ## Places in an array -/

namespace SecondAt
variable {ass₁ : Assembler} {env : Ident → Option Word} {L : Layout} {code : List Byte}
  {s : SecondPass}

theorem text_toNat (h : SecondAt ass₁ env L code s) (hlt : L.text < 2 ^ 64) :
    s.textAddr.toNat = L.text :=
  toNat_cursor h.text hlt

theorem data_toNat (h : SecondAt ass₁ env L code s) : s.dataAddr.toNat = L.data :=
  toNat_cursor h.data (lt_of_le_of_lt h.dataFits ass₁.headers.dataSize.isLt)

/-- The code has been stored to once, up to the cursor. -/
theorem code_places (h : SecondAt ass₁ env L code s) (hlt : L.text < 2 ^ 64) :
    Written.places s.ass.bytecode.stores = List.range s.textAddr.toNat := by
  rw [h.bytecode, Written.places_zipIdx, h.codeLength, h.text_toNat hlt]

theorem data_places (h : SecondAt ass₁ env L code s) :
    Written.places s.ass.data.stores = List.range s.dataAddr.toNat := by
  obtain ⟨bytes, hlen, harray⟩ := h.dataArray
  rw [harray, Written.places_zipIdx, hlen, h.data_toNat]

end SecondAt

/-! ## The addresses of labels -/

/-- The address that a section has come to in the second pass. -/
def SecondPass.cursor (s : SecondPass) (sect : Section) : Word :=
  if sect = .data then s.dataAddr + BitVec.ofNat 64 DATA_BASE else s.textAddr

theorem SecondAt.cursor {ass₁ : Assembler} {env : Ident → Option Word} {L : Layout}
    {code : List Byte} {s : SecondPass} (h : SecondAt ass₁ env L code s) (sect : Section) :
    s.cursor sect = BitVec.ofNat 64 (L.place sect) := by
  rw [SecondPass.cursor, Layout.place, h.data, h.text]
  split
  · rw [BitVec.ofNat_add, BitVec.add_comm]
  · rfl

/-- A label has one address. -/
theorem FirstResult.recorded_iff {ass₀ ass₁ : Assembler} {L : Layout}
    (h : FirstResult ass₀ ass₁ L) {s : List Byte} {here : Nat} (hlabel : (s, here) ∈ L.labels)
    (addr : Word) :
    { string := s, addr := addr } ∈ ass₁.symtable.table ↔ addr = BitVec.ofNat 64 here := by
  rw [h.table]
  constructor
  · intro hmem
    obtain ⟨label, hlabel', heq⟩ := List.mem_map.mp hmem
    cases heq
    have hsame : label = (label.1, here) :=
      List.inj_on_of_nodup_map h.names hlabel' hlabel rfl
    rw [hsame]
  · rintro rfl
    exact List.mem_map_of_mem (f := fun label => Symbol.mk label.1 (BitVec.ofNat 64 label.2)) hlabel

/-! ## The two passes -/

/-- What the two passes are asked to agree on: `ass₀` is given to the first,
`ass₁` to the second, and `ass₂` is what the second leaves. -/
structure LayoutAgrees (status₁ status₂ : AsmError) (irList : IRList)
    (ass₀ ass₁ ass₂ : Assembler) : Prop where
  /-- at every node, and at the end; each place before the cursors of the second
  pass has been stored to once, and no other -/
  cursors : ∀ pre post, irList.nodes = pre ++ post → ∃ s₁ s₂,
    runPass .ok firstPassNode pre (.start status₁ ass₀) = .ok (.ok, s₁) ∧
    runPass .ok secondPassNode pre (.start status₂ ass₁) = .ok (.ok, s₂) ∧
    s₂.textAddr = s₁.textAddr ∧ s₂.dataAddr + BitVec.ofNat 64 DATA_BASE = s₁.dataAddr ∧
    Written.places s₂.ass.bytecode.stores = List.range s₂.textAddr.toNat ∧
    Written.places s₂.ass.data.stores = List.range s₂.dataAddr.toNat
  /-- the one address of a label is the cursor of its section until a node of that
  section is emitted -/
  labels : ∀ pre line name x mid post,
    irList.nodes = pre ++ ⟨line, .label name⟩ :: (mid ++ post) → name.asIdent = .ok x →
    ∃ s₁ s₂, runPass .ok firstPassNode pre (.start status₁ ass₀) = .ok (.ok, s₁) ∧
      runPass .ok secondPassNode (pre ++ ⟨line, .label name⟩ :: mid) (.start status₂ ass₁) =
        .ok (.ok, s₂) ∧
      ((∀ node ∈ mid, node.body.emits ≠ s₁.sect) → ∀ addr,
        ({ string := x.str, addr := addr } ∈ ass₁.symtable.table ↔ addr = s₂.cursor s₁.sect))
  final : ∃ s₂, runPass .ok secondPassNode irList.nodes (.start status₂ ass₁) = .ok (.ok, s₂) ∧
    s₂.textAddr = ass₂.headers.codeSize ∧ s₂.dataAddr = ass₂.headers.dataSize
  /-- every byte of the arrays once, and none outside -/
  code : Written.places ass₂.bytecode.stores = List.range ass₂.headers.codeSize.toNat ∧
    ass₂.bytecode.size = ass₂.headers.codeSize
  data : Written.places ass₂.data.stores = List.range ass₂.headers.dataSize.toNat ∧
    ass₂.data.size = ass₂.headers.dataSize

section
variable {status₁ status₂ : AsmError} {ass₀ ass₁ ass₂ : Assembler} {irList : IRList}

theorem cursors_agree (h₁ : assemblerFirstPass status₁ ass₀ irList = .ok (.ok, ass₁))
    (h₂ : assemblerSecondPass status₂ ass₁ irList = .ok (.ok, ass₂))
    {pre post : List IRNode} (hsplit : irList.nodes = pre ++ post) : ∃ s₁ s₂,
    runPass .ok firstPassNode pre (.start status₁ ass₀) = .ok (.ok, s₁) ∧
    runPass .ok secondPassNode pre (.start status₂ ass₁) = .ok (.ok, s₂) ∧
    s₂.textAddr = s₁.textAddr ∧ s₂.dataAddr + BitVec.ofNat 64 DATA_BASE = s₁.dataAddr ∧
    Written.places s₂.ass.bytecode.stores = List.range s₂.textAddr.toNat ∧
    Written.places s₂.ass.data.stores = List.range s₂.dataAddr.toNat := by
  obtain ⟨s₁, -, hrun₁, hat₁, -⟩ := firstPass_at h₁ hsplit
  obtain ⟨s₂, -, hrun₂, hat₂, -, -⟩ := secondPass_at h₁ h₂ hsplit
  have hlt : (layoutOf pre).text < 2 ^ 64 :=
    lt_of_le_of_lt (layoutOf_le hsplit).text irList.text_lt
  refine ⟨s₁, s₂, hrun₁, hrun₂, ?_, ?_, hat₂.code_places hlt, hat₂.data_places⟩
  · rw [hat₂.text, hat₁.text]
  · rw [hat₂.data, hat₁.data, BitVec.ofNat_add, BitVec.add_comm]

theorem label_agrees (h₁ : assemblerFirstPass status₁ ass₀ irList = .ok (.ok, ass₁))
    (h₂ : assemblerSecondPass status₂ ass₁ irList = .ok (.ok, ass₂))
    {pre mid post : List IRNode} {line : Word} {name : Operand} {x : Ident}
    (hsplit : irList.nodes = pre ++ ⟨line, .label name⟩ :: (mid ++ post))
    (hx : name.asIdent = .ok x) :
    ∃ s₁ s₂, runPass .ok firstPassNode pre (.start status₁ ass₀) = .ok (.ok, s₁) ∧
      runPass .ok secondPassNode (pre ++ ⟨line, .label name⟩ :: mid) (.start status₂ ass₁) =
        .ok (.ok, s₂) ∧
      ((∀ node ∈ mid, node.body.emits ≠ s₁.sect) → ∀ addr,
        ({ string := x.str, addr := addr } ∈ ass₁.symtable.table ↔ addr = s₂.cursor s₁.sect)) := by
  obtain ⟨s₁, s₁', hrun₁, hat₁, hstep⟩ := firstPass_node h₁ hsplit
  have hsplit₂ : irList.nodes = (pre ++ ⟨line, .label name⟩ :: mid) ++ post := by
    rw [hsplit, List.append_assoc, List.cons_append]
  obtain ⟨s₂, -, hrun₂, hat₂, -, -⟩ := secondPass_at h₁ h₂ hsplit₂
  refine ⟨s₁, s₂, hrun₁, hrun₂, fun hmid addr => ?_⟩
  have hsect : s₁.sect ≠ .undefined := by
    cases hstep with
    | label _ _ hsect _ => exact hsect
  -- the layout after the label, and after the nodes behind it
  have hlabel : layoutOf (pre ++ [⟨line, .label name⟩]) =
      { layoutOf pre with labels := (layoutOf pre).labels ++ [(x.str, (layoutOf pre).here)] } := by
    rw [layoutOf_concat, Layout.after_label _ line hx]
  have hmem := label_mem hsplit hx
  have hplace :
      (layoutOf (pre ++ ⟨line, .label name⟩ :: mid)).place s₁.sect = (layoutOf pre).here := by
    rw [List.append_cons, layoutOf, List.foldl_append, place_foldl hsect hmid]
    show (layoutOf (pre ++ [⟨line, .label name⟩])).place s₁.sect = _
    rw [hlabel, Layout.here, ← hat₁.sect]
    rfl
  rw [(firstPass_result h₁).recorded_iff hmem, hat₂.cursor, hplace]

/-- **The passes agree on the layout.** -/
theorem passes_agree_on_layout (status₁ status₂ : AsmError) (irList : IRList)
    (ass₀ ass₁ ass₂ : Assembler) :
    assemblerFirstPass status₁ ass₀ irList = .ok (.ok, ass₁) →
      assemblerSecondPass status₂ ass₁ irList = .ok (.ok, ass₂) →
      LayoutAgrees status₁ status₂ irList ass₀ ass₁ ass₂ := by
  intro h₁ h₂
  have hres := firstPass_result h₁
  obtain ⟨s, hrun, hat, rfl⟩ := secondPass_end h₁ h₂
  have htext : s.textAddr = s.ass.headers.codeSize := by
    rw [hat.text, hat.codeSize, hres.codeSize]
  have hdata : s.dataAddr = s.ass.headers.dataSize := by
    rw [hat.data, hat.dataSize, hres.dataSize]
  refine ⟨fun pre post => cursors_agree h₁ h₂, fun pre line name x mid post => label_agrees h₁ h₂,
    ⟨s, hrun, htext, hdata⟩, ⟨?_, ?_⟩, ?_, ?_⟩
  · rw [← htext]
    exact hat.code_places irList.text_lt
  · rw [hat.bytecode, hat.codeSize]
  · rw [← hdata]
    exact hat.data_places
  · obtain ⟨bytes, -, harray⟩ := hat.dataArray
    rw [harray, hat.dataSize]

end

/-- Two sections that take turns, with a label in each. -/
def twoSections : IRList where
  nodes := [⟨1, .dir .data .none⟩, ⟨2, .label (.ident ⟨[120, 0], 0, 2⟩)⟩, ⟨3, .dir .text .none⟩,
    ⟨4, .label (.ident ⟨[109, 0], 0, 2⟩)⟩, ⟨5, .instr .ld (.reg 0) (.memIdent ⟨[120, 0], 0, 2⟩)⟩,
    ⟨6, .dir .data .none⟩, ⟨7, .dir .addr (.ident ⟨[109, 0], 0, 2⟩)⟩, ⟨8, .dir .byte (.value 7)⟩]
  fits := by decide

theorem passes_agree_on_two_sections : ∃ ass₁ ass₂,
    assemblerFirstPass .ok .zero twoSections = .ok (.ok, ass₁) ∧
      assemblerSecondPass .ok ass₁ twoSections = .ok (.ok, ass₂) ∧
      LayoutAgrees .ok .ok twoSections .zero ass₁ ass₂ :=
  ⟨_, _, rfl, rfl, passes_agree_on_layout .ok .ok twoSections .zero _ _ rfl rfl⟩

end BSVM
