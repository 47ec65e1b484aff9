/-
# `BSVM.DataSegment` — the data that the second pass emits

The data segment is what the data directives denote, one behind the other
(`DataEmitted`), with one exception.  The first pass accepts a `.word` with an
identifier; the second stores `operand.value` for it without a look at the tag,
which is the pointer to the name:

    .addr x    the address of x
    .word x    the address of the characters of x, in the assembler
-/
import BSVM.Image
import BSVM.Pointers
import BSVM.RoundTrip

namespace BSVM

/-! ## What the directives denote -/

/-- The eight bytes of a word, least significant first. -/
def wordBytes (v : Word) : List Byte :=
  (List.range 8).map (LittleEndian.byte v)

/-- The bytes of a directive, if its label is defined. -/
def dirBytes (env : Ident → Option Word) : DirType → Operand → Option (List Byte)
  | .byte, .value v => some [v.setWidth 8]
  | .word, .value v | .addr, .value v => some (wordBytes v)
  | .word, .ident x | .addr, .ident x => (env x).map wordBytes
  | .string, .string x => some (x.str.take x.length.toNat)
  | _, _ => some []

def IRBody.bytes (env : Ident → Option Word) : IRBody → Option (List Byte)
  | .dir type operand => dirBytes env type operand
  | _ => some []

/-- The data of a listing. -/
def dataOf (env : Ident → Option Word) : List IRNode → Option (List Byte)
  | [] => some []
  | node :: nodes => do
      let bytes ← node.body.bytes env
      return bytes ++ (← dataOf env nodes)

/-- The object that the lexer makes of a string. -/
structure Ident.Spells (x : Ident) (s : List Byte) : Prop where
  str : x.str = s ++ [0]
  length : x.length.toNat = s.length + 1

theorem dirBytes_string {env : Ident → Option Word} {x : Ident} {s : List Byte}
    (h : x.Spells s) : dirBytes env .string (.string x) = some (s ++ [0]) := by
  rw [dirBytes, h.str, h.length, List.take_of_length_le]
  rw [List.length_append, List.length_singleton]

/-! ## What is stored -/

/-- The bytes that the second pass stores for a node. -/
def IRBody.stored (env : Ident → Option Word) : IRBody → List Byte
  | .dir .word (.ident x) => wordBytes x.ptr
  | body => (body.bytes env).getD []

def storedOf (env : Ident → Option Word) (nodes : List IRNode) : List Byte :=
  nodes.flatMap fun node => node.body.stored env

theorem storedOf_concat (env : Ident → Option Word) (nodes : List IRNode) (node : IRNode) :
    storedOf env (nodes ++ [node]) = storedOf env nodes ++ node.body.stored env := by
  rw [storedOf, storedOf, List.flatMap_append, List.flatMap_singleton]

theorem encodeArgs_eq (v : Word) : encodeArgs v = wordBytes v := by
  refine List.map_congr_left fun j hj => ?_
  exact LittleEndian.setWidth_sshiftRight v (by have := List.mem_range.mp hj; omega)

theorem Stored.eq {symtable : SymbolTable} {L : Layout} {type : DirType} {operand : Operand}
    {bytes : List Byte} (h : Stored symtable type operand bytes) (hform : DataForm type operand)
    (htable : Represents symtable.table L.labels) :
    bytes = (IRBody.dir type operand).stored L.address := by
  cases h with
  | byte hv =>
      cases hform
      cases hv
      rfl
  | word hv =>
      cases hform with
      | word v | wordIdent x =>
          cases hv
          exact encodeArgs_eq _
  | addrValue htype hv =>
      cases hform with
      | addr v =>
          cases hv
          exact encodeArgs_eq _
      | addrIdent x => exact absurd rfl htype
  | @addr x addr haddr =>
      have haddress := getSymbolAddr_eq htable haddr
      show addrBytes addr = ((L.address x).map wordBytes).getD []
      rw [← haddress]
      rfl
  | string hx hlength =>
      cases hform
      cases hx
      rfl

/-- The second pass at a point, with the data stored. -/
structure DataAt (ass₁ : Assembler) (env : Ident → Option Word) (nodes : List IRNode)
    (s : SecondPass) : Prop where
  here : SecondAt ass₁ env (layoutOf nodes) (codeOf env nodes) s
  stores : s.ass.data.stores = (storedOf env nodes).zipIdx

theorem DataAt.length {ass₁ : Assembler} {env : Ident → Option Word} {nodes : List IRNode}
    {s : SecondPass} (h : DataAt ass₁ env nodes s) :
    (storedOf env nodes).length = (layoutOf nodes).data := by
  obtain ⟨bytes, hlen, harray⟩ := h.here.dataArray
  have hstores := congrArg List.length h.stores
  rw [harray, List.length_zipIdx, List.length_zipIdx, hlen] at hstores
  exact hstores.symm

section
variable {status₁ status₂ : AsmError} {ass₀ ass₁ ass₂ : Assembler} {irList : IRList}

theorem DataAt.step {pre post : List IRNode} {node : IRNode} {s s' : SecondPass}
    (h₁ : assemblerFirstPass status₁ ass₀ irList = .ok (.ok, ass₁))
    (hsplit : irList.nodes = pre ++ node :: post)
    (h : DataAt ass₁ (layoutOf irList.nodes).address pre s)
    (hnode : secondPassNode node s = .ok (.ok, s')) :
    DataAt ass₁ (layoutOf irList.nodes).address (pre ++ [node]) s' := by
  have hnext := h.here.next h₁ hsplit hnode
  have htable : Represents s.ass.symtable.table (layoutOf irList.nodes).labels :=
    h.here.symtable ▸ (firstPass_result h₁).table
  have hcursor : s.dataAddr.toNat = (storedOf (layoutOf irList.nodes).address pre).length :=
    h.here.data_toNat.trans h.length.symm
  have hfits : s.dataAddr.toNat ≤ s.ass.data.size.toNat := by
    obtain ⟨_, -, harray⟩ := h.here.dataArray
    rw [h.here.data_toNat, harray]
    exact h.here.dataFits
  obtain ⟨_, _, -, -, hfirst⟩ := firstPass_node h₁ hsplit
  have hstep := secondPassNode_step hnode
  obtain ⟨line, body⟩ := node
  refine ⟨hnext, ?_⟩
  rw [storedOf_concat]
  cases hstep with
  | data hsect hbytes hdata =>
      obtain ⟨-, rfl⟩ := storeAll_cases hfits hdata
      dsimp only
      rw [h.stores, ← hbytes.eq (hbytes.form hfirst) htable, hcursor, zipIdx_extend]
  | label | toData | toText | entry | instr =>
      exact (List.append_nil (storedOf _ pre)).symm ▸ h.stores

/-- The data segment of an accepted list. -/
theorem data_stored (h₁ : assemblerFirstPass status₁ ass₀ irList = .ok (.ok, ass₁))
    (h₂ : assemblerSecondPass status₂ ass₁ irList = .ok (.ok, ass₂)) :
    ass₂.data.contents = .ok (storedOf (layoutOf irList.nodes).address irList.nodes) := by
  have hres := firstPass_result h₁
  have hdata := data_lt h₁ h₂
  rw [assemblerSecondPass] at h₂
  obtain ⟨⟨r, s'⟩, hrun, h₂⟩ := Except.bind_eq_ok.mp h₂
  cases h₂
  have hkeep : ∀ pre node post s s', irList.nodes = pre ++ node :: post →
      DataAt ass₁ (layoutOf irList.nodes).address pre s → secondPassNode node s = .ok (.ok, s') →
      DataAt ass₁ (layoutOf irList.nodes).address (pre ++ [node]) s' :=
    fun _ _ _ _ _ hsplit hat hnode => hat.step h₁ hsplit hnode
  obtain ⟨s, -, hat, hnil⟩ := runPass_at
    (P := DataAt ass₁ (layoutOf irList.nodes).address) ⟨.start status₂ ass₁ _, rfl⟩ hkeep hrun
    (List.append_nil irList.nodes).symm
  cases hnil
  obtain ⟨_, -, harray⟩ := hat.here.dataArray
  refine contents_zipIdx ?_ hat.stores
  rw [hat.length, harray]
  exact (toNat_cursor hres.dataSize hdata).symm

end

/-! ## What is stored is what is denoted -/

theorem bytes_eq_stored {symtable : SymbolTable} {L total : Layout} {status : AsmError}
    {body : IRBody} (h : Admits L status body) (hfree : body.PointerFree)
    (hresolved : Resolved symtable body) (htable : Represents symtable.table total.labels) :
    body.bytes total.address = some (body.stored total.address) := by
  cases h with
  | label | toData | toText | entry | instr => rfl
  | data hform =>
      cases hform with
      | byte | word | addr | string => rfl
      | wordIdent x => exact absurd rfl (hfree x)
      | addrIdent x =>
          obtain ⟨addr, haddr⟩ := hresolved.found x rfl
          have haddress := getSymbolAddr_eq htable haddr
          show (total.address x).map wordBytes = some (((total.address x).map wordBytes).getD [])
          rw [← haddress]
          rfl

theorem dataOf_eq_stored {env : Ident → Option Word} {nodes : List IRNode}
    (h : ∀ node ∈ nodes, node.body.bytes env = some (node.body.stored env)) :
    dataOf env nodes = some (storedOf env nodes) := by
  induction nodes with
  | nil => rfl
  | cons node nodes ih =>
      obtain ⟨hnode, hnodes⟩ := List.forall_mem_cons.mp h
      rw [dataOf, hnode, ih hnodes]
      rfl

/-- What is asked of the data of a list that both passes accept. -/
structure DataEmitted (status₁ status₂ : AsmError) (irList : IRList) (ass₂ : Assembler) :
    Prop where
  /-- every directive, in order; labels by their addresses -/
  bytes : ∃ data, dataOf (layoutOf irList.nodes).address irList.nodes = some data ∧
    ass₂.data.contents = .ok data
  /-- a string, with its NUL -/
  strings : ∀ (env : Ident → Option Word) (x : Ident) (s : List Byte), x.Spells s →
    dirBytes env .string (.string x) = some (s ++ [0])
  /-- whatever the pointers are -/
  pointers : ∀ irList' ass₁' ass₂', irList'.forget = irList.forget →
    assemblerFirstPass status₁ .zero irList' = .ok (.ok, ass₁') →
    assemblerSecondPass status₂ ass₁' irList' = .ok (.ok, ass₂') →
    ass₂'.data.contents = ass₂.data.contents

/-- The names are C strings, the strings are as long as they say, and the data
fits in the address space. -/
structure WellFormed (irList : IRList) : Prop where
  names : ∀ node ∈ irList.nodes, ∀ name ∈ node.body.name?, 0 ∈ name
  refs : ∀ node ∈ irList.nodes, ∀ x ∈ node.body.ref?, 0 ∈ x.str
  strings : ∀ node ∈ irList.nodes, node.body.Stocked
  data : (layoutOf irList.nodes).data < 2 ^ 64

/-! ## Labels that are not defined -/

theorem strEq_ok {s t : List Byte} (hs : 0 ∈ s) (ht : 0 ∈ t) : ∃ r, strEq s t = .ok r := by
  induction s generalizing t with
  | nil => cases hs
  | cons a s ih =>
      cases t with
      | nil => cases ht
      | cons b t =>
          rw [strEq]
          by_cases hab : a = b
          · subst hab
            rw [if_neg (not_not.mpr rfl)]
            by_cases ha : a = 0
            · exact ⟨true, if_pos ha⟩
            · rw [if_neg ha]
              exact ih ((List.mem_cons.mp hs).resolve_left (Ne.symm ha))
                ((List.mem_cons.mp ht).resolve_left (Ne.symm ha))
          · exact ⟨false, if_pos hab⟩

theorem findSymbol_ok {s : List Byte} {table : List Symbol} (hs : 0 ∈ s)
    (htable : ∀ symbol ∈ table, 0 ∈ symbol.string) : ∃ r, findSymbol s table = .ok r := by
  induction table with
  | nil => exact ⟨none, rfl⟩
  | cons symbol table ih =>
      obtain ⟨hsymbol, hrest⟩ := List.forall_mem_cons.mp htable
      obtain ⟨found, hfound⟩ := strEq_ok hs hsymbol
      rw [findSymbol, hfound]
      cases found with
      | true => exact ⟨some symbol, rfl⟩
      | false => exact ih hrest

section
variable {status₁ status₂ : AsmError} {ass₀ ass₁ ass₂ : Assembler} {irList : IRList}

/-- Looking up a C string ends. -/
theorem WellFormed.lookup (h : WellFormed irList)
    (h₁ : assemblerFirstPass status₁ ass₀ irList = .ok (.ok, ass₁)) {x : Ident} (hx : 0 ∈ x.str) :
    ∃ r, getSymbolAddr ass₁.symtable x.str = .ok r := by
  have htable : ∀ symbol ∈ ass₁.symtable.table, 0 ∈ symbol.string := by
    intro symbol hsymbol
    rw [(firstPass_result h₁).table] at hsymbol
    obtain ⟨label, hlabel, rfl⟩ := List.mem_map.mp hsymbol
    obtain ⟨node, hnode, hname⟩ := label_node hlabel
    exact h.names node hnode label.1 hname
  obtain ⟨found, hfound⟩ := findSymbol_ok hx htable
  exact ⟨found.map Symbol.addr, by rw [getSymbolAddr, hfound]; rfl⟩

/-- A reference to a label that is not defined. -/
theorem not_accepted (h₁ : assemblerFirstPass status₁ ass₀ irList = .ok (.ok, ass₁))
    {node : IRNode} {x : Ident} (hnode : node ∈ irList.nodes) (hx : node.body.ref? = some x)
    (hnone : (layoutOf irList.nodes).address x = none) :
    assemblerSecondPass status₂ ass₁ irList ≠ .ok (.ok, ass₂) := by
  intro h₂
  obtain ⟨-, -, hresolved⟩ := (secondPass_ok_iff h₁).mp ⟨ass₂, h₂⟩
  obtain ⟨addr, haddr⟩ := (hresolved node hnode).found x hx
  cases hnone.symm.trans (getSymbolAddr_eq (firstPass_result h₁).table haddr).symm

/-- What is asked of a list with an address that is not defined. -/
structure Reported (status₂ : AsmError) (irList : IRList) (ass₁ : Assembler) : Prop where
  refused : ∀ ass₂, assemblerSecondPass status₂ ass₁ irList ≠ .ok (.ok, ass₂)
  undefined : WellFormed irList → StatusSet status₂ (textPart irList.nodes) →
    ∃ ass₂, assemblerSecondPass status₂ ass₁ irList = .ok (.labelUndefined, ass₂)

theorem reported (h₁ : assemblerFirstPass status₁ ass₀ irList = .ok (.ok, ass₁)) {node : IRNode}
    {x : Ident} (hnode : node ∈ irList.nodes) (hx : node.body.ref? = some x)
    (hnone : (layoutOf irList.nodes).address x = none) : Reported status₂ irList ass₁ := by
  refine ⟨fun ass₂ => not_accepted h₁ hnode hx hnone, fun hwell hstatus => ?_⟩
  have harranged : Arranged status₂ irList.nodes :=
    { firstPass_ok_iff.mp ⟨ass₁, h₁⟩ with status := hstatus }
  obtain ⟨r, ass₂, h₂, rfl | ⟨rfl, -⟩⟩ := secondPass_answers h₁ hwell.data harranged
    (fun node hnode x hx => hwell.lookup h₁ (hwell.refs node hnode x hx)) hwell.strings
  · exact absurd h₂ (not_accepted h₁ hnode hx hnone)
  · exact ⟨ass₂, h₂⟩

/-! ## The exception -/

theorem wordBytes_inj {v w : Word} (h : wordBytes v = wordBytes w) : v = w := by
  have hbyte : ∀ j < 8, LittleEndian.byte v j = LittleEndian.byte w j := by
    intro j hj
    have hget := congrArg (fun l => l[j]?) h
    simpa [wordBytes, hj] using hget
  rw [← LittleEndian.join_byte (n := 8) v (by decide), LittleEndian.join_congr hbyte,
    LittleEndian.join_byte w (by decide)]

theorem IRList.ext {irList irList' : IRList} (h : irList.nodes = irList'.nodes) :
    irList = irList' := by
  cases irList
  cases irList'
  cases h
  rfl

/-- Where a pointer is stored, it can be told from another. -/
theorem pointer_stored (h₁ : assemblerFirstPass status₁ .zero irList = .ok (.ok, ass₁))
    (h₂ : assemblerSecondPass status₂ ass₁ irList = .ok (.ok, ass₂)) {node : IRNode} {x : Ident}
    (hmem : node ∈ irList.nodes) (hbody : node.body = .dir .word (.ident x)) :
    ¬ DataEmitted status₁ status₂ irList ass₂ := by
  intro h
  obtain ⟨pre, post, hsplit⟩ := List.append_of_mem hmem
  obtain ⟨line, body⟩ := node
  obtain rfl : body = .dir .word (.ident x) := hbody
  -- the same list, with the object at the next address
  let other : IRNode := ⟨line, .dir .word (.ident { x with ptr := x.ptr + 1 })⟩
  let irList' : IRList :=
    { nodes := pre ++ other :: post
      fits := by
        have hfits := irList.fits
        rw [hsplit] at hfits
        simpa using hfits }
  have hlayout : layoutOf irList'.nodes = layoutOf irList.nodes := by
    rw [hsplit, layoutOf, layoutOf, List.foldl_append, List.foldl_append]
    rfl
  have hforget : irList'.forget = irList.forget := by
    refine IRList.ext ?_
    show (pre ++ other :: post).map IRNode.forget = irList.nodes.map IRNode.forget
    rw [hsplit, List.map_append, List.map_append]
    rfl
  have hfirst := fun status => firstPass_same hforget status .zero
  have haccepted : ∃ ass₂', assemblerSecondPass status₂ ass₁ irList' = .ok (.ok, ass₂') := by
    obtain ⟨hdata, harranged, hresolved⟩ := (secondPass_ok_iff h₁).mp ⟨ass₂, h₂⟩
    refine (secondPass_ok_iff ((hfirst status₁).trans h₁)).mpr ⟨hlayout ▸ hdata, ?_, ?_⟩
    · obtain ⟨ass, hass⟩ := firstPass_ok_iff.mpr harranged
      exact firstPass_ok_iff.mp ⟨ass, (hfirst status₂).trans hass⟩
    · intro node' hnode'
      rcases List.mem_append.mp hnode' with hpre | hrest
      · exact hresolved node' (hsplit ▸ List.mem_append_left _ hpre)
      · rcases List.mem_cons.mp hrest with rfl | hpost
        · refine ⟨fun y hy => ?_, trivial⟩
          cases hy
        · exact hresolved node' (hsplit ▸ List.mem_append_right _ (List.mem_cons_of_mem _ hpost))
  obtain ⟨ass₂', h₂'⟩ := haccepted
  have hsame := h.pointers irList' ass₁ ass₂' hforget ((hfirst status₁).trans h₁) h₂'
  rw [data_stored ((hfirst status₁).trans h₁) h₂', data_stored h₁ h₂, hlayout, hsplit] at hsame
  have hbytes := Except.ok.inj hsame
  rw [storedOf, storedOf, List.flatMap_append, List.flatMap_append, List.flatMap_cons,
    List.flatMap_cons] at hbytes
  obtain ⟨hword, -⟩ := List.append_inj (List.append_cancel_left hbytes) rfl
  have hptr : x.ptr + 1 = x.ptr := wordBytes_inj hword
  bv_omega

end

/-- **Data is emitted as its directives denote it exactly where no `.word` names
an identifier.**  A `.addr` whose label is not defined is reported. -/
theorem data_emitted_iff (status₁ status₂ : AsmError) (irList : IRList) (ass₁ : Assembler) :
    assemblerFirstPass status₁ .zero irList = .ok (.ok, ass₁) →
      (∀ ass₂, assemblerSecondPass status₂ ass₁ irList = .ok (.ok, ass₂) →
        (DataEmitted status₁ status₂ irList ass₂ ↔
          ∀ node ∈ irList.nodes, ∀ x, node.body ≠ .dir .word (.ident x))) ∧
      ∀ line x, ⟨line, .dir .addr (.ident x)⟩ ∈ irList.nodes →
        (layoutOf irList.nodes).address x = none → Reported status₂ irList ass₁ := by
  intro h₁
  refine ⟨fun ass₂ h₂ => ⟨fun h node hnode x hbody => ?_, fun hfree => ?_⟩, fun line x hmem => ?_⟩
  · exact pointer_stored h₁ h₂ hnode hbody h
  · have harranged := firstPass_ok_iff.mp ⟨ass₁, h₁⟩
    obtain ⟨-, -, hresolved⟩ := (secondPass_ok_iff h₁).mp ⟨ass₂, h₂⟩
    refine ⟨⟨_, dataOf_eq_stored fun node hnode => ?_, data_stored h₁ h₂⟩,
      fun _ _ _ => dirBytes_string, fun irList' ass₁' ass₂' hforget h₁' h₂' => ?_⟩
    · obtain ⟨pre, post, hsplit⟩ := List.append_of_mem hnode
      exact bytes_eq_stored (harranged.admits hsplit) (hfree node hnode) (hresolved node hnode)
        (firstPass_result h₁).table
    · rw [firstPass_same hforget, h₁] at h₁'
      cases h₁'
      rw [secondPass_same hforget h₁ hfree, h₂] at h₂'
      cases h₂'
      rfl
  · exact reported h₁ hmem rfl

/-- One directive of each kind, behind a label. -/
def everyKind : IRList where
  nodes := [⟨1, .dir .data .none⟩, ⟨2, .label (.ident ⟨[120, 0], 16, 2⟩)⟩,
    ⟨3, .dir .byte (.value 0x1FF)⟩, ⟨4, .dir .word (.value 258)⟩,
    ⟨5, .dir .addr (.ident ⟨[120, 0], 32, 2⟩)⟩, ⟨6, .dir .string (.string ⟨[104, 105, 0], 48, 3⟩)⟩]
  fits := by decide

/-- The address of a label that does not exist. -/
def addrOfNothing : IRList where
  nodes := [⟨1, .dir .data .none⟩, ⟨2, .dir .addr (.ident ⟨[120, 0], 32, 2⟩)⟩]
  fits := by decide

theorem data_emitted_every_kind :
    (∃ ass₁ ass₂, assemblerFirstPass .ok .zero everyKind = .ok (.ok, ass₁) ∧
      assemblerSecondPass .ok ass₁ everyKind = .ok (.ok, ass₂) ∧
      DataEmitted .ok .ok everyKind ass₂) ∧
    ∃ ass₁ ass₂, assemblerFirstPass .ok .zero addrOfNothing = .ok (.ok, ass₁) ∧
      assemblerSecondPass .ok ass₁ addrOfNothing = .ok (.labelUndefined, ass₂) := by
  constructor
  · obtain ⟨ass₁, ass₂, h₁, h₂⟩ : ∃ ass₁ ass₂,
        assemblerFirstPass .ok .zero everyKind = .ok (.ok, ass₁) ∧
        assemblerSecondPass .ok ass₁ everyKind = .ok (.ok, ass₂) := ⟨_, _, rfl, rfl⟩
    refine ⟨ass₁, ass₂, h₁, h₂, ((data_emitted_iff .ok .ok everyKind ass₁ h₁).1 ass₂ h₂).mpr ?_⟩
    simp [everyKind]
  · obtain ⟨ass₁, h₁⟩ : ∃ ass₁, assemblerFirstPass .ok .zero addrOfNothing = .ok (.ok, ass₁) :=
      ⟨_, rfl⟩
    have hmem : ⟨2, .dir .addr (.ident ⟨[120, 0], 32, 2⟩)⟩ ∈ addrOfNothing.nodes := by
      simp [addrOfNothing]
    have hreported := (data_emitted_iff .ok .ok addrOfNothing ass₁ h₁).2 2 _ hmem (by decide)
    have hwell : WellFormed addrOfNothing :=
      { names := by decide
        refs := by decide
        strings := fun node hnode => by
          rcases List.mem_cons.mp hnode with rfl | hnode
          · trivial
          · rw [List.mem_singleton.mp hnode]
            trivial
        data := by decide }
    obtain ⟨ass₂, h₂⟩ := hreported.undefined hwell trivial
    exact ⟨ass₁, ass₂, h₁, h₂⟩

/-- A word that names a label. -/
def wordOfLabel : IRList where
  nodes := [⟨1, .dir .data .none⟩, ⟨2, .label (.ident ⟨[120, 0], 0x2000, 2⟩)⟩,
    ⟨3, .dir .word (.ident ⟨[120, 0], 0x1000, 2⟩)⟩]
  fits := by decide

/-- The pointer is stored, and not the address of the label. -/
theorem word_stores_the_pointer : ∃ ass₁ ass₂,
    assemblerFirstPass .ok .zero wordOfLabel = .ok (.ok, ass₁) ∧
      assemblerSecondPass .ok ass₁ wordOfLabel = .ok (.ok, ass₂) ∧
      ass₂.data.contents = .ok (wordBytes 0x1000) ∧
      dataOf (layoutOf wordOfLabel.nodes).address wordOfLabel.nodes = some (wordBytes 1024) ∧
      ¬ DataEmitted .ok .ok wordOfLabel ass₂ := by
  obtain ⟨ass₁, ass₂, h₁, h₂⟩ : ∃ ass₁ ass₂,
      assemblerFirstPass .ok .zero wordOfLabel = .ok (.ok, ass₁) ∧
      assemblerSecondPass .ok ass₁ wordOfLabel = .ok (.ok, ass₂) := ⟨_, _, rfl, rfl⟩
  refine ⟨ass₁, ass₂, h₁, h₂, data_stored h₁ h₂, by decide, ?_⟩
  have hmem : ⟨3, .dir .word (.ident ⟨[120, 0], 0x1000, 2⟩)⟩ ∈ wordOfLabel.nodes := by
    simp [wordOfLabel]
  exact pointer_stored h₁ h₂ hmem rfl

end BSVM
