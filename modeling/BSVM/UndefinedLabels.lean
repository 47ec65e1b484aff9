/-
# `BSVM.UndefinedLabels` — what is left to go wrong in the second pass

The second pass tests sections, operands and modes again.  On the nodes that the
parser makes of lines (`Built`) none of these tests can fail once the first pass
has accepted them, no comparison of names runs past a NUL, and every byte has a
place.  What remains is a label that is used and not defined
(`undefined_label_iff`).

    FromLine.legible    names end with a NUL, strings are as long as they say
    data_lt_of_built    the data fits in the address space
    lookup_iff          a look-up answers, and fails for what is not a label
    uses_eq             a node looks up every label that it uses
-/
import BSVM.Grammar
import BSVM.Resolution

namespace BSVM

/-! ## What the parser builds -/

/-- An operand whose name ends with a NUL and is as long as it says. -/
def Operand.Legible : Operand → Prop
  | .ident x | .string x | .memIdent x | .memIdxIdent x _ =>
      nul ∈ x.str ∧ x.length.toNat ≤ x.str.length
  | _ => True

/-- The node of a line that is parsed.  An operand that the line does not set was
there before. -/
inductive FromLine : IRNode → Prop
  | mk {ptr : Nat → Word} {buffer : List Byte} {slot : Slot} {lexer : Lexer} {node : IRNode} :
      slot.a.Legible → slot.b.Legible →
      parseLine ptr buffer (some slot) lexer = .ok (.ok node) → FromLine node

/-- The bytes of a node, and of the string that it points to. -/
def IRBody.footprint : IRBody → Nat
  | .dir _ (.string x) => sizeofIRNode + x.str.length
  | _ => sizeofIRNode

/-- The nodes, and the strings that they point to, are different objects of one
address space. -/
structure Built (nodes : List IRNode) : Prop where
  lines : ∀ node ∈ nodes, FromLine node
  resident : (nodes.map fun node => node.body.footprint).sum < 2 ^ 64

/-- The operands of a node can be read, and a label is an identifier. -/
inductive IRBody.Legible : IRBody → Prop
  | label (x : Ident) : (Operand.ident x).Legible → Legible (.label (.ident x))
  | dir (type : DirType) (operand : Operand) : operand.Legible → Legible (.dir type operand)
  | instr (op : OpCode) (a b : Operand) : a.Legible → b.Legible → Legible (.instr op a b)

theorem mkIdent_legible (ptr : Word) (text : List Byte) :
    nul ∈ (mkIdent ptr text).str ∧
      (mkIdent ptr text).length.toNat ≤ (mkIdent ptr text).str.length :=
  ⟨List.mem_append_right text List.mem_cons_self, by
    rw [mkIdent, List.length_append, List.length_singleton]
    exact Nat.mod_le _ _⟩

theorem setOffset_legible {ope : Operand} (h : ope.Legible) (n : Word) :
    (ope.setOffset n).Legible := by
  cases ope <;> exact h

theorem Accepts.legible {ptr : Word} {ope o : Operand} {toks : List Token}
    (h : Accepts ptr ope toks o) (hope : ope.Legible) : o.Legible := by
  cases h with
  | ident x | memIdent x | memIdxIdent x => exact mkIdent_legible ptr x
  | loose t u n => exact setOffset_legible hope n
  | _ => trivial

theorem parseInstr_legible {ptr : Nat → Word} {slot : Slot} {text : List Byte} {body : IRBody}
    {lexer l' : Lexer} (ha : slot.a.Legible) (hb : slot.b.Legible)
    (h : parseInstr ptr slot text lexer = .ok (.ok (body, l'))) : body.Legible := by
  obtain ⟨op, a, b, rfl, hends | ⟨as, l₁, tok, l₂, -, hacc, -, hrest⟩⟩ := parseInstr_ok h
  · obtain ⟨-, -, -, -, rfl, rfl⟩ := hends
    exact .instr op _ _ trivial trivial
  · rcases hrest with ⟨-, rfl⟩ | ⟨-, bs, l₃, -, hacc'⟩
    · exact .instr op a _ (hacc.legible ha) trivial
    · exact .instr op a b (hacc.legible ha) (hacc'.legible hb)

theorem parseLabel_legible {ptr : Word} {text : List Byte} {body : IRBody} {lexer l' : Lexer}
    (h : parseLabel ptr text lexer = .ok (.ok (body, l'))) : body.Legible := by
  rw [parseLabel] at h
  obtain ⟨⟨tok, l⟩, -, h⟩ := Except.bind_eq_ok.mp h
  cases tok with
  | colon =>
    obtain ⟨e, -, -, rfl⟩ := lineEnd_iff.mp h
    exact .label _ (mkIdent_legible ptr text)
  | _ => cases h

theorem parseDir_legible {ptr : Word} {body : IRBody} {lexer l' : Lexer}
    (h : parseDir ptr lexer = .ok (.ok (body, l'))) : body.Legible := by
  unfold parseDir at h
  obtain ⟨⟨tok, l⟩, -, h⟩ := Except.bind_eq_ok.mp h
  cases tok with
  | ident text =>
    dsimp only at h
    cases htype : dirLookup text with
    | none =>
      rw [htype] at h
      cases h
    | some type =>
      rw [htype] at h
      obtain ⟨⟨tok, l₁⟩, -, h⟩ := Except.bind_eq_ok.mp h
      have hline : ∀ {operand : Operand} {l₂ : Lexer},
          lineEnd (IRBody.dir type operand) l₂ = .ok (.ok (body, l')) → operand.Legible →
          body.Legible := by
        intro operand l₂ hend hoperand
        obtain ⟨e, -, -, rfl⟩ := lineEnd_iff.mp hend
        exact .dir type operand hoperand
      cases tok with
      | number n => exact hline h trivial
      | ident x => exact hline h (mkIdent_legible ptr x)
      | string x => exact hline h (mkIdent_legible ptr x)
      | minus =>
        obtain ⟨⟨tok, l₂⟩, -, h⟩ := Except.bind_eq_ok.mp h
        cases tok with
        | number n => exact hline h trivial
        | _ => cases h
      | newline | eof =>
        cases h
        exact .dir type _ trivial
      | _ => cases h
  | _ => cases h

theorem FromLine.legible {node : IRNode} (h : FromLine node) : node.body.Legible := by
  obtain ⟨ha, hb, h⟩ := h
  unfold parseLine at h
  obtain ⟨⟨tok, l⟩, -, h⟩ := Except.bind_eq_ok.mp h
  cases tok with
  | dot =>
    obtain ⟨_, -, h⟩ := Except.bind_eq_ok.mp h
    obtain ⟨l', hparse⟩ := node_ok h
    exact parseDir_legible hparse
  | ident text =>
    obtain ⟨_, -, h⟩ := Except.bind_eq_ok.mp h
    obtain ⟨l', hparse⟩ := node_ok h
    exact parseLabel_legible hparse
  | mnemonic text =>
    obtain ⟨x, hx, h⟩ := Except.bind_eq_ok.mp h
    cases hx
    obtain ⟨l', hparse⟩ := node_ok h
    exact parseInstr_legible ha hb hparse
  | _ => cases h

/-! ## The data -/

theorem data_after_le (L : Layout) {node : IRNode} (h : node.body.Legible) :
    (L.after node).data ≤ L.data + node.body.footprint := by
  obtain ⟨line, body⟩ := node
  cases h with
  | label x hx =>
    rw [L.after_label line rfl]
    exact Nat.le_add_right _ _
  | instr op a b => exact Nat.le_add_right _ _
  | dir type operand hoperand =>
    have hnode : sizeofIRNode ≤ (IRBody.dir type operand).footprint := by
      cases operand <;> first | exact Nat.le_refl _ | exact Nat.le_add_right _ _
    cases type with
    | text | data => exact Nat.le_add_right _ _
    | entry =>
      dsimp only [Layout.after]
      cases operand.asIdent <;> exact Nat.le_add_right _ _
    | byte => exact Nat.add_le_add_left (Nat.le_trans (show 1 ≤ 88 by decide) hnode) L.data
    | word | addr => exact Nat.add_le_add_left (Nat.le_trans (show 8 ≤ 88 by decide) hnode) L.data
    | string =>
      refine Nat.add_le_add_left ?_ L.data
      cases operand with
      | string x => exact Nat.le_trans hoperand.2 (Nat.le_add_left _ _)
      | _ => exact Nat.zero_le _

theorem data_foldl_le {nodes : List IRNode} (h : ∀ node ∈ nodes, node.body.Legible) (L : Layout) :
    (nodes.foldl Layout.after L).data ≤
      L.data + (nodes.map fun node => node.body.footprint).sum := by
  induction nodes generalizing L with
  | nil => exact Nat.le_refl _
  | cons node nodes ih =>
    obtain ⟨hnode, hnodes⟩ := List.forall_mem_cons.mp h
    have hfirst := data_after_le L hnode
    have hrest := ih hnodes (L.after node)
    rw [List.foldl_cons, List.map_cons, List.sum_cons]
    omega

theorem Built.legible {nodes : List IRNode} (h : Built nodes) :
    ∀ node ∈ nodes, node.body.Legible :=
  fun node hnode => (h.lines node hnode).legible

theorem data_lt_of_built {nodes : List IRNode} (h : Built nodes) :
    (layoutOf nodes).data < 2 ^ 64 := by
  have hle := data_foldl_le h.legible .start
  have hresident := h.resident
  have hstart : Layout.start.data = 0 := rfl
  rw [layoutOf]
  omega

/-! ## Look-ups -/

/-- Names that end with a NUL can be compared. -/
theorem strEq_total {s t : List Byte} (hs : nul ∈ s) (ht : nul ∈ t) : ∃ r, strEq s t = .ok r := by
  induction s generalizing t with
  | nil => cases hs
  | cons a s ih =>
    cases t with
    | nil => cases ht
    | cons b t =>
      rw [strEq]
      split
      · exact ⟨_, rfl⟩
      · next hab =>
        split
        · exact ⟨_, rfl⟩
        · next ha =>
          rw [not_not.mp hab] at ha
          refine ih ((List.mem_cons.mp hs).resolve_left ?_) ((List.mem_cons.mp ht).resolve_left ?_)
          · rw [not_not.mp hab]
            exact Ne.symm ha
          · exact Ne.symm ha

theorem findSymbol_total {s : List Byte} (hs : nul ∈ s) {table : List Symbol}
    (htable : ∀ symbol ∈ table, nul ∈ symbol.string) : ∃ r, findSymbol s table = .ok r := by
  induction table with
  | nil => exact ⟨none, rfl⟩
  | cons symbol table ih =>
    obtain ⟨hsymbol, hrest⟩ := List.forall_mem_cons.mp htable
    obtain ⟨r, hr⟩ := strEq_total hs hsymbol
    obtain ⟨found, hfound⟩ := ih hrest
    rw [findSymbol, hr]
    cases r with
    | true => exact ⟨_, rfl⟩
    | false => exact ⟨found, hfound⟩

/-- The program has a label of that name. -/
def IsLabel (nodes : List IRNode) (x : Ident) : Prop :=
  ∃ node ∈ nodes, ∃ y, node.body = .label (.ident y) ∧ cName y.str = cName x.str

theorem label_legible {nodes : List IRNode} (h : ∀ node ∈ nodes, node.body.Legible)
    {label : List Byte × Nat} (hlabel : label ∈ (layoutOf nodes).labels) :
    nul ∈ label.1 ∧ ∃ node ∈ nodes, ∃ y, node.body = .label (.ident y) ∧ y.str = label.1 := by
  obtain ⟨⟨line, body⟩, hnode, hname⟩ := label_node hlabel
  cases h _ hnode with
  | label y hy =>
    have hstr : y.str = label.1 := Option.some.inj hname
    exact ⟨hstr ▸ hy.1, _, hnode, y, rfl, hstr⟩
  | dir | instr => cases hname

section
variable {status : AsmError} {ass₀ ass₁ : Assembler} {irList : IRList}

/-- A look-up answers, and fails for what is not a label. -/
theorem lookup_iff (hbuilt : Built irList.nodes)
    (h₁ : assemblerFirstPass status ass₀ irList = .ok (.ok, ass₁)) {x : Ident}
    (hx : nul ∈ x.str) :
    ∃ r, getSymbolAddr ass₁.symtable x.str = .ok r ∧ (r.isSome ↔ IsLabel irList.nodes x) := by
  have htable := (firstPass_result h₁).table
  have hsymbols : ∀ symbol ∈ ass₁.symtable.table, nul ∈ symbol.string := by
    rw [htable]
    intro symbol hsymbol
    obtain ⟨label, hlabel, rfl⟩ := List.mem_map.mp hsymbol
    exact (label_legible hbuilt.legible hlabel).1
  obtain ⟨found, hfound⟩ := findSymbol_total hx hsymbols
  have hlookup : getSymbolAddr ass₁.symtable x.str = .ok (found.map Symbol.addr) := by
    rw [getSymbolAddr, hfound]
    rfl
  refine ⟨_, hlookup, ?_⟩
  rw [getSymbolAddr_eq htable hlookup, Layout.address, Option.isSome_map, List.find?_isSome]
  constructor
  · rintro ⟨label, hlabel, hname⟩
    obtain ⟨-, node, hnode, y, hbody, hy⟩ := label_legible hbuilt.legible hlabel
    exact ⟨node, hnode, y, hbody, by rw [hy]; exact (beq_iff_eq.mp hname).symm⟩
  · rintro ⟨⟨line, body⟩, hnode, y, rfl, hy⟩
    obtain ⟨pre, post, hsplit⟩ := List.append_of_mem hnode
    exact ⟨_, label_mem hsplit rfl, beq_iff_eq.mpr hy.symm⟩

end

/-! ## Uses -/

/-- The labels that a node uses. -/
def IRBody.uses : IRBody → List Ident
  | .dir .entry operand | .dir .addr operand => operand.label?.toList
  | .instr _ a b => a.label?.toList ++ b.label?.toList
  | _ => []

/-- Where the first pass goes on, the second looks all of them up. -/
theorem uses_eq {L : Layout} {status : AsmError} {body : IRBody} (h : Admits L status body) :
    body.uses = body.ref?.toList := by
  cases h with
  | data hform => cases hform <;> rfl
  | label | toData | toText | entry => rfl
  | instr hsect hmode =>
    rw [IRBody.uses, IRBody.ref?]
    rcases instrMode_cases hmode with ⟨hn, rfl, rfl, -⟩ | ⟨hn, rfl, -⟩ | ⟨hn, ⟨r, rfl⟩, -⟩
    · rw [hn]
      rfl
    · rw [hn, if_pos (Nat.le_refl 1)]
      exact List.append_nil _
    · rw [hn, if_neg (by decide)]
      rfl

theorem IRBody.Legible.ref {body : IRBody} (h : body.Legible) {x : Ident} (hx : x ∈ body.ref?) :
    nul ∈ x.str := by
  have hlabel : ∀ {o : Operand}, o.Legible → x ∈ o.label? → nul ∈ x.str := by
    intro o ho hxo
    cases o <;> cases hxo <;> exact ho.1
  cases h with
  | label => cases hx
  | dir type operand hoperand =>
    cases type <;> first | exact hlabel hoperand hx | cases hx
  | instr op a b ha hb =>
    rw [IRBody.ref?] at hx
    split at hx
    · exact hlabel ha hx
    · exact hlabel hb hx

theorem IRBody.Legible.stocked {body : IRBody} (h : body.Legible) : body.Stocked := by
  cases h with
  | label | instr => trivial
  | dir type operand hoperand =>
    cases type with
    | string =>
      cases operand with
      | string x => exact hoperand.2
      | _ => trivial
    | _ => trivial

/-! ## The second pass -/

/-- Every label that is used is one. -/
def Defined (nodes : List IRNode) : Prop :=
  ∀ node ∈ nodes, ∀ x ∈ node.body.uses, IsLabel nodes x

/-- **All that the second pass can report is a label that is not defined.** -/
theorem undefined_label_iff {irList : IRList} {ass₀ ass₁ : Assembler}
    (hbuilt : Built irList.nodes) (h₁ : assemblerFirstPass .ok ass₀ irList = .ok (.ok, ass₁)) :
    ∃ r ass₂, assemblerSecondPass .ok ass₁ irList = .ok (r, ass₂) ∧
      (Defined irList.nodes ∧ r = .ok ∨ ¬ Defined irList.nodes ∧ r = .labelUndefined) := by
  have harranged : Arranged .ok irList.nodes := firstPass_ok_iff.mp ⟨ass₁, h₁⟩
  have huses : ∀ node ∈ irList.nodes, node.body.uses = node.body.ref?.toList := by
    intro node hnode
    obtain ⟨pre, post, hsplit⟩ := List.append_of_mem hnode
    exact uses_eq (harranged.admits hsplit)
  have hlookup : ∀ node ∈ irList.nodes, ∀ x ∈ node.body.ref?, ∃ r,
      getSymbolAddr ass₁.symtable x.str = .ok r ∧ (r.isSome ↔ IsLabel irList.nodes x) :=
    fun node hnode x hx => lookup_iff hbuilt h₁ ((hbuilt.legible node hnode).ref hx)
  have hanswers : ∀ node ∈ irList.nodes, ∀ x ∈ node.body.ref?, ∃ r,
      getSymbolAddr ass₁.symtable x.str = .ok r := fun node hnode x hx =>
    (hlookup node hnode x hx).imp fun r hr => hr.1
  obtain ⟨r, ass₂, h₂, hr⟩ := secondPass_answers h₁ (data_lt_of_built hbuilt) harranged hanswers
    fun node hnode => (hbuilt.legible node hnode).stocked
  refine ⟨r, ass₂, h₂, ?_⟩
  rcases hr with rfl | ⟨rfl, node, hnode, x, hx, hnone⟩
  · left
    refine ⟨fun node hnode x hx => ?_, rfl⟩
    rw [huses node hnode, Option.mem_toList] at hx
    obtain ⟨-, -, hresolved⟩ := (secondPass_ok_iff h₁).mp ⟨ass₂, h₂⟩
    obtain ⟨addr, hfound⟩ := (hresolved node hnode).found x hx
    obtain ⟨r, hr, hlabel⟩ := hlookup node hnode x hx
    cases hfound.symm.trans hr
    exact hlabel.mp rfl
  · right
    refine ⟨fun hdefined => ?_, rfl⟩
    obtain ⟨r, hr, hlabel⟩ := hlookup node hnode x hx
    cases hnone.symm.trans hr
    have huse : x ∈ node.body.uses := by
      rw [huses node hnode]
      exact Option.mem_toList.mpr hx
    cases hlabel.mpr (hdefined node hnode x huse)

/-- A jump to a label that is not there. -/
def jumpNowhere : IRList where
  nodes := [⟨1, .dir .text .none⟩, ⟨2, .instr .jmp (.ident (mkIdent 0 [chr 'x'])) .none⟩]
  fits := by decide

theorem built_jumpNowhere : Built jumpNowhere.nodes where
  resident := by decide
  lines := by
    let slot : Slot := ⟨.none, .none⟩
    have hslot : slot.a.Legible ∧ slot.b.Legible := ⟨trivial, trivial⟩
    have htext : parseLine (fun _ => 0) (".text".toList.map chr ++ [chr '\n', nul]) (some slot)
        ⟨[], 0⟩ = .ok (.ok ⟨1, .dir .text .none⟩) := rfl
    have hjump : parseLine (fun _ => 0) ("JMP x".toList.map chr ++ [chr '\n', nul]) (some slot)
        ⟨[], 1⟩ = .ok (.ok ⟨2, .instr .jmp (.ident (mkIdent 0 [chr 'x'])) .none⟩) := rfl
    exact List.forall_mem_cons.mpr ⟨.mk hslot.1 hslot.2 htext,
      List.forall_mem_singleton.mpr (.mk hslot.1 hslot.2 hjump)⟩

theorem undefined_label_jump : ∃ ass₁ r ass₂,
    assemblerFirstPass .ok .zero jumpNowhere = .ok (.ok, ass₁) ∧
      assemblerSecondPass .ok ass₁ jumpNowhere = .ok (r, ass₂) ∧
      (Defined jumpNowhere.nodes ∧ r = .ok ∨
        ¬ Defined jumpNowhere.nodes ∧ r = .labelUndefined) := by
  obtain ⟨ass₁, h₁⟩ : ∃ ass₁, assemblerFirstPass .ok .zero jumpNowhere = .ok (.ok, ass₁) :=
    ⟨_, rfl⟩
  obtain ⟨r, ass₂, h₂, hr⟩ := undefined_label_iff built_jumpNowhere h₁
  exact ⟨ass₁, r, ass₂, h₁, h₂, hr⟩

end BSVM
