/-
# `BSVM.Sections` — the order of the sections does not matter

Two listings with the same text, the same data and the same entry are accepted
together, and assembled to the same binary (`section_order`).

Both passes see the nodes in another order, and the symbol table of the first
lists its labels in another order.  The labels and the sizes are those of the
parts (`Tidy.totals`), and a look-up among names that differ does not depend
on the order (`findSymbol_perm`).
-/
import BSVM.DataSegment

namespace BSVM

/-! ## The parts and the nodes -/

theorem mem_part_iff {nodes : List IRNode} {cur : Section} {body : IRBody} :
    (∃ sect, body ∈ part sect cur nodes) ↔
      body.content = true ∧ ∃ node ∈ nodes, node.body = body := by
  induction nodes generalizing cur with
  | nil =>
      constructor
      · rintro ⟨_, h⟩
        cases h
      · rintro ⟨-, _, h, -⟩
        cases h
  | cons first nodes ih =>
      constructor
      · rintro ⟨sect, h⟩
        rw [part] at h
        split at h
        · next hfirst =>
            rcases List.mem_cons.mp h with rfl | h
            · exact ⟨hfirst.2, first, List.mem_cons_self, rfl⟩
            · obtain ⟨hcontent, node, hnode, hbody⟩ := ih.mp ⟨sect, h⟩
              exact ⟨hcontent, node, List.mem_cons_of_mem _ hnode, hbody⟩
        · obtain ⟨hcontent, node, hnode, hbody⟩ := ih.mp ⟨sect, h⟩
          exact ⟨hcontent, node, List.mem_cons_of_mem _ hnode, hbody⟩
      · rintro ⟨hcontent, node, hnode, rfl⟩
        rcases List.mem_cons.mp hnode with rfl | hnode
        · refine ⟨cur, ?_⟩
          rw [part, if_pos ⟨rfl, hcontent⟩]
          exact List.mem_cons_self
        · obtain ⟨sect, h⟩ := (@ih (first.body.sect cur)).mpr ⟨hcontent, node, hnode, rfl⟩
          refine ⟨sect, ?_⟩
          rw [part]
          split
          · next hfirst =>
              rw [content_sect hfirst.2] at h
              exact List.mem_cons_of_mem _ h
          · exact h

theorem mem_entries {nodes : List IRNode} {operand : Operand} :
    operand ∈ entries nodes ↔ ∃ node ∈ nodes, node.body = .dir .entry operand := by
  rw [entries, List.mem_filterMap]
  refine exists_congr fun node => and_congr_right fun _ => ⟨entry_some, ?_⟩
  intro h
  rw [h]
  rfl

/-! ## Rearranged listings -/

/-- The same sections and the same entry, with other switches. -/
structure SameParts (nodes nodes' : List IRNode) : Prop where
  parts : ∀ sect, part sect .undefined nodes = part sect .undefined nodes'
  entries : BSVM.entries nodes = BSVM.entries nodes'
  bare : Bare nodes'

section
variable {nodes nodes' : List IRNode}

theorem SameParts.tidy (h : SameParts nodes nodes') (htidy : Tidy nodes) : Tidy nodes' :=
  fun sect body hbody => htidy sect body (h.parts sect ▸ hbody)

theorem SameParts.place (h : SameParts nodes nodes') (htidy : Tidy nodes) {sect : Section}
    (hsect : sect ≠ .undefined) : (layoutOf nodes').place sect = (layoutOf nodes).place sect := by
  rw [(h.tidy htidy).totals.place sect hsect, htidy.totals.place sect hsect, h.parts]

theorem SameParts.labels (h : SameParts nodes nodes') (htidy : Tidy nodes) :
    (layoutOf nodes).labels.Perm (layoutOf nodes').labels := by
  refine htidy.totals.labels.trans ?_
  rw [textPart, dataPart, h.parts .text, h.parts .data]
  exact (h.tidy htidy).totals.labels.symm

theorem SameParts.arranged (h : SameParts nodes nodes') {status : AsmError}
    (harranged : Arranged status nodes) : Arranged status nodes' := by
  have hlabels := h.labels harranged.tidy
  refine ⟨h.tidy harranged.tidy, hlabels.pairwise harranged.apart fun h => h.symm,
    hlabels.length_eq ▸ harranged.few, ?_, h.bare, ?_⟩
  · rw [OneEntry, ← h.entries]
    exact harranged.entry
  · rw [textPart, ← h.parts]
    exact harranged.status

/-- A node of one is a node of the other, or switches the section. -/
theorem SameParts.node (h : SameParts nodes nodes') {node : IRNode} (hnode : node ∈ nodes') :
    (∃ node₀ ∈ nodes, node₀.body = node.body) ∨
      ∃ operand, node.body = .dir .text operand ∨ node.body = .dir .data operand := by
  cases hcontent : node.body.content with
  | true =>
      obtain ⟨sect, hmem⟩ := (@mem_part_iff nodes' .undefined node.body).mpr
        ⟨hcontent, node, hnode, rfl⟩
      rw [← h.parts] at hmem
      exact Or.inl (mem_part_iff.mp ⟨sect, hmem⟩).2
  | false =>
      obtain ⟨line, body⟩ := node
      cases body with
      | label | instr => cases hcontent
      | dir type operand =>
          cases type with
          | text => exact Or.inr ⟨operand, Or.inl rfl⟩
          | data => exact Or.inr ⟨operand, Or.inr rfl⟩
          | entry =>
              have hentry : operand ∈ BSVM.entries nodes' := mem_entries.mpr ⟨_, hnode, rfl⟩
              rw [← h.entries] at hentry
              exact Or.inl (mem_entries.mp hentry)
          | _ => cases hcontent

end

/-! ## The binary -/

/-- The code is that of the text. -/
theorem codeOf_text {env : Ident → Option Word} {nodes : List IRNode} (h : Tidy nodes) :
    codeOf env nodes = (textPart nodes).flatMap (IRBody.code env) := by
  induction nodes using List.reverseRecOn with
  | nil => rfl
  | append_singleton nodes node ih =>
      obtain ⟨htidy, hfits⟩ := tidy_concat.mp h
      unfold textPart at ih ⊢
      rw [codeOf_concat, ih htidy, part_concat, List.flatMap_append]
      refine congrArg _ ?_
      split
      · exact (List.flatMap_singleton _ _).symm
      · next hskip =>
          obtain ⟨line, body⟩ := node
          cases body with
          | instr op a b =>
              have hsect := hfits rfl
              generalize (layoutOf nodes).sect = cur at hsect hskip
              cases hsect
              exact absurd ⟨rfl, rfl⟩ hskip
          | _ => rfl

/-- The data is that of the data. -/
theorem storedOf_data {env : Ident → Option Word} {nodes : List IRNode} (h : Tidy nodes) :
    storedOf env nodes = (dataPart nodes).flatMap (IRBody.stored env) := by
  induction nodes using List.reverseRecOn with
  | nil => rfl
  | append_singleton nodes node ih =>
      obtain ⟨htidy, hfits⟩ := tidy_concat.mp h
      unfold dataPart at ih ⊢
      rw [storedOf_concat, ih htidy, part_concat, List.flatMap_append]
      refine congrArg _ ?_
      split
      · exact (List.flatMap_singleton _ _).symm
      · next hskip =>
          obtain ⟨line, body⟩ := node
          cases hcontent : body.content with
          | true =>
              have hsect := hfits hcontent
              generalize (layoutOf nodes).sect = cur at hsect hskip
              cases hsect with
              | textLabel | dataLabel | instr => rfl
              | dir => exact absurd ⟨rfl, hcontent⟩ hskip
          | false =>
              cases body with
              | dir type operand => cases type <;> first | rfl | cases hcontent
              | _ => cases hcontent

/-- The order of labels with different names does not matter. -/
theorem address_perm {L L' : Layout} (hperm : L.labels.Perm L'.labels)
    (hnames : (L'.labels.map fun label => cName label.1).Nodup) : L.address = L'.address := by
  funext x
  rw [Layout.address]
  cases hfind : L.labels.find? fun label => cName x.str == cName label.1 with
  | none =>
      rw [List.find?_eq_none] at hfind
      have hnone : L'.labels.find? (fun label => cName x.str == cName label.1) = none :=
        List.find?_eq_none.mpr fun label hlabel => hfind label (hperm.mem_iff.mpr hlabel)
      rw [Layout.address, hnone]
  | some label =>
      have hname : cName x.str = cName label.1 := beq_iff_eq.mp (List.find?_some hfind :)
      have hmem := hperm.mem_iff.mp (List.mem_of_find?_eq_some hfind)
      exact (L'.address_of_mem (x := ⟨label.1, 0, 0⟩) hnames hmem hname).symm

section
variable {status₁ status₂ : AsmError} {ass₀ ass₁ ass₁' ass₂ ass₂' : Assembler}
  {irList irList' : IRList}

theorem magic_kept (h₂ : assemblerSecondPass status₂ ass₁ irList = .ok (.ok, ass₂)) :
    ass₂.headers.magicNumber = MAGIC_NUMBER := by
  rw [assemblerSecondPass] at h₂
  obtain ⟨⟨r, s'⟩, hrun, h₂⟩ := Except.bind_eq_ok.mp h₂
  cases h₂
  have hkeep : ∀ pre node post s s', irList.nodes = pre ++ node :: post →
      s.ass.headers.magicNumber = MAGIC_NUMBER → secondPassNode node s = .ok (.ok, s') →
      s'.ass.headers.magicNumber = MAGIC_NUMBER := by
    intro pre node post s s' _ hmagic hnode
    have hstep := secondPassNode_step hnode
    obtain ⟨line, body⟩ := node
    cases hstep <;> exact hmagic
  obtain ⟨s, -, hmagic, hnil⟩ := runPass_at
    (P := fun _ s => s.ass.headers.magicNumber = MAGIC_NUMBER) rfl hkeep hrun
    (List.append_nil irList.nodes).symm
  cases hnil
  exact hmagic

/-- What the second pass makes of a list. -/
theorem binary_stored (h₁ : assemblerFirstPass status₁ ass₀ irList = .ok (.ok, ass₁))
    (h₂ : assemblerSecondPass status₂ ass₁ irList = .ok (.ok, ass₂)) : ass₂.binary = .ok {
      headers := ass₂.headers
      bytecode := codeOf (layoutOf irList.nodes).address irList.nodes
      data := storedOf (layoutOf irList.nodes).address irList.nodes } := by
  obtain ⟨-, -, data, -, hbinary⟩ := binary_eq h₁ h₂
  rw [Assembler.binary] at hbinary ⊢
  obtain ⟨bytecode, hbytecode, hbinary⟩ := Except.bind_eq_ok.mp hbinary
  rw [data_stored h₁ h₂] at hbinary ⊢
  rw [hbytecode]
  cases hbinary
  rfl

theorem headers_eq (h₁ : assemblerFirstPass status₁ ass₀ irList = .ok (.ok, ass₁))
    (h₂ : assemblerSecondPass status₂ ass₁ irList = .ok (.ok, ass₂)) : ass₂.headers = {
      magicNumber := MAGIC_NUMBER
      entryPoint := ((layoutOf irList.nodes).entry.bind (layoutOf irList.nodes).address).getD
        ass₀.headers.entryPoint
      codeSize := BitVec.ofNat 64 (layoutOf irList.nodes).text
      dataSize := BitVec.ofNat 64 (layoutOf irList.nodes).data } := by
  have hres := firstPass_result h₁
  have hmagic := magic_kept h₂
  obtain ⟨s, -, hat, rfl⟩ := secondPass_end h₁ h₂
  have hcode := hat.codeSize.trans hres.codeSize
  have hdata := hat.dataSize.trans hres.dataSize
  have hentry : s.ass.headers.entryPoint =
      ((layoutOf irList.nodes).entry.bind (layoutOf irList.nodes).address).getD
        ass₀.headers.entryPoint := by
    cases hx : (layoutOf irList.nodes).entry with
    | none => exact (hat.noEntry hx).trans hres.entryPoint
    | some x => rw [Option.bind_some, hat.entry x hx, Option.getD_some]
  show BinaryHeader.mk s.ass.headers.magicNumber s.ass.headers.entryPoint s.ass.headers.codeSize
    s.ass.headers.dataSize = _
  rw [hmagic, hentry, hcode, hdata]

end

/-! ## Two listings -/

section
variable {status₁ status₂ : AsmError} {ass₀ ass₁ ass₂ : Assembler} {irList irList' : IRList}

/-- Lists with the same parts are accepted together. -/
theorem SameParts.accepted (h : SameParts irList.nodes irList'.nodes)
    (h₁ : assemblerFirstPass status₁ ass₀ irList = .ok (.ok, ass₁))
    (h₂ : assemblerSecondPass status₂ ass₁ irList = .ok (.ok, ass₂)) :
    ∃ ass₁' ass₂', assemblerFirstPass status₁ ass₀ irList' = .ok (.ok, ass₁') ∧
      assemblerSecondPass status₂ ass₁' irList' = .ok (.ok, ass₂') := by
  have harranged := firstPass_ok_iff.mp ⟨ass₁, h₁⟩
  have hfirst : ∃ ass₁', assemblerFirstPass status₁ ass₀ irList' = .ok (.ok, ass₁') :=
    firstPass_ok_iff.mpr (h.arranged harranged)
  obtain ⟨ass₁', h₁'⟩ := hfirst
  obtain ⟨hdata, harranged₂, hresolved⟩ := (secondPass_ok_iff h₁).mp ⟨ass₂, h₂⟩
  have hdata' : (layoutOf irList'.nodes).data = (layoutOf irList.nodes).data :=
    Nat.add_left_cancel (h.place harranged.tidy (show Section.data ≠ .undefined by decide))
  have htable : ass₁.symtable.table.Perm ass₁'.symtable.table := by
    rw [(firstPass_result h₁).table, (firstPass_result h₁').table]
    exact (h.labels harranged.tidy).map _
  have hapart : ass₁.symtable.table.Pairwise fun t u => Apart t.string u.string := by
    rw [(firstPass_result h₁).table, List.pairwise_map]
    exact harranged.apart
  have hlookup : ∀ (s : List Byte) addr, getSymbolAddr ass₁.symtable s = .ok (some addr) →
      getSymbolAddr ass₁'.symtable s = .ok (some addr) := by
    intro s addr haddr
    obtain ⟨found, hfound, heq⟩ := Except.bind_eq_ok.mp haddr
    obtain ⟨symbol, rfl, rfl⟩ := Option.map_eq_some_iff.mp (Except.ok.inj heq)
    rw [getSymbolAddr, findSymbol_perm htable hapart hfound]
    rfl
  have hresolved' : ∀ node ∈ irList'.nodes, Resolved ass₁'.symtable node.body := by
    intro node hnode
    rcases h.node hnode with ⟨node₀, hnode₀, hbody⟩ | ⟨operand, hbody | hbody⟩
    · rw [← hbody]
      refine ⟨fun x hx => ?_, (hresolved node₀ hnode₀).stocked⟩
      obtain ⟨addr, haddr⟩ := (hresolved node₀ hnode₀).found x hx
      exact ⟨addr, hlookup x.str addr haddr⟩
    all_goals
      rw [hbody]
      refine ⟨fun x hx => ?_, trivial⟩
      cases hx
  obtain ⟨ass₂', h₂'⟩ := (secondPass_ok_iff h₁').mpr
    ⟨hdata' ▸ hdata, h.arranged harranged₂, hresolved'⟩
  exact ⟨ass₁', ass₂', h₁', h₂'⟩

/-- They are assembled to the same binary. -/
theorem SameParts.binary {ass₁' ass₂' : Assembler} (h : SameParts irList.nodes irList'.nodes)
    (h₁ : assemblerFirstPass status₁ ass₀ irList = .ok (.ok, ass₁))
    (h₂ : assemblerSecondPass status₂ ass₁ irList = .ok (.ok, ass₂))
    (h₁' : assemblerFirstPass status₁ ass₀ irList' = .ok (.ok, ass₁'))
    (h₂' : assemblerSecondPass status₂ ass₁' irList' = .ok (.ok, ass₂')) :
    ass₂'.binary = ass₂.binary := by
  have harranged := firstPass_ok_iff.mp ⟨ass₁, h₁⟩
  have htidy := harranged.tidy
  have haddress : (layoutOf irList.nodes).address = (layoutOf irList'.nodes).address :=
    address_perm (h.labels htidy) (firstPass_result h₁').names
  have htext : (layoutOf irList'.nodes).text = (layoutOf irList.nodes).text :=
    h.place htidy (show Section.text ≠ .undefined by decide)
  have hdata : (layoutOf irList'.nodes).data = (layoutOf irList.nodes).data :=
    Nat.add_left_cancel (h.place htidy (show Section.data ≠ .undefined by decide))
  have hentry : (layoutOf irList'.nodes).entry = (layoutOf irList.nodes).entry := by
    have hentries := h.entries
    rcases harranged.entry with hnil | ⟨x, hx⟩
    · rw [entry_eq_none hnil, entry_eq_none (hentries ▸ hnil)]
    · rw [entry_eq_some hx, entry_eq_some (hentries ▸ hx)]
  rw [binary_stored h₁ h₂, binary_stored h₁' h₂', headers_eq h₁ h₂, headers_eq h₁' h₂',
    codeOf_text htidy, codeOf_text (h.tidy htidy), storedOf_data htidy,
    storedOf_data (h.tidy htidy), ← haddress, htext, hdata, hentry]
  unfold textPart dataPart
  rw [h.parts, h.parts]

end

/-! ## Whatever the lines and the pointers are -/

theorem content_forget (body : IRBody) : body.forget.content = body.content := by
  cases body with
  | dir type operand => cases type <;> rfl
  | _ => rfl

theorem sect_forget (body : IRBody) (cur : Section) : body.forget.sect cur = body.sect cur := by
  cases body with
  | dir type operand => cases type <;> rfl
  | _ => rfl

theorem part_forget (sect cur : Section) (nodes : List IRNode) :
    part sect cur (nodes.map IRNode.forget) = (part sect cur nodes).map IRBody.forget := by
  induction nodes generalizing cur with
  | nil => rfl
  | cons node nodes ih =>
      have hcontent : node.forget.body.content = node.body.content := content_forget node.body
      have hsect : node.forget.body.sect cur = node.body.sect cur := sect_forget node.body cur
      rw [List.map_cons, part, part, hcontent, hsect, ih, ih]
      split <;> rfl

theorem entries_forget (nodes : List IRNode) :
    entries (nodes.map IRNode.forget) = (entries nodes).map Operand.forget := by
  rw [entries, entries, List.filterMap_map, List.map_filterMap]
  refine List.filterMap_congr fun node _ => ?_
  obtain ⟨line, body⟩ := node
  cases body with
  | dir type operand => cases type <;> rfl
  | _ => rfl

theorem bare_forget {nodes : List IRNode} (h : Bare nodes) : Bare (nodes.map IRNode.forget) := by
  intro node hnode operand hbody
  obtain ⟨⟨line, body⟩, hmem, rfl⟩ := List.mem_map.mp hnode
  cases body with
  | dir type operand' =>
      have hnone : operand' = .none := by
        refine h _ hmem operand' ?_
        rcases hbody with hbody | hbody
        · cases hbody
          exact Or.inl rfl
        · cases hbody
          exact Or.inr rfl
      subst hnone
      rcases hbody with hbody | hbody
      all_goals
        cases hbody
        rfl
  | _ => rcases hbody with hbody | hbody <;> cases hbody

/-- The same labels and instructions in the text, the same labels and directives
in the data, and the same entry, on whatever lines; the section directives are
bare. -/
structure Rearranged (nodes nodes' : List IRNode) : Prop where
  parts : ∀ sect, (part sect .undefined nodes).map IRBody.forget =
    (part sect .undefined nodes').map IRBody.forget
  entries : (BSVM.entries nodes).map Operand.forget = (BSVM.entries nodes').map Operand.forget
  bare : Bare nodes'

theorem Rearranged.sameParts {irList irList' : IRList}
    (h : Rearranged irList.nodes irList'.nodes) :
    SameParts irList.forget.nodes irList'.forget.nodes where
  parts := fun sect => by
    rw [IRList.forget, IRList.forget, part_forget, part_forget, h.parts]
  entries := by
    rw [IRList.forget, IRList.forget, entries_forget, entries_forget, h.entries]
  bare := bare_forget h.bare

theorem Rearranged.pointerFree {irList irList' : IRList}
    (h : Rearranged irList.nodes irList'.nodes)
    (hfree : ∀ node ∈ irList.nodes, node.body.PointerFree) :
    ∀ node ∈ irList'.nodes, node.body.PointerFree := by
  intro node hnode
  refine pointerFree_forget.mp ?_
  have hmem : node.forget ∈ irList'.forget.nodes := List.mem_map_of_mem hnode
  rcases h.sameParts.node hmem with ⟨node₀, hnode₀, hbody⟩ | ⟨operand, hbody⟩
  · obtain ⟨node₁, hnode₁, rfl⟩ := List.mem_map.mp hnode₀
    have hsame : node₁.body.forget = node.body.forget := hbody
    exact hsame ▸ pointerFree_forget.mpr (hfree node₁ hnode₁)
  · intro x hx
    have hsame : node.forget.body = node.body.forget := rfl
    rw [hsame, hx] at hbody
    rcases hbody with hbody | hbody <;> cases hbody

/-- **The order of the sections does not matter.**  A list that both passes
accept can be rearranged; the binary stays the same. -/
theorem section_order (status₁ status₂ : AsmError) (irList irList' : IRList)
    (ass₁ ass₂ : Assembler) :
    Rearranged irList.nodes irList'.nodes →
      (∀ node ∈ irList.nodes, ∀ x, node.body ≠ .dir .word (.ident x)) →
      assemblerFirstPass status₁ .zero irList = .ok (.ok, ass₁) →
      assemblerSecondPass status₂ ass₁ irList = .ok (.ok, ass₂) →
      ∃ ass₁' ass₂' bin,
        assemblerFirstPass status₁ .zero irList' = .ok (.ok, ass₁') ∧
        assemblerSecondPass status₂ ass₁' irList' = .ok (.ok, ass₂') ∧
        ass₂.binary = .ok bin ∧ ass₂'.binary = .ok bin := by
  intro h hfree h₁ h₂
  have hforget₁ := (assemblerFirstPass_forget status₁ .zero irList).trans h₁
  have hforget₂ := (assemblerSecondPass_forget h₁ hfree ass₁).trans h₂
  obtain ⟨ass₁', ass₂', h₁', h₂'⟩ := h.sameParts.accepted hforget₁ hforget₂
  have hbinary := h.sameParts.binary hforget₁ hforget₂ h₁' h₂'
  rw [assemblerFirstPass_forget] at h₁'
  rw [assemblerSecondPass_forget h₁' (h.pointerFree hfree)] at h₂'
  exact ⟨ass₁', ass₂', _, h₁', h₂', binary_stored h₁ h₂, hbinary.trans (binary_stored h₁ h₂)⟩

/-- A program whose sections take turns. -/
def interleaved : IRList where
  nodes := [⟨1, .dir .data .none⟩, ⟨2, .label (.ident ⟨[120, 0], 16, 2⟩)⟩, ⟨3, .dir .text .none⟩,
    ⟨4, .label (.ident ⟨[109, 0], 32, 2⟩)⟩, ⟨5, .instr .ld (.reg 0) (.memIdent ⟨[120, 0], 48, 2⟩)⟩,
    ⟨6, .dir .entry (.ident ⟨[109, 0], 64, 2⟩)⟩, ⟨7, .dir .data .none⟩,
    ⟨8, .dir .addr (.ident ⟨[109, 0], 80, 2⟩)⟩, ⟨9, .dir .text .none⟩,
    ⟨10, .instr .halt .none .none⟩, ⟨11, .dir .data .none⟩, ⟨12, .dir .byte (.value 7)⟩]
  fits := by decide

/-- The same program, one section behind the other. -/
def separated : IRList where
  nodes := [⟨1, .dir .entry (.ident ⟨[109, 0], 8, 2⟩)⟩, ⟨3, .dir .text .none⟩,
    ⟨4, .label (.ident ⟨[109, 0], 24, 2⟩)⟩, ⟨5, .instr .ld (.reg 0) (.memIdent ⟨[120, 0], 40, 2⟩)⟩,
    ⟨6, .instr .halt .none .none⟩, ⟨8, .dir .data .none⟩, ⟨9, .label (.ident ⟨[120, 0], 56, 2⟩)⟩,
    ⟨10, .dir .addr (.ident ⟨[109, 0], 72, 2⟩)⟩, ⟨11, .dir .byte (.value 7)⟩]
  fits := by decide

theorem section_order_separated : ∃ (ass₁ ass₂ ass₁' ass₂' : Assembler) (bin : Binary),
    assemblerFirstPass .ok .zero interleaved = .ok (.ok, ass₁) ∧
      assemblerSecondPass .ok ass₁ interleaved = .ok (.ok, ass₂) ∧
      assemblerFirstPass .ok .zero separated = .ok (.ok, ass₁') ∧
      assemblerSecondPass .ok ass₁' separated = .ok (.ok, ass₂') ∧
      ass₂.binary = .ok bin ∧ ass₂'.binary = .ok bin := by
  obtain ⟨ass₁, ass₂, h₁, h₂⟩ : ∃ ass₁ ass₂,
      assemblerFirstPass .ok .zero interleaved = .ok (.ok, ass₁) ∧
      assemblerSecondPass .ok ass₁ interleaved = .ok (.ok, ass₂) := ⟨_, _, rfl, rfl⟩
  have hrearranged : Rearranged interleaved.nodes separated.nodes := by
    refine ⟨fun sect => ?_, rfl, ?_⟩
    · cases sect <;> rfl
    · simp [Bare, separated]
  obtain ⟨ass₁', ass₂', bin, h⟩ := section_order .ok .ok interleaved separated ass₁ ass₂
    hrearranged (by simp [interleaved]) h₁ h₂
  exact ⟨ass₁, ass₂, ass₁', ass₂', bin, h₁, h₂, h⟩

end BSVM
