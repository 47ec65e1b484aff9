/-
# `BSVM.AnySource` — `main_bsm` on any file

The source may be any sequence of bytes.  There are two accesses that no test guards,
and they are the only ones that can go wrong (`mainBsm_faults`):

    the list of nodes    a line behind 128 nodes
    the symbol table     a label behind 16

Everything else is within bounds on every source, or ends in a message:

    the lines     are parsed within the buffer        (`parseLine_exits`)
    the names     end with a NUL, so `strcmp` stops   (`symbols_terminated`)
    the bytes     have all been counted               (`secondPass_fails`)

The block of the list is not cleared before it is used, and the parser leaves some of
it to the assembler.  What it held before must not be taken for pointers (`Blank`).
-/
import BSVM.LineFaults
import BSVM.Toolchain

namespace BSVM

/-! ## The list of nodes -/

variable {host : ParserHost}

theorem room_iff_few {s : ParserState} (h : Listed s.array) :
    s.grow.room = true ↔ s.nodes.length < 128 := by
  rw [room_iff, s.grow_array]
  exact ⟨h.lt_of_fits, fun hlt => (h.holds_iff.mpr hlt).fits⟩

theorem parserStep_fails {s : ParserState} {y : List Byte} (hbuffer : LineBuffer s.str)
    (hlisted : Listed s.array) (hy : y.length < INSTR_LEN) :
    Fails (parserStep host s y) fun f => f = .exit ∨ f = .table ∧ 128 ≤ s.nodes.length := by
  have hroom := room_iff_few hlisted
  rw [parserStep]
  dsimp only
  refine .bind ?_ fun status _ => ?_
  · intro f hf
    split at hf
    · exact Or.inl (parseLine_exits (hbuffer.fill hy) f hf)
    · next hfull =>
      refine (parseLine_fails _ _ _ _ f hf).imp_right fun htable => ⟨htable, ?_⟩
      exact Nat.not_lt.mp fun hlt => hfull (hroom.mpr hlt)
  · cases status with
    | ok node => exact .ok
    | error e =>
      cases e with
      | empty =>
        refine .ite (fun _ => .ok) fun hfull => .error (Or.inr ⟨rfl, ?_⟩)
        exact Nat.not_lt.mp fun hlt => hfull (hroom.mpr hlt)
      | _ => exact .ok

/-- A line stands behind 128 nodes. -/
def Crowded (host : ParserHost) (source : List Byte) : Prop :=
  ∃ pre y post s, pieces [] source = pre ++ y :: post ∧
    pre.foldlM (parserStep host) .start = .ok s ∧ 128 ≤ s.nodes.length

/-- A line adds a node, or there is still room for one. -/
theorem parserStep_length {s s' : ParserState} {y : List Byte} (h : parserStep host s y = .ok s') :
    s'.nodes.length = s.nodes.length + 1 ∨
      s'.nodes.length = s.nodes.length ∧ s.grow.room = true := by
  have hgrow : s.grow.array.count = s.nodes.length := by
    rw [s.grow_array, Growable.grow]
    split <;> rfl
  rcases parserStep_array h with hpush | ⟨hsame, hroom⟩
  · have hcount := congrArg Growable.count hpush
    exact Or.inl (hcount.trans (Nat.succ_inj.mpr hgrow))
  · have hcount := congrArg Growable.count hsame
    exact Or.inr ⟨hcount.trans hgrow, hroom⟩

/-- A list that is too long at the end was too long before. -/
theorem crowded_of_end {source : List Byte} {s : ParserState}
    (h : (pieces [] source).foldlM (parserStep host) .start = .ok s)
    (hlong : 128 < s.nodes.length) :
    Crowded host source := by
  rcases List.eq_nil_or_concat (pieces [] source) with hnil | ⟨pre, y, hlast⟩
  · rw [hnil] at h
    cases h
    exact absurd hlong (Nat.not_lt_zero _)
  · rw [List.concat_eq_append] at hlast
    rw [hlast, List.foldlM_append] at h
    obtain ⟨s₁, hpre, h⟩ := Except.bind_eq_ok.mp h
    rw [List.foldlM_cons] at h
    obtain ⟨s₂, hstep, h⟩ := Except.bind_eq_ok.mp h
    cases h
    refine ⟨pre, y, [], s₁, hlast, hpre, ?_⟩
    rcases parserStep_length hstep with hcount | ⟨hcount, -⟩
    · omega
    · omega

/-- Behind 128 nodes the list only grows. -/
theorem parserStep_crowds {s s' : ParserState} {y : List Byte} (hlisted : Listed s.array)
    (h : parserStep host s y = .ok s') (hfull : 128 ≤ s.nodes.length) : 128 < s'.nodes.length := by
  rcases parserStep_length h with hcount | ⟨-, hroom⟩
  · omega
  · exact absurd ((room_iff_few hlisted).mp hroom) (Nat.not_lt.mpr hfull)

/-- A list that was returned was never too long. -/
theorem parser_not_crowded {source : List Byte} {closes : Bool} {nodes : List IRNode}
    (h : parser host (some source) closes = .ok nodes) : ¬ Crowded host source := by
  rintro ⟨pre, y, post, s, hsplit, hpre, hfull⟩
  obtain ⟨s', hrun, hend⟩ := Except.bind_eq_ok.mp h
  have hfew := parser_few h
  have hnodes : nodes = s'.nodes := by
    split at hend
    · cases hend
    · split at hend
      · cases hend
        rfl
      · cases hend
  rw [hsplit, List.foldlM_append, hpre, Except.ok_bind, List.foldlM_cons] at hrun
  obtain ⟨s₁, hstep, hrest⟩ := Except.bind_eq_ok.mp hrun
  have hlisted := run_listed hpre
  have hkeep : Listed s'.array ∧ 128 < s'.nodes.length := by
    refine Returns.foldlM (Q := fun s : ParserState => Listed s.array ∧ 128 < s.nodes.length)
      (fun z _ s hs s' h => ⟨hs.1.step h, parserStep_crowds hs.1 h hs.2.le⟩) ?_ s' hrest
    exact ⟨hlisted.step hstep, parserStep_crowds hlisted hstep hfull⟩
  rw [hnodes] at hfew
  exact absurd hkeep.2 (Nat.not_lt.mpr hfew)

theorem parser_fails (source : List Byte) (closes : Bool) :
    Fails (parser host (some source) closes) fun f =>
      f = .exit ∨ f = .table ∧ Crowded host source := by
  refine .bind (.foldlM fun pre y post s hsplit hpre => ?_) fun s hs => ?_
  · have hlen : ∀ z ∈ pre ++ [y], z.length < INSTR_LEN := fun z hz => piece_length <| by
      rw [hsplit, List.append_cons]
      exact List.mem_append_left _ hz
    have hbuffer : LineBuffer s.str := run_lineBuffer host lineBuffer_start
      (fun z hz => hlen z (List.mem_append_left _ hz)) hpre
    have hy : y.length < INSTR_LEN := hlen y (List.mem_append_right _ List.mem_cons_self)
    refine (parserStep_fails hbuffer (run_listed hpre) hy).mono fun f hf => ?_
    exact hf.imp_right fun ⟨htable, hfull⟩ => ⟨htable, pre, y, post, s, hsplit, hpre, hfull⟩
  · refine .ite (fun _ => .error (Or.inl rfl)) fun _ => .ite (fun _ => .ok) fun hlost => ?_
    refine .error (Or.inr ⟨rfl, crowded_of_end hs ?_⟩)
    rcases run_listed hs with ⟨hsound, hsize⟩ | ⟨hcount, -⟩
    · have hblock : s.block = s.progSize * sizeofIRNode := hsound.bytes
      have hle : s.nodes.length ≤ s.progSize := hsound.le
      exact absurd (hblock ▸ Nat.mul_le_mul_right _ hle) hlost
    · exact hcount

/-! ## Their strings -/

/-- A string is not longer than the characters it is read from. -/
def ShortText (n : Nat) (lexed : Lexed) : Prop :=
  ∀ text, lexed.2.1 = .string text → text.length ≤ n

theorem scanString_text (str : List Byte) (strSize : Nat) (s : List Byte) :
    Returns (scanString str strSize s) (ShortText (str.length + s.length)) := by
  have hstore : ∀ {str : List Byte} {strSize : Nat} {c : Byte} {str' : List Byte},
      storeChar str strSize c = .ok str' → str'.length = str.length + 1 := by
    intro str strSize c str' h
    rw [storeChar] at h
    split at h
    · cases h
      exact List.length_append
    · cases h
  fun_induction scanString str strSize s with
  | case1 => exact Returns.error_iff.mpr trivial
  | case2 =>
    refine Returns.ok_iff.mpr fun text htext => ?_
    cases htext
    exact Nat.zero_le _
  | case3 =>
    refine Returns.ok_iff.mpr fun text htext => ?_
    cases htext
    exact Nat.le_add_right _ _
  | case4 => exact Returns.error_iff.mpr trivial
  | case5 str strSize size e s hnul hquote ih =>
    refine Returns.bind_iff.mpr fun str' hstr => Returns.ite_iff.mpr ⟨fun _ => ?_, fun _ => ?_⟩
    · refine Returns.ok_iff.mpr fun text htext => ?_
      cases htext
      exact Nat.zero_le _
    · refine (ih str').mono fun x hx text htext => (hx text htext).trans ?_
      rw [hstore hstr, List.length_cons, List.length_cons]
      omega
  | case6 str strSize c s hnul hquote size hslash ih =>
    refine Returns.bind_iff.mpr fun str' hstr => (ih str').mono fun x hx text htext => ?_
    refine (hx text htext).trans ?_
    rw [hstore hstr, List.length_cons]
    omega

theorem lexWord_text (c : Byte) (s : List Byte) :
    Returns (lexWord c s) (ShortText s.length) := by
  have hother : ∀ {status tok r n}, (∀ text, tok ≠ .string text) →
      Returns (.ok (status, tok, r) : Exec Lexed) (ShortText n) :=
    fun htok => Returns.ok_iff.mpr fun text htext => absurd htext (htok text)
  refine Returns.ite_iff.mpr ⟨fun _ => .bind ?_, fun _ => ?_⟩
  · rintro ⟨value, len, cursor⟩
    cases value <;> exact hother (by simp)
  refine Returns.ite_iff.mpr ⟨fun _ => ?_, fun _ => ?_⟩
  · exact (scanString_text [] 32 s).mono fun x hx text htext => by simpa using hx text htext
  refine Returns.ite_iff.mpr ⟨fun _ => .bind fun _ => hother (by simp), fun _ => ?_⟩
  exact Returns.ite_iff.mpr ⟨fun _ => .bind fun _ => hother (by simp), fun _ => hother (by simp)⟩

theorem punctuation_no_string (c : Byte) (text : List Byte) :
    punctuation c ≠ some (.string text) := by
  grind [punctuation]

theorem nextToken_text (s : List Byte) : Returns (nextToken s) (ShortText s.length) := by
  have hother : ∀ {status tok r n}, (∀ text, tok ≠ .string text) →
      Returns (.ok (status, tok, r) : Exec Lexed) (ShortText n) :=
    fun htok => Returns.ok_iff.mpr fun text htext => absurd htext (htok text)
  induction s with
  | nil => exact Returns.error_iff.mpr trivial
  | cons c s ih =>
    have hle : ∀ {x : Lexed}, ShortText s.length x → ShortText (c :: s).length x :=
      fun hx text htext => (hx text htext).trans (Nat.le_succ _)
    by_cases hblank : isBlank c
    · rw [nextToken_blank hblank]
      exact ih.mono fun _ => hle
    rw [nextToken_cons (by simpa using hblank)]
    cases hpunct : punctuation c with
    | some tok =>
      exact hother fun text htext => punctuation_no_string c text (htext ▸ hpunct)
    | none =>
      have hword := (lexWord_text c s).mono fun _ => hle
      refine .bind fun starts => Returns.ite_iff.mpr ⟨fun _ => .bind fun x => ?_, fun _ => ?_⟩
      · refine hother fun text => ?_
        split <;> simp
      · refine Returns.ite_iff.mpr ⟨fun _ => .bind ?_, fun _ => hword⟩
        rintro ⟨reg, len, cursor⟩
        cases reg with
        | none => exact hother (by simp)
        | some reg =>
          exact Returns.ite_iff.mpr ⟨fun _ => hother (by simp), fun _ => hword⟩

theorem Reads.text_le {s text r : List Byte} (h : Reads s (.string text) r) :
    text.length ≤ s.length :=
  nextToken_text s _ h text rfl

theorem Reads.rest_le {s r : List Byte} {tok : Token} (h : Reads s tok r) :
    r.length ≤ s.length := by
  rcases nextToken_rest h with ⟨w, rfl, -⟩ | ⟨-, -, w, rfl⟩
  · rw [List.length_append]
    exact Nat.le_add_left _ _
  · rw [List.length_append, List.length_cons]
    omega

theorem footprint_plain {type : DirType} {operand : Operand} (h : ∀ x, operand ≠ .string x) :
    (IRBody.dir type operand).footprint = sizeofIRNode := by
  cases operand with
  | string x => exact absurd rfl (h x)
  | _ => rfl

theorem parseDir_footprint {ptr : Word} {body : IRBody} {l l' : Lexer}
    (h : parseDir ptr l = .ok (.ok (body, l'))) :
    body.footprint ≤ sizeofIRNode + (l.cursor.length + 1) := by
  unfold parseDir at h
  obtain ⟨⟨tok, l₁⟩, hfirst, h⟩ := Except.bind_eq_ok.mp h
  have hle := (next_iff.mp hfirst).1.rest_le
  cases tok with
  | ident text =>
    dsimp only at h
    cases htype : dirLookup text with
    | none =>
      rw [htype] at h
      cases h
    | some type =>
      rw [htype] at h
      obtain ⟨⟨tok, l₂⟩, hsecond, h⟩ := Except.bind_eq_ok.mp h
      have hline : ∀ {operand : Operand} {l₃ : Lexer},
          lineEnd (IRBody.dir type operand) l₃ = .ok (.ok (body, l')) →
          (∀ x, operand ≠ .string x) → body.footprint ≤ sizeofIRNode + (l.cursor.length + 1) := by
        intro operand l₃ hend hplain
        obtain ⟨e, -, -, rfl⟩ := lineEnd_iff.mp hend
        rw [footprint_plain hplain]
        exact Nat.le_add_right _ _
      cases tok with
      | number n => exact hline h (by simp)
      | ident x => exact hline h (by simp)
      | string x =>
        obtain ⟨e, -, -, rfl⟩ := lineEnd_iff.mp h
        have htext := (next_iff.mp hsecond).1.text_le
        show sizeofIRNode + (x ++ [nul]).length ≤ _
        rw [List.length_append]
        exact Nat.add_le_add_left (Nat.succ_le_succ (htext.trans hle)) _
      | minus =>
        obtain ⟨⟨tok, l₃⟩, -, h⟩ := Except.bind_eq_ok.mp h
        cases tok with
        | number n => exact hline h (by simp)
        | _ => cases h
      | newline | eof =>
        cases h
        exact Nat.le_add_right _ _
      | _ => cases h
  | _ => cases h

theorem parseLabel_body {ptr : Word} {text : List Byte} {body : IRBody} {l l' : Lexer}
    (h : parseLabel ptr text l = .ok (.ok (body, l'))) : ∃ x, body = .label x := by
  unfold parseLabel at h
  obtain ⟨⟨tok, l₁⟩, -, h⟩ := Except.bind_eq_ok.mp h
  cases tok with
  | colon =>
    obtain ⟨e, -, -, rfl⟩ := lineEnd_iff.mp h
    exact ⟨_, rfl⟩
  | _ => cases h

/-- What the assembler relies on: names and strings can be read, and are not long. -/
structure Small (node : IRNode) : Prop where
  legible : node.body.Legible
  footprint : node.body.footprint ≤ sizeofIRNode + (INSTR_LEN + 2)

theorem parseLine_small {ptr : Nat → Word} {str : List Byte} {slot : Slot} {l : Lexer}
    {node : IRNode} (hbuffer : LineBuffer str) (ha : slot.a.Legible) (hb : slot.b.Legible)
    (h : parseLine ptr str (some slot) l = .ok (.ok node)) : Small node := by
  refine ⟨(FromLine.mk ha hb h).legible, ?_⟩
  have hlen : str.length = INSTR_LEN + 1 := by
    obtain ⟨a, ha, rfl⟩ := hbuffer
    rw [List.length_append, ha]
    rfl
  unfold parseLine at h
  obtain ⟨⟨tok, l₁⟩, hfirst, h⟩ := Except.bind_eq_ok.mp h
  have hle := (next_iff.mp hfirst).1.rest_le
  cases tok with
  | dot =>
    obtain ⟨_, -, h⟩ := Except.bind_eq_ok.mp h
    obtain ⟨l', hparse⟩ := node_ok h
    refine (parseDir_footprint hparse).trans (Nat.add_le_add_left ?_ _)
    exact Nat.succ_le_succ (hle.trans hlen.le)
  | ident text =>
    obtain ⟨_, -, h⟩ := Except.bind_eq_ok.mp h
    obtain ⟨l', hparse⟩ := node_ok h
    obtain ⟨x, hbody⟩ := parseLabel_body hparse
    rw [hbody]
    exact Nat.le_add_right _ _
  | mnemonic text =>
    obtain ⟨x, hx, h⟩ := Except.bind_eq_ok.mp h
    obtain ⟨l', hparse⟩ := node_ok h
    obtain ⟨op, a, b, hbody, -⟩ := parseInstr_ok hparse
    rw [hbody]
    exact Nat.le_add_right _ _
  | _ => cases h

/-- There is a node to be filled. -/
theorem parseLine_slot {ptr : Nat → Word} {str : List Byte} {IR : Option Slot} {l : Lexer}
    {node : IRNode} (h : parseLine ptr str IR l = .ok (.ok node)) : IR.isSome := by
  cases IR with
  | some slot => rfl
  | none =>
    unfold parseLine at h
    obtain ⟨⟨tok, l₁⟩, -, h⟩ := Except.bind_eq_ok.mp h
    cases tok <;> cases h

/-! ## The nodes that are left -/

/-- An operand that has no name or string. -/
def Operand.Scalar : Operand → Prop
  | .ident _ | .string _ | .memIdent _ | .memIdxIdent _ _ => False
  | _ => True

/-- A node without names and strings. -/
inductive IRBody.Scalar : IRBody → Prop
  | dir (type : DirType) {operand : Operand} : operand.Scalar → Scalar (.dir type operand)
  | instr (op : OpCode) {a b : Operand} : a.Scalar → b.Scalar → Scalar (.instr op a b)

/-- What the block of the list held before is nowhere a pointer. -/
structure Blank (host : ParserHost) : Prop where
  node : ∀ k, (host.fresh k).1.body.Scalar
  slot : ∀ k, (host.fresh k).2.a.Scalar ∧ (host.fresh k).2.b.Scalar

theorem Operand.Scalar.legible {operand : Operand} (h : operand.Scalar) : operand.Legible := by
  cases operand <;> first | exact h.elim | trivial

theorem IRBody.Scalar.small {node : IRNode} (h : node.body.Scalar) : Small node := by
  obtain ⟨line, body⟩ := node
  cases h with
  | dir type h =>
    refine ⟨.dir type _ h.legible, ?_⟩
    rw [footprint_plain fun x hx => by rw [hx] at h; exact h]
    exact Nat.le_add_right _ _
  | instr op ha hb => exact ⟨.instr op _ _ ha.legible hb.legible, Nat.le_add_right _ _⟩

theorem Blank.current (h : Blank host) (s : ParserState) :
    (s.current host).1.body.Scalar ∧ (s.current host).2.a.Scalar ∧ (s.current host).2.b.Scalar := by
  rw [ParserState.current]
  split
  · exact ⟨.instr _ trivial trivial, trivial, trivial⟩
  · exact ⟨h.node _, h.slot _⟩

/-- The nodes so far, and the buffer. -/
structure Kept (s : ParserState) : Prop where
  buffer : LineBuffer s.str
  nodes : ∀ node ∈ s.nodes, Small node

theorem parserStep_kept (hblank : Blank host) {s : ParserState} {y : List Byte} (h : Kept s)
    (hy : y.length < INSTR_LEN) : Returns (parserStep host s y) Kept := by
  have hgrow : s.grow.nodes = s.nodes := by
    rw [ParserState.grow]
    split <;> rfl
  have hbuffer : LineBuffer (fill y s.str) := h.buffer.fill hy
  rw [parserStep]
  dsimp only
  obtain ⟨hnode, ha, hb⟩ := hblank.current { s.grow with str := fill y s.str }
  refine Returns.bind_iff.mpr fun status hline => ?_
  have hadd : ∀ {node : IRNode}, Small node → ∀ node' ∈ s.grow.nodes ++ [node], Small node' := by
    intro node hsmall node' hmem
    rw [hgrow, List.mem_append, List.mem_singleton] at hmem
    rcases hmem with hmem | rfl
    · exact h.nodes node' hmem
    · exact hsmall
  cases status with
  | ok node =>
    refine Returns.ok_iff.mpr ⟨hbuffer, hadd ?_⟩
    split at hline
    · exact parseLine_small hbuffer ha.legible hb.legible hline
    · cases parseLine_slot hline
  | error e =>
    cases e with
    | empty =>
      refine Returns.ite_iff.mpr ⟨fun _ => Returns.ok_iff.mpr ⟨hbuffer, ?_⟩, fun _ => ?_⟩
      · rw [hgrow]
        exact h.nodes
      · exact Returns.error_iff.mpr trivial
    | _ => exact Returns.ok_iff.mpr ⟨hbuffer, hadd hnode.small⟩

theorem parser_small (hblank : Blank host) {source : List Byte} {closes : Bool}
    {nodes : List IRNode} (h : parser host (some source) closes = .ok nodes) :
    ∀ node ∈ nodes, Small node := by
  have hstart : Kept ParserState.start := 
    ⟨lineBuffer_start, fun node hmem => absurd hmem List.not_mem_nil⟩
  obtain ⟨s, hrun, h⟩ := Except.bind_eq_ok.mp h
  have hkept : Kept s :=
    Returns.foldlM (fun y hy s hs => parserStep_kept hblank hs (piece_length hy)) hstart s hrun
  split at h
  · cases h
  · split at h
    · cases h
      exact hkept.nodes
    · cases h

/-- The data is far from the end of the address space. -/
theorem data_lt_of_small {nodes : List IRNode} (h : ∀ node ∈ nodes, Small node)
    (hfew : nodes.length ≤ 128) : (layoutOf nodes).data < 2 ^ 64 := by
  have hdata := data_foldl_le (fun node hnode => (h node hnode).legible) .start
  have hsum := footprint_sum_le fun node hnode => (h node hnode).footprint
  have hmul := Nat.mul_le_mul_right (sizeofIRNode + (INSTR_LEN + 2)) hfew
  rw [layoutOf]
  simp only [sizeofIRNode, INSTR_LEN, show Layout.start.data = 0 from rfl] at *
  omega

/-! ## The passes -/

section
variable {status status₁ status₂ : AsmError} {ass₀ ass₁ : Assembler} {irList : IRList}

theorem isInSymbolTable_total {x : List Byte} (hx : nul ∈ x) {symtable : SymbolTable}
    (htable : ∀ symbol ∈ symtable.table, nul ∈ symbol.string) :
    Fails (isInSymbolTable symtable x) fun _ => False := by
  obtain ⟨found, hfound⟩ := findSymbol_total hx htable
  rw [isInSymbolTable, hfound]
  exact .ok

/-- The names in the table are those of the labels. -/
theorem symbols_terminated {nodes : List IRNode} (h : ∀ node ∈ nodes, node.body.Legible)
    {table : List Symbol} (htable : Represents table (layoutOf nodes).labels) :
    ∀ symbol ∈ table, nul ∈ symbol.string := by
  rw [htable]
  intro symbol hsymbol
  obtain ⟨label, hlabel, rfl⟩ := List.mem_map.mp hsymbol
  exact (label_legible h hlabel).1

theorem firstPassLabel_fails {pre : List IRNode} {s : FirstPass} {name : Operand} {x : Ident}
    (hhere : FirstHere status ass₀ pre s) (hpre : ∀ node ∈ pre, node.body.Legible)
    (hname : name = .ident x) (hx : nul ∈ x.str) (line : Word) :
    Fails (firstPassLabel name { s with ass.errorLine := line })
      fun f => f = .table ∧ 16 ≤ (layoutOf pre).labels.length := by
  subst hname
  rw [firstPassLabel, Operand.asIdent, Except.ok_bind]
  have htable := symbols_terminated hpre hhere.here.table
  refine .bind ((isInSymbolTable_total hx htable).mono fun _ => False.elim) fun found _ => ?_
  refine .guard fun _ => .guard fun _ => .bind ?_ fun _ _ => .ok
  rw [addToSymbolTable_eq _ hhere.size hhere.bytes]
  exact .ite (fun _ => .ok) fun hfull => .error ⟨rfl, hhere.length ▸ Nat.not_lt.mp hfull⟩

theorem hasHandler_sized {op : OpCode} {mode : Mode} (h : hasHandler op mode = true) :
    Fails (modeSize mode) fun _ => False := by
  cases mode with
  | other raw => cases op <;> cases h
  | _ => exact .ok

/-- A round of the first pass exits, or adds a label to a full table. -/
theorem firstPassNode_fails {pre : List IRNode} {node : IRNode} {s : FirstPass}
    (hhere : FirstHere status ass₀ pre s) (hpre : ∀ node ∈ pre, node.body.Legible)
    (hnode : node.body.Legible) : Fails (firstPassNode node s) fun f => f = .exit ∨
      f = .table ∧ 16 < (layoutOf (pre ++ [node])).labels.length := by
  obtain ⟨line, body⟩ := node
  cases hnode with
  | label x hx =>
    refine (firstPassLabel_fails hhere hpre rfl hx.1 line).mono fun f hf => Or.inr ⟨hf.1, ?_⟩
    rw [layoutOf_concat, Layout.after_label _ line rfl, List.length_append]
    exact Nat.lt_succ_of_le hf.2
  | dir type operand hoperand =>
    cases type with
    | string =>
      refine .guard fun hstring => ?_
      obtain ⟨x, rfl⟩ := type_string.mp (not_not.mp hstring)
      exact .guard fun _ => .ok
    | data | text => exact .guard fun _ => .ok
    | _ => exact .guard fun _ => .guard fun _ => .ok
  | instr op a b =>
    refine .guard fun _ => .ite (fun _ => .error (Or.inl rfl)) fun _ => .guard fun hhandler => ?_
    rw [Bool.not_eq_true', Bool.not_eq_false] at hhandler
    exact .bind ((hasHandler_sized hhandler).mono fun _ => False.elim) fun _ _ => .ok

theorem firstPass_fails (hsmall : ∀ node ∈ irList.nodes, Small node) :
    Fails (assemblerFirstPass status ass₀ irList) fun f => f = .exit ∨
      f = .table ∧ 16 < (layoutOf irList.nodes).labels.length := by
  refine .bind (runPass_fails (P := FirstHere status ass₀) (.start status ass₀) ?_ ?_) fun _ _ =>
    .guard fun _ => .ok
  · exact fun pre node post s₁ s₂ _ hhere hnode => hhere.step (firstPassNode_step hnode)
  · intro pre node post s₁ hsplit hhere
    have hlegible : ∀ n ∈ pre ++ node :: post, n.body.Legible :=
      fun n hn => (hsmall n (hsplit ▸ hn)).legible
    have hle : (layoutOf (pre ++ [node])).Le (layoutOf irList.nodes) :=
      layoutOf_le (hsplit.trans (List.append_cons _ _ _))
    refine (firstPassNode_fails hhere (fun n hn => hlegible n (List.mem_append_left _ hn))
      (hlegible node (List.mem_append_right _ List.mem_cons_self))).mono fun f hf => ?_
    exact hf.imp_right fun ⟨htable, hmany⟩ => ⟨htable, hmany.trans_le hle.labels.length_le⟩

theorem lookup_answers (hsmall : ∀ node ∈ irList.nodes, Small node)
    (h₁ : assemblerFirstPass status ass₀ irList = .ok (.ok, ass₁)) {x : Ident}
    (hx : nul ∈ x.str) : ∃ r, getSymbolAddr ass₁.symtable x.str = .ok r := by
  have htable := symbols_terminated (fun node hnode => (hsmall node hnode).legible)
    (firstPass_result h₁).table
  obtain ⟨found, hfound⟩ := findSymbol_total hx htable
  rw [getSymbolAddr, hfound]
  exact ⟨_, rfl⟩

/-- An instruction without operands exits on a status that is not set. -/
theorem secondPassNode_tests {node : IRNode} {s : SecondPass} (htests : node.body.tests = true)
    (hstatus : s.status ≠ .ok) : Fails (secondPassNode node s) (· = .exit) := by
  obtain ⟨line, body⟩ := node
  cases body with
  | instr op a b =>
    have hset : (getModeFromOperands a b (getArgsCount op) s.status).2 ≠ .ok := by
      rw [tests_iff.mp htests, getModeFromOperands, if_pos rfl]
      split
      · simp
      · exact hstatus
    exact .guard fun _ => .ite (fun _ => .error rfl) fun hok => absurd hset hok
  | _ => cases htests

/-- What the first pass has accepted has a place for every byte. -/
theorem secondPass_fails (hsmall : ∀ node ∈ irList.nodes, Small node)
    (hfew : irList.nodes.length ≤ 128)
    (h₁ : assemblerFirstPass status₁ ass₀ irList = .ok (.ok, ass₁)) :
    Fails (assemblerSecondPass status₂ ass₁ irList) (· = .exit) := by
  refine .bind (runPass_fails (P := SecondHere status₂ ass₁ (layoutOf irList.nodes).address)
    (.start status₂ ass₁ _) ?_ ?_) fun _ _ => .ok
  · exact fun pre node post s₁ s₂ hsplit hhere hnode => hhere.step h₁ hsplit hnode
  · intro pre node post s₁ hsplit hhere
    by_cases hstatus : node.body.tests = true → s₁.status = .ok
    · have hmem : node ∈ irList.nodes := by
        rw [hsplit]
        exact List.mem_append_right _ List.mem_cons_self
      have hlegible := (hsmall node hmem).legible
      obtain ⟨r, s', hnode, -⟩ := hhere.answers h₁ hsplit (data_lt_of_small hsmall hfew)
        (fun x hx => lookup_answers hsmall h₁ (hlegible.ref hx)) hlegible.stocked hstatus
      rw [hnode]
      exact .ok
    · obtain ⟨htests, hstatus⟩ := Classical.not_imp.mp hstatus
      exact secondPassNode_tests htests hstatus

end

/-! ## `main_bsm` -/

theorem chk_fails {fails : Bool} : Fails (chk fails) (· = .exit) := by
  cases fails with
  | false => exact .ok
  | true => exact .error rfl

/-- The file of an image is written, or a call fails. -/
theorem write_image_fails {nodes : List IRNode} (h : Sized nodes) (calls : Calls) :
    Fails (writeBinaryFile calls (imageOf nodes)) (· = .exit) := by
  obtain ⟨hcode, hdata⟩ := header_sizes h
  have hbytes : ∀ {array : List Byte} {n : Nat}, array.length = n →
      Fails (writeBytes array n) (· = .exit) := by
    intro array n hn
    rw [writeBytes, if_neg (by omega)]
    exact .ok
  refine .bind chk_fails fun _ _ => .bind chk_fails fun _ _ => .bind chk_fails fun _ _ => ?_
  refine .bind (hbytes (h.code.trans hcode.symm)) fun _ _ => .bind chk_fails fun _ _ => ?_
  exact .bind (hbytes (h.stored.trans hdata.symm)) fun _ _ => .bind chk_fails fun _ _ => .ok

/-- There are too many lines, or too many labels, for a table. -/
def Outgrows (host : ParserHost) (source : List Byte) (closes : Bool) : Prop :=
  Crowded host source ∨ ∃ nodes, parser host (some source) closes = .ok nodes ∧
    16 < (layoutOf nodes).labels.length

theorem mainBsm_fails (hblank : Blank host) (status₁ status₂ : AsmError) (calls : Calls)
    (source : List Byte) (closes : Bool) :
    Fails (mainBsm host status₁ status₂ calls (some source) closes) fun f =>
      f = .exit ∨ f = .table ∧ Outgrows host source closes := by
  rw [mainBsm]
  split
  · next f hparse =>
    refine .error ((parser_fails source closes f hparse).imp_right fun hf => ?_)
    exact ⟨hf.1, Or.inl hf.2⟩
  · next nodes hparse =>
    let irList : IRList := { nodes := nodes, fits := fits_of_few (parser_few hparse) }
    have hsmall : ∀ node ∈ irList.nodes, Small node := parser_small hblank hparse
    refine .bind ((firstPass_fails hsmall).mono fun f hf => ?_) ?_
    · exact hf.imp_right fun hf => ⟨hf.1, Or.inr ⟨nodes, hparse, hf.2⟩⟩
    rintro ⟨r₁, ass₁⟩ h₁
    refine .ite (fun _ => .error (Or.inl rfl)) fun hr₁ => ?_
    obtain rfl : r₁ = .ok := not_not.mp hr₁
    refine .bind ((secondPass_fails hsmall (parser_few hparse) h₁).mono fun _ => Or.inl) ?_
    rintro ⟨r₂, ass₂⟩ h₂
    refine .ite (fun _ => .error (Or.inl rfl)) fun hr₂ => ?_
    obtain rfl : r₂ = .ok := not_not.mp hr₂
    rw [binary_image h₁ h₂, Except.ok_bind]
    exact (write_image_fails (sized h₁ h₂) calls).mono fun _ => Or.inl

/-- Of a source that outgrows a table no file is written. -/
theorem mainBsm_not_outgrows {status₁ status₂ : AsmError} {calls : Calls} {source file : List Byte}
    {closes : Bool} (h : mainBsm host status₁ status₂ calls (some source) closes = .ok file) :
    ¬ Outgrows host source closes := by
  rw [mainBsm] at h
  split at h
  · cases h
  · next nodes hparse =>
    rintro (hcrowded | ⟨nodes', hparse', hmany⟩)
    · exact parser_not_crowded hparse hcrowded
    · cases hparse.symm.trans hparse'
      obtain ⟨⟨r₁, ass₁⟩, h₁, h⟩ := Except.bind_eq_ok.mp h
      obtain ⟨hr₁, -⟩ := exit_or.mp h
      obtain rfl : r₁ = .ok := not_not.mp hr₁
      exact absurd (firstPass_ok_iff.mp ⟨ass₁, h₁⟩).few (Nat.not_le.mpr hmany)

/-- **`main_bsm` on any file**: it writes a file, or exits, or the source outgrows one of
two tables. -/
theorem mainBsm_faults (host : ParserHost) (status₁ status₂ : AsmError) (calls : Calls)
    (source : List Byte) (closes : Bool) (hblank : Blank host) :
    (∃ file, mainBsm host status₁ status₂ calls (some source) closes = .ok file ∧
        ¬ Outgrows host source closes) ∨
      mainBsm host status₁ status₂ calls (some source) closes = .error .exit ∨
      mainBsm host status₁ status₂ calls (some source) closes = .error .table ∧
        Outgrows host source closes := by
  cases hmain : mainBsm host status₁ status₂ calls (some source) closes with
  | ok file => exact Or.inl ⟨file, rfl, mainBsm_not_outgrows hmain⟩
  | error f =>
    right
    rcases mainBsm_fails hblank status₁ status₂ calls source closes f hmain with rfl | ⟨rfl, hwhy⟩
    · exact Or.inl rfl
    · exact Or.inr ⟨rfl, hwhy⟩

/-- A block of zeros. -/
def zeroBlock : ParserHost where
  ptr _ _ := 0
  fresh _ := zeroNode

/-- `ADD [` ends in a message, with what is left of the buffer behind it. -/
theorem mainBsm_faults_bracket :
    let source := [chr 'A', chr 'D', chr 'D', chr ' ', chr '[']
    (∃ file, mainBsm zeroBlock .ok .ok noFailure (some source) true = .ok file ∧
        ¬ Outgrows zeroBlock source true) ∨
      mainBsm zeroBlock .ok .ok noFailure (some source) true = .error .exit ∨
      mainBsm zeroBlock .ok .ok noFailure (some source) true = .error .table ∧
        Outgrows zeroBlock source true :=
  mainBsm_faults zeroBlock .ok .ok noFailure _ true
    ⟨fun _ => .instr _ trivial trivial, fun _ => ⟨trivial, trivial⟩⟩

end BSVM
