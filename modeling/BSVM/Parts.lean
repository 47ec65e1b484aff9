/-
# `BSVM.Parts` — a listing as two sections

A listing switches between its sections.  `part sect` is what it adds to one
of them, in order, and `entries` are its entry directives; where the switches
stand is forgotten.  What the layout of a listing comes to depends on the two
parts only, as long as each holds what belongs there (`Arranged`):

    text     labels and instructions
    data     labels and data directives
-/
import BSVM.Passes

namespace BSVM

/-! ## The parts -/

/-- The section behind a node. -/
def IRBody.sect (cur : Section) : IRBody → Section
  | .dir .text _ => .text
  | .dir .data _ => .data
  | _ => cur

/-- A node that belongs to the section it stands in. -/
def IRBody.content : IRBody → Bool
  | .dir .text _ | .dir .data _ | .dir .entry _ => false
  | _ => true

/-- What the nodes add to section `sect`, when they begin in section `cur`. -/
def part (sect : Section) : Section → List IRNode → List IRBody
  | _, [] => []
  | cur, node :: nodes =>
      if cur = sect ∧ node.body.content then node.body :: part sect cur nodes
      else part sect (node.body.sect cur) nodes

abbrev textPart (nodes : List IRNode) : List IRBody :=
  part .text .undefined nodes

abbrev dataPart (nodes : List IRNode) : List IRBody :=
  part .data .undefined nodes

def IRBody.entry? : IRBody → Option Operand
  | .dir .entry operand => some operand
  | _ => none

def entries (nodes : List IRNode) : List Operand :=
  nodes.filterMap fun node => node.body.entry?

/-- The section directives have no operand. -/
def Bare (nodes : List IRNode) : Prop :=
  ∀ node ∈ nodes, ∀ operand,
    node.body = .dir .text operand ∨ node.body = .dir .data operand → operand = .none

theorem sect_after (L : Layout) (node : IRNode) : (L.after node).sect = node.body.sect L.sect := by
  obtain ⟨line, body⟩ := node
  cases body with
  | label name =>
      dsimp only [Layout.after]
      cases name.asIdent <;> rfl
  | dir type operand =>
      cases type with
      | entry =>
          dsimp only [Layout.after]
          cases operand.asIdent <;> rfl
      | _ => rfl
  | instr op a b => rfl

theorem content_sect {body : IRBody} (h : body.content = true) (cur : Section) :
    body.sect cur = cur := by
  cases body with
  | dir type operand => cases type <;> first | rfl | cases h
  | _ => rfl

theorem part_foldl (sect : Section) (L : Layout) (nodes : List IRNode) (node : IRNode) :
    part sect L.sect (nodes ++ [node]) = part sect L.sect nodes ++
      if (nodes.foldl Layout.after L).sect = sect ∧ node.body.content then [node.body] else [] := by
  induction nodes generalizing L with
  | nil =>
      rw [List.nil_append, part, List.foldl_nil, part]
      split <;> rfl
  | cons first nodes ih =>
      have hrest := ih (L.after first)
      rw [sect_after] at hrest
      rw [List.cons_append, part, part, List.foldl_cons]
      split
      · next h =>
          rw [content_sect h.2] at hrest
          rw [hrest, List.cons_append]
      · exact hrest

/-- One node more. -/
theorem part_concat (sect : Section) (nodes : List IRNode) (node : IRNode) :
    part sect .undefined (nodes ++ [node]) = part sect .undefined nodes ++
      if (layoutOf nodes).sect = sect ∧ node.body.content then [node.body] else [] :=
  part_foldl sect .start nodes node

section
variable {sect : Section} {nodes : List IRNode} {node : IRNode}

theorem part_concat_mem (hsect : (layoutOf nodes).sect = sect) (hcontent : node.body.content) :
    part sect .undefined (nodes ++ [node]) = part sect .undefined nodes ++ [node.body] := by
  rw [part_concat, if_pos ⟨hsect, hcontent⟩]

theorem part_concat_skip (h : ¬ ((layoutOf nodes).sect = sect ∧ node.body.content)) :
    part sect .undefined (nodes ++ [node]) = part sect .undefined nodes := by
  rw [part_concat, if_neg h, List.append_nil]

end

theorem entries_concat (nodes : List IRNode) (node : IRNode) :
    entries (nodes ++ [node]) = entries nodes ++ node.body.entry?.toList := by
  rw [entries, entries, List.filterMap_append]
  refine congrArg _ ?_
  rw [List.filterMap_cons]
  cases node.body.entry? <;> rfl

/-! ## Names, sizes and labels -/

def IRBody.name? : IRBody → Option (List Byte)
  | .label name => name.asIdent.toOption.map Ident.str
  | _ => none

def names (bodies : List IRBody) : List (List Byte) :=
  bodies.filterMap IRBody.name?

def IRBody.size : IRBody → Nat
  | .instr op a b => instrSize op a b
  | .dir type operand => dirSize type operand
  | .label _ => 0

def total (bodies : List IRBody) : Nat :=
  (bodies.map IRBody.size).sum

/-- The labels of a section that begins at `base`. -/
def labelsFrom (base : Nat) : List IRBody → List (List Byte × Nat)
  | [] => []
  | body :: bodies =>
      body.name?.toList.map (fun name => (name, base)) ++ labelsFrom (base + body.size) bodies

theorem total_concat (bodies : List IRBody) (body : IRBody) :
    total (bodies ++ [body]) = total bodies + body.size := by
  rw [total, total, List.map_append, List.sum_append]
  exact congrArg _ (Nat.add_zero _)

theorem labelsFrom_concat (base : Nat) (bodies : List IRBody) (body : IRBody) :
    labelsFrom base (bodies ++ [body]) = labelsFrom base bodies ++
      body.name?.toList.map fun name => (name, base + total bodies) := by
  induction bodies generalizing base with
  | nil => exact List.append_nil _
  | cons first bodies ih =>
      have htotal : base + total (first :: bodies) = base + first.size + total bodies := by
        rw [total, List.map_cons, List.sum_cons, Nat.add_assoc]
        rfl
      rw [List.cons_append, labelsFrom, ih, ← List.append_assoc, htotal]
      rfl

/-! ## What belongs where -/

/-- What may stand in a section. -/
inductive Fits : Section → IRBody → Prop
  | textLabel {name : Operand} {x : Ident} (hx : name.asIdent = .ok x) : Fits .text (.label name)
  | dataLabel {name : Operand} {x : Ident} (hx : name.asIdent = .ok x) : Fits .data (.label name)
  | instr {op : OpCode} {a b : Operand} {mode : Mode} (hmode : instrMode op a b = some mode)
      (hhandler : hasHandler op mode = true) : Fits .text (.instr op a b)
  | dir {type : DirType} {operand : Operand} (hform : DataForm type operand) :
      Fits .data (.dir type operand)

/-- Every node stands in a section that it may stand in. -/
def Tidy (nodes : List IRNode) : Prop :=
  ∀ sect, ∀ body ∈ part sect .undefined nodes, Fits sect body

theorem tidy_concat {nodes : List IRNode} {node : IRNode} :
    Tidy (nodes ++ [node]) ↔
      Tidy nodes ∧ (node.body.content = true → Fits (layoutOf nodes).sect node.body) := by
  constructor
  · intro h
    refine ⟨fun sect body hmem => h sect body ?_, fun hcontent => h _ _ ?_⟩
    · rw [part_concat]
      exact List.mem_append_left _ hmem
    · rw [part_concat_mem rfl hcontent]
      exact List.mem_append_right _ (List.mem_singleton_self _)
  · rintro ⟨htidy, hfits⟩ sect body hmem
    rw [part_concat] at hmem
    rcases List.mem_append.mp hmem with hmem | hmem
    · exact htidy sect body hmem
    · split at hmem
      · next h =>
          obtain rfl := List.mem_singleton.mp hmem
          exact h.1 ▸ hfits h.2
      · cases hmem

/-! ## The layout of a tidy listing -/

def Section.base (sect : Section) : Nat :=
  if sect = .data then DATA_BASE else 0

theorem name_label {name : Operand} {x : Ident} (hx : name.asIdent = .ok x) :
    (IRBody.label name).name? = some x.str := by
  rw [IRBody.name?, hx]
  rfl

theorem name_other {body : IRBody} (h : body.content = false) : body.name? = none := by
  cases body with
  | label name => cases h
  | _ => rfl

theorem Fits.content {sect : Section} {body : IRBody} (h : Fits sect body) :
    body.content = true := by
  cases h with
  | dir hform => cases hform <;> rfl
  | _ => rfl

/-- A node moves the place of its section, by its size. -/
theorem Fits.place {L : Layout} {node : IRNode} (h : Fits L.sect node.body) {sect : Section}
    (hsect : sect ≠ .undefined) :
    (L.after node).place sect = L.place sect + if L.sect = sect then node.body.size else 0 := by
  obtain ⟨line, body⟩ := node
  generalize hL : L.sect = cur at h ⊢
  cases h with
  | textLabel hx | dataLabel hx =>
      rw [L.after_label line hx]
      split <;> rfl
  | instr hmode hhandler =>
      cases sect with
      | undefined => exact absurd rfl hsect
      | text => rfl
      | data => rfl
  | dir hform =>
      rw [hform.after L line]
      cases sect with
      | undefined => exact absurd rfl hsect
      | text => rfl
      | data => exact (Nat.add_assoc _ _ _).symm

/-- The other nodes move none. -/
theorem place_other {L : Layout} {node : IRNode} (h : node.body.content = false) (sect : Section) :
    (L.after node).place sect = L.place sect := by
  obtain ⟨line, body⟩ := node
  cases body with
  | label name => cases h
  | dir type operand =>
      cases type with
      | text | data => rfl
      | entry =>
          dsimp only [Layout.after]
          cases operand.asIdent <;> rfl
      | _ => cases h
  | instr op a b => cases h

theorem labels_after (L : Layout) (node : IRNode) :
    (L.after node).labels =
      L.labels ++ node.body.name?.toList.map fun name => (name, L.here) := by
  obtain ⟨line, body⟩ := node
  cases body with
  | label name =>
      dsimp only [Layout.after, IRBody.name?]
      cases name.asIdent with
      | ok x => rfl
      | error e => exact (List.append_nil _).symm
  | dir type operand =>
      refine Eq.trans ?_ (List.append_nil _).symm
      cases type with
      | entry =>
          dsimp only [Layout.after]
          cases operand.asIdent <;> rfl
      | _ => rfl
  | instr op a b => exact (List.append_nil _).symm

/-- Every label is the name of some node. -/
theorem label_node {nodes : List IRNode} {label : List Byte × Nat}
    (h : label ∈ (layoutOf nodes).labels) : ∃ node ∈ nodes, node.body.name? = some label.1 := by
  induction nodes using List.reverseRecOn with
  | nil => cases h
  | append_singleton nodes node ih =>
      rw [layoutOf_concat, labels_after] at h
      rcases List.mem_append.mp h with h | h
      · obtain ⟨node', hnode', hname⟩ := ih h
        exact ⟨node', List.mem_append_left _ hnode', hname⟩
      · obtain ⟨name, hname, rfl⟩ := List.mem_map.mp h
        refine ⟨node, List.mem_append_right _ (List.mem_singleton_self _), ?_⟩
        exact Option.mem_toList.mp hname

/-- The layout, as far as it does not depend on the switches. -/
structure Totals (nodes : List IRNode) (L : Layout) : Prop where
  place : ∀ sect ≠ .undefined, L.place sect = sect.base + total (part sect .undefined nodes)
  labels : L.labels.Perm
    (labelsFrom 0 (textPart nodes) ++ labelsFrom DATA_BASE (dataPart nodes))

theorem Tidy.totals {nodes : List IRNode} (h : Tidy nodes) : Totals nodes (layoutOf nodes) := by
  induction nodes using List.reverseRecOn with
  | nil =>
      refine ⟨fun sect hsect => ?_, .nil⟩
      cases sect with
      | undefined => exact absurd rfl hsect
      | text | data => rfl
  | append_singleton nodes node ih =>
      obtain ⟨htidy, hfits⟩ := tidy_concat.mp h
      obtain ⟨hplace, hlabels⟩ := ih htidy
      rw [layoutOf_concat]
      by_cases hcontent : node.body.content = true
      · have hnode := hfits hcontent
        refine ⟨fun sect hsect => ?_, ?_⟩
        · rw [hnode.place hsect, hplace sect hsect, Nat.add_assoc]
          by_cases hcur : (layoutOf nodes).sect = sect
          · rw [part_concat_mem hcur hcontent, total_concat, if_pos hcur]
          · rw [part_concat_skip fun h => hcur h.1, if_neg hcur, Nat.add_zero]
        · rw [labels_after]
          -- the new label comes behind those of its section
          cases hcur : (layoutOf nodes).sect with
          | undefined =>
              rw [hcur] at hnode
              cases hnode
          | text =>
              have hhere : (layoutOf nodes).here = 0 + total (textPart nodes) := by
                rw [Layout.here, hcur, hplace .text (by decide)]
                rfl
              have hdata : ¬ ((layoutOf nodes).sect = .data ∧ node.body.content = true) := by
                rintro ⟨hcur', -⟩
                cases hcur.symm.trans hcur'
              rw [textPart, dataPart, part_concat_mem hcur hcontent, part_concat_skip hdata,
                labelsFrom_concat, hhere]
              refine (hlabels.append_right _).trans ?_
              rw [List.append_assoc, List.append_assoc]
              exact List.perm_append_comm.append_left _
          | data =>
              have hhere : (layoutOf nodes).here = DATA_BASE + total (dataPart nodes) := by
                rw [Layout.here, hcur, hplace .data (by decide)]
                rfl
              have htext : ¬ ((layoutOf nodes).sect = .text ∧ node.body.content = true) := by
                rintro ⟨hcur', -⟩
                cases hcur.symm.trans hcur'
              rw [textPart, dataPart, part_concat_mem hcur hcontent, part_concat_skip htext,
                labelsFrom_concat, hhere, ← List.append_assoc]
              exact hlabels.append_right _
      · rw [Bool.not_eq_true] at hcontent
        have hskip : ∀ sect,
            part sect .undefined (nodes ++ [node]) = part sect .undefined nodes :=
          fun sect => part_concat_skip fun h => by rw [hcontent] at h; cases h.2
        refine ⟨fun sect hsect => ?_, ?_⟩
        · rw [place_other hcontent, hplace sect hsect, hskip]
        · rw [labels_after, name_other hcontent, textPart, dataPart, hskip, hskip]
          exact (List.append_nil (layoutOf nodes).labels).symm ▸ hlabels

end BSVM
