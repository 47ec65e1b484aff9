/-
# `BSVM.Passes` — what one round of a pass does

`FirstStep` and `SecondStep` list the rounds that end well, and what they
change.  Nothing below this module looks at the passes again.
-/
import BSVM.Listing

namespace BSVM

/-! ## Names and symbols -/

theorem strEq_eq {s t : List Byte} {r : Bool} (h : strEq s t = .ok r) :
    r = (cName s == cName t) := by
  induction s generalizing t with
  | nil => cases h
  | cons a s ih =>
      cases t with
      | nil => cases h
      | cons b t =>
          rw [strEq] at h
          split at h
          · next hab =>
              cases h
              refine (beq_eq_false_iff_ne.mpr fun heq => hab ?_).symm
              -- a NUL ends a name and starts none
              by_cases ha : a = 0
              · by_cases hb : b = 0
                · exact ha.trans hb.symm
                · rw [ha, cName_nul, cName_cons t hb] at heq
                  cases heq
              · by_cases hb : b = 0
                · rw [hb, cName_nul, cName_cons s ha] at heq
                  cases heq
                · rw [cName_cons s ha, cName_cons t hb] at heq
                  exact (List.cons.inj heq).1
          · next hab =>
              obtain rfl := not_not.mp hab
              split at h
              · next ha =>
                  cases h
                  rw [ha, cName_nul, cName_nul]
                  rfl
              · next ha =>
                  rw [ih h, cName_cons s ha, cName_cons t ha, List.cons_beq_cons, beq_self_eq_true,
                    Bool.true_and]

theorem findSymbol_eq {s : List Byte} {table : List Symbol} {r : Option Symbol}
    (h : findSymbol s table = .ok r) :
    r = table.find? fun symbol => cName s == cName symbol.string := by
  induction table with
  | nil =>
      cases h
      rfl
  | cons symbol table ih =>
      rw [findSymbol] at h
      obtain ⟨found, hfound, h⟩ := Except.bind_eq_ok.mp h
      obtain rfl := strEq_eq hfound
      split at h
      · next heq =>
          cases h
          rw [List.find?_cons, heq]
      · next hne =>
          rw [List.find?_cons, Bool.eq_false_iff.mpr hne]
          exact ih h

/-- The two have the same names, and addresses that agree. -/
def Represents (table : List Symbol) (labels : List (List Byte × Nat)) : Prop :=
  table = labels.map fun label => { string := label.1, addr := BitVec.ofNat 64 label.2 }

theorem getSymbolAddr_eq {symtable : SymbolTable} {L : Layout} {x : Ident} {r : Option Word}
    (htable : Represents symtable.table L.labels)
    (h : getSymbolAddr symtable x.str = .ok r) : r = L.address x := by
  rw [getSymbolAddr] at h
  obtain ⟨symbol, hfind, h⟩ := Except.bind_eq_ok.mp h
  cases h
  rw [findSymbol_eq hfind, htable, List.find?_map, Layout.address, Option.map_map]
  rfl

/-! ## Arrays -/

theorem storeAll_cases {array array' : HostArray} {cursor : Word} {bytes : List Byte}
    (hc : cursor.toNat ≤ array.size.toNat) (h : array.storeAll cursor bytes = .ok array') :
    cursor.toNat + bytes.length ≤ array.size.toNat ∧
      array' = { array with stores := array.stores ++ bytes.zipIdx cursor.toNat } := by
  induction bytes generalizing array cursor with
  | nil =>
      cases h
      refine ⟨hc, ?_⟩
      rw [List.zipIdx_nil, List.append_nil]
  | cons byte bytes ih =>
      rw [HostArray.storeAll] at h
      obtain ⟨array₁, hstore, h⟩ := Except.bind_eq_ok.mp h
      rw [HostArray.store] at hstore
      split at hstore
      · next hlt =>
          cases hstore
          have hsize := array.size.isLt
          have hnext : (cursor + 1).toNat = cursor.toNat + 1 :=
            toNat_add_ofNat (n := 1) (by omega)
          obtain ⟨hend, rfl⟩ := ih (by rw [hnext]; exact hlt) h
          rw [hnext] at hend ⊢
          refine ⟨?_, ?_⟩
          · rw [List.length_cons]
            dsimp only at hend
            omega
          · rw [List.zipIdx_cons, List.append_assoc]
            rfl
      · cases hstore

theorem storeAll_ok {array : HostArray} {cursor : Word} {bytes : List Byte}
    (h : cursor.toNat + bytes.length ≤ array.size.toNat) :
    ∃ array', array.storeAll cursor bytes = .ok array' := by
  induction bytes generalizing array cursor with
  | nil => exact ⟨array, rfl⟩
  | cons byte bytes ih =>
      rw [List.length_cons] at h
      have hsize := array.size.isLt
      have hnext : (cursor + 1).toNat = cursor.toNat + 1 := toNat_add_ofNat (n := 1) (by omega)
      rw [HostArray.storeAll, HostArray.store, if_pos (by omega), Except.ok_bind]
      refine ih ?_
      rw [hnext]
      dsimp only
      omega

/-! ## Operands -/

theorem getArgsCount_cases (op : OpCode) :
    getArgsCount op = 0 ∨ getArgsCount op = 1 ∨ getArgsCount op = 2 := by
  cases op <;> decide

/-- The mode of operands that are accepted. -/
theorem getModeFromOperands_ok {op : OpCode} {a b : Operand} {status : AsmError} {mode : Mode}
    (h : getModeFromOperands a b (getArgsCount op) status = (mode, .ok)) :
    instrMode op a b = some mode := by
  rw [getModeFromOperands] at h
  rcases getArgsCount_cases op with hn | hn | hn
  all_goals
    rw [hn] at h
    unfold instrMode
    rw [hn]
  · rw [if_pos rfl] at h
    split at h
    · cases h
    · next hnone =>
        rw [not_or, not_not, not_not] at hnone
        obtain ⟨ha, hb⟩ := hnone
        rw [type_none.mp ha, type_none.mp hb]
        cases h
        rfl
  · rw [if_neg (by decide)] at h
    split at h
    · cases h
    · next hmany =>
        obtain rfl : b = .none := type_none.mp (not_not.mp fun hb => hmany ⟨rfl, hb⟩)
        split at h
        · next hreg =>
            obtain ⟨r, rfl⟩ := type_reg.mp hreg.2
            cases h
            rfl
        · next hreg =>
            cases a with
            | reg r => exact absurd ⟨rfl, rfl⟩ hreg
            | _ => cases h <;> rfl
  · rw [if_neg (by decide), if_neg (by simp), if_neg (by simp)] at h
    dsimp only at h
    rw [if_neg (show ¬ (2 : Nat) = 1 by decide)] at h
    by_cases ha : a.type = .reg
    · obtain ⟨r, rfl⟩ := type_reg.mp ha
      cases b with
      | _ => cases h <;> rfl
    · split at h
      · cases h
      · split at h
        · cases h
        · rw [if_pos ⟨rfl, ha⟩] at h
          cases h

/-- The `switch` on the last operand, on a structure where what it sets is zero. -/
theorem setOperand_ok {symtable : SymbolTable} {L : Layout} {n : Nat} {ope : Operand}
    {zeroed instr : Instruction} (htable : Represents symtable.table L.labels)
    (hbase : zeroed.setBase n 0 = zeroed) (hargs : zeroed.args = 0)
    (h : setOperand symtable n ope zeroed = .ok (some instr)) :
    ∃ word, ope.word L.address = some word ∧
      instr = { zeroed.setBase n ope.base with args := word } := by
  have hlabel : ∀ {x : Ident} {f : Word → Word}, (do
        return (← getSymbolAddr symtable x.str).map fun addr => { zeroed with args := f addr }) =
        (.ok (some instr) : Exec (Option Instruction)) →
      ∃ word, (L.address x).map f = some word ∧ instr = { zeroed with args := word } := by
    intro x f h
    obtain ⟨addr, haddr, h⟩ := Except.bind_eq_ok.mp h
    obtain rfl := getSymbolAddr_eq htable haddr
    obtain ⟨addr, haddr, rfl⟩ := Option.map_eq_some_iff.mp (Except.ok.inj h)
    exact ⟨f addr, by rw [haddr]; rfl, rfl⟩
  cases ope with
  | string x => cases h
  | none =>
      cases h
      exact ⟨0, rfl, by rw [Operand.base, hbase, ← hargs]⟩
  | value | memValue =>
      cases h
      exact ⟨_, rfl, by rw [Operand.base, hbase]⟩
  | reg r | memReg r =>
      cases h
      refine ⟨0, rfl, ?_⟩
      rw [Operand.base, Instruction.setBase]
      split <;> rw [← hargs]
  | memIdx =>
      cases h
      exact ⟨_, rfl, rfl⟩
  | ident x | memIdent x =>
      obtain ⟨word, hword, rfl⟩ := hlabel (f := id) h
      rw [Option.map_id] at hword
      exact ⟨word, hword, by rw [Operand.base, hbase]⟩
  | memIdxIdent x k =>
      obtain ⟨word, hword, rfl⟩ := hlabel h
      exact ⟨word, hword, by rw [Operand.base, hbase]⟩

/-- What the second pass makes of an instruction is what it denotes. -/
theorem denote_ok {symtable : SymbolTable} {L : Layout} {op : OpCode} {a b : Operand}
    {status : AsmError} {mode : Mode} {r : Byte} {instr : Instruction}
    (htable : Represents symtable.table L.labels)
    (hmode : getModeFromOperands a b (getArgsCount op) status = (mode, .ok))
    (hr : firstReg (getArgsCount op) a = .ok r)
    (h : setOperand symtable (getArgsCount op) (if getArgsCount op ≤ 1 then a else b)
      { zeroInstr with opcode := op, mode := mode, a := r } = .ok (some instr)) :
    denote L.address op a b = some instr := by
  have hm := getModeFromOperands_ok hmode
  rw [denote_iff]
  rw [firstReg] at hr
  by_cases hn : getArgsCount op = 2
  · rw [if_pos hn] at hr
    rw [hn, if_neg (by decide)] at h
    obtain ⟨word, hword, rfl⟩ := setOperand_ok htable rfl rfl h
    have ha : r = a.base := by
      rcases instrMode_cases hm with ⟨h0, -⟩ | ⟨h1, -⟩ | ⟨-, ⟨r', rfl⟩, -⟩
      · exact absurd (hn.symm.trans h0) (by decide)
      · exact absurd (hn.symm.trans h1) (by decide)
      · cases hr
        rfl
    rw [if_pos hn, if_pos hn, ha]
    exact ⟨mode, word, hm, hword, rfl⟩
  · have hle : getArgsCount op ≤ 1 := by
      rcases getArgsCount_cases op with h | h | h
      · omega
      · omega
      · exact absurd h hn
    rw [if_neg hn] at hr
    cases hr
    rw [if_pos hle] at h
    have hbase : ∀ i : Instruction, i.setBase (getArgsCount op) = i.setBase 0 := by
      intro i
      funext r
      rw [Instruction.setBase, if_pos hle]
      rfl
    obtain ⟨word, hword, rfl⟩ := setOperand_ok htable (by rw [hbase]; rfl) rfl h
    rw [if_neg hn, if_neg hn, hbase]
    exact ⟨mode, word, hm, hword, rfl⟩

/-! ## The first pass -/

/-- The operand of a directive that adds data. -/
inductive DataForm : DirType → Operand → Prop
  | byte (v : Word) : DataForm .byte (.value v)
  | word (v : Word) : DataForm .word (.value v)
  | wordIdent (x : Ident) : DataForm .word (.ident x)
  | addr (v : Word) : DataForm .addr (.value v)
  | addrIdent (x : Ident) : DataForm .addr (.ident x)
  | string (x : Ident) : DataForm .string (.string x)

theorem DataForm.after {type : DirType} {operand : Operand} (h : DataForm type operand) (L : Layout)
    (line : Word) :
    L.after ⟨line, .dir type operand⟩ = { L with data := L.data + dirSize type operand } := by
  cases h <;> rfl

inductive FirstStep (s : FirstPass) : IRBody → FirstPass → Prop
  | label {name : Operand} {x : Ident} {symtable : SymbolTable} (hx : name.asIdent = .ok x)
      (hnew : isInSymbolTable s.ass.symtable x.str = .ok false) (hsect : s.sect ≠ .undefined)
      (hadd : addToSymbolTable s.ass.symtable { string := x.str
                                                addr := if s.sect = .data then s.dataAddr
                                                  else s.textAddr } = .ok symtable) :
      FirstStep s (.label name) { s with ass.symtable := symtable }
  | data {type : DirType} {operand : Operand} (hform : DataForm type operand)
      (hsect : s.sect = .data) : FirstStep s (.dir type operand)
        { s with dataAddr := s.dataAddr + BitVec.ofNat 64 (dirSize type operand) }
  | toData : FirstStep s (.dir .data .none) { s with sect := .data }
  | toText : FirstStep s (.dir .text .none) { s with sect := .text }
  | entry {x : Ident} (hfirst : s.entryOk = false) :
      FirstStep s (.dir .entry (.ident x)) { s with entryOk := true }
  | instr {op : OpCode} {a b : Operand} {mode : Mode} {size : Nat} (hsect : s.sect = .text)
      (hmode : getModeFromOperands a b (getArgsCount op) s.status = (mode, .ok))
      (hhandler : hasHandler op mode = true) (hsize : modeSize mode = .ok size) :
      FirstStep s (.instr op a b)
        { s with status := .ok, textAddr := s.textAddr + BitVec.ofNat 64 size }

theorem firstPassLabel_step {name : Operand} {s s' : FirstPass}
    (h : firstPassLabel name s = .ok (.ok, s')) : FirstStep s (.label name) s' := by
  rw [firstPassLabel] at h
  obtain ⟨x, hx, h⟩ := Except.bind_eq_ok.mp h
  obtain ⟨found, hfound, h⟩ := Except.bind_eq_ok.mp h
  obtain ⟨hnew, h⟩ := (early_iff (by decide)).mp h
  obtain ⟨hsect, h⟩ := (early_iff (by decide)).mp h
  obtain ⟨symtable, hadd, h⟩ := Except.bind_eq_ok.mp h
  cases h
  rw [Bool.not_eq_true] at hnew
  rw [hnew] at hfound
  exact .label hx hfound hsect hadd

theorem firstPassDir_step {type : DirType} {operand : Operand} {s s' : FirstPass}
    (h : firstPassDir type operand s = .ok (.ok, s')) : FirstStep s (.dir type operand) s' := by
  cases type with
  | byte =>
      obtain ⟨hform, h⟩ := (early_iff (by decide)).mp h
      obtain ⟨hsect, h⟩ := (early_iff (by decide)).mp h
      cases h
      obtain ⟨v, rfl⟩ := type_value.mp (not_not.mp hform)
      exact .data (.byte v) (not_not.mp hsect)
  | word =>
      obtain ⟨hform, h⟩ := (early_iff (by decide)).mp h
      obtain ⟨hsect, h⟩ := (early_iff (by decide)).mp h
      cases h
      rcases value_or_ident hform with ⟨v, rfl⟩ | ⟨x, rfl⟩
      · exact .data (.word v) (not_not.mp hsect)
      · exact .data (.wordIdent x) (not_not.mp hsect)
  | addr =>
      obtain ⟨hform, h⟩ := (early_iff (by decide)).mp h
      obtain ⟨hsect, h⟩ := (early_iff (by decide)).mp h
      cases h
      rcases value_or_ident hform with ⟨v, rfl⟩ | ⟨x, rfl⟩
      · exact .data (.addr v) (not_not.mp hsect)
      · exact .data (.addrIdent x) (not_not.mp hsect)
  | string =>
      obtain ⟨hform, h⟩ := (early_iff (by decide)).mp h
      obtain ⟨x, rfl⟩ := type_string.mp (not_not.mp hform)
      obtain ⟨_, hx, h⟩ := Except.bind_eq_ok.mp h
      cases hx
      obtain ⟨hsect, h⟩ := (early_iff (by decide)).mp h
      cases h
      have hlength : x.length = BitVec.ofNat 64 (dirSize .string (.string x)) :=
        BitVec.eq_of_toNat_eq (Nat.mod_eq_of_lt x.length.isLt).symm
      rw [hlength]
      exact .data (.string x) (not_not.mp hsect)
  | entry =>
      obtain ⟨hform, h⟩ := (early_iff (by decide)).mp h
      obtain ⟨hfirst, h⟩ := (early_iff (by decide)).mp h
      cases h
      obtain ⟨x, rfl⟩ := type_ident.mp (not_not.mp hform)
      exact .entry (Bool.not_eq_true _ ▸ hfirst)
  | data =>
      obtain ⟨hform, h⟩ := (early_iff (by decide)).mp h
      obtain rfl := type_none.mp (not_not.mp hform)
      cases h
      exact .toData
  | text =>
      obtain ⟨hform, h⟩ := (early_iff (by decide)).mp h
      obtain rfl := type_none.mp (not_not.mp hform)
      cases h
      exact .toText

theorem firstPassInstr_step {op : OpCode} {a b : Operand} {s s' : FirstPass}
    (h : firstPassInstr op a b s = .ok (.ok, s')) : FirstStep s (.instr op a b) s' := by
  obtain ⟨hsect, h⟩ := (early_iff (by decide)).mp h
  dsimp only at h
  split at h
  · cases h
  · next hstatus =>
      obtain ⟨hhandler, h⟩ := (early_iff (by decide)).mp h
      obtain ⟨size, hsize, h⟩ := Except.bind_eq_ok.mp h
      cases h
      rw [not_not] at hstatus
      rw [hstatus]
      refine .instr (not_not.mp hsect) (Prod.ext rfl hstatus) ?_ hsize
      rw [Bool.not_eq_true', Bool.not_eq_false] at hhandler
      exact hhandler

/-- A round of the first pass that ends well. -/
theorem firstPassNode_step {node : IRNode} {s s' : FirstPass}
    (h : firstPassNode node s = .ok (.ok, s')) :
    FirstStep { s with ass.errorLine := node.line } node.body s' := by
  rw [firstPassNode] at h
  obtain ⟨line, body⟩ := node
  cases body with
  | label name => exact firstPassLabel_step h
  | dir type operand => exact firstPassDir_step h
  | instr op a b => exact firstPassInstr_step h

/-! ## The second pass -/

/-- What the second pass stores for a directive. -/
inductive Stored (symtable : SymbolTable) : DirType → Operand → List Byte → Prop
  | byte {operand : Operand} {v : Word} (hv : operand.asValue = .ok v) :
      Stored symtable .byte operand [v.setWidth 8]
  | word {operand : Operand} {v : Word} (hv : operand.asValue = .ok v) :
      Stored symtable .word operand (encodeArgs v)
  | addrValue {operand : Operand} {v : Word} (htype : operand.type ≠ .ident)
      (hv : operand.asValue = .ok v) : Stored symtable .addr operand (encodeArgs v)
  | addr {x : Ident} {addr : Word} (haddr : getSymbolAddr symtable x.str = .ok (some addr)) :
      Stored symtable .addr (.ident x) (addrBytes addr)
  | string {operand : Operand} {x : Ident} (hx : operand.asIdent = .ok x)
      (hlength : x.length.toNat ≤ x.str.length) :
      Stored symtable .string operand (x.str.take x.length.toNat)

inductive SecondStep (s : SecondPass) : IRBody → SecondPass → Prop
  | label {name : Operand} : SecondStep s (.label name) s
  | data {type : DirType} {operand : Operand} {bytes : List Byte} {data : HostArray}
      (hsect : s.sect = .data) (hbytes : Stored s.ass.symtable type operand bytes)
      (hdata : s.ass.data.storeAll s.dataAddr bytes = .ok data) :
      SecondStep s (.dir type operand) { s with
        ass.data := data
        dataAddr := s.dataAddr + BitVec.ofNat 64 bytes.length }
  | toData {operand : Operand} : SecondStep s (.dir .data operand) { s with sect := .data }
  | toText {operand : Operand} : SecondStep s (.dir .text operand) { s with sect := .text }
  | entry {operand : Operand} {x : Ident} {addr : Word} (hx : operand.asIdent = .ok x)
      (haddr : getSymbolAddr s.ass.symtable x.str = .ok (some addr)) :
      SecondStep s (.dir .entry operand) { s with ass.headers.entryPoint := addr }
  | instr {op : OpCode} {a b : Operand} {mode : Mode} {reg : Byte} {instr : Instruction}
      {size : Nat} {bytecode : HostArray} (hsect : s.sect = .text)
      (hmode : getModeFromOperands a b (getArgsCount op) s.status = (mode, .ok))
      (hreg : firstReg (getArgsCount op) a = .ok reg)
      (hset : setOperand s.ass.symtable (getArgsCount op) (if getArgsCount op ≤ 1 then a else b)
        { zeroInstr with opcode := op, mode := mode, a := reg } = .ok (some instr))
      (hstore : s.ass.bytecode.storeAll s.textAddr
        (instructionEncode instr (s.ass.headers.codeSize - s.textAddr).toNat).2 = .ok bytecode)
      (hsize : modeSize instr.mode = .ok size) :
      SecondStep s (.instr op a b) { s with
        ass.bytecode := bytecode
        status := .ok
        textAddr := s.textAddr + BitVec.ofNat 64 size }

theorem addrBytes_length (addr : Word) : (addrBytes addr).length = 8 := by
  simp [addrBytes]

/-- A directive that the first pass accepts stores as many bytes as it counts. -/
theorem Stored.length {symtable : SymbolTable} {type : DirType} {operand : Operand}
    {bytes : List Byte} (h : Stored symtable type operand bytes) (hform : DataForm type operand) :
    bytes.length = dirSize type operand := by
  cases h with
  | byte hv => rfl
  | word hv => exact encodeArgs_length _
  | addrValue htype hv => exact encodeArgs_length _
  | addr haddr => exact addrBytes_length _
  | string hx hlength =>
      cases hform with
      | string x =>
          cases hx
          rw [List.length_take, Nat.min_eq_left hlength]
          rfl

theorem secondPassWord_step {operand : Operand} {s s' : SecondPass} {type : DirType}
    (h : secondPassWord operand s = .ok (.ok, s'))
    (hword : ∀ v, operand.asValue = .ok v → Stored s.ass.symtable type operand (encodeArgs v)) :
    SecondStep s (.dir type operand) s' := by
  obtain ⟨hsect, h⟩ := (early_iff (by decide)).mp h
  obtain ⟨v, hv, h⟩ := Except.bind_eq_ok.mp h
  obtain ⟨data, hdata, h⟩ := Except.bind_eq_ok.mp h
  cases h
  have hstep := SecondStep.data (not_not.mp hsect) (hword v hv) hdata
  rw [encodeArgs_length] at hstep
  exact hstep

theorem secondPassDir_step {type : DirType} {operand : Operand} {s s' : SecondPass}
    (h : secondPassDir type operand s = .ok (.ok, s')) : SecondStep s (.dir type operand) s' := by
  cases type with
  | byte =>
      obtain ⟨hsect, h⟩ := (early_iff (by decide)).mp h
      obtain ⟨v, hv, h⟩ := Except.bind_eq_ok.mp h
      obtain ⟨data, hdata, h⟩ := Except.bind_eq_ok.mp h
      cases h
      exact .data (not_not.mp hsect) (.byte hv) hdata
  | word => exact secondPassWord_step h fun v hv => .word hv
  | addr =>
      obtain ⟨hsect, h⟩ := (early_iff (by decide)).mp h
      split at h
      · next htype =>
          obtain ⟨x, rfl⟩ := type_ident.mp htype
          obtain ⟨_, hx, h⟩ := Except.bind_eq_ok.mp h
          cases hx
          obtain ⟨found, hfound, h⟩ := Except.bind_eq_ok.mp h
          cases found with
          | none => cases h
          | some addr =>
              obtain ⟨data, hdata, h⟩ := Except.bind_eq_ok.mp h
              cases h
              have hstep := SecondStep.data (not_not.mp hsect) (.addr hfound) hdata
              rw [addrBytes_length] at hstep
              exact hstep
      · next htype => exact secondPassWord_step h fun v hv => .addrValue htype hv
  | string =>
      obtain ⟨hsect, h⟩ := (early_iff (by decide)).mp h
      obtain ⟨x, hx, h⟩ := Except.bind_eq_ok.mp h
      split at h
      · cases h
      · next hshort =>
          obtain ⟨data, hdata, h⟩ := Except.bind_eq_ok.mp h
          cases h
          have hlength := Nat.not_lt.mp hshort
          have hstep := SecondStep.data (not_not.mp hsect) (.string hx hlength) hdata
          rw [List.length_take, Nat.min_eq_left hlength, BitVec.ofNat_toNat,
            BitVec.setWidth_eq] at hstep
          exact hstep
  | entry =>
      obtain ⟨x, hx, h⟩ := Except.bind_eq_ok.mp h
      obtain ⟨found, hfound, h⟩ := Except.bind_eq_ok.mp h
      cases found with
      | none => cases h
      | some addr =>
          cases h
          exact .entry hx hfound
  | data =>
      cases h
      exact .toData
  | text =>
      cases h
      exact .toText

theorem secondPassInstr_step {op : OpCode} {a b : Operand} {s s' : SecondPass}
    (h : secondPassInstr op a b s = .ok (.ok, s')) : SecondStep s (.instr op a b) s' := by
  obtain ⟨hsect, h⟩ := (early_iff (by decide)).mp h
  dsimp only at h
  split at h
  · cases h
  · next hstatus =>
      obtain ⟨reg, hreg, h⟩ := Except.bind_eq_ok.mp h
      obtain ⟨found, hfound, h⟩ := Except.bind_eq_ok.mp h
      cases found with
      | none => cases h
      | some instr =>
          obtain ⟨bytecode, hstore, h⟩ := Except.bind_eq_ok.mp h
          obtain ⟨size, hsize, h⟩ := Except.bind_eq_ok.mp h
          cases h
          rw [not_not] at hstatus
          rw [hstatus]
          exact .instr (not_not.mp hsect) (Prod.ext rfl hstatus) hreg hfound hstore hsize

/-- A round of the second pass that ends well. -/
theorem secondPassNode_step {node : IRNode} {s s' : SecondPass}
    (h : secondPassNode node s = .ok (.ok, s')) :
    SecondStep { s with ass.errorLine := node.line } node.body s' := by
  rw [secondPassNode] at h
  obtain ⟨line, body⟩ := node
  cases body with
  | label name =>
      cases h
      exact .label
  | dir type operand => exact secondPassDir_step h
  | instr op a b => exact secondPassInstr_step h

end BSVM
