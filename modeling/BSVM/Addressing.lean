/-
# `BSVM.Addressing` — the modes of a data instruction are one operation

What each mode is, in terms of another:

    REG b       IMM with the value of register b
    DIR x       VM_ILL_MEM_ACCESS below the data segment and where the word at
                x is not in memory, IMM with that word otherwise
    IND b       DIR at the value of register b
    IDX b, o    DIR at that value plus o

ST and SWP have no value to fetch, so only the last two lines are about them.
Seven addresses break the second line: from 2^64 - 7 on, the bounds test of
`memRead64` wraps and lets them through.
-/
import BSVM.Cpu
import BSVM.Operand

namespace BSVM

/-! ## The forms

The fields that a mode does not use are those of `rest`, whatever they are. -/

section
variable (rest : Instruction) (op : OpCode) (a b : Byte) (v : Word)

def immForm : Instruction := { rest with opcode := op, mode := .imm, a := a, args := v }
def regForm : Instruction := { rest with opcode := op, mode := .reg, a := a, b := b }
def dirForm : Instruction := { rest with opcode := op, mode := .dir, a := a, args := v }
def indForm : Instruction := { rest with opcode := op, mode := .ind, a := a, b := b }
def idxForm : Instruction := { opcode := op, mode := .idx, a := a, b := b, args := v }

end

/-- The operations with the five modes. -/
def dataOps : List OpCode :=
  [.add, .sub, .mul, .div, .cmp, .and, .or, .xor, .shl, .shr, .ld]

theorem dataOp_of_mem (host : Host) {op : OpCode} (h : op ∈ dataOps) :
    ∃ f, dataOp host op = some f := by
  cases op
  case add | sub | mul | div | cmp | and | or | xor | shl | shr | ld => exact ⟨_, rfl⟩
  all_goals exact absurd h (by decide)

/-! ## Data instructions -/

section
variable {host : Host} {vm : VM} {f : DataOp} {i i' : Instruction}

/-- A data instruction is its operation on its operand. -/
theorem execute_data (hop : dataOp host i.opcode = some f)
    (hm : i.mode = .imm ∨ i.mode = .reg ∨ i.mode = .dir ∨ i.mode = .ind ∨ i.mode = .idx)
    (ha : i.a.toNat < N_REG) :
    execute host vm i = do
      let (status, y) ← operand vm i
      if status = .ok then f vm i.a y else return (status, vm) := by
  have hhandler : ∃ handler, getHandler host i.opcode i.mode = some handler := by
    rw [getHandler, dispatch_dataOp hop]
    rcases hm with hm | hm | hm | hm | hm
    all_goals
      rw [hm]
      exact ⟨_, rfl⟩
  obtain ⟨handler, hh⟩ := hhandler
  rw [execute, hh]
  show handler vm i = _
  rw [data_handler_eq hop hh, if_neg (Nat.not_le.mpr ha)]

end

section
variable {host : Host} {vm : VM} {op : OpCode} {f : DataOp} {a b : Byte}
  (hop : dataOp host op = some f) (ha : a.toNat < N_REG)
include hop ha

theorem execute_imm (rest : Instruction) (v : Word) :
    execute host vm (immForm rest op a v) = f vm a v :=
  execute_data (i := immForm rest op a v) hop (Or.inl rfl) ha

theorem execute_dir (rest : Instruction) (x : Word) :
    execute host vm (dirForm rest op a x) = do
      let (status, y) ← wordAt vm x
      if status = .ok then f vm a y else return (status, vm) :=
  execute_data (i := dirForm rest op a x) hop (by simp [dirForm]) ha

/-- The three modes with a base register. -/
theorem execute_reg (hb : b.toNat < N_REG) (rest : Instruction) :
    execute host vm (regForm rest op a b) = f vm a (vm.reg b) := by
  rw [execute_data (i := regForm rest op a b) hop (by simp [regForm]) ha]
  have hoperand : operand vm (regForm rest op a b) = .ok (.ok, vm.reg b) := by
    simp only [operand, regForm, if_neg (Nat.not_le.mpr hb), VM.getReg_reg hb, Except.ok_bind,
      Except.pure_eq]
  rw [hoperand]
  rfl

theorem execute_ind (hb : b.toNat < N_REG) (rest rest' : Instruction) :
    execute host vm (indForm rest op a b) = execute host vm (dirForm rest' op a (vm.reg b)) := by
  rw [execute_data (i := indForm rest op a b) hop (by simp [indForm]) ha, execute_dir hop ha]
  have hoperand : operand vm (indForm rest op a b) = wordAt vm (vm.reg b) := by
    simp only [operand, indForm, if_neg (Nat.not_le.mpr hb), VM.getReg_reg hb, Except.ok_bind]
  rw [hoperand]
  rfl

theorem execute_idx (hb : b.toNat < N_REG) (rest' : Instruction) (o : Word) :
    execute host vm (idxForm op a b o) =
      execute host vm (dirForm rest' op a (vm.reg b + o)) := by
  rw [execute_data (i := idxForm op a b o) hop (by simp [idxForm]) ha, execute_dir hop ha]
  have hoperand : operand vm (idxForm op a b o) = wordAt vm (vm.reg b + o) := by
    simp only [operand, idxForm, if_neg (Nat.not_le.mpr hb), VM.getReg_reg hb, Except.ok_bind]
  rw [hoperand]
  rfl

/-! ## The word at an address -/

theorem execute_dir_word {x : Word} (h₁ : DATA_BASE ≤ x.toNat) (h₂ : x.toNat + 7 < MEM_SIZE)
    (rest rest' : Instruction) :
    execute host vm (dirForm rest op a x) =
      execute host vm (immForm rest' op a (readWord vm.memory x.toNat)) := by
  have hword : wordAt vm x = .ok (.ok, readWord vm.memory x.toNat) := by
    rw [wordAt, if_neg (Nat.not_lt.mpr h₁), memRead64_inside h₂]
  rw [execute_dir hop ha, execute_imm hop ha, hword]
  rfl

theorem execute_dir_refused {x : Word} (h : x.toNat < DATA_BASE ∨ MEM_SIZE ≤ (x + 7).toNat)
    (rest : Instruction) :
    execute host vm (dirForm rest op a x) = .ok (.illMemAccess, vm) := by
  have hword : wordAt vm x = .ok (.illMemAccess, 0) := by
    rw [wordAt]
    split
    · rfl
    · next hdata => rw [memRead64_eq, if_pos (h.resolve_left hdata)]
  rw [execute_dir hop ha, hword]
  rfl

/-- Past the end of the address space the bounds test passes and the read is
outside the array. -/
theorem execute_dir_wrapped {x : Word} (h : 2 ^ 64 ≤ x.toNat + 7) (rest : Instruction) :
    execute host vm (dirForm rest op a x) = .error .memory := by
  have hlt := x.isLt
  have hseven : (x + 7).toNat = x.toNat + 7 - 2 ^ 64 := by
    rw [toNat_add_seven, if_neg (Nat.not_lt.mpr h)]
  have hword : wordAt vm x = .error .memory := by
    rw [wordAt, if_neg (by simp; omega), memRead64_eq, hseven, if_neg (by simp; omega),
      if_neg (by simp; omega)]
  rw [execute_dir hop ha, hword]
  rfl

end

/-! ## Stores and swaps -/

/-- `ST` and `SWP` are an operation on an address, under the three modes. -/
theorem execute_store (host : Host) (vm : VM) {op : OpCode} {a : Byte} (b : Byte)
    (hop : op = .st ∨ op = .swp) (ha : a.toNat < N_REG) :
    ∃ f, (∀ rest x, execute host vm (dirForm rest op a x) = inData f vm a x) ∧
      (b.toNat < N_REG →
        (∀ rest, execute host vm (indForm rest op a b) = inData f vm a (vm.reg b)) ∧
        ∀ o, execute host vm (idxForm op a b o) = inData f vm a (vm.reg b + o)) := by
  have hdir : ∀ f x rest, atDIR f vm (dirForm rest op a x) = inData f vm a x :=
    fun f x rest => if_neg (Nat.not_le.mpr ha)
  have hind : ∀ f rest, b.toNat < N_REG →
      atIND f vm (indForm rest op a b) = inData f vm a (vm.reg b) := by
    intro f rest hb
    have hno : ¬ (N_REG ≤ a.toNat ∨ N_REG ≤ b.toNat) := by omega
    have hget : vm.getReg b = _ := VM.getReg_reg hb
    simp only [atIND, indForm, if_neg hno, hget, Except.ok_bind]
  have hidx : ∀ f o, b.toNat < N_REG →
      atIDX f vm (idxForm op a b o) = inData f vm a (vm.reg b + o) := by
    intro f o hb
    have hno : ¬ (N_REG ≤ a.toNat ∨ N_REG ≤ b.toNat) := by omega
    have hget : vm.getReg b = _ := VM.getReg_reg hb
    simp only [atIDX, idxForm, if_neg hno, hget, Except.ok_bind]
  rcases hop with rfl | rfl
  · exact ⟨bodyST, fun rest x => hdir _ x rest,
      fun hb => ⟨fun rest => hind _ rest hb, fun o => hidx _ o hb⟩⟩
  · exact ⟨bodySWP, fun rest x => hdir _ x rest,
      fun hb => ⟨fun rest => hind _ rest hb, fun o => hidx _ o hb⟩⟩

/-! ## All modes -/

/-- The four lines of the table, for one address `x` of the form DIR. -/
structure ModesAgree (host : Host) (vm : VM) (op : OpCode) (a b : Byte) (o x : Word) : Prop where
  reg : op ∈ dataOps → ∀ rest rest',
    execute host vm (regForm rest op a b) = execute host vm (immForm rest' op a (vm.reg b))
  refused : op ∈ dataOps → x.toNat < DATA_BASE ∨ ¬ x.toNat + 7 < MEM_SIZE → ∀ rest,
    execute host vm (dirForm rest op a x) = .ok (.illMemAccess, vm)
  word : op ∈ dataOps → DATA_BASE ≤ x.toNat → x.toNat + 7 < MEM_SIZE → ∀ rest rest',
    execute host vm (dirForm rest op a x) =
      execute host vm (immForm rest' op a (readWord vm.memory x.toNat))
  ind : ∀ rest rest',
    execute host vm (indForm rest op a b) = execute host vm (dirForm rest' op a (vm.reg b))
  idx : ∀ rest',
    execute host vm (idxForm op a b o) = execute host vm (dirForm rest' op a (vm.reg b + o))

/-- **The modes of a data instruction agree, except at the seven addresses
from which a word wraps.** -/
theorem modes_agree_iff (host : Host) (vm : VM) (op : OpCode) (a b : Byte) (o x : Word) :
    op ∈ dataOps ∨ op = .st ∨ op = .swp → a.toNat < N_REG → b.toNat < N_REG →
      (ModesAgree host vm op a b o x ↔ (op ∈ dataOps → x.toNat + 7 < 2 ^ 64)) := by
  intro hop ha hb
  rcases hop with hop | hop
  · obtain ⟨f, hf⟩ := dataOp_of_mem host hop
    constructor
    · intro h _
      refine Nat.not_le.mp fun hwrap => ?_
      have hrefused := h.refused hop (Or.inr (by simp; omega)) host.instr
      rw [execute_dir_wrapped hf ha hwrap] at hrefused
      cases hrefused
    · intro hx
      have hseven : (x + 7).toNat = x.toNat + 7 := by
        rw [toNat_add_seven, if_pos (hx hop)]
      refine ⟨fun _ rest rest' => ?_, fun _ h rest => ?_, fun _ h₁ h₂ => ?_, ?_, ?_⟩
      · rw [execute_reg hf ha hb, execute_imm hf ha]
      · refine execute_dir_refused hf ha (h.imp_right fun h => ?_) rest
        rw [hseven]
        exact Nat.not_lt.mp h
      · exact execute_dir_word hf ha h₁ h₂
      · exact execute_ind hf ha hb
      · exact fun rest' => execute_idx hf ha hb rest' o
  · have hno : op ∉ dataOps := by
      rcases hop with rfl | rfl
      · decide
      · decide
    obtain ⟨f, hdir, hmem⟩ := execute_store host vm b hop ha
    refine ⟨fun _ h => absurd h hno, fun _ => ⟨fun h => absurd h hno, fun h => absurd h hno,
      fun h => absurd h hno, fun rest rest' => ?_, fun rest' => ?_⟩⟩
    · rw [(hmem hb).1, hdir]
    · rw [(hmem hb).2, hdir]

theorem modes_agree_add : ModesAgree default initVM .add 0 1 8 1024 :=
  (modes_agree_iff default initVM .add 0 1 8 1024 (Or.inl (by decide)) (by decide)
    (by decide)).mpr fun _ => by decide

/-- `ADD R0, [2^64 - 1]` reads outside the array. -/
theorem add_wraps : ¬ ModesAgree default initVM .add 0 0 0 (-1) := by
  intro h
  have hop : dataOp default .add = some bodyADD := rfl
  have hrefused := h.refused (by decide) (Or.inr (by decide)) (default : Host).instr
  rw [execute_dir_wrapped hop (by decide) (by decide)] at hrefused
  cases hrefused

end BSVM
