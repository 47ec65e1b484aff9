/-
# `BSVM.Operand` — the addressing modes of the data instructions

Eleven rows of the dispatch table differ only in the operation that is done
on the operand (`dataOp`).  `operand` is what the mode of the row fetches,
or the status with which it refuses, and `data_handler_eq` is the one fact
the rest of the development uses about the fifty-five handlers:

    register a out of range    VM_ILL_REGISTER
    operand refused            its status
    operand `y`                the operation on register a and `y`
-/
import BSVM.Dispatch

namespace BSVM

/-! ## What a mode fetches -/

/-- The word at an address of a data access. -/
def wordAt (vm : VM) (addr : Word) : Exec (VmError × Word) :=
  if addr.toNat < DATA_BASE then .ok (.illMemAccess, 0) else memRead64 vm addr 0

/-- The operand of a data instruction, under a status that is `VM_OK` when it
was fetched. -/
def operand (vm : VM) (i : Instruction) : Exec (VmError × Word) :=
  match i.mode with
  | .imm => .ok (.ok, i.args)
  | .dir => wordAt vm i.args
  | mode =>
      if N_REG ≤ i.b.toNat then .ok (.illRegister, 0)
      else do
        let b ← vm.getReg i.b
        match mode with
        | .ind => wordAt vm b
        | .idx => wordAt vm (b + i.args)
        | _ => return (.ok, b)

/-- The operations with a row of five data modes. -/
def dataOp (host : Host) : OpCode → Option DataOp
  | .add => some bodyADD
  | .sub => some bodySUB
  | .mul => some bodyMUL
  | .div => some bodyDIV
  | .cmp => some bodyCMP
  | .and => some bodyAND
  | .or => some bodyOR
  | .xor => some bodyXOR
  | .shl => some (bodySHL host)
  | .shr => some (bodySHR host)
  | .ld => some bodyLD
  | _ => none

/-! ## One equation for all of them -/

theorem dispatch_dataOp {host : Host} {opcode : OpCode} {op : DataOp}
    (h : dataOp host opcode = some op) :
    dispatch host opcode = rowData (dataIMM op) (dataREG op) (atDIR (onWord op))
      (atIND (onWord op)) (atIDX (onWord op)) := by
  cases opcode <;> cases h <;> rfl

theorem inData_onWord (op : DataOp) (vm : VM) (a : Byte) (addr : Word) :
    inData (onWord op) vm a addr = do
      let (status, y) ← wordAt vm addr
      if status = .ok then op vm a y else return (status, vm) := by
  rw [inData, wordAt]
  split
  · rfl
  · rfl

/-- The five modes of a row, as one. -/
theorem data_handler_eq {host : Host} {opcode : OpCode} {op : DataOp} {handler : InstrHandler}
    {i : Instruction} (hop : dataOp host opcode = some op)
    (hh : getHandler host opcode i.mode = some handler) (vm : VM) :
    handler vm i =
      if N_REG ≤ i.a.toNat then .ok (.illRegister, vm)
      else do
        let (status, y) ← operand vm i
        if status = .ok then op vm i.a y else return (status, vm) := by
  rw [getHandler, dispatch_dataOp hop] at hh
  by_cases ha : N_REG ≤ i.a.toNat
  · rw [if_pos ha]
    cases hm : i.mode <;> rw [hm] at hh <;> cases hh
    · exact if_pos ha
    · exact if_pos (Or.inl ha)
    · exact if_pos ha
    · exact if_pos (Or.inl ha)
    · exact if_pos (Or.inl ha)
  · rw [if_neg ha]
    by_cases hb : N_REG ≤ i.b.toNat
    · cases hm : i.mode <;> rw [hm] at hh <;> cases hh
      · simp only [dataIMM, operand, hm, if_neg ha, Except.ok_bind, if_true]
      · simp only [operand, hm, if_pos hb, Except.ok_bind]
        exact if_pos (Or.inr hb)
      · simp only [atDIR, operand, hm, if_neg ha, inData_onWord]
      · simp only [operand, hm, if_pos hb, Except.ok_bind]
        exact if_pos (Or.inr hb)
      · simp only [operand, hm, if_pos hb, Except.ok_bind]
        exact if_pos (Or.inr hb)
    · have hab : ¬ (N_REG ≤ i.a.toNat ∨ N_REG ≤ i.b.toNat) := by tauto
      have hget : vm.getReg i.b = _ := VM.getReg_lt (Nat.not_le.mp hb)
      cases hm : i.mode <;> rw [hm] at hh <;> cases hh
      · simp only [dataIMM, operand, hm, if_neg ha, Except.ok_bind, if_true]
      · simp only [dataREG, operand, hm, if_neg hab, if_neg hb, hget, Except.ok_bind,
          Except.pure_eq, if_true]
      · simp only [atDIR, operand, hm, if_neg ha, inData_onWord]
      · simp only [atIND, operand, hm, if_neg hab, if_neg hb, hget, Except.ok_bind,
          inData_onWord]
      · simp only [atIDX, operand, hm, if_neg hab, if_neg hb, hget, Except.ok_bind,
          inData_onWord]

end BSVM
