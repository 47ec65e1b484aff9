/-
# `BSVM.IR` — the intermediate representation of `parser.h`

An operand is a tagged union.  The passes read some of its members without
looking at the tag; `Operand.asValue` and `Operand.asIdent` are those reads.
A member that shares its bytes with the one that was set has the value of
those bytes, any other has none.
-/
import BSVM.Instruction

namespace BSVM

/-- `struct { char *str; size_t length; }`: the bytes of the object that `str`
points to, and the pointer itself as a number. -/
structure Ident where
  str : List Byte
  ptr : Word
  length : Word
  deriving DecidableEq, Repr

/-- `OperandType`, in its order. -/
inductive OperandType where
  | none | value | reg | ident | string | memIdent | memValue | memReg | memIdx | memIdxIdent
  deriving DecidableEq, Repr

/-- `Operand`: the members that are set for each type. -/
inductive Operand where
  | none
  | value (value : Word)
  | reg (reg : Byte)
  | ident (ident : Ident)
  | string (ident : Ident)
  | memIdent (ident : Ident)
  | memValue (value : Word)
  | memReg (baseReg : Byte)
  | memIdx (baseReg : Byte) (offset : Word)
  | memIdxIdent (ident : Ident) (offset : Word)
  deriving DecidableEq, Repr

/-- `ope->type`. -/
def Operand.type : Operand → OperandType
  | .none => .none
  | .value _ => .value
  | .reg _ => .reg
  | .ident _ => .ident
  | .string _ => .string
  | .memIdent _ => .memIdent
  | .memValue _ => .memValue
  | .memReg _ => .memReg
  | .memIdx _ _ => .memIdx
  | .memIdxIdent _ _ => .memIdxIdent

theorem type_none {operand : Operand} : operand.type = .none ↔ operand = .none := by
  cases operand <;> simp [Operand.type]

theorem type_reg {operand : Operand} : operand.type = .reg ↔ ∃ r, operand = .reg r := by
  cases operand <;> simp [Operand.type]

theorem type_value {operand : Operand} : operand.type = .value ↔ ∃ v, operand = .value v := by
  cases operand <;> simp [Operand.type]

theorem type_ident {operand : Operand} : operand.type = .ident ↔ ∃ x, operand = .ident x := by
  cases operand <;> simp [Operand.type]

theorem type_string {operand : Operand} : operand.type = .string ↔ ∃ x, operand = .string x := by
  cases operand <;> simp [Operand.type]

theorem value_or_ident {operand : Operand}
    (h : ¬ (operand.type ≠ .value ∧ operand.type ≠ .ident)) :
    (∃ v, operand = .value v) ∨ ∃ x, operand = .ident x := by
  rw [not_and_or, not_not, not_not] at h
  exact h.imp type_value.mp type_ident.mp

/-- `ope->reg`: the first byte of whatever was set. -/
def Operand.asReg : Operand → Exec Byte
  | .reg r | .memReg r | .memIdx r _ => .ok r
  | .value v | .memValue v => .ok (v.setWidth 8)
  | .ident x | .string x | .memIdent x | .memIdxIdent x _ => .ok (x.ptr.setWidth 8)
  | .none => .error .uninitialised

/-- `ope->value`: the pointer, where an identifier was set. -/
def Operand.asValue : Operand → Exec Word
  | .value v | .memValue v => .ok v
  | .ident x | .string x | .memIdent x | .memIdxIdent x _ => .ok x.ptr
  | _ => .error .uninitialised

/-- `ope->ident`. -/
def Operand.asIdent : Operand → Exec Ident
  | .ident x | .string x | .memIdent x | .memIdxIdent x _ => .ok x
  | _ => .error .uninitialised

/-- `DirType`, in its order. -/
inductive DirType where
  | string | addr | entry | word | byte | text | data
  deriving DecidableEq, Repr

/-- The union of `struct IR_Node`, under its tag. -/
inductive IRBody where
  | instr (op : OpCode) (a b : Operand)
  | label (name : Operand)
  | dir (type : DirType) (operand : Operand)
  deriving DecidableEq, Repr

/-- `struct IR_Node`. -/
structure IRNode where
  line : Word
  body : IRBody
  deriving DecidableEq, Repr

@[simp] abbrev sizeofIRNode : Nat := 88

/-- `IRList` and `size`: an array of nodes, which is not larger than the
address space. -/
structure IRList where
  nodes : List IRNode
  fits : nodes.length * sizeofIRNode < 2 ^ 64

end BSVM
