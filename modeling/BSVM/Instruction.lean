/-
# `BSVM.Instruction` — `instructions.h`, and what the host contributes

`Host` collects everything a step depends on that is not in `struct VM`: what
the C library answers, and the values C leaves unspecified (a local variable
that is not set, a shift whose count is out of range, an overlapping
`memcpy`).  A statement quantified over hosts holds whatever these are.

The operand checks that open almost every handler are written once, as
combinators: `dataIMM` and `dataREG` fetch a value, `atDIR`, `atIND` and
`atIDX` an address in or above the data segment.  A handler that checks
something else, or in another order, is written out where it belongs.
-/
import BSVM.Memory

namespace BSVM

/-! ## `instructions.h` -/

/-- `OP_CODE`, in its order. -/
inductive OpCode where
  | add | sub | mul | div | cmp | neg
  | and | or | xor | not | shl | shr
  | st | ld | swp | push | pop | fas
  | call | rtn | nop | rst
  | jmp | jeq | jne | jle | jlt | jge | jgt
  | halt | trap
  deriving DecidableEq, Repr

/-- `MODE`, in its order; a C variable of the type can hold any number. -/
inductive Mode where
  | none | imm | regu | reg | dir | ind | idx
  | other (raw : Nat)
  deriving DecidableEq, Repr

def OpCode.all : List OpCode :=
  [.add, .sub, .mul, .div, .cmp, .neg, .and, .or, .xor, .not, .shl, .shr, .st, .ld, .swp, .push,
    .pop, .fas, .call, .rtn, .nop, .rst, .jmp, .jeq, .jne, .jle, .jlt, .jge, .jgt, .halt, .trap]

def Mode.all : List Mode :=
  [.none, .imm, .regu, .reg, .dir, .ind, .idx]

@[simp] abbrev OP_COUNT : Nat := 31
@[simp] abbrev MODE_COUNT : Nat := 7

/-- `OP_COUNT` and above have no operation. -/
def OpCode.ofByte? (b : Byte) : Option OpCode :=
  OpCode.all[b.toNat]?

def Mode.ofByte (b : Byte) : Mode :=
  (Mode.all[b.toNat]?).getD (.other b.toNat)

/-- `mode_size[mode]`. -/
def modeSize : Mode → Exec Nat
  | .none => .ok 2
  | .imm => .ok 11
  | .regu => .ok 3
  | .reg => .ok 4
  | .dir => .ok 11
  | .ind => .ok 4
  | .idx => .ok 12
  | .other _ => .error .table

/-- `struct Instruction`; `args` is the union of `offset` and `imm`. -/
structure Instruction where
  opcode : OpCode
  mode : Mode
  a : Byte
  b : Byte
  args : Word
  deriving DecidableEq, Repr

/-- `struct Instruction instr = {0}`. -/
def zeroInstr : Instruction := { opcode := .add, mode := .none, a := 0, b := 0, args := 0 }

abbrev InstrHandler := VM → Instruction → Exec Result

/-- `getArgsCount`. -/
def getArgsCount : OpCode → Nat
  | .add | .sub | .mul | .div | .cmp | .and | .or | .xor | .shl | .shr => 2
  | .st | .ld | .swp | .fas => 2
  | .neg | .not | .push | .pop | .call => 1
  | .jmp | .jeq | .jne | .jle | .jlt | .jge | .jgt => 1
  | .rtn | .nop | .rst | .halt | .trap => 0

/-! ## The host -/

/-- What one step takes from outside the machine. -/
structure Host where
  /-- what the local `instr` of `cpu_step` holds before it is decoded into -/
  instr : Instruction
  /-- what the local `ptr` of `syscallMALLOC` holds before `vm_alloc` -/
  ptr : Word
  /-- `a << n` and `a >> n` for a count outside `0 .. 63`, if they have a value -/
  shl : Word → Word → Option Word
  shr : Word → Word → Option Word
  /-- what `memcpy` leaves where source and destination overlap -/
  overlap : Nat → Byte
  /-- what the library function called by the step returns -/
  ret : Word
  /-- what that function stores -/
  bytes : List Byte
  /-- the number `scanf` converts, if it converts one -/
  scanned : Option Word

/-- A host that answers `0` and evaluates no shift out of range. -/
instance : Inhabited Host where
  default :=
    { instr := { opcode := .nop, mode := .none, a := 0, b := 0, args := 0 }
      ptr := 0
      shl := fun _ _ => none
      shr := fun _ _ => none
      overlap := fun _ => 0
      ret := 0
      bytes := []
      scanned := none }

/-! ## Operands

`op vm a value` is the part of a handler after its value has been fetched,
`op vm a addr` after its address has. -/

abbrev DataOp := VM → Byte → Word → Exec Result
abbrev AddrOp := VM → Byte → Word → Exec Result

def dataIMM (op : DataOp) : InstrHandler := fun vm i =>
  if N_REG ≤ i.a.toNat then .ok (.illRegister, vm)
  else op vm i.a i.args

def dataREG (op : DataOp) : InstrHandler := fun vm i =>
  if N_REG ≤ i.a.toNat ∨ N_REG ≤ i.b.toNat then .ok (.illRegister, vm)
  else do
    let b ← vm.getReg i.b
    op vm i.a b

/-- The check that opens every access to guest memory: code is not data. -/
def inData (op : AddrOp) : AddrOp := fun vm a addr =>
  if addr.toNat < DATA_BASE then .ok (.illMemAccess, vm)
  else op vm a addr

def atDIR (op : AddrOp) : InstrHandler := fun vm i =>
  if N_REG ≤ i.a.toNat then .ok (.illRegister, vm)
  else inData op vm i.a i.args

def atIND (op : AddrOp) : InstrHandler := fun vm i =>
  if N_REG ≤ i.a.toNat ∨ N_REG ≤ i.b.toNat then .ok (.illRegister, vm)
  else do
    let b ← vm.getReg i.b
    inData op vm i.a b

def atIDX (op : AddrOp) : InstrHandler := fun vm i =>
  if N_REG ≤ i.a.toNat ∨ N_REG ≤ i.b.toNat then .ok (.illRegister, vm)
  else do
    let b ← vm.getReg i.b
    inData op vm i.a (b + i.args)

/-- `op` on the word at the address.  `value` is set before it is used, so
what the local holds before the call does not matter. -/
def onWord (op : DataOp) : AddrOp := fun vm a addr => do
  let (status, value) ← memRead64 vm addr 0
  if status = .ok then op vm a value
  else return (status, vm)

/-! ## Register accesses that are in bounds -/

/-- The value of a register that exists. -/
def VM.reg (vm : VM) (k : Byte) : Word :=
  if h : k.toNat < N_REG then vm.registers ⟨k.toNat, h⟩ else 0

theorem VM.getReg_reg {vm : VM} {k : Byte} (h : k.toNat < N_REG) :
    vm.getReg k = .ok (vm.reg k) := by
  rw [VM.getReg, VM.reg, dif_pos h, dif_pos h]

theorem VM.getReg_lt {vm : VM} {k : Byte} (h : k.toNat < N_REG) :
    vm.getReg k = .ok (vm.registers ⟨k.toNat, h⟩) :=
  dif_pos h

theorem VM.getReg_ge {vm : VM} {k : Byte} (h : N_REG ≤ k.toNat) :
    vm.getReg k = .error .registers :=
  dif_neg (Nat.not_lt.mpr h)

theorem VM.setReg_lt {vm : VM} {k : Byte} {v : Word} (h : k.toNat < N_REG) :
    vm.setReg k v = .ok { vm with registers := Function.update vm.registers ⟨k.toNat, h⟩ v } :=
  dif_pos h

theorem VM.setReg_ge {vm : VM} {k : Byte} {v : Word} (h : N_REG ≤ k.toNat) :
    vm.setReg k v = .error .registers :=
  dif_neg (Nat.not_lt.mpr h)

theorem getReg_cases {vm : VM} {k : Byte} {v : Word} (h : vm.getReg k = .ok v) :
    k.toNat < N_REG ∧ v = vm.reg k := by
  rw [VM.getReg] at h
  split at h
  · next hk =>
      cases h
      exact ⟨hk, by rw [VM.reg, dif_pos hk]⟩
  · cases h

theorem setReg_cases {vm vm' : VM} {k : Byte} {v : Word} (h : vm.setReg k v = .ok vm') :
    ∃ hk : k.toNat < N_REG,
      vm' = { vm with registers := Function.update vm.registers ⟨k.toNat, hk⟩ v } := by
  rw [VM.setReg] at h
  split at h
  · next hk =>
      cases h
      exact ⟨hk, rfl⟩
  · cases h

end BSVM
