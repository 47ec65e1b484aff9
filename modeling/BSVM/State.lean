/-
# `BSVM.State` — the machine of `vm.h`, and `vm.c`'s `initVM` and flag accessors

A C cast between `int64_t` and `uint64_t` keeps the bits, so both are `Word`
here and the cast is the identity: a comparison of the source that is made on
unsigned operands reads `toNat`, one made on signed operands reads `toInt`.

An access outside an array, and every other operation C leaves undefined, has
no next state.  `Exec` keeps such an outcome apart from the status codes the
program returns by itself.
-/
import Mathlib.Algebra.Order.Ring.Int
import Mathlib.Logic.Function.Basic
import BSVM.Lib.Returns

namespace BSVM

abbrev Byte := BitVec 8
abbrev Word := BitVec 64

/-! ## `common.h` -/

@[simp] abbrev MEM_SIZE : Nat := 2048
@[simp] abbrev STACK_BASE : Nat := 1536
@[simp] abbrev HEAP_BASE : Nat := 1280
@[simp] abbrev DATA_BASE : Nat := 1024
@[simp] abbrev N_REG : Nat := 2

/-! ## `vm.h` -/

/-- `VM_Error`. -/
inductive VmError where
  | ok
  | divZero
  | instrPriv
  | instrTrap
  | illMemAccess
  | illRegister
  | stackUnderflow
  | stackOverflow
  | invalidJmp
  | codeLoadOutOfBounds
  | dataLoadOutOfBounds
  | invalidExecutionAddress
  | truncatedInstr
  | unknownInstr
  | unknownSyscall
  | outOfTheHeap
  | heapOutOfMemory
  | memAlreadyFree
  | freeOutOfTheHeap
  deriving DecidableEq, Repr

/-- How the host program can stop having a defined state. -/
inductive Fault where
  /-- an index outside `registers[0 .. N_REG)` -/
  | registers
  /-- an index or a range outside `memory[0 .. MEM_SIZE)` -/
  | memory
  /-- an index outside a dispatch or size table, or outside a host buffer -/
  | table
  /-- a local variable tested before it is set -/
  | uninitialised
  /-- a quotient that does not fit in 64 bits -/
  | division
  /-- a shift whose count is not in `0 .. 63` -/
  | shift
  /-- `exit` -/
  | exit
  deriving DecidableEq, Repr

/-- A computation of the C program: a value, or no defined state. -/
abbrev Exec := Except Fault

/-- `struct MemNode`; the `next` pointer is the list it sits in. -/
structure MemNode where
  begin : Word
  size : Word
  free : Bool
  deriving DecidableEq, Repr

abbrev Memory := Fin MEM_SIZE → Byte

/-- `struct VM`. -/
@[ext] structure VM where
  registers : Fin N_REG → Word
  sp : Word
  pc : Word
  sr : Byte
  memory : Memory
  running : Bool
  memblocks : List MemNode

/-- What a handler returns: its status, and the machine it leaves. -/
abbrev Result := VmError × VM

/-! ## `vm.c` -/

def initVM : VM where
  registers := fun _ => 0
  sp := BitVec.ofNat 64 MEM_SIZE
  pc := 0
  sr := 0x10
  memory := fun _ => 0
  running := true
  memblocks := [{ begin := BitVec.ofNat 64 HEAP_BASE
                  size := BitVec.ofNat 64 (STACK_BASE - HEAP_BASE), free := true }]

@[simp] abbrev M_OVERFLOW : Byte := 0x08
@[simp] abbrev M_NEGATIVE : Byte := 0x04
@[simp] abbrev M_ZERO : Byte := 0x02
@[simp] abbrev M_CARRY : Byte := 0x01

/-- The body of the four flag setters: `mask` is set or cleared in `sr`. -/
def VM.setFlag (vm : VM) (mask : Byte) (value : Bool) : VM :=
  { vm with sr := if value then vm.sr ||| mask else vm.sr &&& ~~~mask }

def setSROF (vm : VM) (value : Bool) : VM := vm.setFlag M_OVERFLOW value
def setSRNF (vm : VM) (value : Bool) : VM := vm.setFlag M_NEGATIVE value
def setSRZF (vm : VM) (value : Bool) : VM := vm.setFlag M_ZERO value
def setSRCF (vm : VM) (value : Bool) : VM := vm.setFlag M_CARRY value

def getSROF (vm : VM) : Byte := vm.sr &&& M_OVERFLOW
def getSRNF (vm : VM) : Byte := vm.sr &&& M_NEGATIVE
def getSRZF (vm : VM) : Byte := vm.sr &&& M_ZERO
def getSRCF (vm : VM) : Byte := vm.sr &&& M_CARRY

/-! ## Register access

C does not check the index of `registers[k]`; the handlers do, each on its
own.  The access itself therefore faults outside the array. -/

def VM.getReg (vm : VM) (k : Byte) : Exec Word :=
  if h : k.toNat < N_REG then .ok (vm.registers ⟨k.toNat, h⟩) else .error .registers

def VM.setReg (vm : VM) (k : Byte) (value : Word) : Exec VM :=
  if h : k.toNat < N_REG then
    .ok { vm with registers := Function.update vm.registers ⟨k.toNat, h⟩ value }
  else .error .registers

end BSVM
