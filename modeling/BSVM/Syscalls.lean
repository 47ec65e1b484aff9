/-
# `BSVM.Syscalls` — `TRAP` and the system calls of `instructions.c`

Every handler pops its arguments through `instrPOP` into `R0`; `withPop` is
that step.  A range of guest memory given to a library function has to lie in
the array, whatever the function then does with it; an empty range always
does.  What is printed has no effect on the machine and is left out.
-/
import Mathlib.Data.List.FinRange
import BSVM.Allocator
import BSVM.Moves

namespace BSVM

abbrev SysCall := VM → Exec Result

/-! ## Ranges of guest memory -/

/-- `n` bytes from `lo` are in the array. -/
def inMemory (lo n : Nat) : Exec Unit :=
  if n = 0 ∨ lo + n ≤ MEM_SIZE then .ok () else .error .memory

/-- The `n` bytes from `lo` become `f 0 … f (n-1)`. -/
def VM.fill (vm : VM) (lo n : Nat) (f : Nat → Byte) : Exec VM := do
  inMemory lo n
  return { vm with memory := overlay vm.memory lo n f }

/-- A string starts at `lo`: a NUL follows inside the array. -/
def cString (vm : VM) (lo : Nat) : Exec Unit :=
  if (List.finRange MEM_SIZE).any (fun k => lo ≤ k && vm.memory k = 0) then .ok ()
  else .error .memory

/-- `memcpy` inside guest memory. -/
def VM.memcpy (host : Host) (vm : VM) (dst src n : Nat) : Exec VM := do
  inMemory src n
  if dst + n ≤ src ∨ src + n ≤ dst then vm.fill dst n fun k => byteAt vm.memory (src + k)
  else vm.fill dst n host.overlap

/-! ## The handlers -/

/-- `struct Instruction pop = {.opcode=OP_POP, .mode=MODE_REGU, .a=0}`. -/
def popR0 : Instruction := { opcode := .pop, mode := .regu, a := 0, b := 0, args := 0 }

/-- `status = instrPOP(vm, &pop); if (status != VM_OK) return status;`, and
the rest with the value popped. -/
def withPop (vm : VM) (k : VM → Word → Exec Result) : Exec Result := do
  let (status, vm) ← instrPOP vm popR0
  if status ≠ .ok then return (status, vm)
  else do
    let r0 ← vm.getReg 0
    k vm r0

/-- `vm->registers[0] = value; return VM_OK;` -/
def answer (vm : VM) (value : Word) : Exec Result := do
  let vm ← vm.setReg 0 value
  return (.ok, vm)

def syscallEXIT : SysCall := fun vm =>
  withPop vm fun vm _ => return (.ok, { vm with running := false })

def syscallWRITE_FILE (host : Host) : SysCall := fun vm =>
  withPop vm fun vm _fd =>
  withPop vm fun vm addr =>
  withPop vm fun vm size => do
    inMemory addr.toNat size.toNat
    answer vm host.ret

def syscallREAD_FILE (host : Host) : SysCall := fun vm =>
  withPop vm fun vm _fd =>
  withPop vm fun vm addr =>
  if addr.toNat < HEAP_BASE ∨ STACK_BASE ≤ addr.toNat then .ok (.outOfTheHeap, vm)
  else withPop vm fun vm size => do
    inMemory addr.toNat size.toNat
    let bytes := host.bytes.take size.toNat
    let vm ← vm.fill addr.toNat bytes.length fun k => bytes.getD k 0
    answer vm host.ret

def syscallOPEN_FILE (host : Host) : SysCall := fun vm =>
  withPop vm fun vm filename => do
    cString vm filename.toNat
    answer vm host.ret

def syscallCLOSE_FILE (host : Host) : SysCall := fun vm =>
  withPop vm fun vm _fd => answer vm host.ret

def syscallPRINT_INT : SysCall := fun vm =>
  withPop vm fun vm _value => answer vm 0

def syscallPRINT_STR : SysCall := fun vm =>
  withPop vm fun vm addr => do
    cString vm addr.toNat
    answer vm 0

def syscallREAD_INT (host : Host) : SysCall := fun vm =>
  answer vm (host.scanned.getD (-1))

/-- `fgets` takes its size as an `int` and accesses nothing when it is not
positive. -/
def syscallREAD_STR (host : Host) : SysCall := fun vm =>
  withPop vm fun vm addr =>
  withPop vm fun vm size =>
  if addr.toNat < HEAP_BASE ∨ STACK_BASE ≤ (addr + size).toNat then .ok (.outOfTheHeap, vm)
  else do
    let n := (size.setWidth 32).toInt.toNat
    inMemory addr.toNat n
    let bytes := host.bytes.take n
    let vm ← vm.fill addr.toNat bytes.length fun k => bytes.getD k 0
    answer vm (if host.ret = 0 then -1 else 0)

def syscallMALLOC (host : Host) : SysCall := fun vm =>
  withPop vm fun vm size => do
    let (status, ptr, vm) := vmAlloc vm size host.ptr
    let vm ← vm.setReg 0 ptr
    return (status, vm)

def syscallFREE : SysCall := fun vm =>
  withPop vm fun vm ptr => .ok (vmFree vm ptr)

def syscallMEMSET : SysCall := fun vm =>
  withPop vm fun vm ptr =>
  withPop vm fun vm value =>
  withPop vm fun vm size =>
  if ptr.toNat < HEAP_BASE ∨ MEM_SIZE ≤ (ptr + size).toNat then .ok (.illMemAccess, vm)
  else do
    let vm ← vm.fill ptr.toNat size.toNat fun _ => value.setWidth 8
    answer vm 0

def syscallMEMCPY (host : Host) : SysCall := fun vm =>
  withPop vm fun vm ptrA =>
  withPop vm fun vm ptrB =>
  withPop vm fun vm size => do
    let vm ← vm.memcpy host ptrA.toNat ptrB.toNat size.toNat
    answer vm 0

def syscallDUMP_REGS : SysCall := fun vm => .ok (.ok, vm)

def syscallDUMP_STACK : SysCall := fun vm => .ok (.ok, vm)

def syscallDUMP_MEM : SysCall := fun vm =>
  withPop vm fun vm ptr =>
  withPop vm fun vm size =>
  if MEM_SIZE < (ptr + size).toNat then .ok (.illMemAccess, vm)
  else do
    inMemory ptr.toNat size.toNat
    return (.ok, vm)

/-! ## The table and `TRAP` -/

/-- `dispatchSyscalls[id]`; entry 2 and the entries above 16 are `NULL`. -/
def dispatchSyscalls (host : Host) : Nat → Option SysCall
  | 0 => some (syscallWRITE_FILE host)
  | 1 => some (syscallREAD_FILE host)
  | 3 => some (syscallOPEN_FILE host)
  | 4 => some (syscallCLOSE_FILE host)
  | 5 => some syscallPRINT_INT
  | 6 => some syscallPRINT_STR
  | 7 => some (syscallREAD_INT host)
  | 8 => some (syscallREAD_STR host)
  | 9 => some syscallEXIT
  | 10 => some (syscallMALLOC host)
  | 11 => some syscallFREE
  | 12 => some syscallMEMSET
  | 13 => some (syscallMEMCPY host)
  | 14 => some syscallDUMP_REGS
  | 15 => some syscallDUMP_STACK
  | 16 => some syscallDUMP_MEM
  | _ => none

/-- `int syscall_id = vm->registers[0]`. -/
def syscallId (r0 : Word) : Int := (r0.setWidth 32).toInt

/-- The table has 32 entries; `syscall_id` is not compared with them. -/
def instrTRAP (host : Host) : InstrHandler := fun vm _ => do
  let r0 ← vm.getReg 0
  if syscallId r0 < 0 ∨ 32 ≤ syscallId r0 then .error .table
  else
    match dispatchSyscalls host (syscallId r0).toNat with
    | none => return (.unknownSyscall, vm)
    | some handler => handler vm

end BSVM
