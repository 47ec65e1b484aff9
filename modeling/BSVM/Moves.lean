/-
# `BSVM.Moves` — loads, stores, swaps, the stack and fetch-and-set

`memRead64` into `vm->registers[a]` and `memRead64` into a local that is then
moved there are the same thing, so `LD` is a `DataOp` like the arithmetic.
`FAS` in its register modes is not an instance of anything: it tests its two
registers with `&&`, and in mode IND writes to the register number.
-/
import BSVM.Instruction

namespace BSVM

/-! ## Loads and stores -/

def bodyLD : DataOp := fun vm a value => do
  let vm ← vm.setReg a value
  return (.ok, vm)

def bodyST : AddrOp := fun vm a addr => do
  let x ← vm.getReg a
  memWrite64 vm addr x

def instrSTD : InstrHandler := atDIR bodyST
def instrSTI : InstrHandler := atIND bodyST
def instrSTX : InstrHandler := atIDX bodyST

def instrLD : InstrHandler := dataIMM bodyLD
def instrLDR : InstrHandler := dataREG bodyLD
def instrLDD : InstrHandler := atDIR (onWord bodyLD)
def instrLDI : InstrHandler := atIND (onWord bodyLD)
def instrLDX : InstrHandler := atIDX (onWord bodyLD)

/-! ## Swaps -/

def instrSWPR : InstrHandler := fun vm i =>
  if N_REG ≤ i.a.toNat ∨ N_REG ≤ i.b.toNat then .ok (.illRegister, vm)
  else do
    let tmp ← vm.getReg i.a
    let b ← vm.getReg i.b
    let vm ← vm.setReg i.a b
    let vm ← vm.setReg i.b tmp
    return (.ok, vm)

def bodySWP : AddrOp := fun vm a addr => do
  let (status, tmp) ← memRead64 vm addr 0
  if status = .ok then do
    let x ← vm.getReg a
    let (status, vm) ← memWrite64 vm addr x
    if status = .ok then do
      let vm ← vm.setReg a tmp
      return (status, vm)
    else return (status, vm)
  else return (status, vm)

def instrSWPD : InstrHandler := atDIR bodySWP
def instrSWPI : InstrHandler := atIND bodySWP
def instrSWPX : InstrHandler := atIDX bodySWP

/-! ## The stack -/

/-- `sp -= 8`, the write, and the roll-back when it fails. -/
def pushWord (vm : VM) (value : Word) : Exec Result := do
  let (status, vm) ← memWrite64 { vm with sp := vm.sp - 8 } (vm.sp - 8) value
  if status = .ok then return (status, vm)
  else return (status, { vm with sp := vm.sp + 8 })

def instrPUSH : InstrHandler := fun vm i =>
  if vm.sp.toNat ≤ STACK_BASE then .ok (.stackOverflow, vm)
  else if N_REG ≤ i.a.toNat then .ok (.illRegister, vm)
  else pushWord vm i.args

def instrPUSHR : InstrHandler := fun vm i =>
  if vm.sp.toNat ≤ STACK_BASE then .ok (.stackOverflow, vm)
  else if N_REG ≤ i.a.toNat then .ok (.illRegister, vm)
  else do
    let x ← vm.getReg i.a
    pushWord vm x

def instrPOP : InstrHandler := fun vm i =>
  if MEM_SIZE ≤ vm.sp.toNat then .ok (.stackUnderflow, vm)
  else if N_REG ≤ i.a.toNat then .ok (.illRegister, vm)
  else do
    let (status, value) ← memRead64 vm vm.sp 0
    if status = .ok then do
      let vm ← vm.setReg i.a value
      return (status, { vm with sp := vm.sp + 8 })
    else return (status, vm)

/-! ## Fetch and set -/

/-- The read into `registers[a]`, then the write of `1` to `addr'`, which is
computed from the machine the read leaves. -/
def fetchSet (vm : VM) (a : Byte) (addr : Word) (addr' : VM → Exec Word) : Exec Result := do
  let (status, vm) ← onWord bodyLD vm a addr
  if status = .ok then do
    let addr' ← addr' vm
    memWrite64 vm addr' 1
  else return (status, vm)

def instrFASD : InstrHandler := atDIR fun vm a addr => fetchSet vm a addr fun _ => .ok addr

/-- The registers are refused only when both are out of range, and the `1`
goes to the register number `b`, not to the address the register holds. -/
def instrFASI : InstrHandler := fun vm i =>
  if N_REG ≤ i.a.toNat ∧ N_REG ≤ i.b.toNat then .ok (.illRegister, vm)
  else do
    let addr ← vm.getReg i.b
    if addr.toNat < DATA_BASE then return (.illMemAccess, vm)
    else fetchSet vm i.a addr fun _ => .ok (i.b.setWidth 64)

/-- The address of the write is computed again, after the read may have
replaced the base register. -/
def instrFASX : InstrHandler := fun vm i =>
  if N_REG ≤ i.a.toNat ∧ N_REG ≤ i.b.toNat then .ok (.illRegister, vm)
  else do
    let b ← vm.getReg i.b
    if (b + i.args).toNat < DATA_BASE then return (.illMemAccess, vm)
    else fetchSet vm i.a (b + i.args) fun vm => do
      let b ← vm.getReg i.b
      return b + i.args

end BSVM
