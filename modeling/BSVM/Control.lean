/-
# `BSVM.Control` — calls, returns and jumps

The five calls end alike (`callTo`) but do not test their target alike:
`CALL` compares it unsigned, the others signed, as does `RTN`.  The five
`jump…` helpers compare unsigned; three of them let the register number
`N_REG` through, and `jumpd` tests its address where `jumpi` and `jumpx`
test that theirs is in the data segment.

The thirty conditional jumps are a test of the flags in front of a helper.
`instrJNEI` has the test of `instrJEQI`.
-/
import BSVM.Moves

namespace BSVM

/-! ## Calls and the return -/

/-- The end of every call: the return address is pushed, `pc` replaced. -/
def callTo (vm : VM) (i : Instruction) (target : Word) : Exec Result := do
  let size ← modeSize i.mode
  let (status, vm) ← pushWord vm (vm.pc + BitVec.ofNat 64 size)
  if status = .ok then return (.ok, { vm with pc := target })
  else return (status, vm)

def instrCALL : InstrHandler := fun vm i =>
  if vm.sp.toNat ≤ STACK_BASE then .ok (.stackOverflow, vm)
  else if DATA_BASE ≤ i.args.toNat then .ok (.invalidJmp, vm)
  else callTo vm i i.args

def instrCALLR : InstrHandler := fun vm i =>
  if N_REG ≤ i.a.toNat then .ok (.illRegister, vm)
  else if vm.sp.toNat ≤ STACK_BASE then .ok (.stackOverflow, vm)
  else do
    let target ← vm.getReg i.a
    if DATA_BASE ≤ target.toInt then return (.invalidJmp, vm)
    else callTo vm i target

/-- The common part of the calls that read their target from memory. -/
def callAt (vm : VM) (i : Instruction) (addr : Word) : Exec Result := do
  let (status, target) ← memRead64 vm addr 0
  if status ≠ .ok then return (status, vm)
  else if DATA_BASE ≤ target.toInt then return (.invalidJmp, vm)
  else callTo vm i target

def instrCALLD : InstrHandler := fun vm i =>
  if vm.sp.toNat ≤ STACK_BASE then .ok (.stackOverflow, vm)
  else callAt vm i i.args

def instrCALLI : InstrHandler := fun vm i =>
  if vm.sp.toNat ≤ STACK_BASE then .ok (.stackOverflow, vm)
  else if N_REG ≤ i.a.toNat then .ok (.illRegister, vm)
  else do
    let addr ← vm.getReg i.a
    callAt vm i addr

def instrCALLX : InstrHandler := fun vm i =>
  if vm.sp.toNat ≤ STACK_BASE then .ok (.stackOverflow, vm)
  else if N_REG ≤ i.a.toNat then .ok (.illRegister, vm)
  else do
    let a ← vm.getReg i.a
    callAt vm i (a + i.args)

/-- `value` is tested before the status of the read that sets it. -/
def instrRTN : InstrHandler := fun vm _ =>
  if MEM_SIZE ≤ vm.sp.toNat then .ok (.stackUnderflow, vm)
  else do
    let (status, value) ← memRead64 vm vm.sp 0
    if status ≠ .ok then .error .uninitialised
    else if DATA_BASE ≤ value.toInt then return (.invalidJmp, vm)
    else return (.ok, { vm with pc := value, sp := vm.sp + 8 })

/-! ## The rest -/

def instrNOP : InstrHandler := fun vm _ => .ok (.ok, vm)

/-- `destroyVM`, whose only effect is on the host's heap, and `initVM`. -/
def instrRST : InstrHandler := fun _ _ => .ok (.ok, initVM)

def instrHALT : InstrHandler := fun vm _ => .ok (.ok, { vm with running := false })

/-! ## Jumps -/

/-- `vm->pc = target`, unless it is outside the code segment. -/
def goTo (vm : VM) (target : Word) : Result :=
  if DATA_BASE ≤ target.toNat then (.invalidJmp, vm)
  else (.ok, { vm with pc := target })

/-- The word at the address as a target. -/
def goToWord (vm : VM) (addr : Word) : Exec Result := do
  let (status, value) ← memRead64 vm addr 0
  if status = .ok then return goTo vm value
  else return (status, vm)

def jump : InstrHandler := fun vm i => .ok (goTo vm i.args)

def jumpr : InstrHandler := fun vm i =>
  if N_REG < i.a.toNat then .ok (.illRegister, vm)
  else do
    let addr ← vm.getReg i.a
    return goTo vm addr

def jumpd : InstrHandler := fun vm i =>
  if DATA_BASE ≤ i.args.toNat then .ok (.invalidJmp, vm)
  else goToWord vm i.args

def jumpi : InstrHandler := fun vm i =>
  if N_REG < i.a.toNat then .ok (.illRegister, vm)
  else do
    let addr ← vm.getReg i.a
    if addr.toNat < DATA_BASE then return (.illMemAccess, vm)
    else goToWord vm addr

def jumpx : InstrHandler := fun vm i =>
  if N_REG < i.a.toNat then .ok (.illRegister, vm)
  else do
    let a ← vm.getReg i.a
    if (a + i.args).toNat < DATA_BASE then return (.illMemAccess, vm)
    else goToWord vm (a + i.args)

def instrJMP : InstrHandler := jump
def instrJMPR : InstrHandler := jumpr
def instrJMPD : InstrHandler := jumpd
def instrJMPI : InstrHandler := jumpi
def instrJMPX : InstrHandler := jumpx

/-- `if (skip) return VM_OK; return jump…(vm, instr)`. -/
def skipIf (skip : VM → Bool) (j : InstrHandler) : InstrHandler := fun vm i =>
  if skip vm then .ok (.ok, vm) else j vm i

def eqLog (a b : Byte) : Bool := (a ≠ 0 && b ≠ 0) || (a = 0 && b = 0)

/-- The tests, as the handlers write them: each names the case without a jump. -/
def notZ (vm : VM) : Bool := getSRZF vm = 0
def isZ (vm : VM) : Bool := getSRZF vm ≠ 0
def notLE (vm : VM) : Bool := notZ vm && eqLog (getSRNF vm) (getSROF vm)
def notLT (vm : VM) : Bool := eqLog (getSRNF vm) (getSROF vm)
def notGE (vm : VM) : Bool := !eqLog (getSRNF vm) (getSROF vm)
def notGT (vm : VM) : Bool := isZ vm || !eqLog (getSRNF vm) (getSROF vm)

def instrJEQ : InstrHandler := skipIf notZ jump
def instrJEQR : InstrHandler := skipIf notZ jumpr
def instrJEQD : InstrHandler := skipIf notZ jumpd
def instrJEQI : InstrHandler := skipIf notZ jumpi
def instrJEQX : InstrHandler := skipIf notZ jumpx

def instrJNE : InstrHandler := skipIf isZ jump
def instrJNER : InstrHandler := skipIf isZ jumpr
def instrJNED : InstrHandler := skipIf isZ jumpd
-- `!getSRZF(vm)`, where the four siblings have `getSRZF(vm)`
def instrJNEI : InstrHandler := skipIf notZ jumpi
def instrJNEX : InstrHandler := skipIf isZ jumpx

def instrJLE : InstrHandler := skipIf notLE jump
def instrJLER : InstrHandler := skipIf notLE jumpr
def instrJLED : InstrHandler := skipIf notLE jumpd
def instrJLEI : InstrHandler := skipIf notLE jumpi
def instrJLEX : InstrHandler := skipIf notLE jumpx

def instrJLT : InstrHandler := skipIf notLT jump
def instrJLTR : InstrHandler := skipIf notLT jumpr
def instrJLTD : InstrHandler := skipIf notLT jumpd
def instrJLTI : InstrHandler := skipIf notLT jumpi
def instrJLTX : InstrHandler := skipIf notLT jumpx

def instrJGE : InstrHandler := skipIf notGE jump
def instrJGER : InstrHandler := skipIf notGE jumpr
def instrJGED : InstrHandler := skipIf notGE jumpd
def instrJGEI : InstrHandler := skipIf notGE jumpi
def instrJGEX : InstrHandler := skipIf notGE jumpx

def instrJGT : InstrHandler := skipIf notGT jump
def instrJGTR : InstrHandler := skipIf notGT jumpr
def instrJGTD : InstrHandler := skipIf notGT jumpd
def instrJGTI : InstrHandler := skipIf notGT jumpi
def instrJGTX : InstrHandler := skipIf notGT jumpx

end BSVM
