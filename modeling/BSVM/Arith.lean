/-
# `BSVM.Arith` — the arithmetic and logic instructions of `instructions.c`

The source spells out five handlers for each operation, one per addressing
mode, that differ only in where the second operand comes from.  Here the
common part is a `DataOp`, and each handler is that operation under its
mode's fetch.  Signed arithmetic wraps; a quotient that does not fit and a
shift whose count is out of range do not have a value.
-/
import BSVM.Instruction

namespace BSVM

/-! ## The status register -/

/-- The common body of the `setSR…` functions: all four flags are cleared,
then Z and N are set from the result, C and O from the operation's own
tests. -/
def setSR (vm : VM) (res : Word) (carry overflow : Bool) : VM :=
  let vm := setSROF (setSRCF (setSRNF (setSRZF vm false) false) false) false
  let vm := if res = 0 then setSRZF vm true else vm
  let vm := if res.sshiftRight 63 &&& 1 ≠ 0 then setSRNF vm true else vm
  let vm := if carry then setSRCF vm true else vm
  if overflow then setSROF vm true else vm

def setSRADD (vm : VM) (a b res : Word) : VM :=
  setSR vm res (res.toInt < a.toInt) ((~~~(a ^^^ b) &&& (a ^^^ res)).sshiftRight 63 ≠ 0)

def setSRSUB (vm : VM) (a b res : Word) : VM :=
  setSR vm res (a.toNat < b.toNat) (((a ^^^ b) &&& (a ^^^ res)).sshiftRight 63 ≠ 0)

def setSRMUL (vm : VM) (a b res : Word) : VM :=
  let full := a.toInt * b.toInt
  let out : Bool := full > 2 ^ 63 - 1 ∨ full < -2 ^ 63
  setSR vm res out out

def setSRDIV (vm : VM) (res : Word) : VM :=
  setSR vm res false false

def setSRNEG (vm : VM) (a res : Word) : VM :=
  setSR vm res (a ≠ 0) (a = BitVec.intMin 64)

def setSRLOG (vm : VM) (res : Word) : VM :=
  setSR vm res false false

/-! ## Shifts -/

def shiftLeft (host : Host) (a n : Word) : Exec Word :=
  if n.toNat < 64 then .ok (a <<< n.toNat) else (host.shl a n).elim (.error .shift) .ok

def shiftRight (host : Host) (a n : Word) : Exec Word :=
  if n.toNat < 64 then .ok (a.sshiftRight n.toNat) else (host.shr a n).elim (.error .shift) .ok

def setSRSHL (host : Host) (vm : VM) (a n res : Word) : Exec VM := do
  let out ← shiftRight host a (63 - n + 1)
  return setSR vm res (out &&& 1 ≠ 0) (res.sshiftRight 63 ≠ a.sshiftRight 63)

def setSRSHR (host : Host) (vm : VM) (a n res : Word) : Exec VM := do
  let out ← shiftRight host a (n - 1)
  return setSR vm res (out &&& 1 ≠ 0) false

/-! ## The operations -/

/-- `registers[a] = res` and the flags, for an operation with a result. -/
def finish (vm : VM) (a : Byte) (res : Word) : Exec Result := do
  let vm ← vm.setReg a res
  return (.ok, vm)

def bodyADD : DataOp := fun vm a b => do
  let x ← vm.getReg a
  finish (setSRADD vm x b (x + b)) a (x + b)

def bodySUB : DataOp := fun vm a b => do
  let x ← vm.getReg a
  finish (setSRSUB vm x b (x - b)) a (x - b)

def bodyMUL : DataOp := fun vm a b => do
  let x ← vm.getReg a
  finish (setSRMUL vm x b (x * b)) a (x * b)

/-- The one quotient that does not fit is `INT64_MIN / -1`. -/
def bodyDIV : DataOp := fun vm a b =>
  if b = 0 then .ok (.divZero, vm)
  else do
    let x ← vm.getReg a
    if x = BitVec.intMin 64 ∧ b = -1 then .error .division
    else finish (setSRDIV vm (x.sdiv b)) a (x.sdiv b)

def bodyCMP : DataOp := fun vm a b => do
  let x ← vm.getReg a
  return (.ok, setSRSUB vm x b (x - b))

def bodyAND : DataOp := fun vm a b => do
  let x ← vm.getReg a
  finish (setSRLOG vm (x &&& b)) a (x &&& b)

def bodyOR : DataOp := fun vm a b => do
  let x ← vm.getReg a
  finish (setSRLOG vm (x ||| b)) a (x ||| b)

def bodyXOR : DataOp := fun vm a b => do
  let x ← vm.getReg a
  finish (setSRLOG vm (x ^^^ b)) a (x ^^^ b)

def bodySHL (host : Host) : DataOp := fun vm a n => do
  let x ← vm.getReg a
  let res ← shiftLeft host x n
  let vm ← setSRSHL host vm x n res
  finish vm a res

def bodySHR (host : Host) : DataOp := fun vm a n => do
  let x ← vm.getReg a
  let res ← shiftRight host x n
  let vm ← setSRSHR host vm x n res
  finish vm a res

/-! ## The handlers -/

def instrADD : InstrHandler := dataIMM bodyADD
def instrADDR : InstrHandler := dataREG bodyADD
def instrADDD : InstrHandler := atDIR (onWord bodyADD)
def instrADDI : InstrHandler := atIND (onWord bodyADD)
def instrADDX : InstrHandler := atIDX (onWord bodyADD)

def instrSUB : InstrHandler := dataIMM bodySUB
def instrSUBR : InstrHandler := dataREG bodySUB
def instrSUBD : InstrHandler := atDIR (onWord bodySUB)
def instrSUBI : InstrHandler := atIND (onWord bodySUB)
def instrSUBX : InstrHandler := atIDX (onWord bodySUB)

def instrMUL : InstrHandler := dataIMM bodyMUL
def instrMULR : InstrHandler := dataREG bodyMUL
def instrMULD : InstrHandler := atDIR (onWord bodyMUL)
def instrMULI : InstrHandler := atIND (onWord bodyMUL)
def instrMULX : InstrHandler := atIDX (onWord bodyMUL)

def instrDIV : InstrHandler := dataIMM bodyDIV
def instrDIVR : InstrHandler := dataREG bodyDIV
def instrDIVD : InstrHandler := atDIR (onWord bodyDIV)
def instrDIVI : InstrHandler := atIND (onWord bodyDIV)
def instrDIVX : InstrHandler := atIDX (onWord bodyDIV)

def instrCMP : InstrHandler := dataIMM bodyCMP
def instrCMPR : InstrHandler := dataREG bodyCMP
def instrCMPD : InstrHandler := atDIR (onWord bodyCMP)
def instrCMPI : InstrHandler := atIND (onWord bodyCMP)
def instrCMPX : InstrHandler := atIDX (onWord bodyCMP)

def instrAND : InstrHandler := dataIMM bodyAND
def instrANDR : InstrHandler := dataREG bodyAND
def instrANDD : InstrHandler := atDIR (onWord bodyAND)
def instrANDI : InstrHandler := atIND (onWord bodyAND)
def instrANDX : InstrHandler := atIDX (onWord bodyAND)

def instrOR : InstrHandler := dataIMM bodyOR
def instrORR : InstrHandler := dataREG bodyOR
def instrORD : InstrHandler := atDIR (onWord bodyOR)
def instrORI : InstrHandler := atIND (onWord bodyOR)
def instrORX : InstrHandler := atIDX (onWord bodyOR)

def instrXOR : InstrHandler := dataIMM bodyXOR
def instrXORR : InstrHandler := dataREG bodyXOR
def instrXORD : InstrHandler := atDIR (onWord bodyXOR)
def instrXORI : InstrHandler := atIND (onWord bodyXOR)
def instrXORX : InstrHandler := atIDX (onWord bodyXOR)

def instrSHL (host : Host) : InstrHandler := dataIMM (bodySHL host)
def instrSHLR (host : Host) : InstrHandler := dataREG (bodySHL host)
def instrSHLD (host : Host) : InstrHandler := atDIR (onWord (bodySHL host))
def instrSHLI (host : Host) : InstrHandler := atIND (onWord (bodySHL host))
def instrSHLX (host : Host) : InstrHandler := atIDX (onWord (bodySHL host))

def instrSHR (host : Host) : InstrHandler := dataIMM (bodySHR host)
def instrSHRR (host : Host) : InstrHandler := dataREG (bodySHR host)
def instrSHRD (host : Host) : InstrHandler := atDIR (onWord (bodySHR host))
def instrSHRI (host : Host) : InstrHandler := atIND (onWord (bodySHR host))
def instrSHRX (host : Host) : InstrHandler := atIDX (onWord (bodySHR host))

def instrNEG : InstrHandler := fun vm i =>
  if N_REG ≤ i.a.toNat then .ok (.illRegister, vm)
  else do
    let x ← vm.getReg i.a
    finish (setSRNEG vm x (-x)) i.a (-x)

def instrNOT : InstrHandler := fun vm i =>
  if N_REG ≤ i.a.toNat then .ok (.illRegister, vm)
  else do
    let x ← vm.getReg i.a
    finish (setSRLOG vm (~~~x)) i.a (~~~x)

end BSVM
