/-
# `BSVM.Dispatch` — the dispatch tables of `instructions.c`

A row of the table is a partial function of the mode.  Eleven operations have
a row of the same five modes with a register operand in front, eight a row of
the five modes of a target.
-/
import BSVM.Arith
import BSVM.Control
import BSVM.Syscalls

namespace BSVM

/-! ## Rows -/

def rowData (imm reg dir ind idx : InstrHandler) : Mode → Option InstrHandler
  | .imm => some imm
  | .reg => some reg
  | .dir => some dir
  | .ind => some ind
  | .idx => some idx
  | _ => none

def rowJump (imm regu dir ind idx : InstrHandler) : Mode → Option InstrHandler
  | .imm => some imm
  | .regu => some regu
  | .dir => some dir
  | .ind => some ind
  | .idx => some idx
  | _ => none

def rowMem (dir ind idx : InstrHandler) : Mode → Option InstrHandler
  | .dir => some dir
  | .ind => some ind
  | .idx => some idx
  | _ => none

def rowNone (h : InstrHandler) : Mode → Option InstrHandler
  | .none => some h
  | _ => none

def rowRegu (h : InstrHandler) : Mode → Option InstrHandler
  | .regu => some h
  | _ => none

/-! ## The tables -/

def dispatchADD : Mode → Option InstrHandler :=
  rowData instrADD instrADDR instrADDD instrADDI instrADDX

def dispatchSUB : Mode → Option InstrHandler :=
  rowData instrSUB instrSUBR instrSUBD instrSUBI instrSUBX

def dispatchMUL : Mode → Option InstrHandler :=
  rowData instrMUL instrMULR instrMULD instrMULI instrMULX

def dispatchDIV : Mode → Option InstrHandler :=
  rowData instrDIV instrDIVR instrDIVD instrDIVI instrDIVX

def dispatchCMP : Mode → Option InstrHandler :=
  rowData instrCMP instrCMPR instrCMPD instrCMPI instrCMPX

def dispatchAND : Mode → Option InstrHandler :=
  rowData instrAND instrANDR instrANDD instrANDI instrANDX

def dispatchOR : Mode → Option InstrHandler :=
  rowData instrOR instrORR instrORD instrORI instrORX

def dispatchXOR : Mode → Option InstrHandler :=
  rowData instrXOR instrXORR instrXORD instrXORI instrXORX

def dispatchSHL (host : Host) : Mode → Option InstrHandler :=
  rowData (instrSHL host) (instrSHLR host) (instrSHLD host) (instrSHLI host)
    (instrSHLX host)

def dispatchSHR (host : Host) : Mode → Option InstrHandler :=
  rowData (instrSHR host) (instrSHRR host) (instrSHRD host) (instrSHRI host)
    (instrSHRX host)

def dispatchLD : Mode → Option InstrHandler :=
  rowData instrLD instrLDR instrLDD instrLDI instrLDX

def dispatchNEG : Mode → Option InstrHandler := rowRegu instrNEG

def dispatchNOT : Mode → Option InstrHandler := rowRegu instrNOT

def dispatchST : Mode → Option InstrHandler := rowMem instrSTD instrSTI instrSTX

def dispatchSWP : Mode → Option InstrHandler
  | .reg => some instrSWPR
  | mode => rowMem instrSWPD instrSWPI instrSWPX mode

def dispatchPUSH : Mode → Option InstrHandler
  | .imm => some instrPUSH
  | .regu => some instrPUSHR
  | _ => none

def dispatchPOP : Mode → Option InstrHandler := rowRegu instrPOP

def dispatchFAS : Mode → Option InstrHandler := rowMem instrFASD instrFASI instrFASX

def dispatchRTN : Mode → Option InstrHandler := rowNone instrRTN

def dispatchNOP : Mode → Option InstrHandler := rowNone instrNOP

def dispatchRST : Mode → Option InstrHandler := rowNone instrRST

def dispatchHALT : Mode → Option InstrHandler := rowNone instrHALT

def dispatchTRAP (host : Host) : Mode → Option InstrHandler := rowNone (instrTRAP host)

def dispatchCALL : Mode → Option InstrHandler :=
  rowJump instrCALL instrCALLR instrCALLD instrCALLI instrCALLX

def dispatchJMP : Mode → Option InstrHandler :=
  rowJump instrJMP instrJMPR instrJMPD instrJMPI instrJMPX

def dispatchJEQ : Mode → Option InstrHandler :=
  rowJump instrJEQ instrJEQR instrJEQD instrJEQI instrJEQX

def dispatchJNE : Mode → Option InstrHandler :=
  rowJump instrJNE instrJNER instrJNED instrJNEI instrJNEX

def dispatchJLE : Mode → Option InstrHandler :=
  rowJump instrJLE instrJLER instrJLED instrJLEI instrJLEX

def dispatchJLT : Mode → Option InstrHandler :=
  rowJump instrJLT instrJLTR instrJLTD instrJLTI instrJLTX

def dispatchJGE : Mode → Option InstrHandler :=
  rowJump instrJGE instrJGER instrJGED instrJGEI instrJGEX

def dispatchJGT : Mode → Option InstrHandler :=
  rowJump instrJGT instrJGTR instrJGTD instrJGTI instrJGTX

def dispatch (host : Host) : OpCode → Mode → Option InstrHandler
  | .add => dispatchADD
  | .sub => dispatchSUB
  | .mul => dispatchMUL
  | .div => dispatchDIV
  | .cmp => dispatchCMP
  | .neg => dispatchNEG
  | .and => dispatchAND
  | .or => dispatchOR
  | .xor => dispatchXOR
  | .not => dispatchNOT
  | .shl => dispatchSHL host
  | .shr => dispatchSHR host
  | .st => dispatchST
  | .ld => dispatchLD
  | .swp => dispatchSWP
  | .push => dispatchPUSH
  | .pop => dispatchPOP
  | .fas => dispatchFAS
  | .call => dispatchCALL
  | .rtn => dispatchRTN
  | .nop => dispatchNOP
  | .rst => dispatchRST
  | .jmp => dispatchJMP
  | .jeq => dispatchJEQ
  | .jne => dispatchJNE
  | .jle => dispatchJLE
  | .jlt => dispatchJLT
  | .jge => dispatchJGE
  | .jgt => dispatchJGT
  | .halt => dispatchHALT
  | .trap => dispatchTRAP host

/-- `get_handler`; `NULL` is `none`.  An `OpCode` is below `OP_COUNT` by its
type, and no row has an entry at a mode from `MODE_COUNT` on. -/
def getHandler (host : Host) (opcode : OpCode) (mode : Mode) : Option InstrHandler :=
  dispatch host opcode mode

end BSVM
