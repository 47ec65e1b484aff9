/-
# `BSVM.Handlers` — the handlers of the tables, by what they have in common

`Handled` lists the entries of the dispatch tables: a data instruction is one
operation on five kinds of operands, a conditional jump is a test in front of a
`JMP`, and what is left has a handler of its own.  `handled` says that there are
no others, so that a fact about every handler is one case for each of these.
-/
import BSVM.Compare

namespace BSVM

inductive Handled (host : Host) (i : Instruction) : InstrHandler → Prop
  | data {op : DataOp} {handler : InstrHandler} (hop : dataOp host i.opcode = some op)
      (hh : getHandler host i.opcode i.mode = some handler) : Handled host i handler
  | neg (hop : i.opcode = .neg) (hm : i.mode = .regu) : Handled host i instrNEG
  | not (hop : i.opcode = .not) (hm : i.mode = .regu) : Handled host i instrNOT
  | std (hop : i.opcode = .st) (hm : i.mode = .dir) : Handled host i (atDIR bodyST)
  | sti (hop : i.opcode = .st) (hm : i.mode = .ind) : Handled host i (atIND bodyST)
  | stx (hop : i.opcode = .st) (hm : i.mode = .idx) : Handled host i (atIDX bodyST)
  | swpr (hop : i.opcode = .swp) (hm : i.mode = .reg) : Handled host i instrSWPR
  | swpd (hop : i.opcode = .swp) (hm : i.mode = .dir) : Handled host i (atDIR bodySWP)
  | swpi (hop : i.opcode = .swp) (hm : i.mode = .ind) : Handled host i (atIND bodySWP)
  | swpx (hop : i.opcode = .swp) (hm : i.mode = .idx) : Handled host i (atIDX bodySWP)
  | push (hop : i.opcode = .push) (hm : i.mode = .imm) : Handled host i instrPUSH
  | pushr (hop : i.opcode = .push) (hm : i.mode = .regu) : Handled host i instrPUSHR
  | pop (hop : i.opcode = .pop) (hm : i.mode = .regu) : Handled host i instrPOP
  | fas {handler : InstrHandler} (hop : i.opcode = .fas) (hh : dispatchFAS i.mode = some handler) :
      Handled host i handler
  | call {handler : InstrHandler} (hop : i.opcode = .call)
      (hh : dispatchCALL i.mode = some handler) : Handled host i handler
  | rtn (hop : i.opcode = .rtn) (hm : i.mode = .none) : Handled host i instrRTN
  | nop (hop : i.opcode = .nop) (hm : i.mode = .none) : Handled host i instrNOP
  | rst (hop : i.opcode = .rst) (hm : i.mode = .none) : Handled host i instrRST
  | halt (hop : i.opcode = .halt) (hm : i.mode = .none) : Handled host i instrHALT
  | trap (hop : i.opcode = .trap) (hm : i.mode = .none) : Handled host i (instrTRAP host)
  | jmp {handler : InstrHandler} (hop : i.opcode = .jmp) (hh : dispatchJMP i.mode = some handler) :
      Handled host i handler
  | conditional (j : Condition) {handler : InstrHandler} (hop : i.opcode = j.opcode)
      (hh : getHandler host j.opcode i.mode = some handler) : Handled host i handler

/-- There are no others. -/
theorem handled {host : Host} {i : Instruction} {handler : InstrHandler}
    (hh : getHandler host i.opcode i.mode = some handler) : Handled host i handler := by
  cases hdata : dataOp host i.opcode with
  | some op => exact .data hdata hh
  | none =>
    cases hop : i.opcode <;> rw [hop] at hdata hh
    case add | sub | mul | div | cmp | and | or | xor | shl | shr | ld => cases hdata
    case fas => exact .fas hop hh
    case call => exact .call hop hh
    case jmp => exact .jmp hop hh
    case jeq => exact .conditional .eq hop hh
    case jne => exact .conditional .ne hop hh
    case jle => exact .conditional .le hop hh
    case jlt => exact .conditional .lt hop hh
    case jge => exact .conditional .ge hop hh
    case jgt => exact .conditional .gt hop hh
    -- the other rows have an entry for each of a few modes
    all_goals cases hm : i.mode <;> rw [hm] at hh <;> cases hh
    exacts [.neg hop hm, .not hop hm, .std hop hm, .sti hop hm, .stx hop hm, .swpr hop hm,
      .swpd hop hm, .swpi hop hm, .swpx hop hm, .push hop hm, .pushr hop hm, .pop hop hm,
      .rtn hop hm, .nop hop hm, .rst hop hm, .halt hop hm, .trap hop hm]

end BSVM
