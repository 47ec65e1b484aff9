/-
# `BSVM.Status` — the codes that `cpu_step` keeps to itself

`VM_TRUNCATED_INSTR` and `VM_UNKNOWN_INSTR` say that an instruction could not
be executed.  No handler returns them (`handler_keeps`), so a step that returns
one of them has not reached a handler.
-/
import BSVM.Effect

namespace BSVM

/-- The two codes. -/
def VmError.notExecuted : VmError → Bool
  | .truncatedInstr | .unknownInstr => true
  | _ => false

abbrev Executed (r : Result) : Prop := r.1.notExecuted = false

variable {host : Host} {vm : VM} {i : Instruction}

/-! ## Accesses -/

theorem memRead64_executed {addr out v : Word} {status : VmError}
    (h : memRead64 vm addr out = .ok (status, v)) : status.notExecuted = false := by
  rcases memRead64_cases h with ⟨rfl, -⟩ | ⟨rfl, -⟩
  · rfl
  · rfl

theorem memWrite64_executed (vm : VM) (addr v : Word) :
    Returns (memWrite64 vm addr v) Executed := by
  rintro ⟨status, vm'⟩ h
  rcases memWrite64_cases h with ⟨rfl, -⟩ | ⟨rfl, -⟩
  · rfl
  · rfl

/-- A word is read, and either goes on or is refused. -/
theorem read_executed {addr out : Word} {f : VmError × Word → Exec Result}
    (h : ∀ status v, status.notExecuted = false → Returns (f (status, v)) Executed) :
    Returns (memRead64 vm addr out >>= f) Executed := by
  refine Returns.bind_iff.mpr ?_
  rintro ⟨status, v⟩ hread
  exact h status v (memRead64_executed hread)

theorem wordAt_executed {addr v : Word} {status : VmError} (h : wordAt vm addr = .ok (status, v)) :
    status.notExecuted = false := by
  rw [wordAt] at h
  split at h
  · cases h
    rfl
  · exact memRead64_executed h

theorem operand_executed {v : Word} {status : VmError} (h : operand vm i = .ok (status, v)) :
    status.notExecuted = false := by
  rw [operand] at h
  split at h
  · cases h
    rfl
  · exact wordAt_executed h
  · split at h
    · cases h
      rfl
    · obtain ⟨b, -, h⟩ := Except.bind_eq_ok.mp h
      split at h
      · exact wordAt_executed h
      · exact wordAt_executed h
      · cases h
        rfl

/-! ## Data instructions -/

theorem finish_executed (vm : VM) (a : Byte) (res : Word) : Returns (finish vm a res) Executed :=
  .bind fun _ => Returns.ok_iff.mpr rfl

theorem dataOp_executed {op : OpCode} {f : DataOp} (hop : dataOp host op = some f) (vm : VM)
    (a : Byte) (y : Word) : Returns (f vm a y) Executed := by
  cases op <;> cases hop
  case div =>
    refine Returns.guard rfl fun _ => .bind fun x => ?_
    exact Returns.ite_iff.mpr
      ⟨fun _ => Returns.error_iff.mpr trivial, fun _ => finish_executed _ _ _⟩
  case cmp => exact .bind fun x => Returns.ok_iff.mpr rfl
  case shl | shr =>
    exact .bind fun x => .bind fun res => .bind fun vm₁ => finish_executed _ _ _
  case ld => exact .bind fun vm₁ => Returns.ok_iff.mpr rfl
  all_goals exact .bind fun x => finish_executed _ _ _

theorem data_executed {op : DataOp} {handler : InstrHandler}
    (hop : dataOp host i.opcode = some op)
    (hh : getHandler host i.opcode i.mode = some handler) : Returns (handler vm i) Executed := by
  rw [data_handler_eq hop hh]
  refine Returns.guard rfl fun _ => Returns.bind_iff.mpr ?_
  rintro ⟨status, y⟩ hread
  exact Returns.ite_iff.mpr ⟨fun _ => dataOp_executed hop _ _ _,
    fun _ => Returns.ok_iff.mpr (operand_executed hread)⟩

/-! ## Stores, swaps and fetch-and-set -/

section
variable {op : AddrOp} (hop : ∀ vm a addr, Returns (op vm a addr) Executed)
include hop

theorem atDIR_executed : Returns (atDIR op vm i) Executed :=
  Returns.guard rfl fun _ => Returns.guard rfl fun _ => hop _ _ _

theorem atIND_executed : Returns (atIND op vm i) Executed :=
  Returns.guard rfl fun _ => .bind fun _ => Returns.guard rfl fun _ => hop _ _ _

theorem atIDX_executed : Returns (atIDX op vm i) Executed :=
  Returns.guard rfl fun _ => .bind fun _ => Returns.guard rfl fun _ => hop _ _ _

end

theorem bodyST_executed (vm : VM) (a : Byte) (addr : Word) : Returns (bodyST vm a addr) Executed :=
  .bind fun _ => memWrite64_executed _ _ _

theorem bodySWP_executed (vm : VM) (a : Byte) (addr : Word) :
    Returns (bodySWP vm a addr) Executed := by
  refine read_executed fun status tmp hst => ?_
  refine Returns.ite_iff.mpr ⟨fun _ => .bind fun x => ?_, fun _ => Returns.ok_iff.mpr hst⟩
  refine Returns.bind_iff.mpr fun r hr => ?_
  have hst' := memWrite64_executed _ _ _ r hr
  exact Returns.ite_iff.mpr ⟨fun _ => .bind fun _ => Returns.ok_iff.mpr hst',
    fun _ => Returns.ok_iff.mpr hst'⟩

theorem instrSWPR_executed : Returns (instrSWPR vm i) Executed :=
  Returns.guard rfl fun _ => .bind fun _ => .bind fun _ => .bind fun _ => .bind fun _ =>
    Returns.ok_iff.mpr rfl

theorem fetchSet_executed (vm : VM) (a : Byte) (addr : Word) (addr' : VM → Exec Word) :
    Returns (fetchSet vm a addr addr') Executed := by
  have hload : Returns (onWord bodyLD vm a addr) Executed := by
    refine read_executed fun status v hst => ?_
    exact Returns.ite_iff.mpr ⟨fun _ => .bind fun _ => Returns.ok_iff.mpr rfl,
      fun _ => Returns.ok_iff.mpr hst⟩
  refine Returns.bind_iff.mpr fun r hr => Returns.ite_iff.mpr ⟨fun _ => ?_, fun _ => ?_⟩
  · exact .bind fun _ => memWrite64_executed _ _ _
  · exact Returns.ok_iff.mpr (hload r hr)

theorem fas_executed {handler : InstrHandler} (hh : dispatchFAS i.mode = some handler) :
    Returns (handler vm i) Executed := by
  cases hm : i.mode <;> rw [hm] at hh <;> cases hh
  · exact atDIR_executed fun vm a addr => fetchSet_executed vm a addr _
  · exact Returns.guard rfl fun _ => .bind fun _ => Returns.guard rfl fun _ =>
      fetchSet_executed _ _ _ _
  · exact Returns.guard rfl fun _ => .bind fun _ => Returns.guard rfl fun _ =>
      fetchSet_executed _ _ _ _

/-! ## The stack, calls and jumps -/

theorem pushWord_executed (vm : VM) (v : Word) : Returns (pushWord vm v) Executed := by
  refine Returns.bind_iff.mpr fun r hr => ?_
  have hst := memWrite64_executed _ _ _ r hr
  exact Returns.ite_iff.mpr ⟨fun _ => Returns.ok_iff.mpr hst, fun _ => Returns.ok_iff.mpr hst⟩

theorem instrPOP_executed : Returns (instrPOP vm i) Executed := by
  refine Returns.guard rfl fun _ => Returns.guard rfl fun _ => read_executed fun status v hst => ?_
  exact Returns.ite_iff.mpr ⟨fun _ => .bind fun _ => Returns.ok_iff.mpr hst,
    fun _ => Returns.ok_iff.mpr hst⟩

theorem callTo_executed (target : Word) : Returns (callTo vm i target) Executed := by
  refine .bind fun size => Returns.bind_iff.mpr fun r hr => ?_
  exact Returns.ite_iff.mpr ⟨fun _ => Returns.ok_iff.mpr rfl,
    fun _ => Returns.ok_iff.mpr (pushWord_executed _ _ r hr)⟩

theorem callAt_executed (addr : Word) : Returns (callAt vm i addr) Executed := by
  refine read_executed fun status v hst => Returns.guard hst fun _ => Returns.guard rfl fun _ => ?_
  exact callTo_executed v

theorem call_executed {handler : InstrHandler} (hh : dispatchCALL i.mode = some handler) :
    Returns (handler vm i) Executed := by
  cases hm : i.mode <;> rw [hm] at hh <;> cases hh
  · exact Returns.guard rfl fun _ => Returns.guard rfl fun _ => callTo_executed _
  · exact Returns.guard rfl fun _ => Returns.guard rfl fun _ => .bind fun _ =>
      Returns.guard rfl fun _ => callTo_executed _
  · exact Returns.guard rfl fun _ => callAt_executed _
  · exact Returns.guard rfl fun _ => Returns.guard rfl fun _ => .bind fun _ => callAt_executed _
  · exact Returns.guard rfl fun _ => Returns.guard rfl fun _ => .bind fun _ => callAt_executed _

theorem instrRTN_executed : Returns (instrRTN vm i) Executed := by
  refine Returns.guard rfl fun _ => read_executed fun status v hst => ?_
  refine Returns.ite_iff.mpr ⟨fun _ => Returns.error_iff.mpr trivial, fun _ => ?_⟩
  exact Returns.guard rfl fun _ => Returns.ok_iff.mpr rfl

theorem goTo_executed (vm : VM) (target : Word) : Executed (goTo vm target) := by
  rw [goTo]
  split
  · rfl
  · rfl

theorem goToWord_executed (addr : Word) : Returns (goToWord vm addr) Executed := by
  refine read_executed fun status v hst => ?_
  exact Returns.ite_iff.mpr ⟨fun _ => Returns.ok_iff.mpr (goTo_executed vm v),
    fun _ => Returns.ok_iff.mpr hst⟩

theorem jmp_executed {handler : InstrHandler} (hh : dispatchJMP i.mode = some handler) :
    Returns (handler vm i) Executed := by
  cases hm : i.mode <;> rw [hm] at hh <;> cases hh
  · exact Returns.ok_iff.mpr (goTo_executed vm _)
  · exact Returns.guard rfl fun _ => .bind fun _ => Returns.ok_iff.mpr (goTo_executed vm _)
  · exact Returns.guard rfl fun _ => goToWord_executed _
  · exact Returns.guard rfl fun _ => .bind fun _ => Returns.guard rfl fun _ => goToWord_executed _
  · exact Returns.guard rfl fun _ => .bind fun _ => Returns.guard rfl fun _ => goToWord_executed _

theorem conditional_executed {j : Condition} {handler : InstrHandler}
    (hh : getHandler host j.opcode i.mode = some handler) : Returns (handler vm i) Executed := by
  obtain ⟨jmp, hjmp, rfl⟩ := conditional_handler hh
  exact Returns.guard rfl fun _ => jmp_executed hjmp

/-! ## `TRAP` -/

theorem withPop_executed {k : VM → Word → Exec Result} (hk : ∀ vm r0, Returns (k vm r0) Executed) :
    Returns (withPop vm k) Executed := by
  refine Returns.bind_iff.mpr fun r hr => ?_
  exact Returns.guard (instrPOP_executed r hr) fun _ => .bind fun _ => hk _ _

theorem answer_executed (vm : VM) (v : Word) : Returns (answer vm v) Executed :=
  .bind fun _ => Returns.ok_iff.mpr rfl

theorem vmAlloc_executed (vm : VM) (size addr : Word) :
    (vmAlloc vm size addr).1.notExecuted = false := by
  rw [vmAlloc]
  split
  · rfl
  · rfl

theorem malloc_executed (host : Host) (vm : VM) : Returns (syscallMALLOC host vm) Executed :=
  withPop_executed fun _ _ => .bind fun _ => Returns.ok_iff.mpr (vmAlloc_executed _ _ _)

theorem free_executed (vm : VM) : Returns (syscallFREE vm) Executed := by
  refine withPop_executed fun vm ptr => Returns.ok_iff.mpr ?_
  rw [vmFree]
  split
  · rfl
  · split
    · rfl
    · rfl

theorem syscall_executed {id : Nat} {handler : SysCall}
    (hh : dispatchSyscalls host id = some handler) (vm : VM) :
    Returns (handler vm) Executed := by
  unfold dispatchSyscalls at hh
  split at hh <;> cases hh
  · exact withPop_executed fun _ _ => withPop_executed fun _ _ => withPop_executed fun _ _ =>
      .bind fun _ => answer_executed _ _
  · exact withPop_executed fun _ _ => withPop_executed fun _ _ => Returns.guard rfl fun _ =>
      withPop_executed fun _ _ => .bind fun _ => .bind fun _ => answer_executed _ _
  · exact withPop_executed fun _ _ => .bind fun _ => answer_executed _ _
  · exact withPop_executed fun _ _ => answer_executed _ _
  · exact withPop_executed fun _ _ => answer_executed _ _
  · exact withPop_executed fun _ _ => .bind fun _ => answer_executed _ _
  · exact answer_executed _ _
  · exact withPop_executed fun _ _ => withPop_executed fun _ _ => Returns.guard rfl fun _ =>
      .bind fun _ => .bind fun _ => answer_executed _ _
  · exact withPop_executed fun _ _ => Returns.ok_iff.mpr rfl
  · exact malloc_executed host vm
  · exact free_executed vm
  · exact withPop_executed fun _ _ => withPop_executed fun _ _ => withPop_executed fun _ _ =>
      Returns.guard rfl fun _ => .bind fun _ => answer_executed _ _
  · exact withPop_executed fun _ _ => withPop_executed fun _ _ => withPop_executed fun _ _ =>
      .bind fun _ => answer_executed _ _
  · exact Returns.ok_iff.mpr rfl
  · exact Returns.ok_iff.mpr rfl
  · exact withPop_executed fun _ _ => withPop_executed fun _ _ => Returns.guard rfl fun _ =>
      .bind fun _ => Returns.ok_iff.mpr rfl

theorem instrTRAP_executed : Returns (instrTRAP host vm i) Executed := by
  refine .bind fun r0 => Returns.ite_iff.mpr ⟨fun _ => Returns.error_iff.mpr trivial, fun _ => ?_⟩
  cases hh : dispatchSyscalls host (syscallId r0).toNat with
  | none => exact Returns.ok_iff.mpr rfl
  | some handler => exact syscall_executed hh vm

/-! ## All of them -/

/-- **No handler returns one of the two codes.** -/
theorem handler_keeps {handler : InstrHandler}
    (hh : getHandler host i.opcode i.mode = some handler) (vm : VM) :
    Returns (handler vm i) Executed := by
  cases handled hh with
  | data hop hh => exact data_executed hop hh
  | neg | not => exact Returns.guard rfl fun _ => .bind fun _ => finish_executed _ _ _
  | std => exact atDIR_executed bodyST_executed
  | sti => exact atIND_executed bodyST_executed
  | stx => exact atIDX_executed bodyST_executed
  | swpr => exact instrSWPR_executed
  | swpd => exact atDIR_executed bodySWP_executed
  | swpi => exact atIND_executed bodySWP_executed
  | swpx => exact atIDX_executed bodySWP_executed
  | push => exact Returns.guard rfl fun _ => Returns.guard rfl fun _ => pushWord_executed _ _
  | pushr =>
    exact Returns.guard rfl fun _ => Returns.guard rfl fun _ => .bind fun _ =>
      pushWord_executed _ _
  | pop => exact instrPOP_executed
  | fas _ hh => exact fas_executed hh
  | call _ hh => exact call_executed hh
  | rtn => exact instrRTN_executed
  | nop | rst | halt => exact Returns.ok_iff.mpr rfl
  | trap => exact instrTRAP_executed
  | jmp _ hh => exact jmp_executed hh
  | conditional j _ hh => exact conditional_executed hh

end BSVM
