/-
# `BSVM.Endings` — why `vm_run` returns

`vm_run` goes on while `cpu_step` returns `VM_OK` and the machine is running.  What
it returns in the end is explained by the last instruction and the machine that it
found (`EndCause`), for every status:

    VM_OK                  HALT, or TRAP with EXIT
    VM_DIV_ZERO            DIV by an operand that is 0
    VM_ILL_REGISTER        a register that does not exist
    VM_ILL_MEM_ACCESS      a word under the data segment or past the end, or a range
                           that MEMSET or DUMP_MEM refuses
    VM_INVALID_JMP         a target, or the address of one, behind the code segment
    VM_STACK_OVERFLOW      PUSH or CALL on a full stack
    VM_STACK_UNDERFLOW     POP or RTN on an empty one, or TRAP without its arguments
    VM_UNKNOWN_SYSCALL     TRAP with an id that has no handler
    the heap's four        the arguments of READ_FILE, READ_STR, MALLOC or FREE
    VM_INVALID_EXECUTION_ADDRESS, VM_TRUNCATED_INSTR, VM_UNKNOWN_INSTR
                           nothing was executed
    the other four         never returned

`sp` is aligned in every machine that is reached, so no access at `sp` is refused.
-/
import BSVM.Faults
import BSVM.HeldBlocks
import BSVM.Preservation
import BSVM.Status
import BSVM.StackPointer

namespace BSVM

variable {host : Host} {vm vm' : VM} {i : Instruction} {P : VmError → Prop}

/-! ## The list -/

/-- What a system call answers that is not `VM_OK`. -/
inductive CallCause (vm : VM) : Nat → VmError → Prop
  | missing {id : Nat} (h : ¬ HasArgs vm id) : CallCause vm id .stackUnderflow
  | heap {id : Nat} (hid : id = 1 ∨ id = 8) (h : Refuses vm id) : CallCause vm id .outOfTheHeap
  | range {id : Nat} (hid : id = 12 ∨ id = 16) (h : Refuses vm id) : CallCause vm id .illMemAccess
  | full (h : ∀ node ∈ vm.memblocks, ¬ node.Fits (vm.stackWord 0)) :
      CallCause vm 10 .heapOutOfMemory
  | outside (h : (vm.stackWord 0).toNat < HEAP_BASE ∨ STACK_BASE ≤ (vm.stackWord 0).toNat) :
      CallCause vm 11 .freeOutOfTheHeap
  | unknown (h : ∀ node ∈ vm.memblocks, node.begin ≠ vm.stackWord 0) :
      CallCause vm 11 .memAlreadyFree

/-- Why a machine stops behind an instruction, by the status. -/
inductive EndCause (vm : VM) (i : Instruction) : VmError → Prop
  | halted (hop : i.opcode = .halt) : EndCause vm i .ok
  | exited (hop : i.opcode = .trap) (hid : syscallId (vm.reg 0) = 9) : EndCause vm i .ok
  | zero (hop : i.opcode = .div) (hy : operand vm i = .ok (.ok, 0)) : EndCause vm i .divZero
  | register (h : N_REG ≤ i.a.toNat ∨ N_REG ≤ i.b.toNat) : EndCause vm i .illRegister
  | access {addr : Word} (hmem : addr ∈ accesses vm i)
      (h : addr.toNat < DATA_BASE ∨ MEM_SIZE ≤ addr.toNat + 7) : EndCause vm i .illMemAccess
  | target (ht : transfers vm i = true)
      (h : DATA_BASE ≤ (targetWord vm i).toNat ∨ i.mode = .dir ∧ DATA_BASE ≤ i.args.toNat) :
      EndCause vm i .invalidJmp
  | full (hop : i.opcode = .push ∨ i.opcode = .call) (h : vm.sp.toNat = STACK_BASE) :
      EndCause vm i .stackOverflow
  | empty (hop : i.opcode = .pop ∨ i.opcode = .rtn) (h : vm.sp.toNat = MEM_SIZE) :
      EndCause vm i .stackUnderflow
  | nobody (hop : i.opcode = .trap) (h : syscallId (vm.reg 0) = 2 ∨ 16 < syscallId (vm.reg 0)) :
      EndCause vm i .unknownSyscall
  | answered {status : VmError} (hop : i.opcode = .trap)
      (h : CallCause vm (syscallId (vm.reg 0)).toNat status) : EndCause vm i status

/-- The machine runs on, or the status is explained. -/
abbrev Accounted (P : VmError → Prop) (r : Result) : Prop :=
  (r.1 = .ok ∧ r.2.running = true) ∨ P r.1

theorem accounted_by {status : VmError} (h : P status) (vm : VM) :
    Returns (.ok (status, vm) : Exec Result) (Accounted P) :=
  Returns.ok_iff.mpr (Or.inr h)

theorem accounted_ok (h : vm.running = true) :
    Returns (.ok (.ok, vm) : Exec Result) (Accounted P) :=
  Returns.ok_iff.mpr (Or.inl ⟨rfl, h⟩)

/-! ## Accesses -/

theorem setting_accounted {k : Byte} {v : Word} {status : VmError} (hst : status = .ok)
    (hvm : vm.running = true) :
    Returns (do let vm ← vm.setReg k v
                return (status, vm)) (Accounted P) := by
  subst hst
  refine Returns.bind_iff.mpr fun vm₁ hset => accounted_ok ?_
  obtain ⟨_, rfl⟩ := setReg_cases hset
  exact hvm

section
variable (hvm : vm.running = true)
include hvm

theorem memWrite64_accounted {addr v : Word}
    (h : MEM_SIZE ≤ addr.toNat + 7 → P .illMemAccess) :
    Returns (memWrite64 vm addr v) (Accounted P) := by
  rintro ⟨status, vm'⟩ hwrite
  rcases memWrite64_cases hwrite with ⟨rfl, -, rfl⟩ | ⟨rfl, hge, rfl⟩
  · exact Or.inl ⟨rfl, hvm⟩
  · exact Or.inr (h (Nat.not_lt.mp hge))

/-! ## Data instructions -/

theorem finish_accounted (a : Byte) (res v : Word) (c o : Bool) :
    Returns (finish (setSR vm res c o) a v) (Accounted P) := by
  refine setting_accounted rfl ?_
  rw [setSR_eq]
  exact hvm

theorem dataOp_accounted {op : DataOp} {y : Word} (hop : dataOp host i.opcode = some op)
    (hy : operand vm i = .ok (.ok, y)) : Returns (op vm i.a y) (Accounted (EndCause vm i)) := by
  cases hi : i.opcode <;> rw [hi] at hop <;> cases hop
  case div =>
    refine Returns.ite_iff.mpr ⟨fun hzero => accounted_by (.zero hi (hzero ▸ hy)) _, fun _ => ?_⟩
    refine .bind fun x => Returns.ite_iff.mpr ⟨fun _ => Returns.error_iff.mpr trivial, fun _ => ?_⟩
    exact finish_accounted hvm _ _ _ _ _
  case cmp =>
    refine .bind fun x => accounted_ok ?_
    rw [setSRSUB, setSR_eq]
    exact hvm
  case shl =>
    refine .bind fun x => .bind fun res => Returns.bind_iff.mpr ?_
    exact .bind fun out => Returns.ok_iff.mpr (finish_accounted hvm _ _ _ _ _)
  case shr =>
    refine .bind fun x => .bind fun res => Returns.bind_iff.mpr ?_
    exact .bind fun out => Returns.ok_iff.mpr (finish_accounted hvm _ _ _ _ _)
  case ld => exact setting_accounted rfl hvm
  all_goals exact .bind fun x => finish_accounted hvm _ _ _ _ _

end

/-- A word that is not read is refused. -/
theorem wordAt_accounted {addr v : Word} {status : VmError} (hmem : addr ∈ accesses vm i)
    (h : wordAt vm addr = .ok (status, v)) (hst : status ≠ .ok) : EndCause vm i status := by
  rw [wordAt] at h
  split at h
  · next hlo =>
      cases h
      exact .access hmem (Or.inl hlo)
  · rcases memRead64_cases h with ⟨rfl, -, -⟩ | ⟨rfl, hge, -⟩
    · exact absurd rfl hst
    · exact .access hmem (Or.inr (Nat.not_lt.mp hge))

theorem operand_accounted {v : Word} {status : VmError}
    (haccess : accesses vm i = (wordAddress vm i i.b).toList)
    (h : operand vm i = .ok (status, v)) (hst : status ≠ .ok) : EndCause vm i status := by
  rw [operand] at h
  split at h
  · cases h
    exact absurd rfl hst
  · next hm => exact wordAt_accounted (wordAddress_mem haccess (by rw [wordAddress, hm])) h hst
  · split at h
    · next hb =>
        cases h
        exact .register (Or.inr hb)
    · obtain ⟨b, hget, h⟩ := Except.bind_eq_ok.mp h
      obtain ⟨-, rfl⟩ := getReg_cases hget
      split at h
      · next hm => exact wordAt_accounted (wordAddress_mem haccess (by rw [wordAddress, hm])) h hst
      · next hm => exact wordAt_accounted (wordAddress_mem haccess (by rw [wordAddress, hm])) h hst
      · cases h
        exact absurd rfl hst

/-- The operations on an operand read one word at most. -/
theorem accesses_data {op : DataOp} (hop : dataOp host i.opcode = some op) :
    accesses vm i = (wordAddress vm i i.b).toList := by
  cases hi : i.opcode <;> rw [hi] at hop <;> cases hop
  all_goals rw [accesses, hi]

/-! ## Handlers of one word -/

section
variable {op : AddrOp} (haccess : accesses vm i = (wordAddress vm i i.b).toList)
  (hop : ∀ addr ∈ accesses vm i, Returns (op vm i.a addr) (Accounted (EndCause vm i)))
include haccess hop

theorem inData_accounted {addr : Word} (haddr : wordAddress vm i i.b = some addr) :
    Returns (inData op vm i.a addr) (Accounted (EndCause vm i)) := by
  have hmem := wordAddress_mem haccess haddr
  exact Returns.ite_iff.mpr
    ⟨fun hlo => accounted_by (.access hmem (Or.inl hlo)) _, fun _ => hop addr hmem⟩

theorem atDIR_accounted (hm : i.mode = .dir) :
    Returns (atDIR op vm i) (Accounted (EndCause vm i)) := by
  refine Returns.ite_iff.mpr ⟨fun ha => accounted_by (.register (Or.inl ha)) _, fun _ => ?_⟩
  exact inData_accounted haccess hop (by rw [wordAddress, hm])

theorem atIND_accounted (hm : i.mode = .ind) :
    Returns (atIND op vm i) (Accounted (EndCause vm i)) := by
  refine Returns.ite_iff.mpr ⟨fun hab => accounted_by (.register hab) _, fun _ => ?_⟩
  refine Returns.bind_iff.mpr fun b hget => ?_
  obtain ⟨-, rfl⟩ := getReg_cases hget
  exact inData_accounted haccess hop (by rw [wordAddress, hm])

theorem atIDX_accounted (hm : i.mode = .idx) :
    Returns (atIDX op vm i) (Accounted (EndCause vm i)) := by
  refine Returns.ite_iff.mpr ⟨fun hab => accounted_by (.register hab) _, fun _ => ?_⟩
  refine Returns.bind_iff.mpr fun b hget => ?_
  obtain ⟨-, rfl⟩ := getReg_cases hget
  exact inData_accounted haccess hop (by rw [wordAddress, hm])

end

section
variable (hvm : vm.running = true)
include hvm

theorem data_accounted {op : DataOp} {handler : InstrHandler} (hop : dataOp host i.opcode = some op)
    (hh : getHandler host i.opcode i.mode = some handler) :
    Returns (handler vm i) (Accounted (EndCause vm i)) := by
  rw [data_handler_eq hop hh]
  refine Returns.ite_iff.mpr ⟨fun ha => accounted_by (.register (Or.inl ha)) _, fun _ => ?_⟩
  refine Returns.bind_iff.mpr fun r hr => Returns.ite_iff.mpr ⟨fun hst => ?_, fun hst => ?_⟩
  · exact dataOp_accounted hvm hop (hst ▸ hr)
  · exact accounted_by (operand_accounted (accesses_data hop) hr hst) _

/-! ## Stores, swaps and fetch-and-set -/

theorem bodyST_accounted (addr : Word) (hmem : addr ∈ accesses vm i) :
    Returns (bodyST vm i.a addr) (Accounted (EndCause vm i)) :=
  .bind fun _ => memWrite64_accounted hvm fun hge => .access hmem (Or.inr hge)

theorem bodySWP_accounted (addr : Word) (hmem : addr ∈ accesses vm i) :
    Returns (bodySWP vm i.a addr) (Accounted (EndCause vm i)) := by
  refine Returns.bind_iff.mpr ?_
  rintro ⟨status, tmp⟩ hread
  rcases memRead64_cases hread with ⟨rfl, -, -⟩ | ⟨rfl, hge, -⟩
  · refine Returns.ite_iff.mpr ⟨fun _ => .bind fun x => ?_, fun hst => absurd rfl hst⟩
    refine Returns.bind_iff.mpr ?_
    rintro ⟨status', vm₁⟩ hwrite
    rcases memWrite64_cases hwrite with ⟨rfl, -, rfl⟩ | ⟨rfl, hge, rfl⟩
    · exact Returns.ite_iff.mpr ⟨fun _ => setting_accounted rfl hvm, fun hst => absurd rfl hst⟩
    · exact Returns.ite_iff.mpr ⟨fun hok => by simp at hok, fun _ =>
        accounted_by (.access hmem (Or.inr (Nat.not_lt.mp hge))) _⟩
  · exact Returns.ite_iff.mpr ⟨fun hok => by simp at hok, fun _ =>
      accounted_by (.access hmem (Or.inr (Nat.not_lt.mp hge))) _⟩

theorem instrSWPR_accounted : Returns (instrSWPR vm i) (Accounted (EndCause vm i)) := by
  refine Returns.ite_iff.mpr ⟨fun hab => accounted_by (.register hab) _, fun _ => ?_⟩
  refine .bind fun x => .bind fun y => Returns.bind_iff.mpr fun vm₁ hset => ?_
  obtain ⟨_, rfl⟩ := setReg_cases hset
  exact setting_accounted rfl hvm

theorem fetchSet_accounted {addr' : VM → Exec Word} (hop : i.opcode = .fas)
    (haddr : ∀ a : Fin N_REG, i.a.toNat = a → ∀ t, addr' (vm.fetched i a) = .ok t →
      t = fasStore vm i) :
    Returns (fetchSet vm i.a (fasLoad vm i) addr') (Accounted (EndCause vm i)) := by
  have haccess : accesses vm i = [fasLoad vm i, fasStore vm i] := by rw [accesses, hop]
  refine Returns.bind_iff.mpr fun r hload => Returns.ite_iff.mpr ⟨fun hok => ?_, fun hst => ?_⟩
  · obtain ⟨a, ha, hvm₁⟩ := onWord_fetched hload hok
    refine Returns.bind_iff.mpr fun t ht => ?_
    rw [hvm₁] at ht ⊢
    obtain rfl := haddr a ha t ht
    have hrunning : (vm.fetched i a).running = true := hvm
    exact memWrite64_accounted hrunning fun hge => .access (by simp [haccess]) (Or.inr hge)
  · obtain ⟨⟨status, v⟩, hread, hload⟩ := Except.bind_eq_ok.mp hload
    rcases memRead64_cases hread with ⟨rfl, -, -⟩ | ⟨rfl, hge, -⟩
    · obtain ⟨vm₁, -, hload⟩ := Except.bind_eq_ok.mp hload
      cases hload
      exact absurd rfl hst
    · cases hload
      exact accounted_by (.access (by simp [haccess]) (Or.inr (Nat.not_lt.mp hge))) _

theorem fas_accounted {handler : InstrHandler} (hop : i.opcode = .fas)
    (hh : dispatchFAS i.mode = some handler) :
    Returns (handler vm i) (Accounted (EndCause vm i)) := by
  have hmem : fasLoad vm i ∈ accesses vm i := by simp [accesses, hop]
  cases hm : i.mode <;> rw [hm] at hh <;> cases hh
  · have hload : fasLoad vm i = i.args := by rw [fasLoad, hm]
    refine Returns.ite_iff.mpr ⟨fun ha => accounted_by (.register (Or.inl ha)) _, fun _ => ?_⟩
    refine Returns.ite_iff.mpr
      ⟨fun hlo => accounted_by (.access hmem (Or.inl (hload ▸ hlo))) _, fun _ => ?_⟩
    beta_reduce
    rw [← hload]
    refine fetchSet_accounted hvm hop fun a _ t ht => ?_
    cases ht
    rw [fasStore, hm, hload]
  · refine Returns.ite_iff.mpr ⟨fun hab => accounted_by (.register (Or.inl hab.1)) _, fun _ => ?_⟩
    refine Returns.bind_iff.mpr fun b hget => ?_
    obtain ⟨-, rfl⟩ := getReg_cases hget
    have hload : fasLoad vm i = vm.reg i.b := by rw [fasLoad, hm]
    rw [← hload]
    refine Returns.ite_iff.mpr ⟨fun hlo => accounted_by (.access hmem (Or.inl hlo)) _, fun _ => ?_⟩
    refine fetchSet_accounted hvm hop fun a _ t ht => ?_
    cases ht
    rw [fasStore, hm]
  · refine Returns.ite_iff.mpr ⟨fun hab => accounted_by (.register (Or.inl hab.1)) _, fun _ => ?_⟩
    refine Returns.bind_iff.mpr fun b hget => ?_
    obtain ⟨hlt, rfl⟩ := getReg_cases hget
    have hload : fasLoad vm i = vm.reg i.b + i.args := by rw [fasLoad, hm]
    rw [← hload]
    refine Returns.ite_iff.mpr ⟨fun hlo => accounted_by (.access hmem (Or.inl hlo)) _, fun _ => ?_⟩
    refine fetchSet_accounted hvm hop fun a ha t ht => ?_
    obtain ⟨b', hget, ht⟩ := Except.bind_eq_ok.mp ht
    obtain ⟨-, rfl⟩ := getReg_cases hget
    cases ht
    rw [fetched_reg a ha hlt, fasStore, hm]

/-! ## Jumps -/

omit hvm in
/-- A comparison as signed words refuses nothing that is in the code segment. -/
theorem le_toNat_of_toInt {t : Word} (h : (DATA_BASE : Int) ≤ t.toInt) : DATA_BASE ≤ t.toNat := by
  rw [BitVec.toInt_eq_toNat_cond] at h
  split at h <;> omega

section
variable (ht : transfers vm i = true) (htarget : targetWord vm i = modeTarget vm i)
include ht

omit hvm in
theorem refused_target {t : Word} (htarget : targetWord vm i = t) (h : DATA_BASE ≤ t.toNat) :
    EndCause vm i .invalidJmp :=
  .target ht (Or.inl (htarget ▸ h))

theorem goTo_accounted {t : Word} (htarget : targetWord vm i = t) :
    Accounted (EndCause vm i) (goTo vm t) := by
  rw [goTo]
  split
  · next h => exact Or.inr (refused_target ht htarget h)
  · exact Or.inl ⟨rfl, hvm⟩

theorem goToWord_accounted {addr : Word} (hmem : addr ∈ accesses vm i)
    (htarget : targetWord vm i = readWord vm.memory addr.toNat) :
    Returns (goToWord vm addr) (Accounted (EndCause vm i)) := by
  intro r hr
  rcases goToWord_cases hr with ⟨-, rfl⟩ | ⟨hge, rfl⟩
  · exact goTo_accounted hvm ht htarget
  · exact Or.inr (.access hmem (Or.inr (Nat.not_lt.mp hge)))

include htarget in
theorem jump_accounted {handler : InstrHandler}
    (haccess : accesses vm i = (wordAddress vm i i.a).toList)
    (hh : dispatchJMP i.mode = some handler) :
    Returns (handler vm i) (Accounted (EndCause vm i)) := by
  have hreg : N_REG < i.a.toNat →
      Returns (.ok (.illRegister, vm) : Exec Result) (Accounted (EndCause vm i)) :=
    fun ha => accounted_by (.register (Or.inl ha.le)) _
  cases hm : i.mode <;> rw [hm] at hh <;> cases hh
  · refine Returns.ok_iff.mpr (goTo_accounted hvm ht ?_)
    rw [htarget, modeTarget, hm]
  · refine Returns.ite_iff.mpr ⟨hreg, fun _ => ?_⟩
    refine Returns.bind_iff.mpr fun t hget => Returns.ok_iff.mpr (goTo_accounted hvm ht ?_)
    obtain ⟨-, rfl⟩ := getReg_cases hget
    rw [htarget, modeTarget, hm]
  · refine Returns.ite_iff.mpr ⟨fun h => accounted_by (.target ht (Or.inr ⟨hm, h⟩)) _, fun _ => ?_⟩
    refine goToWord_accounted hvm ht (wordAddress_mem haccess ?_) ?_
    · rw [wordAddress, hm]
    · rw [htarget, modeTarget, hm]
  · refine Returns.ite_iff.mpr ⟨hreg, fun _ => ?_⟩
    refine Returns.bind_iff.mpr fun t hget => ?_
    obtain ⟨-, rfl⟩ := getReg_cases hget
    have hmem : vm.reg i.a ∈ accesses vm i := wordAddress_mem haccess (by rw [wordAddress, hm])
    refine Returns.ite_iff.mpr ⟨fun hlo => accounted_by (.access hmem (Or.inl hlo)) _, fun _ => ?_⟩
    refine goToWord_accounted hvm ht hmem ?_
    rw [htarget, modeTarget, hm]
  · refine Returns.ite_iff.mpr ⟨hreg, fun _ => ?_⟩
    refine Returns.bind_iff.mpr fun t hget => ?_
    obtain ⟨-, rfl⟩ := getReg_cases hget
    have hmem : vm.reg i.a + i.args ∈ accesses vm i :=
      wordAddress_mem haccess (by rw [wordAddress, hm])
    refine Returns.ite_iff.mpr ⟨fun hlo => accounted_by (.access hmem (Or.inl hlo)) _, fun _ => ?_⟩
    refine goToWord_accounted hvm ht hmem ?_
    rw [htarget, modeTarget, hm]

end

theorem jmp_accounted {handler : InstrHandler} (hop : i.opcode = .jmp)
    (hh : dispatchJMP i.mode = some handler) :
    Returns (handler vm i) (Accounted (EndCause vm i)) := by
  refine jump_accounted hvm ?_ ?_ ?_ hh
  · simp [transfers, OpCode.condition?, hop]
  · rw [targetWord, hop]
  · rw [accesses, hop]

theorem conditional_accounted {j : Condition} {handler : InstrHandler} (hop : i.opcode = j.opcode)
    (hh : getHandler host j.opcode i.mode = some handler) :
    Returns (handler vm i) (Accounted (EndCause vm i)) := by
  obtain ⟨jmp, hjmp, rfl⟩ := conditional_handler hh
  refine Returns.ite_iff.mpr ⟨fun _ => accounted_ok hvm, fun htaken => ?_⟩
  refine jump_accounted hvm ?_ ?_ ?_ hjmp
  · have hcond : i.opcode.condition? = some j := by
      rw [hop]
      cases j <;> rfl
    rw [transfers, hcond]
    simpa using htaken
  · cases j <;> rw [targetWord, hop] <;> rfl
  · cases j <;> rw [accesses, hop] <;> rfl

end

/-! ## The stack, calls and the return -/

section
variable (hvm : vm.running = true) (hstack : StackAligned vm)
include hvm hstack

omit hvm in
/-- No room, under the base. -/
theorem full_accounted (hop : i.opcode = .push ∨ i.opcode = .call)
    (hsp : vm.sp.toNat ≤ STACK_BASE) :
    Returns (.ok (.stackOverflow, vm) : Exec Result) (Accounted (EndCause vm i)) :=
  accounted_by (.full hop (Nat.le_antisymm hsp hstack.base)) _

omit hvm in
theorem empty_accounted (hop : i.opcode = .pop ∨ i.opcode = .rtn) (hsp : MEM_SIZE ≤ vm.sp.toNat) :
    Returns (.ok (.stackUnderflow, vm) : Exec Result) (Accounted (EndCause vm i)) :=
  accounted_by (.empty hop (Nat.le_antisymm hstack.top hsp)) _

theorem pushWord_accounted (hsp : ¬ vm.sp.toNat ≤ STACK_BASE) (v : Word) :
    Returns (pushWord vm v) (Accounted P) := by
  rw [hstack.pushWord_eq v (Nat.not_le.mp hsp)]
  exact accounted_ok hvm

theorem instrPUSH_accounted (hop : i.opcode = .push) :
    Returns (instrPUSH vm i) (Accounted (EndCause vm i)) := by
  refine Returns.ite_iff.mpr ⟨full_accounted hstack (Or.inl hop), fun hsp => ?_⟩
  refine Returns.ite_iff.mpr ⟨fun ha => accounted_by (.register (Or.inl ha)) _, fun _ => ?_⟩
  exact pushWord_accounted hvm hstack hsp _

theorem instrPUSHR_accounted (hop : i.opcode = .push) :
    Returns (instrPUSHR vm i) (Accounted (EndCause vm i)) := by
  refine Returns.ite_iff.mpr ⟨full_accounted hstack (Or.inl hop), fun hsp => ?_⟩
  refine Returns.ite_iff.mpr ⟨fun ha => accounted_by (.register (Or.inl ha)) _, fun _ => ?_⟩
  exact .bind fun x => pushWord_accounted hvm hstack hsp x

theorem instrPOP_accounted (hop : i.opcode = .pop) :
    Returns (instrPOP vm i) (Accounted (EndCause vm i)) := by
  refine Returns.ite_iff.mpr ⟨empty_accounted hstack (Or.inl hop), fun hsp => ?_⟩
  refine Returns.ite_iff.mpr ⟨fun ha => accounted_by (.register (Or.inl ha)) _, fun _ => ?_⟩
  rw [hstack.read 0 (Nat.not_le.mp hsp), Except.ok_bind]
  refine Returns.ite_iff.mpr ⟨fun _ => ?_, fun hst => absurd rfl hst⟩
  refine Returns.bind_iff.mpr fun vm₁ hset => accounted_ok ?_
  obtain ⟨_, rfl⟩ := setReg_cases hset
  exact hvm

theorem callTo_accounted (hsp : ¬ vm.sp.toNat ≤ STACK_BASE) (target : Word) :
    Returns (callTo vm i target) (Accounted P) := by
  refine .bind fun size => ?_
  rw [hstack.pushWord_eq _ (Nat.not_le.mp hsp)]
  exact accounted_ok hvm

theorem call_accounted {handler : InstrHandler} (hop : i.opcode = .call)
    (hh : dispatchCALL i.mode = some handler) :
    Returns (handler vm i) (Accounted (EndCause vm i)) := by
  have ht : transfers vm i = true := by simp [transfers, OpCode.condition?, hop]
  have htarget : targetWord vm i = modeTarget vm i := by rw [targetWord, hop]
  have haccess : accesses vm i = (wordAddress vm i i.a).toList := by rw [accesses, hop]
  have hfull := full_accounted hstack (Or.inr hop)
  have hat : ∀ {addr : Word}, ¬ vm.sp.toNat ≤ STACK_BASE → addr ∈ accesses vm i →
      targetWord vm i = readWord vm.memory addr.toNat →
      Returns (callAt vm i addr) (Accounted (EndCause vm i)) := by
    intro addr hsp hmem hread
    refine Returns.bind_iff.mpr ?_
    rintro ⟨status, t⟩ hr
    rcases memRead64_cases hr with ⟨rfl, -, rfl⟩ | ⟨rfl, hge, -⟩
    · refine Returns.ite_iff.mpr ⟨fun hst => absurd rfl hst, fun _ => ?_⟩
      refine Returns.ite_iff.mpr ⟨fun hge => ?_, fun _ => callTo_accounted hvm hstack hsp _⟩
      exact accounted_by (refused_target ht hread (le_toNat_of_toInt hge)) _
    · exact Returns.ite_iff.mpr
        ⟨fun _ => accounted_by (.access hmem (Or.inr (Nat.not_lt.mp hge))) _,
          fun hst => absurd (by simp) hst⟩
  cases hm : i.mode <;> rw [hm] at hh <;> cases hh
  · refine Returns.ite_iff.mpr ⟨hfull, fun hsp => Returns.ite_iff.mpr ⟨fun hge => ?_, fun _ => ?_⟩⟩
    · refine accounted_by (refused_target ht ?_ hge) _
      rw [htarget, modeTarget, hm]
    · exact callTo_accounted hvm hstack hsp _
  · refine Returns.ite_iff.mpr ⟨fun ha => accounted_by (.register (Or.inl ha)) _, fun _ => ?_⟩
    refine Returns.ite_iff.mpr ⟨hfull, fun hsp => Returns.bind_iff.mpr fun t hget => ?_⟩
    obtain ⟨-, rfl⟩ := getReg_cases hget
    refine Returns.ite_iff.mpr ⟨fun hge => ?_, fun _ => callTo_accounted hvm hstack hsp _⟩
    refine accounted_by (refused_target ht ?_ (le_toNat_of_toInt hge)) _
    rw [htarget, modeTarget, hm]
  · refine Returns.ite_iff.mpr ⟨hfull, fun hsp => hat hsp (wordAddress_mem haccess ?_) ?_⟩
    · rw [wordAddress, hm]
    · rw [htarget, modeTarget, hm]
  · refine Returns.ite_iff.mpr ⟨hfull, fun hsp => ?_⟩
    refine Returns.ite_iff.mpr ⟨fun ha => accounted_by (.register (Or.inl ha)) _, fun _ => ?_⟩
    refine Returns.bind_iff.mpr fun t hget => ?_
    obtain ⟨-, rfl⟩ := getReg_cases hget
    refine hat hsp (wordAddress_mem haccess ?_) ?_
    · rw [wordAddress, hm]
    · rw [htarget, modeTarget, hm]
  · refine Returns.ite_iff.mpr ⟨hfull, fun hsp => ?_⟩
    refine Returns.ite_iff.mpr ⟨fun ha => accounted_by (.register (Or.inl ha)) _, fun _ => ?_⟩
    refine Returns.bind_iff.mpr fun t hget => ?_
    obtain ⟨-, rfl⟩ := getReg_cases hget
    refine hat hsp (wordAddress_mem haccess ?_) ?_
    · rw [wordAddress, hm]
    · rw [htarget, modeTarget, hm]

theorem instrRTN_accounted (hop : i.opcode = .rtn) :
    Returns (instrRTN vm i) (Accounted (EndCause vm i)) := by
  have ht : transfers vm i = true := by simp [transfers, OpCode.condition?, hop]
  refine Returns.ite_iff.mpr ⟨empty_accounted hstack (Or.inr hop), fun hsp => ?_⟩
  rw [hstack.read 0 (Nat.not_le.mp hsp), Except.ok_bind]
  refine Returns.ite_iff.mpr ⟨fun hst => absurd rfl hst, fun _ => ?_⟩
  refine Returns.ite_iff.mpr ⟨fun hge => ?_, fun _ => accounted_ok hvm⟩
  refine accounted_by (refused_target ht ?_ (le_toNat_of_toInt hge)) _
  rw [targetWord, hop]

/-! ## System calls -/

/-- One argument more, on a stack that has it. -/
theorem withPop_accounted {k : VM → Word → Exec Result}
    (hempty : vm.sp.toNat = MEM_SIZE → P .stackUnderflow)
    (hk : vm.sp.toNat + 8 ≤ MEM_SIZE → (vm.popped 0).running = true → StackAligned (vm.popped 0) →
      Returns (k (vm.popped 0) (vm.stackWord 0)) (Accounted P)) :
    Returns (withPop vm k) (Accounted P) := by
  rw [withPop_eq]
  refine Returns.ite_iff.mpr ⟨fun hsp => ?_, fun hsp => ?_⟩
  · exact accounted_by (hempty (Nat.le_antisymm hstack.top hsp)) _
  · have hroom := hstack.room (Nat.not_le.mp hsp)
    refine Returns.ite_iff.mpr ⟨fun _ => ?_, fun hno => absurd hroom hno⟩
    exact hk hroom hvm (hstack.pops 1 (Or.inr hroom) rfl)

omit hstack in
theorem answer_accounted (v : Word) : Returns (answer vm v) (Accounted P) :=
  setting_accounted rfl hvm

omit hstack in
theorem filled_accounted {lo n : Nat} {f : Nat → Byte} {v : Word} :
    Returns (do let vm ← vm.fill lo n f
                answer vm v) (Accounted P) := by
  refine Returns.bind_iff.mpr fun vm₁ hfill => ?_
  obtain ⟨-, rfl⟩ := fill_cases hfill
  exact setting_accounted rfl hvm

end

/-- What the handler at `id` answers behind `VM_OK` or with another status. -/
abbrev CallAnswers (vm : VM) (id : Nat) (status : VmError) : Prop :=
  CallCause vm id status ∨ id = 9 ∧ status = .ok

/-- The stack ends in front of an argument. -/
theorem missing_at {id j : Nat} (hj : j < argCount id) (hsp : vm.sp.toNat + 8 * j = MEM_SIZE) :
    CallAnswers vm id .stackUnderflow := by
  refine Or.inl (.missing fun h => ?_)
  rw [HasArgs] at h
  omega

section
variable {id : Nat} (hvm : vm.running = true) (hstack : StackAligned vm)
  {k₁ : VM → Word → Exec Result} {k₂ : VM → Word → Word → Exec Result}
  {k₃ : VM → Word → Word → Word → Exec Result}
include hvm hstack

theorem arg₁_accounted (hid : 0 < argCount id)
    (hk : vm.sp.toNat + 8 ≤ MEM_SIZE → (vm.popped 0).running = true → StackAligned (vm.popped 0) →
      Returns (k₁ (vm.popped 0) (vm.stackWord 0)) (Accounted (CallAnswers vm id))) :
    Returns (withPop vm k₁) (Accounted (CallAnswers vm id)) :=
  withPop_accounted hvm hstack (fun h => missing_at hid h) hk

theorem args₂_accounted (hid : 1 < argCount id)
    (hk : vm.sp.toNat + 16 ≤ MEM_SIZE → ((vm.popped 0).popped 0).running = true →
      StackAligned ((vm.popped 0).popped 0) →
      Returns (k₂ ((vm.popped 0).popped 0) (vm.stackWord 0) (vm.stackWord 1))
        (Accounted (CallAnswers vm id))) :
    Returns (withPop vm fun vm a => withPop vm fun vm b => k₂ vm a b)
      (Accounted (CallAnswers vm id)) := by
  refine arg₁_accounted hvm hstack (Nat.zero_lt_of_lt hid) fun h₁ hvm₁ hstack₁ => ?_
  have hsp := popped_sp (a := 0) h₁
  refine withPop_accounted hvm₁ hstack₁ (fun h => missing_at hid (by omega)) ?_
  intro h₂ hvm₂ hstack₂
  rw [popped_stackWord h₁]
  exact hk (by omega) hvm₂ hstack₂

theorem args₃_accounted (hid : 2 < argCount id)
    (hk : vm.sp.toNat + 24 ≤ MEM_SIZE → (((vm.popped 0).popped 0).popped 0).running = true →
      Returns (k₃ (((vm.popped 0).popped 0).popped 0) (vm.stackWord 0) (vm.stackWord 1)
        (vm.stackWord 2)) (Accounted (CallAnswers vm id))) :
    Returns (withPop vm fun vm a => withPop vm fun vm b => withPop vm fun vm c => k₃ vm a b c)
      (Accounted (CallAnswers vm id)) := by
  refine args₂_accounted hvm hstack (Nat.lt_of_succ_lt hid) fun h₂ hvm₂ hstack₂ => ?_
  have h₁ : vm.sp.toNat + 8 ≤ MEM_SIZE := by omega
  have hsp₁ := popped_sp (a := 0) h₁
  have h₁' : (vm.popped 0).sp.toNat + 8 ≤ MEM_SIZE := by omega
  have hsp₂ := popped_sp (a := 0) h₁'
  refine withPop_accounted hvm₂ hstack₂ (fun h => missing_at hid (by omega)) ?_
  intro h₃ hvm₃ _
  rw [popped_stackWord h₁', popped_stackWord h₁]
  exact hk (by omega) hvm₃

theorem readFile_accounted : Returns (syscallREAD_FILE host vm) (Accounted (CallAnswers vm 1)) := by
  refine args₂_accounted hvm hstack (by decide) fun h₂ hvm₂ hstack₂ => ?_
  refine Returns.ite_iff.mpr ⟨fun h => accounted_by (Or.inl (.heap (Or.inl rfl) h)) _, fun _ => ?_⟩
  have h₁ : vm.sp.toNat + 8 ≤ MEM_SIZE := by omega
  have hsp₁ := popped_sp (a := 0) h₁
  have hsp₂ := popped_sp (a := 0) (show (vm.popped 0).sp.toNat + 8 ≤ MEM_SIZE by omega)
  refine withPop_accounted hvm₂ hstack₂ (fun h => ?_) fun _ hvm₃ _ => ?_
  · exact missing_at (j := 2) (by decide) (by omega)
  · exact .bind fun _ => filled_accounted hvm₃

theorem malloc_accounted : Returns (syscallMALLOC host vm) (Accounted (CallAnswers vm 10)) := by
  refine arg₁_accounted hvm hstack (by decide) fun _ hvm₁ _ => ?_
  intro r hr
  dsimp only at hr
  obtain ⟨vm₁, hset, heq⟩ := Except.bind_eq_ok.mp hr
  cases heq
  obtain ⟨_, rfl⟩ := setReg_cases hset
  rw [vmAlloc]
  split
  · next hnone => exact Or.inr (Or.inl (.full (allocNodes_eq_none.mp hnone)))
  · exact Or.inl ⟨rfl, hvm₁⟩

theorem free_accounted : Returns (syscallFREE vm) (Accounted (CallAnswers vm 11)) := by
  refine arg₁_accounted hvm hstack (by decide) fun _ hvm₁ _ => Returns.ok_iff.mpr ?_
  rw [vmFree]
  split
  · next h => exact Or.inr (Or.inl (.outside h))
  · split
    · next hnone => exact Or.inr (Or.inl (.unknown (freeNodes_eq_none.mp hnone)))
    · exact Or.inl ⟨rfl, hvm₁⟩

theorem memcpy_accounted : Returns (syscallMEMCPY host vm) (Accounted (CallAnswers vm 13)) := by
  refine args₃_accounted hvm hstack (by decide) ?_
  generalize ((vm.popped 0).popped 0).popped 0 = vm₃
  intro _ hvm₃
  refine Returns.bind_iff.mpr fun vm₁ h => answer_accounted ?_ 0
  rw [VM.memcpy_eq h]
  exact hvm₃

theorem syscall_accounted {handler : SysCall} (hh : dispatchSyscalls host id = some handler) :
    Returns (handler vm) (Accounted (CallAnswers vm id)) := by
  unfold dispatchSyscalls at hh
  split at hh <;> cases hh
  · exact args₃_accounted hvm hstack (by decide) fun _ hvm => .bind fun _ => answer_accounted hvm _
  · exact readFile_accounted hvm hstack
  · exact arg₁_accounted hvm hstack (by decide) fun _ hvm _ => .bind fun _ => answer_accounted hvm _
  · exact arg₁_accounted hvm hstack (by decide) fun _ hvm _ => answer_accounted hvm _
  · exact arg₁_accounted hvm hstack (by decide) fun _ hvm _ => answer_accounted hvm _
  · exact arg₁_accounted hvm hstack (by decide) fun _ hvm _ => .bind fun _ => answer_accounted hvm _
  · exact answer_accounted hvm _
  · refine args₂_accounted hvm hstack (by decide) fun _ hvm _ => ?_
    refine Returns.ite_iff.mpr ⟨fun h => ?_, ?_⟩
    · exact accounted_by (Or.inl (.heap (Or.inr rfl) h)) _
    · exact fun _ => .bind fun _ => filled_accounted hvm
  · exact arg₁_accounted hvm hstack (by decide) fun _ _ _ => accounted_by (Or.inr ⟨rfl, rfl⟩) _
  · exact malloc_accounted hvm hstack
  · exact free_accounted hvm hstack
  · refine args₃_accounted hvm hstack (by decide) fun _ hvm => Returns.ite_iff.mpr ⟨fun h => ?_, ?_⟩
    · exact accounted_by (Or.inl (.range (Or.inl rfl) h)) _
    · exact fun _ => filled_accounted hvm
  · exact memcpy_accounted hvm hstack
  · exact accounted_ok hvm
  · exact accounted_ok hvm
  · refine args₂_accounted hvm hstack (by decide) fun _ hvm _ => ?_
    refine Returns.ite_iff.mpr ⟨fun h => ?_, ?_⟩
    · exact accounted_by (Or.inl (.range (Or.inr rfl) h)) _
    · exact fun _ => .bind fun _ => accounted_ok hvm

theorem instrTRAP_accounted (hop : i.opcode = .trap) :
    Returns (instrTRAP host vm i) (Accounted (EndCause vm i)) := by
  refine Returns.bind_iff.mpr fun r0 hget => ?_
  obtain ⟨-, rfl⟩ := getReg_cases hget
  refine Returns.ite_iff.mpr ⟨fun _ => Returns.error_iff.mpr trivial, fun hrange => ?_⟩
  cases hh : dispatchSyscalls host (syscallId (vm.reg 0)).toNat with
  | none =>
      have hid := (dispatch_none_iff host _).mp hh
      exact accounted_by (.nobody hop (by omega)) _
  | some handler =>
      refine (syscall_accounted hvm hstack hh).mono fun r hr => hr.imp_right ?_
      rintro (hcause | ⟨hid, hok⟩)
      · exact .answered hop hcause
      · rw [hok]
        exact .exited hop (by omega)

/-! ## All of them -/

theorem handler_accounted {handler : InstrHandler}
    (hh : getHandler host i.opcode i.mode = some handler) :
    Returns (handler vm i) (Accounted (EndCause vm i)) := by
  have haccess : i.opcode = .st ∨ i.opcode = .swp →
      accesses vm i = (wordAddress vm i i.b).toList := by
    rintro (hop | hop) <;> rw [accesses, hop]
  cases handled hh with
  | data hop hh => exact data_accounted hvm hop hh
  | neg | not =>
      refine Returns.ite_iff.mpr ⟨fun ha => accounted_by (.register (Or.inl ha)) _, fun _ => ?_⟩
      exact .bind fun x => finish_accounted hvm _ _ _ _ _
  | std hop hm => exact atDIR_accounted (haccess (Or.inl hop)) (bodyST_accounted hvm) hm
  | sti hop hm => exact atIND_accounted (haccess (Or.inl hop)) (bodyST_accounted hvm) hm
  | stx hop hm => exact atIDX_accounted (haccess (Or.inl hop)) (bodyST_accounted hvm) hm
  | swpr => exact instrSWPR_accounted hvm
  | swpd hop hm => exact atDIR_accounted (haccess (Or.inr hop)) (bodySWP_accounted hvm) hm
  | swpi hop hm => exact atIND_accounted (haccess (Or.inr hop)) (bodySWP_accounted hvm) hm
  | swpx hop hm => exact atIDX_accounted (haccess (Or.inr hop)) (bodySWP_accounted hvm) hm
  | push hop => exact instrPUSH_accounted hvm hstack hop
  | pushr hop => exact instrPUSHR_accounted hvm hstack hop
  | pop hop => exact instrPOP_accounted hvm hstack hop
  | fas hop hh => exact fas_accounted hvm hop hh
  | call hop hh => exact call_accounted hvm hstack hop hh
  | rtn hop => exact instrRTN_accounted hvm hstack hop
  | nop => exact accounted_ok hvm
  | rst => exact accounted_ok rfl
  | halt hop => exact accounted_by (.halted hop) _
  | trap hop => exact instrTRAP_accounted hvm hstack hop
  | jmp hop hh => exact jmp_accounted hvm hop hh
  | conditional j hop hh => exact conditional_accounted hvm hop hh

end

/-! ## What is fetched -/

/-- Nothing, in the last two bytes of the code segment; or an operation and a mode,
with the operands if there is room for the instruction and one more byte. -/
theorem fetch_cases {consumed : Nat} (h : fetch host vm = .ok (consumed, i)) :
    (consumed = 0 ∧ DATA_BASE < vm.pc.toNat + 3) ∨
      OpCode.ofByte? (byteAt vm.memory vm.pc.toNat) = some i.opcode ∧
        i.mode = Mode.ofByte (byteAt vm.memory (vm.pc.toNat + 1)) ∧
        ∃ size, modeSize i.mode = .ok size ∧
          (consumed = size ∧ vm.pc.toNat + size < DATA_BASE ∨
            consumed ≠ size ∧ DATA_BASE < vm.pc.toNat + size + 3) := by
  rw [fetch_eq] at h
  split at h
  · cases h
    exact Or.inl ⟨rfl, by omega⟩
  · next hroom =>
      split at h
      · cases h
      · next opcode hop =>
          dsimp only at h
          split at h
          · next hmode =>
              cases h
              exact Or.inr ⟨hop, rfl, 2, by rw [hmode]; rfl, Or.inl ⟨rfl, by omega⟩⟩
          · next hmode =>
              obtain ⟨size, hsize, h⟩ := Except.bind_eq_ok.mp h
              split at h
              · next hshort =>
                  cases h
                  refine Or.inr ⟨hop, rfl, size, hsize, Or.inr ⟨fun htwo => ?_, by omega⟩⟩
                  exact modeSize_ne_two hmode (htwo ▸ hsize)
              · next hlong =>
                  cases h
                  exact Or.inr ⟨hop, rfl, _, hsize, Or.inl ⟨rfl, by omega⟩⟩

theorem modeSize_bounds {mode : Mode} {size : Nat} (h : modeSize mode = .ok size) :
    2 ≤ size ∧ size ≤ 12 := by
  cases mode <;> cases h <;> simp

/-- What is executed ends before the last byte of the code segment. -/
theorem Executes.ends {size : Nat} (hexec : Executes host vm i)
    (hsize : modeSize i.mode = .ok size) : vm.pc.toNat + size < DATA_BASE := by
  obtain ⟨-, ⟨consumed, hfetch, hsize'⟩, -⟩ := hexec
  cases hsize.symm.trans hsize'
  rcases fetch_cases hfetch with ⟨rfl, -⟩ | ⟨-, -, n, hn, ⟨-, hends⟩ | ⟨hne, -⟩⟩
  · exact absurd (modeSize_bounds hsize).1 (by simp)
  · cases hsize.symm.trans hn
    exact hends
  · cases hsize.symm.trans hn
    exact absurd rfl hne

/-! ## Steps and runs -/

/-- What a status says of the machine whose step returned it. -/
def Explains (host : Host) (vm : VM) : VmError → Prop
  | .invalidExecutionAddress => DATA_BASE ≤ vm.pc.toNat
  | .truncatedInstr => vm.pc.toNat < DATA_BASE ∧ DATA_BASE < vm.pc.toNat + 15
  | .unknownInstr => ∃ opcode, OpCode.ofByte? (byteAt vm.memory vm.pc.toNat) = some opcode ∧
      getHandler host opcode (Mode.ofByte (byteAt vm.memory (vm.pc.toNat + 1))) = none
  | .instrPriv | .instrTrap | .codeLoadOutOfBounds | .dataLoadOutOfBounds => False
  | status => ∃ i, Executes host vm i ∧ EndCause vm i status

/-- The last three codes are those of a step that executes nothing. -/
theorem EndCause.explains {status : VmError} (hexec : Executes host vm i)
    (h : EndCause vm i status) : Explains host vm status := by
  cases h with
  | halted hop => exact ⟨i, hexec, .halted hop⟩
  | exited hop hid => exact ⟨i, hexec, .exited hop hid⟩
  | zero hop hy => exact ⟨i, hexec, .zero hop hy⟩
  | register h => exact ⟨i, hexec, .register h⟩
  | access hmem h => exact ⟨i, hexec, .access hmem h⟩
  | target ht h => exact ⟨i, hexec, .target ht h⟩
  | full hop h => exact ⟨i, hexec, .full hop h⟩
  | empty hop h => exact ⟨i, hexec, .empty hop h⟩
  | nobody hop h => exact ⟨i, hexec, .nobody hop h⟩
  | answered hop h =>
      have hcause := EndCause.answered hop h
      generalize (syscallId (vm.reg 0)).toNat = id at h
      cases h <;> exact ⟨i, hexec, hcause⟩

/-- A step goes on, or is explained by its status. -/
theorem cpuStep_explained {status : VmError} (hvm : vm.running = true) (hstack : StackAligned vm)
    (h : cpuStep host vm = .ok (status, vm')) :
    (status = .ok ∧ vm'.running = true) ∨ Explains host vm status := by
  have hcopy := h
  rw [cpuStep] at h
  split at h
  · next hpc =>
      cases h
      exact Or.inr hpc
  · next hpc =>
      obtain ⟨⟨consumed, i⟩, hfetch, h⟩ := Except.bind_eq_ok.mp h
      obtain ⟨size, hsize, h⟩ := Except.bind_eq_ok.mp h
      dsimp only at h hsize
      split at h
      · next hne =>
          cases h
          refine Or.inr ⟨Nat.not_le.mp hpc, ?_⟩
          rcases fetch_cases hfetch with ⟨-, hlast⟩ | ⟨-, -, n, hn, ⟨heq, -⟩ | ⟨-, hlast⟩⟩
          · omega
          · cases hsize.symm.trans hn
            exact absurd heq hne
          · have hle := (modeSize_bounds hn).2
            omega
      · next heq =>
          obtain rfl := not_not.mp heq
          split at h
          · next hnone =>
              cases h
              rcases fetch_cases hfetch with ⟨rfl, -⟩ | ⟨hop, hm, -⟩
              · exact absurd (modeSize_bounds hsize).1 (by simp)
              · exact Or.inr ⟨i.opcode, hop, hm ▸ hnone⟩
          · next handler hh =>
              have hexec : Executes host vm i :=
                ⟨Nat.not_le.mp hpc, ⟨_, hfetch, hsize⟩, handler, hh⟩
              obtain ⟨handler', size, vm₁, hh', -, hrun, rfl⟩ := cpuStep_executes hexec hcopy
              rw [advance]
              rcases handler_accounted hvm hstack hh' _ hrun with ⟨hok, hrunning⟩ | hcause
              · refine Or.inl ⟨hok, ?_⟩
                split
                · exact hrunning
                · exact hrunning
              · exact Or.inr (hcause.explains hexec)

/-- **`vm_run` returns for the reason that its status names.** -/
theorem run_explained (hosts : Nat → Host) (fuel cycle : Nat) (vm vm' : VM) (status : VmError)
    (hreach : Reachable vm) (hvm : vm.running = true)
    (h : vmRun hosts fuel vm = some (.ok (cycle, status, vm'))) :
    ∃ vm₁, Steps vm vm₁ ∧ cpuStep (hosts cycle) vm₁ = .ok (status, vm') ∧
      Explains (hosts cycle) vm₁ status := by
  obtain ⟨vm₁, hrest, hstep, hstop⟩ := Loop.run_ok_iff.mp ⟨fuel, h⟩
  have hsteps := Rounds.steps hrest
  have hreach₁ : Reachable vm₁ := by
    obtain ⟨bin, start, st, vm₀, hload, hrun⟩ := hreach
    exact ⟨bin, start, st, vm₀, hload, hrun.trans hsteps⟩
  have hvm₁ : vm₁.running = true :=
    hrest.keeps (fun _ _ _ _ _ _ hgo => (goesOn_iff.mp hgo).2) hvm
  refine ⟨vm₁, hsteps, hstep, ?_⟩
  rcases cpuStep_explained hvm₁ hreach₁.stackAligned hstep with ⟨hok, hrunning⟩ | hcause
  · rw [goesOn_iff.mpr ⟨hok, hrunning⟩] at hstop
    cases hstop
  · exact hcause

/-- Behind its last instruction the program runs into zeros. -/
theorem run_explained_zeros : ∃ vm₁, Steps (machineAfter oneMalloc 0) vm₁ ∧
    cpuStep default vm₁ = .ok (.unknownInstr, machineAfter oneMalloc 3) ∧
    Explains default vm₁ .unknownInstr := by
  have h₁ : cpuStep default (machineAfter oneMalloc 0) = .ok (.ok, machineAfter oneMalloc 1) := rfl
  have h₂ : cpuStep default (machineAfter oneMalloc 1) = .ok (.ok, machineAfter oneMalloc 2) := rfl
  have h₃ : cpuStep default (machineAfter oneMalloc 2) = .ok (.ok, machineAfter oneMalloc 3) := rfl
  have h₄ : cpuStep default (machineAfter oneMalloc 3) =
      .ok (.unknownInstr, machineAfter oneMalloc 3) := rfl
  have hrun : vmRun (fun _ => default) 4 (machineAfter oneMalloc 0) =
      some (.ok (3, .unknownInstr, machineAfter oneMalloc 3)) := by
    rw [vmRun, Loop.run_next h₁ rfl, Loop.run_next h₂ rfl, Loop.run_next h₃ rfl,
      Loop.run_stop h₄ rfl]
  exact run_explained (fun _ => default) 4 3 _ _ .unknownInstr
    ⟨oneMalloc, 0, .ok, _, rfl, .refl⟩ rfl hrun

/-! ## `RST`

It clears the memory, the program with it, and zeros are no instruction. -/

/-- The machine that `RST` leaves; at address 0 it is taken for an instruction that
does not touch `pc`. -/
def VM.restarted (vm : VM) : VM :=
  { initVM with pc := if vm.pc = 0 then 2 else 0 }

theorem Executes.restarted (hexec : Executes host vm i) (hop : i.opcode = .rst) :
    cpuStep host vm = .ok (.ok, vm.restarted) := by
  obtain ⟨hpc, ⟨consumed, hfetch, hsize⟩, handler, hh⟩ := hexec
  rw [cpuStep_at hpc hfetch hsize hh]
  rw [hop] at hh
  cases hm : i.mode <;> rw [hm] at hh <;> cases hh
  rw [hm] at hsize
  cases hsize
  simp only [instrRST, Except.map, advance, VM.restarted, true_and]
  by_cases hzero : vm.pc = 0
  · rw [if_pos hzero, if_pos (show initVM.pc = vm.pc from hzero.symm)]
    rfl
  · rw [if_neg hzero, if_neg (show ¬ initVM.pc = vm.pc from fun h => hzero h.symm)]
    rfl

theorem restarted_step (host : Host) (vm : VM) :
    cpuStep host vm.restarted = .ok (.unknownInstr, vm.restarted) := by
  have hpc : vm.restarted.pc.toNat ≤ 2 := by
    rw [VM.restarted]
    split
    · exact Nat.le_refl _
    · exact Nat.zero_le _
  have hzero : ∀ k, byteAt vm.restarted.memory k = 0 := by
    intro k
    rw [byteAt]
    split
    · rfl
    · rfl
  have hroom : ¬ DATA_BASE - vm.restarted.pc.toNat - 1 < 2 := by simp; omega
  have hfetch : fetch host vm.restarted =
      .ok (2, { host.instr with opcode := .add, mode := .none }) := by
    rw [fetch_eq, if_neg hroom, hzero, hzero]
    rfl
  rw [cpuStep, if_neg (by simp; omega), hfetch]
  rfl

/-- **A run that gets to `RST` ends with `VM_UNKNOWN_INSTR` one cycle later.** -/
theorem reset_ends_run (hosts : Nat → Host) (n fuel : Nat) (vm₀ vm : VM) (i : Instruction)
    (hrun : Loop.Rounds vmLoop hosts 0 vm₀ n vm) (hexec : Executes (hosts n) vm i)
    (hop : i.opcode = .rst) (hfuel : n + 2 ≤ fuel) :
    vmRun hosts fuel vm₀ = some (.ok (n + 1, .unknownInstr, vm.restarted)) := by
  have hreset : vmLoop.step (hosts n) vm = .ok (.ok, vm.restarted) := hexec.restarted hop
  have hnext := hrun.snoc hreset rfl
  have hstop : vmLoop.step (hosts (n + 1)) vm.restarted = .ok (.unknownInstr, vm.restarted) :=
    restarted_step _ vm
  have hlast := hnext.run_eq 1
  rw [Loop.run_stop hstop rfl] at hlast
  exact Loop.run_mono hlast (by omega)

/-- `NOP`, `RST`. -/
def nopReset : Binary where
  headers := ⟨0, 0, 4, 0⟩
  bytecode := [20, 0, 21, 0]
  data := []

theorem reset_ends_run_nop : vmRun (fun _ => default) 3 (machineAfter nopReset 0) =
    some (.ok (2, .unknownInstr, (machineAfter nopReset 1).restarted)) := by
  have hnop : cpuStep default (machineAfter nopReset 0) = .ok (.ok, machineAfter nopReset 1) := rfl
  have hexec : Executes default (machineAfter nopReset 1) ⟨.rst, .none, 0, 0, 0⟩ :=
    ⟨by decide, ⟨2, by decide, rfl⟩, _, rfl⟩
  exact reset_ends_run (fun _ => default) 1 3 _ _ _ (.head hnop rfl (.refl _ _)) hexec rfl
    (Nat.le_refl _)

end BSVM
