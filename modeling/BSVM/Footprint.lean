/-
# `BSVM.Footprint` — what an instruction writes

`footprint` says, before an instruction is executed, which bytes it may change:

    ST, SWP       the word at the operand's address
    FAS           the word at its second address
    PUSH, CALL    the word under `sp`
    RST           all of them
    TRAP          the range that READ_FILE, READ_STR, MEMSET or MEMCPY is given
    the others    none

Whatever the instruction does then, also when it is refused, every other byte stays
as it is (`handler_confined`), so a byte that changes in a run was written.
-/
import Mathlib.Order.Interval.Set.Basic
import BSVM.Faults
import BSVM.HeldBlocks
import BSVM.Meaning
import BSVM.StackRefinement

namespace BSVM

variable {host : Host} {vm vm' : VM} {i : Instruction} {S : Set Nat}

/-! ## The bytes -/

def wordCells (addr : Word) : Set Nat :=
  Set.Ico addr.toNat (addr.toNat + 8)

/-- The range that a system call fills; its arguments are on the stack. -/
def syscallBytes (vm : VM) : Nat → Set Nat
  | 1 => Set.Ico (vm.stackWord 1).toNat ((vm.stackWord 1).toNat + (vm.stackWord 2).toNat)
  | 8 => Set.Ico (vm.stackWord 0).toNat
      ((vm.stackWord 0).toNat + ((vm.stackWord 1).setWidth 32).toInt.toNat)
  | 12 | 13 => Set.Ico (vm.stackWord 0).toNat ((vm.stackWord 0).toNat + (vm.stackWord 2).toNat)
  | _ => ∅

/-- The addresses of the bytes that an instruction may change. -/
def footprint (vm : VM) (i : Instruction) : Set Nat :=
  match i.opcode with
  | .st | .swp => {k | ∃ addr, wordAddress vm i i.b = some addr ∧ k ∈ wordCells addr}
  | .fas => wordCells (fasStore vm i)
  | .push | .call => Set.Ico (vm.sp.toNat - 8) vm.sp.toNat
  | .rst => Set.univ
  | .trap => syscallBytes vm (syscallId (vm.reg 0)).toNat
  | _ => ∅

/-- Outside `S` the memory is that of `vm`. -/
abbrev Confined (vm : VM) (S : Set Nat) (r : Result) : Prop :=
  ∀ k : Fin MEM_SIZE, (k : Nat) ∉ S → r.2.memory k = vm.memory k

/-- A register, the flags or nothing. -/
abbrev Computes (vm : VM) (r : Result) : Prop :=
  ∃ regs sr, r.2 = { vm with registers := regs, sr := sr }

theorem Computes.same (status : VmError) : Computes vm (status, vm) :=
  ⟨vm.registers, vm.sr, rfl⟩

theorem Computes.confined {r : Result} (h : Computes vm r) : Confined vm S r := by
  obtain ⟨regs, sr, h⟩ := h
  intro k _
  rw [h]

theorem confined_same (status : VmError) : Confined vm S (status, vm) :=
  fun _ _ => rfl

theorem returns_same (status : VmError) :
    Returns (.ok (status, vm) : Exec Result) (Confined vm S) :=
  Returns.ok_iff.mpr (confined_same status)

/-! ## Data instructions -/

theorem finish_computes (a : Byte) (res v : Word) (c o : Bool) :
    Returns (finish (setSR vm res c o) a v) (Computes vm) := by
  refine Returns.bind_iff.mpr fun vm₁ hset => Returns.ok_iff.mpr ?_
  obtain ⟨_, rfl⟩ := setReg_cases hset
  rw [setSR_eq]
  exact ⟨_, _, rfl⟩

theorem dataOp_computes {opcode : OpCode} {op : DataOp} (hop : dataOp host opcode = some op)
    (a : Byte) (y : Word) : Returns (op vm a y) (Computes vm) := by
  cases opcode <;> cases hop
  case div =>
    refine Returns.guard (.same _) fun _ => .bind fun x => Returns.ite_iff.mpr ⟨fun _ => ?_, ?_⟩
    · exact Returns.error_iff.mpr trivial
    · exact fun _ => finish_computes _ _ _ _ _
  case cmp =>
    refine .bind fun x => Returns.ok_iff.mpr ?_
    rw [setSRSUB, setSR_eq]
    exact ⟨_, _, rfl⟩
  case shl =>
    refine .bind fun x => .bind fun res => Returns.bind_iff.mpr ?_
    exact .bind fun out => Returns.ok_iff.mpr (finish_computes _ _ _ _ _)
  case shr =>
    refine .bind fun x => .bind fun res => Returns.bind_iff.mpr ?_
    exact .bind fun out => Returns.ok_iff.mpr (finish_computes _ _ _ _ _)
  case ld =>
    refine Returns.bind_iff.mpr fun vm₁ hset => Returns.ok_iff.mpr ?_
    obtain ⟨_, rfl⟩ := setReg_cases hset
    exact ⟨_, vm.sr, rfl⟩
  all_goals exact .bind fun x => finish_computes _ _ _ _ _

theorem data_computes {op : DataOp} {handler : InstrHandler} (hop : dataOp host i.opcode = some op)
    (hh : getHandler host i.opcode i.mode = some handler) :
    Returns (handler vm i) (Computes vm) := by
  rw [data_handler_eq hop hh]
  refine Returns.guard (.same _) fun _ => .bind fun r => Returns.ite_iff.mpr ⟨fun _ => ?_, ?_⟩
  · exact dataOp_computes hop _ _
  · exact fun _ => Returns.ok_iff.mpr (.same _)

theorem instrSWPR_computes : Returns (instrSWPR vm i) (Computes vm) := by
  refine Returns.guard (.same _) fun _ => .bind fun x => .bind fun y => ?_
  refine Returns.bind_iff.mpr fun vm₁ h₁ => Returns.bind_iff.mpr fun vm₂ h₂ => ?_
  obtain ⟨_, rfl⟩ := setReg_cases h₁
  obtain ⟨_, rfl⟩ := setReg_cases h₂
  exact Returns.ok_iff.mpr ⟨_, vm.sr, rfl⟩

/-! ## Stores, swaps and fetch-and-set -/

theorem writeWord_outside {m : Memory} {addr : Nat} {v : Word} {k : Fin MEM_SIZE}
    (h : (k : Nat) ∉ Set.Ico addr (addr + 8)) : writeWord m addr v k = m k := by
  refine overlay_outside ?_
  rw [Set.mem_Ico] at h
  omega

section
variable {op : AddrOp}
  (hop : ∀ addr, wordAddress vm i i.b = some addr → Returns (op vm i.a addr) (Confined vm S))
include hop

theorem atDIR_confined (hm : i.mode = .dir) : Returns (atDIR op vm i) (Confined vm S) := by
  refine Returns.guard (confined_same _) fun _ => Returns.guard (confined_same _) fun _ => hop _ ?_
  rw [wordAddress, hm]

theorem atIND_confined (hm : i.mode = .ind) : Returns (atIND op vm i) (Confined vm S) := by
  refine Returns.guard (confined_same _) fun _ => Returns.bind_iff.mpr fun b hget => ?_
  obtain ⟨-, rfl⟩ := getReg_cases hget
  refine Returns.guard (confined_same _) fun _ => hop _ ?_
  rw [wordAddress, hm]

theorem atIDX_confined (hm : i.mode = .idx) : Returns (atIDX op vm i) (Confined vm S) := by
  refine Returns.guard (confined_same _) fun _ => Returns.bind_iff.mpr fun b hget => ?_
  obtain ⟨-, rfl⟩ := getReg_cases hget
  refine Returns.guard (confined_same _) fun _ => hop _ ?_
  rw [wordAddress, hm]

end

theorem memWrite64_confined (vm : VM) (addr v : Word) :
    Returns (memWrite64 vm addr v) (Confined vm (wordCells addr)) := by
  rintro ⟨status, vm'⟩ h
  rcases memWrite64_cases h with ⟨-, -, rfl⟩ | ⟨-, -, rfl⟩
  · exact fun k hk => writeWord_outside hk
  · exact confined_same _

theorem bodyST_confined (addr : Word) :
    Returns (bodyST vm i.a addr) (Confined vm (wordCells addr)) :=
  .bind fun x => memWrite64_confined vm addr x

theorem bodySWP_confined (addr : Word) :
    Returns (bodySWP vm i.a addr) (Confined vm (wordCells addr)) := by
  refine .bind fun r => Returns.ite_iff.mpr ⟨fun _ => .bind fun x => ?_, fun _ => returns_same _⟩
  refine Returns.bind_iff.mpr fun r hwrite => ?_
  have hmem := memWrite64_confined vm addr x r hwrite
  refine Returns.ite_iff.mpr ⟨fun _ => ?_, fun _ => Returns.ok_iff.mpr hmem⟩
  refine Returns.bind_iff.mpr fun vm₁ hset => Returns.ok_iff.mpr ?_
  obtain ⟨_, rfl⟩ := setReg_cases hset
  exact hmem

theorem FasOutcome.confined {status : VmError} (h : FasOutcome vm i status vm') :
    Confined vm (wordCells (fasStore vm i)) (status, vm') := by
  cases h with
  | refused => exact confined_same _
  | set => exact fun k hk => writeWord_outside hk
  | loaded => exact fun _ _ => rfl

/-! ## The stack and the calls -/

theorem pushed_confined (hsp : STACK_BASE < vm.sp.toNat) (status : VmError) (v pc : Word) :
    Confined vm (Set.Ico (vm.sp.toNat - 8) vm.sp.toNat) (status, vm.pushed v pc) := by
  intro k hk
  refine writeWord_outside ?_
  rwa [Nat.sub_add_cancel (Nat.le_trans (by simp) hsp.le)]

theorem pushWord_confined (hsp : ¬ vm.sp.toNat ≤ STACK_BASE) (v : Word) :
    Returns (pushWord vm v) (Confined vm (Set.Ico (vm.sp.toNat - 8) vm.sp.toNat)) := by
  intro r hr
  rcases pushWord_cases (Nat.not_le.mp hsp) hr with ⟨-, rfl⟩ | rfl
  · exact pushed_confined (Nat.not_le.mp hsp) _ v vm.pc
  · exact confined_same _

theorem instrPOP_confined : Returns (instrPOP vm i) (Confined vm S) := by
  refine Returns.guard (confined_same _) fun _ => Returns.guard (confined_same _) fun _ => ?_
  refine .bind fun r => Returns.ite_iff.mpr ⟨fun _ => ?_, fun _ => returns_same _⟩
  refine Returns.bind_iff.mpr fun vm₁ hset => Returns.ok_iff.mpr ?_
  obtain ⟨_, rfl⟩ := setReg_cases hset
  exact fun _ _ => rfl

/-- What a call leaves: an error, or the address behind it on the stack. -/
inductive CallOutcome (vm : VM) (i : Instruction) : Result → Prop
  | refused {status : VmError} (hst : status ≠ .ok) : CallOutcome vm i (status, vm)
  | called {size : Nat} (target : Word) (hsize : modeSize i.mode = .ok size)
      (h₁ : STACK_BASE < vm.sp.toNat) (h₂ : vm.sp.toNat ≤ MEM_SIZE) :
      CallOutcome vm i (.ok, vm.pushed (vm.pc + BitVec.ofNat 64 size) target)

theorem callTo_called (hsp : ¬ vm.sp.toNat ≤ STACK_BASE) (target : Word) :
    Returns (callTo vm i target) (CallOutcome vm i) := by
  refine Returns.bind_iff.mpr fun size hsize => Returns.bind_iff.mpr ?_
  intro r hr
  rcases pushWord_cases (Nat.not_le.mp hsp) hr with ⟨hle, rfl⟩ | rfl
  · exact Returns.ok_iff.mpr (.called target hsize (Nat.not_le.mp hsp) hle)
  · exact Returns.ok_iff.mpr (.refused (by simp))

theorem callAt_called (hsp : ¬ vm.sp.toNat ≤ STACK_BASE) (addr : Word) :
    Returns (callAt vm i addr) (CallOutcome vm i) := by
  refine .bind fun r => Returns.ite_iff.mpr ⟨fun hst => Returns.ok_iff.mpr (.refused hst), ?_⟩
  exact fun _ => Returns.guard (.refused (by simp)) fun _ => callTo_called hsp _

theorem call_called {handler : InstrHandler} (hh : dispatchCALL i.mode = some handler) :
    Returns (handler vm i) (CallOutcome vm i) := by
  have hst : ∀ {status : VmError}, status ≠ .ok → CallOutcome vm i (status, vm) := .refused
  cases hm : i.mode <;> rw [hm] at hh <;> cases hh
  · refine Returns.guard (hst (by simp)) fun hsp => Returns.guard (hst (by simp)) fun _ => ?_
    exact callTo_called hsp _
  · refine Returns.guard (hst (by simp)) fun _ => Returns.guard (hst (by simp)) fun hsp => ?_
    exact .bind fun target => Returns.guard (hst (by simp)) fun _ => callTo_called hsp _
  · exact Returns.guard (hst (by simp)) fun hsp => callAt_called hsp _
  · refine Returns.guard (hst (by simp)) fun hsp => Returns.guard (hst (by simp)) fun _ => ?_
    exact .bind fun addr => callAt_called hsp _
  · refine Returns.guard (hst (by simp)) fun hsp => Returns.guard (hst (by simp)) fun _ => ?_
    exact .bind fun addr => callAt_called hsp _

theorem CallOutcome.confined {r : Result} (h : CallOutcome vm i r) :
    Confined vm (Set.Ico (vm.sp.toNat - 8) vm.sp.toNat) r := by
  cases h with
  | refused => exact confined_same _
  | called target _ hsp => exact pushed_confined hsp _ _ target

/-! ## Jumps and the return -/

theorem goTo_memory (vm : VM) (target : Word) : (goTo vm target).2.memory = vm.memory := by
  rw [goTo]
  split
  · rfl
  · rfl

theorem jmp_confined {handler : InstrHandler} (hh : dispatchJMP i.mode = some handler) :
    Returns (handler vm i) (Confined vm S) := by
  refine (jump_outcome hh).mono fun r hr => ?_
  cases hr with
  | stopped => exact confined_same _
  | goes => exact fun k _ => congrFun (goTo_memory vm _) k

theorem instrRTN_confined : Returns (instrRTN vm i) (Confined vm S) := by
  refine Returns.guard (confined_same _) fun _ => .bind fun r => ?_
  refine Returns.ite_iff.mpr ⟨fun _ => Returns.error_iff.mpr trivial, fun _ => ?_⟩
  exact Returns.guard (confined_same _) fun _ => Returns.ok_iff.mpr fun _ _ => rfl

/-! ## System calls -/

theorem withPop_confined {k : VM → Word → Exec Result}
    (hk : vm.sp.toNat + 8 ≤ MEM_SIZE →
      Returns (k (vm.popped 0) (vm.stackWord 0)) (Confined (vm.popped 0) S)) :
    Returns (withPop vm k) (Confined vm S) := by
  intro r hr
  rcases withPop_cases hr with ⟨-, hsame⟩ | ⟨hsp, hr⟩
  · intro k _
    rw [hsame]
  · exact hk hsp r hr

theorem answer_confined (v : Word) : Returns (answer vm v) (Confined vm S) := by
  refine Returns.bind_iff.mpr fun vm₁ hset => Returns.ok_iff.mpr ?_
  obtain ⟨_, rfl⟩ := setReg_cases hset
  exact fun _ _ => rfl

/-- The bytes are replaced, and there is an answer. -/
theorem filled_confined {lo n : Nat} {f : Nat → Byte} {v : Word} (h : Set.Ico lo (lo + n) ⊆ S) :
    Returns (do let vm ← vm.fill lo n f
                answer vm v) (Confined vm S) := by
  refine Returns.bind_iff.mpr fun vm₁ hfill r hr k hk => ?_
  obtain ⟨-, rfl⟩ := fill_cases hfill
  rw [answer_confined (S := S) v r hr k hk]
  refine overlay_outside ?_
  have hout : (k : Nat) ∉ Set.Ico lo (lo + n) := fun hin => hk (h hin)
  rw [Set.mem_Ico] at hout
  omega

/-- What is read is cut to the size that is asked for. -/
theorem taken_subset {bytes : List Byte} (lo n : Nat) :
    Set.Ico lo (lo + (bytes.take n).length) ⊆ Set.Ico lo (lo + n) :=
  Set.Ico_subset_Ico_right (Nat.add_le_add_left (List.length_take_le n bytes) lo)

theorem readFile_confined :
    Returns (syscallREAD_FILE host vm) (Confined vm (syscallBytes vm 1)) := by
  refine withPop_confined fun h₁ => withPop_confined fun h₂ => ?_
  refine Returns.ite_iff.mpr ⟨fun _ => returns_same _, fun _ => withPop_confined fun h₃ => ?_⟩
  rw [popped_stackWord h₂, popped_stackWord h₁, popped_stackWord h₁]
  exact .bind fun _ => filled_confined (taken_subset _ _)

theorem readStr_confined :
    Returns (syscallREAD_STR host vm) (Confined vm (syscallBytes vm 8)) := by
  refine withPop_confined fun h₁ => withPop_confined fun h₂ => ?_
  rw [popped_stackWord h₁]
  refine Returns.ite_iff.mpr ⟨fun _ => returns_same _, fun _ => ?_⟩
  exact .bind fun _ => filled_confined (taken_subset _ _)

theorem memset_confined : Returns (syscallMEMSET vm) (Confined vm (syscallBytes vm 12)) := by
  refine withPop_confined fun h₁ => withPop_confined fun h₂ => withPop_confined fun h₃ => ?_
  rw [popped_stackWord h₂, popped_stackWord h₁, popped_stackWord h₁]
  exact Returns.ite_iff.mpr ⟨fun _ => returns_same _, fun _ => filled_confined subset_rfl⟩

theorem memcpy_confined : Returns (syscallMEMCPY host vm) (Confined vm (syscallBytes vm 13)) := by
  intro r hr
  rcases memcpy_cases hr with ⟨-, -, hsame⟩ | hcopied
  · exact fun k _ => congrFun hsame k
  · intro k hk
    rw [hcopied.memory]
    refine overlay_outside ?_
    have hout : (k : Nat) ∉ Set.Ico (vm.stackWord 0).toNat
      ((vm.stackWord 0).toNat + (vm.stackWord 2).toNat) := hk
    rw [Set.mem_Ico] at hout
    omega

theorem malloc_confined : Returns (syscallMALLOC host vm) (Confined vm S) := by
  refine withPop_confined fun _ => ?_
  generalize vm.popped 0 = vm
  intro r hr
  dsimp only at hr
  obtain ⟨vm₁, hset, heq⟩ := Except.bind_eq_ok.mp hr
  cases heq
  obtain ⟨_, rfl⟩ := setReg_cases hset
  rw [vmAlloc]
  split
  · exact fun _ _ => rfl
  · exact fun _ _ => rfl

theorem free_confined : Returns (syscallFREE vm) (Confined vm S) := by
  refine withPop_confined fun _ => Returns.ok_iff.mpr ?_
  rw [vmFree]
  split
  · exact fun _ _ => rfl
  · split
    · exact fun _ _ => rfl
    · exact fun _ _ => rfl

/-- Every handler of the table. -/
theorem syscall_confined {id : Nat} {handler : SysCall}
    (hh : dispatchSyscalls host id = some handler) :
    Returns (handler vm) (Confined vm (syscallBytes vm id)) := by
  unfold dispatchSyscalls at hh
  split at hh <;> cases hh
  · exact withPop_confined fun _ => withPop_confined fun _ => withPop_confined fun _ =>
      .bind fun _ => answer_confined _
  · exact readFile_confined
  · exact withPop_confined fun _ => .bind fun _ => answer_confined _
  · exact withPop_confined fun _ => answer_confined _
  · exact withPop_confined fun _ => answer_confined _
  · exact withPop_confined fun _ => .bind fun _ => answer_confined _
  · exact answer_confined _
  · exact readStr_confined
  · exact withPop_confined fun _ => Returns.ok_iff.mpr fun _ _ => rfl
  · exact malloc_confined
  · exact free_confined
  · exact memset_confined
  · exact memcpy_confined
  · exact returns_same _
  · exact returns_same _
  · refine withPop_confined fun _ => withPop_confined fun _ => ?_
    exact Returns.ite_iff.mpr ⟨fun _ => returns_same _, fun _ => .bind fun _ => returns_same _⟩

theorem instrTRAP_confined :
    Returns (instrTRAP host vm i) (Confined vm (syscallBytes vm (syscallId (vm.reg 0)).toNat)) := by
  refine Returns.bind_iff.mpr fun r0 hget => ?_
  obtain ⟨-, rfl⟩ := getReg_cases hget
  refine Returns.ite_iff.mpr ⟨fun _ => Returns.error_iff.mpr trivial, fun _ => ?_⟩
  cases hh : dispatchSyscalls host (syscallId (vm.reg 0)).toNat with
  | none => exact returns_same _
  | some handler => exact syscall_confined hh

/-! ## All of them -/

theorem handler_confined {handler : InstrHandler}
    (hh : getHandler host i.opcode i.mode = some handler) (vm : VM) :
    Returns (handler vm i) (Confined vm (footprint vm i)) := by
  have hword : ∀ {op : AddrOp}, i.opcode = .st ∨ i.opcode = .swp →
      (∀ addr, Returns (op vm i.a addr) (Confined vm (wordCells addr))) → ∀ addr,
      wordAddress vm i i.b = some addr →
        Returns (op vm i.a addr) (Confined vm (footprint vm i)) := by
    intro op hop hbody addr haddr
    refine (hbody addr).mono fun r hr k hk => hr k fun hin => hk ?_
    rcases hop with hop | hop <;> rw [footprint, hop] <;> exact ⟨addr, haddr, hin⟩
  have hstack : i.opcode = .push ∨ i.opcode = .call →
      footprint vm i = Set.Ico (vm.sp.toNat - 8) vm.sp.toNat := by
    rintro (hop | hop) <;> rw [footprint, hop]
  cases handled hh with
  | data hop hh => exact (data_computes hop hh).mono fun _ h => h.confined
  | neg | not =>
      refine Returns.guard (confined_same _) fun _ => .bind fun x => ?_
      exact (finish_computes _ _ _ _ _).mono fun _ h => h.confined
  | std hop hm => exact atDIR_confined (hword (Or.inl hop) bodyST_confined) hm
  | sti hop hm => exact atIND_confined (hword (Or.inl hop) bodyST_confined) hm
  | stx hop hm => exact atIDX_confined (hword (Or.inl hop) bodyST_confined) hm
  | swpr => exact instrSWPR_computes.mono fun _ h => h.confined
  | swpd hop hm => exact atDIR_confined (hword (Or.inr hop) bodySWP_confined) hm
  | swpi hop hm => exact atIND_confined (hword (Or.inr hop) bodySWP_confined) hm
  | swpx hop hm => exact atIDX_confined (hword (Or.inr hop) bodySWP_confined) hm
  | push hop =>
      rw [hstack (Or.inl hop)]
      refine Returns.guard (confined_same _) fun hsp => Returns.guard (confined_same _) fun _ => ?_
      exact pushWord_confined hsp _
  | pushr hop =>
      rw [hstack (Or.inl hop)]
      refine Returns.guard (confined_same _) fun hsp => Returns.guard (confined_same _) fun _ => ?_
      exact .bind fun x => pushWord_confined hsp x
  | pop => exact instrPOP_confined
  | fas hop hh =>
      rw [footprint, hop]
      exact (fas_outcome hh).mono fun _ h => h.confined
  | call hop hh =>
      rw [hstack (Or.inr hop)]
      exact (call_called hh).mono fun _ h => h.confined
  | rtn => exact instrRTN_confined
  | nop => exact returns_same _
  | rst hop =>
      rw [footprint, hop]
      exact Returns.ok_iff.mpr fun k hk => absurd (Set.mem_univ _) hk
  | halt => exact Returns.ok_iff.mpr fun _ _ => rfl
  | trap hop =>
      rw [footprint, hop]
      exact instrTRAP_confined
  | jmp _ hh => exact jmp_confined hh
  | conditional j _ hh =>
      obtain ⟨jmp, hjmp, rfl⟩ := conditional_handler hh
      exact Returns.ite_iff.mpr ⟨fun _ => returns_same _, fun _ => jmp_confined hjmp⟩

/-! ## Steps and runs -/

theorem Executes.confined {status : VmError} (hexec : Executes host vm i)
    (h : cpuStep host vm = .ok (status, vm')) {k : Fin MEM_SIZE} (hk : (k : Nat) ∉ footprint vm i) :
    vm'.memory k = vm.memory k := by
  obtain ⟨handler, size, vm₁, hh, -, hrun, rfl⟩ := cpuStep_executes hexec h
  rw [advance_memory]
  exact handler_confined hh vm _ hrun k hk

/-- An instruction that `vm` executes, with the byte at `k` among those it may change. -/
def Writes (k : Nat) (vm vm' : VM) : Prop :=
  ∃ host i status, Executes host vm i ∧ cpuStep host vm = .ok (status, vm') ∧ k ∈ footprint vm i

theorem Step.same_or_writes (h : Step vm vm') (k : Fin MEM_SIZE) :
    vm'.memory k = vm.memory k ∨ Writes k vm vm' := by
  obtain ⟨host, status, h⟩ := h
  rcases cpuStep_cases h with ⟨-, rfl⟩ | ⟨i, hexec⟩
  · exact Or.inl rfl
  · by_cases hk : (k : Nat) ∈ footprint vm i
    · exact Or.inr ⟨host, i, status, hexec, h, hk⟩
    · exact Or.inl (hexec.confined h hk)

/-- **A byte that is another one at the end of a run was in what some instruction of the
run writes.** -/
theorem changed_byte_written (vm vm' : VM) (k : Fin MEM_SIZE) (h : Steps vm vm')
    (hk : vm'.memory k ≠ vm.memory k) :
    ∃ vm₁ vm₂, Steps vm vm₁ ∧ Writes k vm₁ vm₂ ∧ Steps vm₂ vm' := by
  induction h with
  | refl => exact absurd rfl hk
  | @tail vm₁ vm₂ hrun hstep ih =>
      rcases hstep.same_or_writes k with hsame | hwrites
      · obtain ⟨vm₃, vm₄, h₁, h₂, h₃⟩ := ih (hsame ▸ hk)
        exact ⟨vm₃, vm₄, h₁, h₂, h₃.tail hstep⟩
      · exact ⟨vm₁, vm₂, hrun, hwrites, .refl⟩

/-- `PUSH 16` writes the first byte of the last word of the stack. -/
theorem changed_byte_written_push : ∃ vm₁ vm₂, Steps (machineAfter oneMalloc 0) vm₁ ∧
    Writes (MEM_SIZE - 8) vm₁ vm₂ ∧ Steps vm₂ (machineAfter oneMalloc 1) := by
  have hstep : Step (machineAfter oneMalloc 0) (machineAfter oneMalloc 1) := ⟨default, .ok, rfl⟩
  exact changed_byte_written _ _ ⟨MEM_SIZE - 8, by decide⟩ (.single hstep) (by decide)

end BSVM
