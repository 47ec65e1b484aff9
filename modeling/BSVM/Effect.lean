/-
# `BSVM.Effect` — everything a handler can do to the machine

`Effect` lists, in one place, the machines a handler can leave.  The
invariants of the machine are read off this list and look at no handler:

    refused      an error, nothing changed
    passed       nothing to do, or a jump that is not taken
    computed     a register and the flags
    loaded       registers
    stored       a word in or above the data segment, and registers
    fetchedSet   FAS in modes IND and IDX: a word anywhere in memory
    fetched      FAS in mode IDX, whose second access is refused
    pushed       a word under `sp`, and `pc` for a call
    popped       a word off the stack, into a register or `pc`
    jumped       `pc`
    halted, reset
    trapped      a system call (`Trapped`)
-/
import BSVM.Handlers
import BSVM.Trap

namespace BSVM

/-! ## Fetch and set

The two addresses of a `FAS`, which the source computes apart. -/

def fasLoad (vm : VM) (i : Instruction) : Word :=
  match i.mode with
  | .ind => vm.reg i.b
  | .idx => vm.reg i.b + i.args
  | _ => i.args

def fasStore (vm : VM) (i : Instruction) : Word :=
  match i.mode with
  | .ind => i.b.setWidth 64
  | .idx =>
      (if i.a = i.b then readWord vm.memory (fasLoad vm i).toNat else vm.reg i.b) + i.args
  | _ => i.args

/-- The machine between the two accesses. -/
def VM.fetched (vm : VM) (i : Instruction) (a : Fin N_REG) : VM :=
  { vm with registers :=
      Function.update vm.registers a (readWord vm.memory (fasLoad vm i).toNat) }

/-- The first access succeeds. -/
structure FasLoads (vm : VM) (i : Instruction) : Prop where
  reg : i.a.toNat < N_REG
  data : DATA_BASE ≤ (fasLoad vm i).toNat
  inside : (fasLoad vm i).toNat + 7 < MEM_SIZE

/-! ## The list -/

/-- The operations that set the flags. -/
def OpCode.setsFlags : OpCode → Bool
  | .add | .sub | .mul | .div | .cmp | .neg | .and | .or | .xor | .not | .shl | .shr => true
  | _ => false

/-- `Effect host vm i status vm'`: a handler that is given `i` in `vm` may
return `status` and leave `vm'`. -/
inductive Effect (host : Host) (vm : VM) (i : Instruction) : VmError → VM → Prop
  | refused {status : VmError} (h : status ≠ .ok) : Effect host vm i status vm
  | passed : Effect host vm i .ok vm
  | computed (regs : Fin N_REG → Word) (z n c o : Bool) (h : i.opcode.setsFlags = true) :
      Effect host vm i .ok { vm with registers := regs, sr := withFlags vm.sr z n c o }
  | loaded (regs : Fin N_REG → Word) : Effect host vm i .ok { vm with registers := regs }
  | stored (regs : Fin N_REG → Word) (k : Nat) (v : Word) (h₁ : DATA_BASE ≤ k)
      (h₂ : k + 7 < MEM_SIZE) :
      Effect host vm i .ok { vm with registers := regs, memory := writeWord vm.memory k v }
  | fetchedSet (hop : i.opcode = .fas) (h : FasLoads vm i)
      (hstore : (fasStore vm i).toNat + 7 < MEM_SIZE) :
      Effect host vm i .ok
        { vm.fetched i ⟨i.a.toNat, h.reg⟩ with
          memory := writeWord vm.memory (fasStore vm i).toNat 1 }
  | fetched (hop : i.opcode = .fas) (h : FasLoads vm i)
      (hstore : ¬ (fasStore vm i).toNat + 7 < MEM_SIZE) :
      Effect host vm i .illMemAccess (vm.fetched i ⟨i.a.toNat, h.reg⟩)
  | pushed (v pc : Word) (h₁ : STACK_BASE < vm.sp.toNat) (h₂ : vm.sp.toNat ≤ MEM_SIZE) :
      Effect host vm i .ok
        { vm with sp := vm.sp - 8, pc := pc,
                  memory := writeWord vm.memory (vm.sp.toNat - 8) v }
  | popped (regs : Fin N_REG → Word) (pc : Word) (h : vm.sp.toNat + 8 ≤ MEM_SIZE) :
      Effect host vm i .ok { vm with sp := vm.sp + 8, registers := regs, pc := pc }
  | jumped (pc : Word) (h : pc.toNat < DATA_BASE) : Effect host vm i .ok { vm with pc := pc }
  | halted : Effect host vm i .ok { vm with running := false }
  | reset (hop : i.opcode = .rst) : Effect host vm i .ok initVM
  | trapped {status : VmError} {vm' : VM} (hop : i.opcode = .trap) (h : Trapped vm vm') :
      Effect host vm i status vm'
  | copied {status : VmError} {vm' : VM} (hop : i.opcode = .trap)
      (hid : syscallId (vm.reg 0) = 13) (h : Copied host vm vm') : Effect host vm i status vm'

variable {host : Host} {vm : VM} {i : Instruction}

/-- `r` is one of the outcomes listed. -/
abbrev Effective (host : Host) (vm : VM) (i : Instruction) (r : Result) : Prop :=
  Effect host vm i r.1 r.2

theorem effective_refused {status : VmError} (h : status ≠ .ok) :
    Returns (.ok (status, vm) : Exec Result) (Effective host vm i) :=
  Returns.ok_iff.mpr (.refused h)

/-! ## Data instructions -/

theorem finish_effective (h : i.opcode.setsFlags = true) (a : Byte) (res v : Word) (c o : Bool) :
    Returns (finish (setSR vm res c o) a v) (Effective host vm i) := by
  intro r hr
  obtain ⟨vm₁, hset, heq⟩ := Except.bind_eq_ok.mp hr
  cases heq
  rw [setSR_eq, VM.setReg] at hset
  split at hset
  · cases hset
    exact .computed _ _ _ _ _ h
  · cases hset

theorem dataOp_effective {op : DataOp} (hop : dataOp host i.opcode = some op) (y : Word) :
    Returns (op vm i.a y) (Effective host vm i) := by
  cases hi : i.opcode <;> rw [hi] at hop <;> cases hop
  case div =>
    refine Returns.guard (.refused nofun) fun _ => ?_
    refine Returns.bind_iff.mpr fun x _ => Returns.ite_iff.mpr ⟨fun _ => ?_, fun _ => ?_⟩
    · exact Returns.error_iff.mpr trivial
    · exact finish_effective (by rw [hi]; rfl) _ _ _ _ _
  case cmp =>
    refine Returns.bind_iff.mpr fun x _ => Returns.ok_iff.mpr ?_
    rw [setSRSUB, setSR_eq]
    exact .computed vm.registers _ _ _ _ (by rw [hi]; rfl)
  case shl =>
    refine Returns.bind_iff.mpr fun x _ => Returns.bind_iff.mpr fun res _ => ?_
    refine Returns.bind_iff.mpr (Returns.bind_iff.mpr fun out _ => Returns.ok_iff.mpr ?_)
    exact finish_effective (by rw [hi]; rfl) _ _ _ _ _
  case shr =>
    refine Returns.bind_iff.mpr fun x _ => Returns.bind_iff.mpr fun res _ => ?_
    refine Returns.bind_iff.mpr (Returns.bind_iff.mpr fun out _ => Returns.ok_iff.mpr ?_)
    exact finish_effective (by rw [hi]; rfl) _ _ _ _ _
  case ld =>
    refine Returns.bind_iff.mpr ?_
    intro vm₁ hset
    rw [VM.setReg] at hset
    split at hset
    · cases hset
      exact Returns.ok_iff.mpr (.loaded _)
    · cases hset
  all_goals
    refine Returns.bind_iff.mpr fun x _ => ?_
    exact finish_effective (by rw [hi]; rfl) _ _ _ _ _

/-- A refused operand has a status of its own. -/
theorem operand_effective {f : Word → Exec Result}
    (hf : ∀ y, Returns (f y) (Effective host vm i)) :
    Returns (do let (status, y) ← operand vm i
                if status = .ok then f y else return (status, vm)) (Effective host vm i) := by
  refine Returns.bind_iff.mpr fun r _ => Returns.ite_iff.mpr ⟨fun _ => hf r.2, fun h => ?_⟩
  exact effective_refused h

theorem data_effective {op : DataOp} {handler : InstrHandler}
    (hop : dataOp host i.opcode = some op)
    (hh : getHandler host i.opcode i.mode = some handler) :
    Returns (handler vm i) (Effective host vm i) := by
  rw [data_handler_eq hop hh]
  refine Returns.guard (.refused nofun) fun _ => ?_
  exact operand_effective fun y => dataOp_effective hop y

/-! ## Stores, swaps and fetch-and-set -/

section
variable {op : AddrOp}
  (hop : ∀ addr : Word, DATA_BASE ≤ addr.toNat → Returns (op vm i.a addr) (Effective host vm i))
include hop

theorem inData_effective (addr : Word) :
    Returns (inData op vm i.a addr) (Effective host vm i) := by
  refine Returns.guard (.refused nofun) fun h => ?_
  exact hop addr (Nat.not_lt.mp h)

theorem atDIR_effective : Returns (atDIR op vm i) (Effective host vm i) := by
  refine Returns.guard (.refused nofun) fun _ => ?_
  exact inData_effective hop _

theorem atIND_effective : Returns (atIND op vm i) (Effective host vm i) := by
  refine Returns.guard (.refused nofun) fun _ => ?_
  exact Returns.bind_iff.mpr fun _ _ => inData_effective hop _

theorem atIDX_effective : Returns (atIDX op vm i) (Effective host vm i) := by
  refine Returns.guard (.refused nofun) fun _ => ?_
  exact Returns.bind_iff.mpr fun _ _ => inData_effective hop _

end

theorem bodyST_effective (addr : Word) (h : DATA_BASE ≤ addr.toNat) :
    Returns (bodyST vm i.a addr) (Effective host vm i) := by
  refine Returns.bind_iff.mpr fun x _ => ?_
  rintro ⟨status, vm'⟩ hr
  rcases memWrite64_cases hr with ⟨rfl, hlt, rfl⟩ | ⟨rfl, -, rfl⟩
  · exact .stored vm.registers _ _ h hlt
  · exact .refused nofun

theorem bodySWP_effective (addr : Word) (h : DATA_BASE ≤ addr.toNat) :
    Returns (bodySWP vm i.a addr) (Effective host vm i) := by
  refine Returns.bind_iff.mpr ?_
  rintro ⟨status, tmp⟩ hread
  refine Returns.ite_iff.mpr ⟨fun _ => ?_, fun hst => effective_refused hst⟩
  refine Returns.bind_iff.mpr fun x _ => Returns.bind_iff.mpr ?_
  rintro ⟨status', vm₁⟩ hwrite
  refine Returns.ite_iff.mpr ⟨fun hok => ?_, fun hst => ?_⟩
  · refine Returns.bind_iff.mpr fun vm₂ hset => Returns.ok_iff.mpr ?_
    obtain ⟨hk, rfl⟩ := setReg_cases hset
    rcases memWrite64_cases hwrite with ⟨rfl, hlt, rfl⟩ | ⟨rfl, -, rfl⟩
    · exact .stored _ _ _ h hlt
    · cases hok
  · rcases memWrite64_cases hwrite with ⟨rfl, -, -⟩ | ⟨rfl, -, rfl⟩
    · exact absurd rfl hst
    · exact effective_refused hst

theorem instrSWPR_effective : Returns (instrSWPR vm i) (Effective host vm i) := by
  refine Returns.guard (.refused nofun) fun _ => ?_
  refine Returns.bind_iff.mpr fun x _ => Returns.bind_iff.mpr fun y _ => ?_
  refine Returns.bind_iff.mpr fun vm₁ h₁ => Returns.bind_iff.mpr fun vm₂ h₂ => ?_
  obtain ⟨_, rfl⟩ := setReg_cases h₁
  obtain ⟨_, rfl⟩ := setReg_cases h₂
  exact Returns.ok_iff.mpr (.loaded _)

/-- What `FAS` does: nothing, when its first access is refused; both accesses;
or, when the second one is refused, the first. -/
inductive FasOutcome (vm : VM) (i : Instruction) : VmError → VM → Prop
  | refused {status : VmError} (hst : status ≠ .ok) (h : ¬ FasLoads vm i) :
      FasOutcome vm i status vm
  | set (h : FasLoads vm i) (hstore : (fasStore vm i).toNat + 7 < MEM_SIZE) :
      FasOutcome vm i .ok
        { vm.fetched i ⟨i.a.toNat, h.reg⟩ with
          memory := writeWord vm.memory (fasStore vm i).toNat 1 }
  | loaded (h : FasLoads vm i) (hstore : ¬ (fasStore vm i).toNat + 7 < MEM_SIZE) :
      FasOutcome vm i .illMemAccess (vm.fetched i ⟨i.a.toNat, h.reg⟩)

theorem FasOutcome.effect {status : VmError} {vm' : VM} (hop : i.opcode = .fas)
    (h : FasOutcome vm i status vm') : Effect host vm i status vm' := by
  cases h with
  | refused hst => exact .refused hst
  | set h hstore => exact .fetchedSet hop h hstore
  | loaded h hstore => exact .fetched hop h hstore

theorem fas_refused {status : VmError} (hst : status ≠ .ok) (h : ¬ FasLoads vm i) :
    Returns (.ok (status, vm) : Exec Result) (fun r => FasOutcome vm i r.1 r.2) :=
  Returns.ok_iff.mpr (.refused hst h)

/-- `FAS` on its two addresses, the second one being computed as the source
does, after the first access. -/
theorem fetchSet_outcome {addr' : VM → Exec Word} (hdata : DATA_BASE ≤ (fasLoad vm i).toNat)
    (haddr : ∀ a : Fin N_REG, i.a.toNat = a → ∀ t, addr' (vm.fetched i a) = .ok t →
      t = fasStore vm i) :
    Returns (fetchSet vm i.a (fasLoad vm i) addr') (fun r => FasOutcome vm i r.1 r.2) := by
  refine Returns.bind_iff.mpr ?_
  rintro ⟨status, vm₁⟩ hload
  obtain ⟨⟨st, v⟩, hread, hload⟩ := Except.bind_eq_ok.mp hload
  dsimp only at hload
  rcases memRead64_cases hread with ⟨rfl, hlt, rfl⟩ | ⟨rfl, hge, -⟩
  · obtain ⟨vm₂, hset, hload⟩ := Except.bind_eq_ok.mp hload
    cases hload
    obtain ⟨hk, rfl⟩ := setReg_cases hset
    have hloads : FasLoads vm i := ⟨hk, hdata, hlt⟩
    refine Returns.bind_iff.mpr fun t ht => ?_
    obtain rfl := haddr ⟨i.a.toNat, hk⟩ rfl t ht
    rintro ⟨status, vm'⟩ hwrite
    rcases memWrite64_cases hwrite with ⟨rfl, hlt', rfl⟩ | ⟨rfl, hge, rfl⟩
    · exact .set hloads hlt'
    · exact .loaded hloads hge
  · cases hload
    exact fas_refused nofun fun h => hge h.inside

theorem instrFASD_outcome (hm : i.mode = .dir) :
    Returns (instrFASD vm i) (fun r => FasOutcome vm i r.1 r.2) := by
  have hload : fasLoad vm i = i.args := by rw [fasLoad, hm]
  refine Returns.ite_iff.mpr ⟨fun hreg => ?_, fun _ => ?_⟩
  · exact fas_refused nofun fun h => Nat.not_lt.mpr hreg h.reg
  · refine Returns.ite_iff.mpr ⟨fun hcode => ?_, fun h => ?_⟩
    · exact fas_refused nofun fun h => Nat.not_le.mpr hcode (hload ▸ h.data)
    · rw [← hload]
      refine fetchSet_outcome (hload ▸ Nat.not_lt.mp h) fun a _ t ht => ?_
      cases ht
      rw [fasStore, hm, fasLoad, hm]

theorem instrFASI_outcome (hm : i.mode = .ind) :
    Returns (instrFASI vm i) (fun r => FasOutcome vm i r.1 r.2) := by
  have hload : fasLoad vm i = vm.reg i.b := by rw [fasLoad, hm]
  refine Returns.ite_iff.mpr ⟨fun hreg => ?_, fun _ => ?_⟩
  · exact fas_refused nofun fun h => Nat.not_lt.mpr hreg.1 h.reg
  · refine Returns.bind_iff.mpr fun addr haddr => ?_
    obtain ⟨-, rfl⟩ := getReg_cases haddr
    refine Returns.ite_iff.mpr ⟨fun hcode => ?_, fun h => ?_⟩
    · exact fas_refused nofun fun h => Nat.not_le.mpr hcode (hload ▸ h.data)
    · rw [← hload]
      refine fetchSet_outcome (hload ▸ Nat.not_lt.mp h) fun a _ t ht => ?_
      cases ht
      rw [fasStore, hm]

/-- The base register after the first access of a `FAS` in mode IDX. -/
theorem fetched_reg (a : Fin N_REG) (ha : i.a.toNat = a) (hb : i.b.toNat < N_REG) :
    (vm.fetched i a).reg i.b =
      if i.a = i.b then readWord vm.memory (fasLoad vm i).toNat else vm.reg i.b := by
  rw [VM.reg, VM.reg, dif_pos hb, dif_pos hb, VM.fetched]
  by_cases hab : i.a = i.b
  · have hidx : (⟨i.b.toNat, hb⟩ : Fin N_REG) = a := Fin.ext ((congrArg _ hab.symm).trans ha)
    rw [if_pos hab, hidx]
    exact Function.update_self ..
  · have hidx : (⟨i.b.toNat, hb⟩ : Fin N_REG) ≠ a := by
      intro h
      refine hab (BitVec.eq_of_toNat_eq ?_)
      rw [ha, ← h]
    rw [if_neg hab]
    exact Function.update_of_ne hidx ..

theorem instrFASX_outcome (hm : i.mode = .idx) :
    Returns (instrFASX vm i) (fun r => FasOutcome vm i r.1 r.2) := by
  have hload : fasLoad vm i = vm.reg i.b + i.args := by rw [fasLoad, hm]
  refine Returns.ite_iff.mpr ⟨fun hreg => ?_, fun _ => ?_⟩
  · exact fas_refused nofun fun h => Nat.not_lt.mpr hreg.1 h.reg
  · refine Returns.bind_iff.mpr fun b hget => ?_
    obtain ⟨hb, rfl⟩ := getReg_cases hget
    refine Returns.ite_iff.mpr ⟨fun hcode => ?_, fun h => ?_⟩
    · exact fas_refused nofun fun h => Nat.not_le.mpr hcode (hload ▸ h.data)
    · rw [← hload]
      refine fetchSet_outcome (hload ▸ Nat.not_lt.mp h) fun a ha t ht => ?_
      obtain ⟨b, hget', ht⟩ := Except.bind_eq_ok.mp ht
      obtain ⟨-, rfl⟩ := getReg_cases hget'
      cases ht
      rw [fetched_reg a ha hb, fasStore, hm]

/-- The three handlers of the row. -/
theorem fas_outcome {handler : InstrHandler} (hh : dispatchFAS i.mode = some handler) :
    Returns (handler vm i) (fun r => FasOutcome vm i r.1 r.2) := by
  cases hm : i.mode <;> rw [hm] at hh <;> cases hh
  · exact instrFASD_outcome hm
  · exact instrFASI_outcome hm
  · exact instrFASX_outcome hm

/-! ## The stack, calls and the return -/

theorem pushWord_cases {v : Word} {r : Result} (hsp : STACK_BASE < vm.sp.toNat)
    (h : pushWord vm v = .ok r) :
    (vm.sp.toNat ≤ MEM_SIZE ∧
      r = (.ok, { vm with sp := vm.sp - 8,
                          memory := writeWord vm.memory (vm.sp.toNat - 8) v })) ∨
    r = (.illMemAccess, vm) := by
  rw [pushWord_eq v hsp] at h
  split at h
  · next hle =>
      cases h
      exact Or.inl ⟨hle, rfl⟩
  · cases h
    exact Or.inr rfl

theorem pushWord_effective (hsp : STACK_BASE < vm.sp.toNat) (v : Word) :
    Returns (pushWord vm v) (Effective host vm i) := by
  intro r hr
  rcases pushWord_cases hsp hr with ⟨hle, rfl⟩ | rfl
  · exact .pushed v vm.pc hsp hle
  · exact .refused nofun

theorem instrPUSH_effective : Returns (instrPUSH vm i) (Effective host vm i) := by
  refine Returns.guard (.refused nofun) fun hsp => ?_
  refine Returns.guard (.refused nofun) fun _ => ?_
  exact pushWord_effective (Nat.not_le.mp hsp) _

theorem instrPUSHR_effective : Returns (instrPUSHR vm i) (Effective host vm i) := by
  refine Returns.guard (.refused nofun) fun hsp => ?_
  refine Returns.guard (.refused nofun) fun _ => ?_
  exact Returns.bind_iff.mpr fun x _ => pushWord_effective (Nat.not_le.mp hsp) x

theorem instrPOP_effective : Returns (instrPOP vm i) (Effective host vm i) := by
  by_cases ha : i.a.toNat < N_REG
  · rw [instrPOP_eq ha]
    refine Returns.guard (.refused nofun) fun _ => ?_
    refine Returns.ite_iff.mpr ⟨fun hsp => ?_, fun _ => effective_refused nofun⟩
    exact Returns.ok_iff.mpr (.popped _ vm.pc hsp)
  · refine Returns.guard (.refused nofun) fun _ => ?_
    exact Returns.ite_iff.mpr ⟨fun _ => effective_refused nofun,
      fun h => absurd (Nat.not_le.mp h) ha⟩

theorem callTo_effective (hsp : STACK_BASE < vm.sp.toNat) (target : Word) :
    Returns (callTo vm i target) (Effective host vm i) := by
  refine Returns.bind_iff.mpr fun size _ => Returns.bind_iff.mpr ?_
  intro r hr
  rcases pushWord_cases hsp hr with ⟨hle, rfl⟩ | rfl
  · exact Returns.ok_iff.mpr (.pushed _ target hsp hle)
  · exact effective_refused nofun

theorem callAt_effective (hsp : STACK_BASE < vm.sp.toNat) (addr : Word) :
    Returns (callAt vm i addr) (Effective host vm i) := by
  refine Returns.bind_iff.mpr fun r _ => Returns.ite_iff.mpr ⟨effective_refused, fun _ => ?_⟩
  refine Returns.guard (.refused nofun) fun _ => ?_
  exact callTo_effective hsp _

theorem call_effective {handler : InstrHandler}
    (hh : dispatchCALL i.mode = some handler) : Returns (handler vm i) (Effective host vm i) := by
  cases hm : i.mode <;> rw [hm] at hh <;> cases hh
  · refine Returns.guard (.refused nofun) fun hsp => ?_
    refine Returns.guard (.refused nofun) fun _ => ?_
    exact callTo_effective (Nat.not_le.mp hsp) _
  · refine Returns.guard (.refused nofun) fun _ => ?_
    refine Returns.guard (.refused nofun) fun hsp => ?_
    refine Returns.bind_iff.mpr fun target _ => ?_
    refine Returns.guard (.refused nofun) fun _ => ?_
    exact callTo_effective (Nat.not_le.mp hsp) _
  · refine Returns.guard (.refused nofun) fun hsp => ?_
    exact callAt_effective (Nat.not_le.mp hsp) _
  · refine Returns.guard (.refused nofun) fun hsp => ?_
    refine Returns.guard (.refused nofun) fun _ => ?_
    exact Returns.bind_iff.mpr fun addr _ => callAt_effective (Nat.not_le.mp hsp) _
  · refine Returns.guard (.refused nofun) fun hsp => ?_
    refine Returns.guard (.refused nofun) fun _ => ?_
    exact Returns.bind_iff.mpr fun addr _ => callAt_effective (Nat.not_le.mp hsp) _

theorem instrRTN_effective : Returns (instrRTN vm i) (Effective host vm i) := by
  refine Returns.guard (.refused nofun) fun hsp => ?_
  rw [memRead64_sp 0 (Nat.not_le.mp hsp)]
  split
  · next hle =>
      rw [Except.ok_bind]
      refine Returns.ite_iff.mpr ⟨fun _ => Returns.error_iff.mpr trivial, fun _ => ?_⟩
      refine Returns.guard (.refused nofun) fun _ => ?_
      exact Returns.ok_iff.mpr (.popped vm.registers _ hle)
  · exact Returns.error_iff.mpr trivial

/-! ## Jumps -/

theorem goTo_effective (target : Word) : Effective host vm i (goTo vm target) := by
  have hst : VmError.invalidJmp ≠ .ok := nofun
  rw [goTo]
  split
  · exact .refused hst
  · next h => exact .jumped target (Nat.not_le.mp h)

theorem goToWord_effective (addr : Word) : Returns (goToWord vm addr) (Effective host vm i) := by
  refine Returns.bind_iff.mpr fun r _ => Returns.ite_iff.mpr ⟨fun _ => ?_, effective_refused⟩
  exact Returns.ok_iff.mpr (goTo_effective _)

theorem jmp_effective {handler : InstrHandler} (hh : dispatchJMP i.mode = some handler) :
    Returns (handler vm i) (Effective host vm i) := by
  cases hm : i.mode <;> rw [hm] at hh <;> cases hh
  · exact Returns.ok_iff.mpr (goTo_effective _)
  · refine Returns.guard (.refused nofun) fun _ => ?_
    exact Returns.bind_iff.mpr fun addr _ => Returns.ok_iff.mpr (goTo_effective _)
  · refine Returns.guard (.refused nofun) fun _ => ?_
    exact goToWord_effective _
  · refine Returns.guard (.refused nofun) fun _ => ?_
    refine Returns.bind_iff.mpr fun addr _ => ?_
    exact Returns.ite_iff.mpr ⟨fun _ => effective_refused nofun, fun _ => goToWord_effective _⟩
  · refine Returns.guard (.refused nofun) fun _ => ?_
    refine Returns.bind_iff.mpr fun addr _ => ?_
    exact Returns.ite_iff.mpr ⟨fun _ => effective_refused nofun, fun _ => goToWord_effective _⟩

theorem conditional_effective {j : Condition} {handler : InstrHandler}
    (hh : getHandler host j.opcode i.mode = some handler) :
    Returns (handler vm i) (Effective host vm i) := by
  obtain ⟨jmp, hjmp, rfl⟩ := conditional_handler hh
  refine Returns.ite_iff.mpr ⟨fun _ => Returns.ok_iff.mpr .passed, fun _ => ?_⟩
  exact jmp_effective hjmp

/-! ## `TRAP` -/

/-- `TRAP` is `MEMCPY` or one of the other system calls. -/
theorem instrTRAP_cases {r : Result} (h : instrTRAP host vm i = .ok r) :
    (syscallId (vm.reg 0) = 13 ∧ syscallMEMCPY host vm = .ok r) ∨
      (syscallId (vm.reg 0) ≠ 13 ∧ Trapped vm r.2) := by
  obtain ⟨r0, hget, h⟩ := Except.bind_eq_ok.mp h
  obtain ⟨-, rfl⟩ := getReg_cases hget
  split at h
  · cases h
  · next hrange =>
      cases hh : dispatchSyscalls host (syscallId (vm.reg 0)).toNat with
      | none =>
          rw [hh] at h
          cases h
          refine Or.inr ⟨fun hid => ?_, .refl vm⟩
          rw [hid] at hh
          cases hh
      | some handler =>
          rw [hh] at h
          by_cases hid : (syscallId (vm.reg 0)).toNat = 13
          · rw [hid] at hh
            cases hh
            exact Or.inl ⟨by omega, h⟩
          · exact Or.inr ⟨by omega, syscall_trapped hh hid vm _ h⟩

theorem instrTRAP_effective (hop : i.opcode = .trap) :
    Returns (instrTRAP host vm i) (Effective host vm i) := by
  intro r hr
  rcases instrTRAP_cases hr with ⟨hid, hr⟩ | ⟨-, htrap⟩
  · rcases memcpy_cases hr with ⟨-, htrap, -⟩ | hcopy
    · exact .trapped hop htrap
    · exact .copied hop hid hcopy
  · exact .trapped hop htrap

/-! ## All of them -/

theorem instrNEG_effective (hop : i.opcode = .neg) :
    Returns (instrNEG vm i) (Effective host vm i) := by
  refine Returns.guard (.refused nofun) fun _ => ?_
  refine Returns.bind_iff.mpr fun x _ => ?_
  exact finish_effective (by rw [hop]; rfl) _ _ _ _ _

theorem instrNOT_effective (hop : i.opcode = .not) :
    Returns (instrNOT vm i) (Effective host vm i) := by
  refine Returns.guard (.refused nofun) fun _ => ?_
  refine Returns.bind_iff.mpr fun x _ => ?_
  exact finish_effective (by rw [hop]; rfl) _ _ _ _ _

/-- **Every handler in the table does one of the things listed.** -/
theorem handler_effective {handler : InstrHandler}
    (hh : getHandler host i.opcode i.mode = some handler) (vm : VM) :
    Returns (handler vm i) (Effective host vm i) := by
  cases handled hh with
  | data hop hh => exact data_effective hop hh
  | neg hop => exact instrNEG_effective hop
  | not hop => exact instrNOT_effective hop
  | std => exact atDIR_effective bodyST_effective
  | sti => exact atIND_effective bodyST_effective
  | stx => exact atIDX_effective bodyST_effective
  | swpr => exact instrSWPR_effective
  | swpd => exact atDIR_effective bodySWP_effective
  | swpi => exact atIND_effective bodySWP_effective
  | swpx => exact atIDX_effective bodySWP_effective
  | push => exact instrPUSH_effective
  | pushr => exact instrPUSHR_effective
  | pop => exact instrPOP_effective
  | fas hop hh => exact (fas_outcome hh).mono fun _ h => h.effect hop
  | call _ hh => exact call_effective hh
  | rtn => exact instrRTN_effective
  | nop => exact Returns.ok_iff.mpr .passed
  | rst hop => exact Returns.ok_iff.mpr (.reset hop)
  | halt => exact Returns.ok_iff.mpr .halted
  | trap hop => exact instrTRAP_effective hop
  | jmp _ hh => exact jmp_effective hh
  | conditional j _ hh => exact conditional_effective hh

end BSVM
