/-
# `BSVM.Faults` — why a handler has no next state

`FaultCause` lists, for every kind of fault, what an instruction has to be like, and
what machine it has to find, for a handler to end in it:

    registers        a number that slips through the tests (`Slips`)
    memory           a word whose eight addresses go past the last one, or a `TRAP`
    division         `INT64_MIN / -1`
    shift            a count that is not in `1 .. 63`
    uninitialised    `RTN` in the last seven bytes of memory
    table            `TRAP` with an id below 0 or above 31

The list is complete (`execute_fault`).  A decoded instruction that can meet none of
these is `Tame`, which is read off its bytes.
-/
import BSVM.Lib.Fails
import BSVM.Fetch
import BSVM.Registers
import BSVM.Requests
import BSVM.StackPointer

namespace BSVM

variable {host : Host} {vm : VM} {i : Instruction}

/-! ## The list -/

/-- The address of a word operand, with `k` as the number of the base register. -/
def wordAddress (vm : VM) (i : Instruction) (k : Byte) : Option Word :=
  match i.mode with
  | .dir => some i.args
  | .ind => some (vm.reg k)
  | .idx => some (vm.reg k + i.args)
  | _ => none

/-- The addresses of the words that an instruction reads or writes, the stack apart. -/
def accesses (vm : VM) (i : Instruction) : List Word :=
  match i.opcode with
  | .fas => [fasLoad vm i, fasStore vm i]
  | .call | .jmp | .jeq | .jne | .jle | .jlt | .jge | .jgt => (wordAddress vm i i.a).toList
  | _ => (wordAddress vm i i.b).toList

/-- The eight addresses of a word do not all exist. -/
def Wraps (addr : Word) : Prop := 2 ^ 64 ≤ addr.toNat + 7

instance (addr : Word) : Decidable (Wraps addr) :=
  inferInstanceAs (Decidable (2 ^ 64 ≤ addr.toNat + 7))

/-- A system call with its arguments, which its handler does not refuse, and which
asks for memory that does not exist. -/
structure Strays (vm : VM) (id : Nat) : Prop where
  args : HasArgs vm id
  tested : ¬ Refuses vm id
  outside : ¬ RequestFits vm id

inductive FaultCause (vm : VM) (i : Instruction) : Fault → Prop
  | slip (h : Slips vm i) : FaultCause vm i .registers
  | wrap {addr : Word} (hmem : addr ∈ accesses vm i) (h : Wraps addr) : FaultCause vm i .memory
  | quotient (hop : i.opcode = .div) (hx : vm.reg i.a = BitVec.intMin 64)
      (hy : operand vm i = .ok (.ok, -1)) : FaultCause vm i .division
  | count {n : Word} (hop : i.opcode = .shl ∨ i.opcode = .shr)
      (hy : operand vm i = .ok (.ok, n)) (h : ¬ (1 ≤ n.toNat ∧ n.toNat ≤ 63)) :
      FaultCause vm i .shift
  | stack (hop : i.opcode = .rtn) (h₁ : vm.sp.toNat < MEM_SIZE)
      (h₂ : MEM_SIZE < vm.sp.toNat + 8) : FaultCause vm i .uninitialised
  | id (hop : i.opcode = .trap) (h : syscallId (vm.reg 0) < 0 ∨ 32 ≤ syscallId (vm.reg 0)) :
      FaultCause vm i .table
  | request (hop : i.opcode = .trap) (h : Strays vm (syscallId (vm.reg 0)).toNat) :
      FaultCause vm i .memory

/-- A fault for one of these reasons, or a register number that is out of range. -/
abbrev Excused (vm : VM) (i : Instruction) (f : Fault) : Prop :=
  f = .registers ∨ FaultCause vm i f

/-! ## Accesses -/

theorem getReg_fails (k : Byte) : Fails (vm.getReg k) (· = .registers) := by
  rw [VM.getReg]
  split
  · exact .ok
  · exact .error rfl

theorem setReg_fails (k : Byte) (v : Word) : Fails (vm.setReg k v) (· = .registers) := by
  rw [VM.setReg]
  split
  · exact .ok
  · exact .error rfl

/-- A word access that is neither made nor refused has an address that wraps. -/
theorem wraps_of {addr : Word} (h : ¬ MEM_SIZE ≤ (addr + 7).toNat)
    (h' : ¬ addr.toNat + 7 < MEM_SIZE) : Wraps addr :=
  Nat.le_of_not_lt fun hlt => h ((refused_iff hlt).mpr h')

theorem memRead64_fails (addr out : Word) :
    Fails (memRead64 vm addr out) fun f => f = .memory ∧ Wraps addr := by
  rw [memRead64_eq]
  exact .guard fun h => .guard fun h' => .error ⟨rfl, wraps_of h h'⟩

theorem memWrite64_fails (addr v : Word) :
    Fails (memWrite64 vm addr v) fun f => f = .memory ∧ Wraps addr := by
  rw [memWrite64_eq]
  exact .guard fun h => .guard fun h' => .error ⟨rfl, wraps_of h h'⟩

section
variable {vm' : VM}

/-- A register is read or written on the way. -/
theorem withReg_fails {α : Type} {k : Byte} {g : Word → Exec α}
    (hg : ∀ v, k.toNat < N_REG → v = vm'.reg k → Fails (g v) (Excused vm i)) :
    Fails (vm'.getReg k >>= g) (Excused vm i) := by
  refine .bind ((getReg_fails k).mono fun _ h => Or.inl h) fun v hv => ?_
  obtain ⟨hk, rfl⟩ := getReg_cases hv
  exact hg _ hk rfl

theorem setting_fails {α : Type} {k : Byte} {v : Word} {g : VM → Exec α}
    (hg : ∀ vm₁, Fails (g vm₁) (Excused vm i)) :
    Fails (vm'.setReg k v >>= g) (Excused vm i) :=
  .bind ((setReg_fails k v).mono fun _ h => Or.inl h) fun vm₁ _ => hg vm₁

theorem reading_fails {addr out : Word} {g : VmError × Word → Exec Result}
    (hmem : Wraps addr → addr ∈ accesses vm i) (hg : ∀ r, Fails (g r) (Excused vm i)) :
    Fails (memRead64 vm' addr out >>= g) (Excused vm i) := by
  refine .bind ((memRead64_fails addr out).mono ?_) fun r _ => hg r
  rintro f ⟨rfl, hwraps⟩
  exact Or.inr (.wrap (hmem hwraps) hwraps)

theorem writing_fails {addr v : Word} (hmem : Wraps addr → addr ∈ accesses vm i) :
    Fails (memWrite64 vm' addr v) (Excused vm i) := by
  refine (memWrite64_fails addr v).mono ?_
  rintro f ⟨rfl, hwraps⟩
  exact Or.inr (.wrap (hmem hwraps) hwraps)

end

/-! ## Data instructions -/

theorem finish_fails {vm' : VM} (a : Byte) (v : Word) : Fails (finish vm' a v) (Excused vm i) :=
  setting_fails fun _ => .ok

theorem shiftLeft_fails {x n : Word} :
    Fails (shiftLeft host x n) fun f => f = .shift ∧ ¬ n.toNat < 64 := by
  refine .guard fun h => ?_
  cases host.shl x n with
  | none => exact .error ⟨rfl, h⟩
  | some v => exact .ok

theorem shiftRight_fails {x n : Word} :
    Fails (shiftRight host x n) fun f => f = .shift ∧ ¬ n.toNat < 64 := by
  refine .guard fun h => ?_
  cases host.shr x n with
  | none => exact .error ⟨rfl, h⟩
  | some v => exact .ok

/-- A shift of the operation or of its flags, whose count is in range with the operand. -/
theorem shifting_fails {n m : Word} {x : Exec Word} (hop : i.opcode = .shl ∨ i.opcode = .shr)
    (hy : operand vm i = .ok (.ok, n)) (hx : Fails x fun f => f = .shift ∧ ¬ m.toNat < 64)
    (hm : 1 ≤ n.toNat ∧ n.toNat ≤ 63 → m.toNat < 64) : Fails x (Excused vm i) := by
  refine hx.mono ?_
  rintro f ⟨rfl, hfar⟩
  exact Or.inr (.count hop hy fun h => hfar (hm h))

theorem dataOp_fails {op : DataOp} {y : Word} (hop : dataOp host i.opcode = some op)
    (hy : operand vm i = .ok (.ok, y)) : Fails (op vm i.a y) (Excused vm i) := by
  cases hi : i.opcode <;> rw [hi] at hop <;> cases hop
  case div =>
    refine .guard fun _ => withReg_fails fun x _ hx => .ite (fun h => ?_) fun _ => finish_fails _ _
    obtain ⟨hmin, rfl⟩ := h
    exact .error (Or.inr (.quotient hi (hx.symm.trans hmin) hy))
  case cmp => exact withReg_fails fun x _ _ => .ok
  case shl =>
    refine withReg_fails fun x _ _ => ?_
    refine .bind (shifting_fails (Or.inl hi) hy shiftLeft_fails fun h => ?_) fun res _ => ?_
    · omega
    refine .bind (.bind (shifting_fails (Or.inl hi) hy shiftRight_fails fun h => ?_) fun _ _ => .ok)
      fun vm' _ => finish_fails _ _
    · obtain ⟨hlo, hhi⟩ := h
      bv_omega
  case shr =>
    refine withReg_fails fun x _ _ => ?_
    refine .bind (shifting_fails (Or.inr hi) hy shiftRight_fails fun h => ?_) fun res _ => ?_
    · omega
    refine .bind (.bind (shifting_fails (Or.inr hi) hy shiftRight_fails fun h => ?_) fun _ _ => .ok)
      fun vm' _ => finish_fails _ _
    · obtain ⟨hlo, hhi⟩ := h
      bv_omega
  case ld => exact setting_fails fun _ => .ok
  all_goals exact withReg_fails fun x _ _ => finish_fails _ _

theorem wordAddress_mem {addr : Word} {k : Byte}
    (haccess : accesses vm i = (wordAddress vm i k).toList)
    (h : wordAddress vm i k = some addr) : addr ∈ accesses vm i := by
  rw [haccess, h]
  exact List.mem_singleton_self addr

theorem wordAt_fails {addr : Word} (hmem : addr ∈ accesses vm i) :
    Fails (wordAt vm addr) (Excused vm i) := by
  refine .guard fun _ => (memRead64_fails addr 0).mono ?_
  rintro f ⟨rfl, hwraps⟩
  exact Or.inr (.wrap hmem hwraps)

theorem operand_fails (haccess : accesses vm i = (wordAddress vm i i.b).toList) :
    Fails (operand vm i) (Excused vm i) := by
  rw [operand]
  split
  · exact .ok
  · next hm => exact wordAt_fails (wordAddress_mem haccess (by rw [wordAddress, hm]))
  · refine .guard fun _ => withReg_fails fun b _ hb => ?_
    subst hb
    split
    · next hm => exact wordAt_fails (wordAddress_mem haccess (by rw [wordAddress, hm]))
    · next hm => exact wordAt_fails (wordAddress_mem haccess (by rw [wordAddress, hm]))
    · exact .ok

theorem data_fails {op : DataOp} {handler : InstrHandler} (hop : dataOp host i.opcode = some op)
    (hh : getHandler host i.opcode i.mode = some handler) :
    Fails (handler vm i) (Excused vm i) := by
  have haccess : accesses vm i = (wordAddress vm i i.b).toList := by
    cases hi : i.opcode <;> rw [hi] at hop <;> cases hop
    all_goals rw [accesses, hi]
  rw [data_handler_eq hop hh]
  refine .guard fun _ => .bind (operand_fails haccess) fun r hr => .ite (fun hst => ?_) fun _ => .ok
  refine dataOp_fails hop ?_
  rw [hr, ← hst]

/-! ## Stores, swaps and fetch-and-set -/

section
variable {op : AddrOp} (haccess : accesses vm i = (wordAddress vm i i.b).toList)
  (hop : ∀ addr ∈ accesses vm i, Fails (op vm i.a addr) (Excused vm i))
include haccess hop

theorem atDIR_fails (hm : i.mode = .dir) : Fails (atDIR op vm i) (Excused vm i) := by
  refine .guard fun _ => .guard fun _ => hop _ (wordAddress_mem haccess ?_)
  rw [wordAddress, hm]

theorem atIND_fails (hm : i.mode = .ind) : Fails (atIND op vm i) (Excused vm i) := by
  refine .guard fun _ => withReg_fails fun b _ hb => .guard fun _ => ?_
  refine hop _ (wordAddress_mem haccess ?_)
  rw [wordAddress, hm, hb]

theorem atIDX_fails (hm : i.mode = .idx) : Fails (atIDX op vm i) (Excused vm i) := by
  refine .guard fun _ => withReg_fails fun b _ hb => .guard fun _ => ?_
  refine hop _ (wordAddress_mem haccess ?_)
  rw [wordAddress, hm, hb]

end

theorem bodyST_fails (addr : Word) (hmem : addr ∈ accesses vm i) :
    Fails (bodyST vm i.a addr) (Excused vm i) :=
  withReg_fails fun _ _ _ => writing_fails fun _ => hmem

theorem bodySWP_fails (addr : Word) (hmem : addr ∈ accesses vm i) :
    Fails (bodySWP vm i.a addr) (Excused vm i) := by
  refine reading_fails (fun _ => hmem) fun r => .ite (fun _ => ?_) fun _ => .ok
  refine withReg_fails fun x _ _ => .bind (writing_fails fun _ => hmem) fun r' _ => ?_
  exact .ite (fun _ => setting_fails fun _ => .ok) fun _ => .ok

theorem instrSWPR_fails : Fails (instrSWPR vm i) (Excused vm i) :=
  .guard fun _ => withReg_fails fun _ _ _ => withReg_fails fun _ _ _ =>
    setting_fails fun _ => setting_fails fun _ => .ok

/-- The machine that the first access of a `FAS` leaves. -/
theorem onWord_fetched {r : Result} (h : onWord bodyLD vm i.a (fasLoad vm i) = .ok r)
    (hok : r.1 = .ok) : ∃ a : Fin N_REG, i.a.toNat = a ∧ r.2 = vm.fetched i a := by
  obtain ⟨⟨status, v⟩, hread, h⟩ := Except.bind_eq_ok.mp h
  dsimp only at h
  rcases memRead64_cases hread with ⟨rfl, -, rfl⟩ | ⟨rfl, -, -⟩
  · obtain ⟨vm₁, hset, h⟩ := Except.bind_eq_ok.mp h
    cases h
    obtain ⟨ha, rfl⟩ := setReg_cases hset
    exact ⟨⟨i.a.toNat, ha⟩, rfl, rfl⟩
  · cases h
    cases hok

theorem fetchSet_fails {addr' : VM → Exec Word} (hop : i.opcode = .fas)
    (hfails : ∀ vm₁, Fails (addr' vm₁) (· = .registers))
    (haddr : ∀ a : Fin N_REG, i.a.toNat = a → ∀ t, addr' (vm.fetched i a) = .ok t →
      t = fasStore vm i) :
    Fails (fetchSet vm i.a (fasLoad vm i) addr') (Excused vm i) := by
  have haccess : accesses vm i = [fasLoad vm i, fasStore vm i] := by rw [accesses, hop]
  refine .bind ?_ fun r hr => .ite (fun hok => ?_) fun _ => .ok
  · refine reading_fails (fun _ => by simp [haccess]) fun r => .ite (fun _ => ?_) fun _ => .ok
    exact setting_fails fun _ => .ok
  · obtain ⟨a, ha, hvm⟩ := onWord_fetched hr hok
    refine .bind ((hfails _).mono fun _ h => Or.inl h) fun t ht => ?_
    rw [hvm] at ht
    obtain rfl := haddr a ha t ht
    exact writing_fails fun _ => by simp [haccess]

theorem fas_fails {handler : InstrHandler} (hop : i.opcode = .fas)
    (hh : dispatchFAS i.mode = some handler) : Fails (handler vm i) (Excused vm i) := by
  cases hm : i.mode <;> rw [hm] at hh <;> cases hh
  · have hload : fasLoad vm i = i.args := by rw [fasLoad, hm]
    refine .guard fun _ => .guard fun _ => ?_
    beta_reduce
    rw [← hload]
    refine fetchSet_fails hop (fun _ => .ok) fun a _ t ht => ?_
    cases ht
    rw [fasStore, hm, hload]
  · refine .guard fun _ => withReg_fails fun b _ hb => .guard fun _ => ?_
    have hload : fasLoad vm i = b := by rw [fasLoad, hm, hb]
    rw [← hload]
    refine fetchSet_fails hop (fun _ => .ok) fun a _ t ht => ?_
    cases ht
    rw [fasStore, hm]
  · refine .guard fun _ => withReg_fails fun b hlt hb => .guard fun _ => ?_
    have hload : fasLoad vm i = b + i.args := by rw [fasLoad, hm, hb]
    rw [← hload]
    refine fetchSet_fails hop (fun vm₁ => .bind (getReg_fails _) fun _ _ => .ok) fun a ha t ht => ?_
    obtain ⟨b', hget, ht⟩ := Except.bind_eq_ok.mp ht
    obtain ⟨-, rfl⟩ := getReg_cases hget
    cases ht
    rw [fetched_reg a ha hlt, fasStore, hm]

/-! ## The stack, calls and the return -/

theorem pushWord_fails {P : Fault → Prop} (v : Word) (hsp : ¬ vm.sp.toNat ≤ STACK_BASE) :
    Fails (pushWord vm v) P := by
  rw [pushWord_eq v (Nat.not_le.mp hsp)]
  exact .ite (fun _ => .ok) fun _ => .ok

theorem instrPOP_fails : Fails (instrPOP vm i) (Excused vm i) := by
  refine .guard fun hsp => .guard fun _ => ?_
  rw [memRead64_sp 0 (Nat.not_le.mp hsp)]
  refine .bind (.ite (fun _ => .ok) fun _ => .ok) fun r _ => .ite (fun _ => ?_) fun _ => .ok
  exact setting_fails fun _ => .ok

theorem callTo_fails {size : Nat} (target : Word) (hsp : ¬ vm.sp.toNat ≤ STACK_BASE)
    (hsize : modeSize i.mode = .ok size) : Fails (callTo vm i target) (Excused vm i) := by
  rw [callTo, hsize, Except.ok_bind]
  exact .bind (pushWord_fails _ hsp) fun r _ => .ite (fun _ => .ok) fun _ => .ok

theorem callAt_fails {addr : Word} {size : Nat} (hsp : ¬ vm.sp.toNat ≤ STACK_BASE)
    (hsize : modeSize i.mode = .ok size) (hmem : addr ∈ accesses vm i) :
    Fails (callAt vm i addr) (Excused vm i) := by
  refine reading_fails (fun _ => hmem) fun r => .guard fun _ => .guard fun _ => ?_
  exact callTo_fails _ hsp hsize

theorem call_fails {handler : InstrHandler} (hop : i.opcode = .call)
    (hh : dispatchCALL i.mode = some handler) : Fails (handler vm i) (Excused vm i) := by
  have haccess : accesses vm i = (wordAddress vm i i.a).toList := by rw [accesses, hop]
  cases hm : i.mode <;> rw [hm] at hh <;> cases hh
  · refine .guard fun hsp => .guard fun _ => ?_
    exact callTo_fails _ hsp (by rw [hm]; rfl)
  · refine .guard fun _ => .guard fun hsp => withReg_fails fun t _ _ => .guard fun _ => ?_
    exact callTo_fails _ hsp (by rw [hm]; rfl)
  · refine .guard fun hsp => callAt_fails hsp (by rw [hm]; rfl) (wordAddress_mem haccess ?_)
    rw [wordAddress, hm]
  · refine .guard fun hsp => .guard fun _ => withReg_fails fun t _ ht => ?_
    refine callAt_fails hsp (by rw [hm]; rfl) (wordAddress_mem haccess ?_)
    rw [wordAddress, hm, ht]
  · refine .guard fun hsp => .guard fun _ => withReg_fails fun t _ ht => ?_
    refine callAt_fails hsp (by rw [hm]; rfl) (wordAddress_mem haccess ?_)
    rw [wordAddress, hm, ht]

theorem instrRTN_fails (hop : i.opcode = .rtn) : Fails (instrRTN vm i) (Excused vm i) := by
  refine .guard fun hsp => ?_
  have hlt := Nat.not_le.mp hsp
  rw [memRead64_sp 0 hlt]
  split
  · rw [Except.ok_bind]
    exact .ite (fun h => absurd rfl h) fun _ => .guard fun _ => .ok
  · next hle =>
      rw [Except.ok_bind]
      exact .ite (fun _ => .error (Or.inr (.stack hop hlt (Nat.not_le.mp hle)))) fun h =>
        absurd nofun h

/-! ## Jumps -/

theorem goToWord_fails {addr : Word} (hmem : Wraps addr → addr ∈ accesses vm i) :
    Fails (goToWord vm addr) (Excused vm i) :=
  reading_fails hmem fun _ => .ite (fun _ => .ok) fun _ => .ok

theorem jump_fails {handler : InstrHandler}
    (haccess : accesses vm i = (wordAddress vm i i.a).toList)
    (hh : dispatchJMP i.mode = some handler) : Fails (handler vm i) (Excused vm i) := by
  cases hm : i.mode <;> rw [hm] at hh <;> cases hh
  · exact .ok
  · exact .guard fun _ => withReg_fails fun _ _ _ => .ok
  · refine .guard fun _ => goToWord_fails fun _ => wordAddress_mem haccess ?_
    rw [wordAddress, hm]
  · refine .guard fun _ => withReg_fails fun t _ ht => .guard fun _ => ?_
    refine goToWord_fails fun _ => wordAddress_mem haccess ?_
    rw [wordAddress, hm, ht]
  · refine .guard fun _ => withReg_fails fun t _ ht => .guard fun _ => ?_
    refine goToWord_fails fun _ => wordAddress_mem haccess ?_
    rw [wordAddress, hm, ht]

theorem conditional_fails {j : Condition} {handler : InstrHandler} (hop : i.opcode = j.opcode)
    (hh : getHandler host j.opcode i.mode = some handler) :
    Fails (handler vm i) (Excused vm i) := by
  have haccess : accesses vm i = (wordAddress vm i i.a).toList := by
    rw [accesses, hop]
    cases j <;> rfl
  obtain ⟨jmp, hjmp, rfl⟩ := conditional_handler hh
  exact .guard fun _ => jump_fails haccess hjmp

/-! ## System calls -/

section
variable {P : Fault → Prop}

theorem withPop_fails {k : VM → Word → Exec Result} (hk : ∀ vm r0, Fails (k vm r0) P) :
    Fails (withPop vm k) P := by
  rw [withPop_eq]
  exact .guard fun _ => .ite (fun _ => hk _ _) fun _ => .ok

theorem answer_fails (vm : VM) (v : Word) : Fails (answer vm v) P := by
  rw [answer, VM.setReg_lt (k := 0) (by decide)]
  exact .ok

theorem inMemory_fails (lo n : Nat) : Fails (inMemory lo n) (· = .memory) :=
  .ite (fun _ => .ok) fun _ => .error rfl

theorem cString_fails (vm : VM) (lo : Nat) : Fails (cString vm lo) (· = .memory) :=
  .ite (fun _ => .ok) fun _ => .error rfl

theorem fill_fails (vm : VM) (lo n : Nat) (f : Nat → Byte) :
    Fails (vm.fill lo n f) (· = .memory) :=
  .bind (inMemory_fails lo n) fun _ _ => .ok

theorem memcpy_fails (vm : VM) (dst src n : Nat) :
    Fails (vm.memcpy host dst src n) (· = .memory) :=
  .bind (inMemory_fails src n) fun _ _ =>
    .ite (fun _ => fill_fails _ _ _ _) fun _ => fill_fails _ _ _ _

end

/-- The library functions fault in guest memory only. -/
theorem syscall_fails {id : Nat} {handler : SysCall}
    (hh : dispatchSyscalls host id = some handler) (vm : VM) :
    Fails (handler vm) (· = .memory) := by
  unfold dispatchSyscalls at hh
  split at hh <;> cases hh
  · exact withPop_fails fun _ _ => withPop_fails fun _ _ => withPop_fails fun _ _ =>
      .bind (inMemory_fails _ _) fun _ _ => answer_fails _ _
  · refine withPop_fails fun _ _ => withPop_fails fun _ _ => .guard fun _ => ?_
    exact withPop_fails fun _ _ => .bind (inMemory_fails _ _) fun _ _ =>
      .bind (fill_fails _ _ _ _) fun _ _ => answer_fails _ _
  · exact withPop_fails fun _ _ => .bind (cString_fails _ _) fun _ _ => answer_fails _ _
  · exact withPop_fails fun _ _ => answer_fails _ _
  · exact withPop_fails fun _ _ => answer_fails _ _
  · exact withPop_fails fun _ _ => .bind (cString_fails _ _) fun _ _ => answer_fails _ _
  · exact answer_fails _ _
  · exact withPop_fails fun _ _ => withPop_fails fun _ _ => .guard fun _ =>
      .bind (inMemory_fails _ _) fun _ _ => .bind (fill_fails _ _ _ _) fun _ _ => answer_fails _ _
  · exact withPop_fails fun _ _ => .ok
  · intro f hf
    obtain ⟨status, vm', hok⟩ := malloc_ok host vm
    cases hok.symm.trans hf
  · exact withPop_fails fun _ _ => .ok
  · exact withPop_fails fun _ _ => withPop_fails fun _ _ => withPop_fails fun _ _ =>
      .guard fun _ => .bind (fill_fails _ _ _ _) fun _ _ => answer_fails _ _
  · exact withPop_fails fun _ _ => withPop_fails fun _ _ => withPop_fails fun _ _ =>
      .bind (memcpy_fails _ _ _ _) fun _ _ => answer_fails _ _
  · exact .ok
  · exact .ok
  · exact withPop_fails fun _ _ => withPop_fails fun _ _ => .guard fun _ =>
      .bind (inMemory_fails _ _) fun _ _ => .ok

theorem strays_of {id : Nat} {x : Exec Result} {f : Fault}
    (hiff : SafeCall vm id x ↔ ¬ HasArgs vm id ∨ Refuses vm id ∨ RequestFits vm id)
    (h : x = .error f) : Strays vm id := by
  have hno : ¬ SafeCall vm id x := by
    rintro ⟨⟨status, vm', hok⟩, -⟩
    cases hok.symm.trans h
  obtain ⟨hargs, hrest⟩ := not_or.mp (mt hiff.mpr hno)
  obtain ⟨htest, hfits⟩ := not_or.mp hrest
  exact ⟨not_not.mp hargs, htest, hfits⟩

theorem idle_strays {id : Nat} {x : Exec Result} {f : Fault} (hx : ∃ r, x = .ok r)
    (h : x = .error f) : Strays vm id := by
  obtain ⟨r, hok⟩ := hx
  cases hok.symm.trans h

theorem syscall_strays {id : Nat} {handler : SysCall} {f : Fault}
    (hh : dispatchSyscalls host id = some handler) (h : handler vm = .error f) :
    Strays vm id := by
  unfold dispatchSyscalls at hh
  split at hh <;> cases hh
  · exact strays_of writeFile_safe h
  · exact strays_of readFile_safe h
  · exact strays_of openFile_safe h
  · exact idle_strays (Fails.returns (withPop_fails fun _ _ => answer_fails _ _)) h
  · exact idle_strays (Fails.returns (withPop_fails fun _ _ => answer_fails _ _)) h
  · exact strays_of printStr_safe h
  · exact idle_strays (Fails.returns (answer_fails _ _)) h
  · exact strays_of readStr_safe h
  · exact idle_strays (Fails.returns (withPop_fails fun _ _ => .ok)) h
  · exact strays_of (idle_safe rfl (malloc_ok host vm)) h
  · exact idle_strays (Fails.returns (withPop_fails fun _ _ => .ok)) h
  · exact strays_of memset_safe h
  · exact strays_of memcpy_safe h
  · cases h
  · cases h
  · exact strays_of dumpMem_safe h

theorem instrTRAP_fails (hop : i.opcode = .trap) : Fails (instrTRAP host vm i) (Excused vm i) := by
  refine withReg_fails fun r0 _ hr0 => .ite (fun h => ?_) fun _ => ?_
  · rw [hr0] at h
    exact .error (Or.inr (.id hop h))
  · subst hr0
    cases hh : dispatchSyscalls host (syscallId (vm.reg 0)).toNat with
    | none => exact .ok
    | some handler =>
        intro f hf
        obtain rfl := syscall_fails hh vm f hf
        exact Or.inr (.request hop (syscall_strays hh hf))

/-! ## All of them -/

theorem unary_fails {f : Word → VM} {g : Word → Word} :
    Fails (if N_REG ≤ i.a.toNat then .ok (.illRegister, vm) else do
      let x ← vm.getReg i.a
      finish (f x) i.a (g x)) (Excused vm i) :=
  .guard fun _ => withReg_fails fun _ _ _ => finish_fails _ _

theorem handler_fails {handler : InstrHandler}
    (hh : getHandler host i.opcode i.mode = some handler) :
    Fails (handler vm i) (Excused vm i) := by
  have haccess : i.opcode = .st ∨ i.opcode = .swp →
      accesses vm i = (wordAddress vm i i.b).toList := by
    rintro (hop | hop)
    · rw [accesses, hop]
    · rw [accesses, hop]
  cases handled hh with
  | data hop hh => exact data_fails hop hh
  | neg | not => exact unary_fails
  | std hop hm => exact atDIR_fails (haccess (Or.inl hop)) bodyST_fails hm
  | sti hop hm => exact atIND_fails (haccess (Or.inl hop)) bodyST_fails hm
  | stx hop hm => exact atIDX_fails (haccess (Or.inl hop)) bodyST_fails hm
  | swpr => exact instrSWPR_fails
  | swpd hop hm => exact atDIR_fails (haccess (Or.inr hop)) bodySWP_fails hm
  | swpi hop hm => exact atIND_fails (haccess (Or.inr hop)) bodySWP_fails hm
  | swpx hop hm => exact atIDX_fails (haccess (Or.inr hop)) bodySWP_fails hm
  | push => exact .guard fun hsp => .guard fun _ => pushWord_fails _ hsp
  | pushr =>
    exact .guard fun hsp => .guard fun _ => withReg_fails fun _ _ _ => pushWord_fails _ hsp
  | pop => exact instrPOP_fails
  | fas hop hh => exact fas_fails hop hh
  | call hop hh => exact call_fails hop hh
  | rtn hop => exact instrRTN_fails hop
  | nop | rst | halt => exact .ok
  | trap hop => exact instrTRAP_fails hop
  | jmp hop hh => exact jump_fails (by rw [accesses, hop]) hh
  | conditional j hop hh => exact conditional_fails hop hh

/-- **The list is complete.** -/
theorem handler_faults {handler : InstrHandler} {f : Fault}
    (hh : getHandler host i.opcode i.mode = some handler) (h : handler vm i = .error f) :
    FaultCause vm i f := by
  rcases handler_fails hh f h with rfl | hcause
  · by_cases hslip : Slips vm i
    · exact .slip hslip
    · exact absurd h (handler_avoids hh hslip)
  · exact hcause

/-! ## A call of `cpu_step` -/

/-- A step without a next machine has nothing fetched, or something executed. -/
theorem cpuStep_fails (host : Host) (vm : VM) :
    Fails (cpuStep host vm) fun f => vm.pc.toNat < DATA_BASE ∧
      (fetchSized host vm = .error f ∨ ∃ i, Executes host vm i ∧ FaultCause vm i f) := by
  refine .guard fun hpc => ?_
  have hcode := Nat.not_le.mp hpc
  refine .bind ?_ fun r hfetch => .bind ?_ fun size hsize => .guard fun heq => ?_
  · intro f hf
    refine ⟨hcode, Or.inl ?_⟩
    rw [fetchSized, hf]
    rfl
  · intro f hf
    refine ⟨hcode, Or.inl ?_⟩
    rw [fetchSized, hfetch, Except.ok_bind]
    dsimp only
    rw [hf]
    rfl
  · obtain ⟨consumed, instr⟩ := r
    obtain rfl : consumed = size := not_not.mp heq
    dsimp only
    split
    · exact .ok
    · next handler hh =>
        refine .bind ?_ fun r' _ => .ite (fun _ => .ok) fun _ => .ok
        intro f hf
        exact ⟨hcode, Or.inr ⟨instr, ⟨hcode, ⟨consumed, hfetch, hsize⟩, handler, hh⟩,
          handler_faults hh hf⟩⟩

theorem modeSize_fails (m : Mode) : Fails (modeSize m) (· = .table) := by
  cases m with
  | other raw => exact .error rfl
  | _ => exact .ok

/-- Fetching ends the process, or looks for the size of a mode that has none. -/
theorem fetchSized_fails (host : Host) (vm : VM) :
    Fails (fetchSized host vm) fun f => (f = .exit ∨ f = .table) ∧ ¬ HeadKnown vm := by
  have hkind : Fails (fetchSized host vm) fun f => f = .exit ∨ f = .table := by
    refine .bind ?_ fun r _ => .bind ((modeSize_fails _).mono fun _ h => Or.inr h) fun _ _ => .ok
    rw [fetch_eq]
    refine .guard fun _ => ?_
    split
    · exact .error (Or.inl rfl)
    · refine .guard fun _ => .bind ((modeSize_fails _).mono fun _ h => Or.inr h) fun _ _ => ?_
      exact .ite (fun _ => .ok) fun _ => .ok
  intro f hf
  refine ⟨hkind f hf, fun hhead => ?_⟩
  obtain ⟨opcode, size, -, hsize, hall⟩ := hhead.fetches
  obtain ⟨consumed, instr, hfetch, -, hm, -⟩ := hall host
  rw [fetchSized, hfetch, Except.ok_bind] at hf
  dsimp only at hf
  rw [hm, hsize] at hf
  cases hf

/-- Why there is no next machine. -/
abbrev StepCause (host : Host) (vm : VM) (f : Fault) : Prop :=
  vm.pc.toNat < DATA_BASE ∧ (((f = .exit ∨ f = .table) ∧ ¬ HeadKnown vm) ∨
    ∃ i, Executes host vm i ∧ FaultCause vm i f)

theorem cpuStep_cause (host : Host) (vm : VM) : Fails (cpuStep host vm) (StepCause host vm) := by
  refine (cpuStep_fails host vm).mono ?_
  rintro f ⟨hpc, hwhy⟩
  exact ⟨hpc, hwhy.imp_left fun hf => fetchSized_fails host vm f hf⟩

/-- **`cpu_step` has a next machine, unless the bytes at `pc` begin no instruction or
begin one that finds one of the causes listed.** -/
theorem cpuStep_faults (host : Host) (vm : VM) (f : Fault) :
    cpuStep host vm = .error f → vm.pc.toNat < DATA_BASE ∧
      (((f = .exit ∨ f = .table) ∧ ¬ HeadKnown vm) ∨
        ∃ i, Executes host vm i ∧ FaultCause vm i f) :=
  cpuStep_cause host vm f

/-- `DIV R0, -1` with `INT64_MIN` in `R0`. -/
def divider : VM where
  registers := fun _ => BitVec.intMin 64
  sp := BitVec.ofNat 64 MEM_SIZE
  pc := 0
  sr := 0x10
  memory := fun k => [3, 1, 0, 255, 255, 255, 255, 255, 255, 255, 255].getD k 0
  running := true
  memblocks := []

theorem cpuStep_faults_div : cpuStep default divider = .error .division ∧
    divider.pc.toNat < DATA_BASE ∧
      (((Fault.division = .exit ∨ Fault.division = .table) ∧ ¬ HeadKnown divider) ∨
        ∃ i, Executes default divider i ∧ FaultCause divider i .division) :=
  have h : cpuStep default divider = .error .division := rfl
  ⟨h, cpuStep_faults default divider .division h⟩

/-! ## Instructions that cannot fault -/

/-- No cause can apply, whatever the machine is: there is no base register, no divisor
and no count that is not in the instruction. -/
structure Instruction.Tame (i : Instruction) : Prop where
  trap : i.opcode ≠ .trap
  base : i.mode ≠ .ind ∧ i.mode ≠ .idx
  direct : i.mode = .dir → ¬ Wraps i.args
  jump : i.opcode.isJump = true → i.mode = .regu → i.a.toNat ≠ N_REG
  fas : i.opcode = .fas → i.mode = .dir
  div : i.opcode = .div → i.mode = .imm ∧ i.args ≠ -1
  shift : i.opcode = .shl ∨ i.opcode = .shr →
    i.mode = .imm ∧ 1 ≤ i.args.toNat ∧ i.args.toNat ≤ 63

theorem tame_iff : i.Tame ↔ i.opcode ≠ .trap ∧ (i.mode ≠ .ind ∧ i.mode ≠ .idx) ∧
    (i.mode = .dir → ¬ Wraps i.args) ∧
    (i.opcode.isJump = true → i.mode = .regu → i.a.toNat ≠ N_REG) ∧
    (i.opcode = .fas → i.mode = .dir) ∧ (i.opcode = .div → i.mode = .imm ∧ i.args ≠ -1) ∧
    (i.opcode = .shl ∨ i.opcode = .shr →
      i.mode = .imm ∧ 1 ≤ i.args.toNat ∧ i.args.toNat ≤ 63) := by
  constructor
  · rintro ⟨h₁, h₂, h₃, h₄, h₅, h₆, h₇⟩
    exact ⟨h₁, h₂, h₃, h₄, h₅, h₆, h₇⟩
  · rintro ⟨h₁, h₂, h₃, h₄, h₅, h₆, h₇⟩
    exact ⟨h₁, h₂, h₃, h₄, h₅, h₆, h₇⟩

instance (i : Instruction) : Decidable i.Tame :=
  decidable_of_iff _ tame_iff.symm

theorem Instruction.Tame.slips (h : i.Tame) : ¬ Slips vm i := by
  rintro (⟨hjump, -, huses, ha⟩ | ⟨hop, huses, -⟩)
  · rcases (usesA_jump hjump).mp huses with hm | hm | hm
    · exact h.jump hjump hm ha
    · exact h.base.1 hm
    · exact h.base.2 hm
  · rw [usesB, hop, h.fas hop] at huses
    cases huses

/-- The only words are those in mode DIR, at the address in the instruction. -/
theorem Instruction.Tame.accesses (h : i.Tame) {addr : Word} (hmem : addr ∈ accesses vm i) :
    i.mode = .dir ∧ addr = i.args := by
  have hword : ∀ k, addr ∈ (wordAddress vm i k).toList → i.mode = .dir ∧ addr = i.args := by
    intro k hk
    rw [wordAddress] at hk
    split at hk
    · next hm => exact ⟨hm, List.mem_singleton.mp hk⟩
    · next hm => exact absurd hm h.base.1
    · next hm => exact absurd hm h.base.2
    · cases hk
  rw [BSVM.accesses] at hmem
  split at hmem
  · next hop =>
      have hm := h.fas hop
      have hload : fasLoad vm i = i.args := by rw [fasLoad, hm]
      have hstore : fasStore vm i = i.args := by rw [fasStore, hm]
      rw [hload, hstore] at hmem
      simp only [List.mem_cons, List.not_mem_nil, or_false, or_self] at hmem
      exact ⟨hm, hmem⟩
  all_goals exact hword _ hmem

/-- **A tame instruction faults on no machine whose stack is aligned.** -/
theorem Instruction.Tame.no_cause (h : i.Tame) (hsp : StackAligned vm) {f : Fault} :
    ¬ FaultCause vm i f := by
  intro hcause
  cases hcause with
  | slip hslip => exact h.slips hslip
  | wrap hmem hwraps =>
      obtain ⟨hm, rfl⟩ := h.accesses hmem
      exact h.direct hm hwraps
  | quotient hop _ hy =>
      obtain ⟨hm, hne⟩ := h.div hop
      rw [operand, hm] at hy
      exact hne (Prod.mk.inj (Except.ok.inj hy)).2
  | count hop hy hn =>
      obtain ⟨hm, hrange⟩ := h.shift hop
      rw [operand, hm] at hy
      cases hy
      exact hn hrange
  | stack _ h₁ h₂ =>
      obtain ⟨⟨k, hk⟩, -, -⟩ := hsp
      simp only [MEM_SIZE] at h₁ h₂
      omega
  | id hop _ => exact h.trap hop
  | request hop _ => exact h.trap hop

end BSVM
