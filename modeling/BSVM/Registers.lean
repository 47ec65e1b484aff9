/-
# `BSVM.Registers` — register numbers out of range

The register numbers of an instruction are two bytes, and there are two
registers.  A handler tests the numbers its mode uses (`BadRegister`) before
it touches `registers`; where it makes another test first, that one may
answer instead (`answerToBad`):

    PUSH Rn, CALL [Rn], CALL [Rn+k]    the stack is full
    POP Rn                             the stack is empty
    a conditional jump                 it is not taken

Nothing is changed in any of these cases.  The jumps through register number
`N_REG`, and `FAS` with one number of two out of range, get past their tests
(`Slips`).
-/
import BSVM.Transfer

namespace BSVM

variable {host : Host} {vm : VM} {i : Instruction}

/-! ## What a mode uses -/

/-- The byte `a` is the number of a register. -/
def usesA (i : Instruction) : Bool :=
  match i.opcode with
  | .rtn | .nop | .rst | .halt | .trap => false
  | .push => i.mode = .regu
  | .call | .jmp | .jeq | .jne | .jle | .jlt | .jge | .jgt =>
      i.mode = .regu || i.mode = .ind || i.mode = .idx
  | _ => true

/-- So is the byte `b`. -/
def usesB (i : Instruction) : Bool :=
  match i.opcode with
  | .rtn | .nop | .rst | .halt | .trap => false
  | .call | .jmp | .jeq | .jne | .jle | .jlt | .jge | .jgt => false
  | _ => i.mode = .reg || i.mode = .ind || i.mode = .idx

/-- A register number that the mode uses is out of range. -/
def BadRegister (i : Instruction) : Prop :=
  (usesA i = true ∧ N_REG ≤ i.a.toNat) ∨ (usesB i = true ∧ N_REG ≤ i.b.toNat)

/-- A conditional jump that is not taken. -/
def notTaken (vm : VM) (i : Instruction) : Bool :=
  i.opcode.condition?.any fun j => j.skips i.mode vm

/-- The numbers that the tests of the handler do not stop. -/
def Slips (vm : VM) (i : Instruction) : Prop :=
  (i.opcode.isJump = true ∧ notTaken vm i = false ∧ usesA i = true ∧ i.a.toNat = N_REG) ∨
  (i.opcode = .fas ∧ usesB i = true ∧ BadRegister i ∧
    ¬ (N_REG ≤ i.a.toNat ∧ N_REG ≤ i.b.toNat))

/-- The answer to a register number that is out of range. -/
def answerToBad (vm : VM) (i : Instruction) : VmError :=
  match i.opcode with
  | .push => if vm.sp.toNat ≤ STACK_BASE then .stackOverflow else .illRegister
  | .pop => if MEM_SIZE ≤ vm.sp.toNat then .stackUnderflow else .illRegister
  | .call =>
      if i.mode ≠ .regu ∧ vm.sp.toNat ≤ STACK_BASE then .stackOverflow else .illRegister
  | _ => if notTaken vm i then .ok else .illRegister

/-! ## Accesses that are in range -/

theorem getReg_avoids {k : Byte} (hk : k.toNat < N_REG) : Avoids (vm.getReg k) .registers := by
  rw [VM.getReg_lt hk]
  exact nofun

theorem setReg_avoids {k : Byte} (hk : k.toNat < N_REG) (v : Word) :
    Avoids (vm.setReg k v) .registers := by
  rw [VM.setReg_lt hk]
  exact nofun

theorem memRead64_avoids (addr out : Word) : Avoids (memRead64 vm addr out) .registers := by
  rw [memRead64_eq]
  exact .ite (fun _ => nofun) fun _ => .guard fun _ => nofun

theorem memWrite64_avoids (addr v : Word) : Avoids (memWrite64 vm addr v) .registers := by
  rw [memWrite64_eq]
  exact .ite (fun _ => nofun) fun _ => .guard fun _ => nofun

theorem shiftLeft_avoids (a n : Word) : Avoids (shiftLeft host a n) .registers := by
  refine .guard fun _ => ?_
  cases host.shl a n with
  | none => exact nofun
  | some v => exact nofun

theorem shiftRight_avoids (a n : Word) : Avoids (shiftRight host a n) .registers := by
  refine .guard fun _ => ?_
  cases host.shr a n with
  | none => exact nofun
  | some v => exact nofun

/-! ## Data instructions -/

theorem finish_avoids {a : Byte} (ha : a.toNat < N_REG) (v : Word) :
    Avoids (finish vm a v) .registers :=
  (setReg_avoids ha v).bind fun _ _ => nofun

theorem dataOp_avoids {opcode : OpCode} {op : DataOp} (hop : dataOp host opcode = some op)
    {a : Byte} (ha : a.toNat < N_REG) (y : Word) : Avoids (op vm a y) .registers := by
  have hget : Avoids (vm.getReg a) .registers := getReg_avoids ha
  cases opcode <;> cases hop
  case div =>
    refine .guard fun _ => hget.bind fun x _ => ?_
    exact .ite (fun _ => nofun) fun _ => finish_avoids ha _
  case cmp => exact hget.bind fun x _ => nofun
  case shl =>
    refine hget.bind fun x _ => (shiftLeft_avoids x y).bind fun res _ => ?_
    refine Avoids.bind ?_ fun vm' _ => finish_avoids ha res
    exact (shiftRight_avoids _ _).bind fun _ _ => nofun
  case shr =>
    refine hget.bind fun x _ => (shiftRight_avoids x y).bind fun res _ => ?_
    refine Avoids.bind ?_ fun vm' _ => finish_avoids ha res
    exact (shiftRight_avoids _ _).bind fun _ _ => nofun
  case ld => exact (setReg_avoids ha y).bind fun _ _ => nofun
  all_goals exact hget.bind fun x _ => finish_avoids ha _

theorem wordAt_avoids (addr : Word) : Avoids (wordAt vm addr) .registers :=
  .guard fun _ => memRead64_avoids addr 0

theorem operand_avoids (vm : VM) (i : Instruction) : Avoids (operand vm i) .registers := by
  have hreg : ∀ f : Word → Exec (VmError × Word), (∀ b, Avoids (f b) .registers) →
      Avoids (if N_REG ≤ i.b.toNat then .ok (.illRegister, 0) else do
        let b ← vm.getReg i.b
        f b) .registers := by
    intro f hf
    exact .guard fun hb =>
      (getReg_avoids (Nat.not_le.mp hb)).bind fun b _ => hf b
  rw [operand]
  split
  · exact .ok
  · exact wordAt_avoids _
  · refine hreg _ fun b => ?_
    split
    · exact wordAt_avoids _
    · exact wordAt_avoids _
    · exact .ok

theorem data_avoids {opcode : OpCode} {op : DataOp} {handler : InstrHandler}
    (hop : dataOp host opcode = some op) (hh : getHandler host opcode i.mode = some handler) :
    Avoids (handler vm i) .registers := by
  rw [data_handler_eq hop hh]
  refine .guard fun ha => (operand_avoids vm i).bind fun r _ => ?_
  exact .ite (fun _ => dataOp_avoids hop (Nat.not_le.mp ha) _) fun _ => nofun

/-! ## Stores, swaps and the stack -/

section
variable {op : AddrOp} (hop : ∀ addr, i.a.toNat < N_REG → Avoids (op vm i.a addr) .registers)
include hop

theorem inData_avoids (ha : i.a.toNat < N_REG) (addr : Word) :
    Avoids (inData op vm i.a addr) .registers :=
  .guard fun _ => hop addr ha

theorem atDIR_avoids : Avoids (atDIR op vm i) .registers :=
  .guard fun ha => inData_avoids hop (Nat.not_le.mp ha) _

theorem atIND_avoids : Avoids (atIND op vm i) .registers := by
  refine .guard fun h => ?_
  obtain ⟨ha, hb⟩ := not_or.mp h
  exact (getReg_avoids (Nat.not_le.mp hb)).bind fun b _ => inData_avoids hop (Nat.not_le.mp ha) b

theorem atIDX_avoids : Avoids (atIDX op vm i) .registers := by
  refine .guard fun h => ?_
  obtain ⟨ha, hb⟩ := not_or.mp h
  exact (getReg_avoids (Nat.not_le.mp hb)).bind fun b _ => inData_avoids hop (Nat.not_le.mp ha) _

end

theorem bodyST_avoids (addr : Word) (ha : i.a.toNat < N_REG) :
    Avoids (bodyST vm i.a addr) .registers :=
  (getReg_avoids ha).bind fun x _ => memWrite64_avoids addr x

theorem bodySWP_avoids (addr : Word) (ha : i.a.toNat < N_REG) :
    Avoids (bodySWP vm i.a addr) .registers := by
  refine (memRead64_avoids addr 0).bind fun r _ => .ite (fun _ => ?_) fun _ => nofun
  refine (getReg_avoids ha).bind fun x _ => (memWrite64_avoids addr x).bind fun r' _ => ?_
  exact .ite (fun _ => (setReg_avoids ha _).bind fun _ _ => nofun) fun _ => nofun

theorem instrSWPR_avoids : Avoids (instrSWPR vm i) .registers := by
  refine .guard fun h => ?_
  obtain ⟨ha, hb⟩ := not_or.mp h
  have ha := Nat.not_le.mp ha
  have hb := Nat.not_le.mp hb
  refine (getReg_avoids ha).bind fun x _ => (getReg_avoids hb).bind fun y _ => ?_
  exact (setReg_avoids ha y).bind fun _ _ => (setReg_avoids hb x).bind fun _ _ => nofun

theorem pushWord_avoids (v : Word) : Avoids (pushWord vm v) .registers :=
  (memWrite64_avoids _ v).bind fun _ _ => .guard fun _ => nofun

theorem instrPOP_avoids : Avoids (instrPOP vm i) .registers := by
  refine .guard fun _ => .guard fun ha => ?_
  refine (memRead64_avoids _ _).bind fun r _ => .ite (fun _ => ?_) fun _ => nofun
  exact (setReg_avoids (Nat.not_le.mp ha) _).bind fun _ _ => nofun

theorem instrPUSH_avoids : Avoids (instrPUSH vm i) .registers :=
  .guard fun _ => .guard fun _ => pushWord_avoids _

theorem instrPUSHR_avoids : Avoids (instrPUSHR vm i) .registers := by
  refine .guard fun _ => .guard fun ha => ?_
  exact (getReg_avoids (Nat.not_le.mp ha)).bind fun x _ => pushWord_avoids x

/-! ## Fetch and set -/

theorem fetchSet_avoids {addr : Word} {addr' : VM → Exec Word} (ha : i.a.toNat < N_REG)
    (haddr : ∀ vm, Avoids (addr' vm) .registers) :
    Avoids (fetchSet vm i.a addr addr') .registers := by
  have hload : Avoids (onWord bodyLD vm i.a addr) .registers := by
    refine (memRead64_avoids addr 0).bind fun r _ => .ite (fun _ => ?_) fun _ => nofun
    exact (setReg_avoids ha _).bind fun _ _ => nofun
  refine hload.bind fun r _ => .ite (fun _ => ?_) fun _ => nofun
  exact (haddr r.2).bind fun t _ => memWrite64_avoids t 1

theorem fas_avoids {handler : InstrHandler} (hop : i.opcode = .fas) (hslip : ¬ Slips vm i)
    (hh : dispatchFAS i.mode = some handler) : Avoids (handler vm i) .registers := by
  -- past the test both numbers are in range, as the one-sided cases are excluded
  have hboth : i.mode ≠ .dir → i.mode ≠ .reg → ¬ (N_REG ≤ i.a.toNat ∧ N_REG ≤ i.b.toNat) →
      usesB i = true → i.a.toNat < N_REG ∧ i.b.toNat < N_REG := by
    intro _ _ hnot hb
    have ha : usesA i = true := by rw [usesA, hop]
    constructor
    · refine Nat.not_le.mp fun hge => hslip (Or.inr ⟨hop, hb, Or.inl ⟨ha, hge⟩, hnot⟩)
    · refine Nat.not_le.mp fun hge => hslip (Or.inr ⟨hop, hb, Or.inr ⟨hb, hge⟩, hnot⟩)
  cases hm : i.mode <;> rw [hm] at hh <;> cases hh
  · exact atDIR_avoids fun addr ha => fetchSet_avoids ha fun _ => nofun
  · refine .guard fun hnot => ?_
    obtain ⟨ha, hb⟩ := hboth (by simp [hm]) (by simp [hm]) hnot (by rw [usesB, hop]; simp [hm])
    refine (getReg_avoids hb).bind fun addr _ => .guard fun _ => ?_
    exact fetchSet_avoids ha fun _ => nofun
  · refine .guard fun hnot => ?_
    obtain ⟨ha, hb⟩ := hboth (by simp [hm]) (by simp [hm]) hnot (by rw [usesB, hop]; simp [hm])
    refine (getReg_avoids hb).bind fun b _ => .guard fun _ => ?_
    exact fetchSet_avoids ha fun _ => (getReg_avoids hb).bind fun _ _ => nofun

/-! ## Calls, the return and jumps -/

theorem callTo_avoids (target : Word) : Avoids (callTo vm i target) .registers := by
  refine Avoids.bind ?_ fun size _ => (pushWord_avoids _).bind fun _ _ =>
    .guard fun _ => nofun
  cases i.mode <;> exact nofun

theorem callAt_avoids (addr : Word) : Avoids (callAt vm i addr) .registers := by
  refine (memRead64_avoids addr 0).bind fun r _ => .guard fun _ => ?_
  exact .guard fun _ => callTo_avoids _

theorem call_avoids {handler : InstrHandler} (hh : dispatchCALL i.mode = some handler) :
    Avoids (handler vm i) .registers := by
  cases hm : i.mode <;> rw [hm] at hh <;> cases hh
  · exact .guard fun _ => .guard fun _ => callTo_avoids _
  · refine .guard fun ha => .guard fun _ => ?_
    refine (getReg_avoids (Nat.not_le.mp ha)).bind fun t _ => ?_
    exact .guard fun _ => callTo_avoids t
  · exact .guard fun _ => callAt_avoids _
  · refine .guard fun _ => .guard fun ha => ?_
    exact (getReg_avoids (Nat.not_le.mp ha)).bind fun addr _ => callAt_avoids addr
  · refine .guard fun _ => .guard fun ha => ?_
    exact (getReg_avoids (Nat.not_le.mp ha)).bind fun a _ => callAt_avoids _

theorem instrRTN_avoids : Avoids (instrRTN vm i) .registers := by
  refine .guard fun _ => (memRead64_avoids _ _).bind fun r _ => ?_
  exact .ite (fun _ => nofun) fun _ => .guard fun _ => nofun

theorem goToWord_avoids (addr : Word) : Avoids (goToWord vm addr) .registers :=
  (memRead64_avoids addr 0).bind fun _ _ => .guard fun _ => nofun

/-- The register number of the jumps that use one, if it is not `N_REG`. -/
theorem jumped_avoids {f : Word → Exec Result} (hf : ∀ v, Avoids (f v) .registers)
    (ha : i.a.toNat ≠ N_REG) :
    Avoids (if N_REG < i.a.toNat then .ok (.illRegister, vm) else do
      let addr ← vm.getReg i.a
      f addr) .registers := by
  refine .guard fun hle => ?_
  have hlt : i.a.toNat < N_REG := lt_of_le_of_ne (Nat.not_lt.mp hle) ha
  exact (getReg_avoids hlt).bind fun addr _ => hf addr

theorem jump_avoids {handler : InstrHandler}
    (ha : i.mode = .regu ∨ i.mode = .ind ∨ i.mode = .idx → i.a.toNat ≠ N_REG)
    (hh : dispatchJMP i.mode = some handler) : Avoids (handler vm i) .registers := by
  cases hm : i.mode <;> rw [hm] at hh <;> cases hh
  · exact nofun
  · exact jumped_avoids (fun _ => nofun) (ha (Or.inl hm))
  · exact .guard fun _ => goToWord_avoids _
  · exact jumped_avoids (fun _ => .guard fun _ => goToWord_avoids _)
      (ha (Or.inr (Or.inl hm)))
  · exact jumped_avoids (fun _ => .guard fun _ => goToWord_avoids _)
      (ha (Or.inr (Or.inr hm)))

theorem usesA_jump (hjump : i.opcode.isJump = true) :
    usesA i = true ↔ i.mode = .regu ∨ i.mode = .ind ∨ i.mode = .idx := by
  cases hop : i.opcode <;> rw [hop] at hjump <;>
    first
    | exact absurd hjump (by decide)
    | simp [usesA, hop, or_assoc]

/-- A jump that is taken and does not slip. -/
theorem jump_number_ne (hjump : i.opcode.isJump = true) (htaken : notTaken vm i = false)
    (hslip : ¬ Slips vm i) (hm : i.mode = .regu ∨ i.mode = .ind ∨ i.mode = .idx) :
    i.a.toNat ≠ N_REG :=
  fun ha => hslip (Or.inl ⟨hjump, htaken, (usesA_jump hjump).mpr hm, ha⟩)

theorem conditional_avoids {j : Condition} {handler : InstrHandler} (hop : i.opcode = j.opcode)
    (hslip : ¬ Slips vm i) (hh : getHandler host j.opcode i.mode = some handler) :
    Avoids (handler vm i) .registers := by
  obtain ⟨jmp, hjmp, rfl⟩ := conditional_handler hh
  refine .guard fun htaken => ?_
  have hcond : i.opcode.condition? = some j := by rw [hop]; cases j <;> rfl
  refine jump_avoids (jump_number_ne ?_ ?_ hslip) hjmp
  · rw [OpCode.isJump, hcond]
    exact Bool.or_true _
  · rw [notTaken, hcond]
    exact Bool.eq_false_iff.mpr htaken

/-! ## System calls -/

theorem withPop_avoids {k : VM → Word → Exec Result}
    (hk : ∀ vm r0, Avoids (k vm r0) .registers) : Avoids (withPop vm k) .registers := by
  rw [withPop_eq]
  exact .guard fun _ => .ite (fun _ => hk _ _) fun _ => nofun

theorem answer_avoids (vm : VM) (v : Word) : Avoids (answer vm v) .registers :=
  (setReg_avoids (k := 0) (by decide) v).bind fun _ _ => nofun

theorem inMemory_avoids (lo n : Nat) : Avoids (inMemory lo n) .registers :=
  .guard fun _ => nofun

theorem fill_avoids (vm : VM) (lo n : Nat) (f : Nat → Byte) :
    Avoids (vm.fill lo n f) .registers :=
  (inMemory_avoids lo n).bind fun _ _ => nofun

theorem cString_avoids (vm : VM) (lo : Nat) : Avoids (cString vm lo) .registers :=
  .guard fun _ => nofun

theorem memcpy_avoids (vm : VM) (dst src n : Nat) :
    Avoids (vm.memcpy host dst src n) .registers :=
  (inMemory_avoids src n).bind fun _ _ => .ite (fun _ => fill_avoids _ _ _ _)
    fun _ => fill_avoids _ _ _ _

theorem syscall_avoids {id : Nat} {handler : SysCall}
    (hh : dispatchSyscalls host id = some handler) (vm : VM) :
    Avoids (handler vm) .registers := by
  unfold dispatchSyscalls at hh
  split at hh <;> cases hh
  · exact withPop_avoids fun _ _ => withPop_avoids fun _ _ => withPop_avoids fun vm _ =>
      (inMemory_avoids _ _).bind fun _ _ => answer_avoids vm _
  · refine withPop_avoids fun _ _ => withPop_avoids fun _ _ => .guard fun _ => ?_
    refine withPop_avoids fun _ _ => (inMemory_avoids _ _).bind fun _ _ => ?_
    exact (fill_avoids _ _ _ _).bind fun vm _ => answer_avoids vm _
  · exact withPop_avoids fun vm _ => (cString_avoids _ _).bind fun _ _ => answer_avoids vm _
  · exact withPop_avoids fun vm _ => answer_avoids vm _
  · exact withPop_avoids fun vm _ => answer_avoids vm _
  · exact withPop_avoids fun vm _ => (cString_avoids _ _).bind fun _ _ => answer_avoids vm _
  · exact answer_avoids vm _
  · refine withPop_avoids fun _ _ => withPop_avoids fun _ _ => .guard fun _ => ?_
    refine (inMemory_avoids _ _).bind fun _ _ => ?_
    exact (fill_avoids _ _ _ _).bind fun vm _ => answer_avoids vm _
  · exact withPop_avoids fun _ _ => nofun
  · exact withPop_avoids fun vm _ => (setReg_avoids (k := 0) (by decide) _).bind fun _ _ => nofun
  · exact withPop_avoids fun _ _ => nofun
  · refine withPop_avoids fun _ _ => withPop_avoids fun _ _ => withPop_avoids fun _ _ => ?_
    exact .guard fun _ => (fill_avoids _ _ _ _).bind fun vm _ => answer_avoids vm _
  · exact withPop_avoids fun _ _ => withPop_avoids fun _ _ => withPop_avoids fun _ _ =>
      (memcpy_avoids _ _ _ _).bind fun vm _ => answer_avoids vm _
  · exact nofun
  · exact nofun
  · refine withPop_avoids fun _ _ => withPop_avoids fun _ _ => .guard fun _ => ?_
    exact (inMemory_avoids _ _).bind fun _ _ => nofun

theorem instrTRAP_avoids : Avoids (instrTRAP host vm i) .registers := by
  refine (getReg_avoids (k := 0) (by decide)).bind fun r0 _ => .ite (fun _ => nofun) fun _ => ?_
  cases hh : dispatchSyscalls host (syscallId r0).toNat with
  | none => exact nofun
  | some handler => exact syscall_avoids hh vm

/-! ## All of them -/

theorem unary_avoids {f : Word → VM} {g : Word → Word} :
    Avoids (if N_REG ≤ i.a.toNat then .ok (.illRegister, vm) else do
      let x ← vm.getReg i.a
      finish (f x) i.a (g x)) .registers :=
  .guard fun ha =>
    (getReg_avoids (Nat.not_le.mp ha)).bind fun _ _ => finish_avoids (Nat.not_le.mp ha) _

/-- No handler accesses a register out of range. -/
theorem handler_avoids {handler : InstrHandler}
    (hh : getHandler host i.opcode i.mode = some handler) (hslip : ¬ Slips vm i) :
    Avoids (handler vm i) .registers := by
  cases handled hh with
  | data hop hh => exact data_avoids hop hh
  | neg | not => exact unary_avoids
  | std => exact atDIR_avoids bodyST_avoids
  | sti => exact atIND_avoids bodyST_avoids
  | stx => exact atIDX_avoids bodyST_avoids
  | swpr => exact instrSWPR_avoids
  | swpd => exact atDIR_avoids bodySWP_avoids
  | swpi => exact atIND_avoids bodySWP_avoids
  | swpx => exact atIDX_avoids bodySWP_avoids
  | push => exact instrPUSH_avoids
  | pushr => exact instrPUSHR_avoids
  | pop => exact instrPOP_avoids
  | fas hop hh => exact fas_avoids hop hslip hh
  | call _ hh => exact call_avoids hh
  | rtn => exact instrRTN_avoids
  | nop | rst | halt => exact nofun
  | trap => exact instrTRAP_avoids
  | jmp hop hh =>
    have htaken : notTaken vm i = false := by rw [notTaken, hop]; rfl
    exact jump_avoids (jump_number_ne (by rw [hop]; rfl) htaken hslip) hh
  | conditional j hop hh => exact conditional_avoids hop hslip hh

/-! ## Register numbers that are out of range -/

/-- The test of two numbers, in the modes that use both. -/
theorem bad_either (h : BadRegister i) : N_REG ≤ i.a.toNat ∨ N_REG ≤ i.b.toNat :=
  h.imp And.right And.right

/-- The test of `a` alone, in the modes that do not use `b`. -/
theorem bad_left (h : BadRegister i) (hb : usesB i = false) : N_REG ≤ i.a.toNat :=
  (h.resolve_right fun h => absurd h.1 (by simp [hb])).2

theorem not_bad (ha : usesA i = false) (hb : usesB i = false) : ¬ BadRegister i :=
  fun h => h.elim (fun h => absurd h.1 (by simp [ha])) fun h => absurd h.1 (by simp [hb])

theorem data_stops {opcode : OpCode} {op : DataOp} {handler : InstrHandler}
    (hop : dataOp host opcode = some op) (hopc : i.opcode = opcode)
    (hh : getHandler host opcode i.mode = some handler) (hbad : BadRegister i) :
    handler vm i = .ok (.illRegister, vm) := by
  rw [data_handler_eq hop hh]
  by_cases ha : N_REG ≤ i.a.toNat
  · exact if_pos ha
  · have hb : usesB i = true ∧ N_REG ≤ i.b.toNat := hbad.resolve_left fun h => ha h.2
    have hrefused : operand vm i = .ok (.illRegister, 0) := by
      have hmode : i.mode = .reg ∨ i.mode = .ind ∨ i.mode = .idx := by
        have huse := hb.1
        cases opcode <;> cases hop <;> simpa [usesB, hopc, or_assoc] using huse
      rcases hmode with hm | hm | hm <;> rw [operand, hm] <;> exact if_pos hb.2
    rw [if_neg ha, hrefused]
    rfl

theorem atDIR_stops {op : AddrOp} (hb : usesB i = false) (hbad : BadRegister i) :
    atDIR op vm i = .ok (.illRegister, vm) :=
  if_pos (bad_left hbad hb)

theorem atIND_stops {op : AddrOp} (hbad : BadRegister i) :
    atIND op vm i = .ok (.illRegister, vm) :=
  if_pos (bad_either hbad)

theorem atIDX_stops {op : AddrOp} (hbad : BadRegister i) :
    atIDX op vm i = .ok (.illRegister, vm) :=
  if_pos (bad_either hbad)

theorem push_not_bad (hop : i.opcode = .push) (hm : i.mode = .imm) : ¬ BadRegister i :=
  not_bad (by simp [usesA, hop, hm]) (by simp [usesB, hop, hm])

theorem pushr_stops (hop : i.opcode = .push) (hm : i.mode = .regu) (hbad : BadRegister i) :
    instrPUSHR vm i =
      .ok (if vm.sp.toNat ≤ STACK_BASE then .stackOverflow else .illRegister, vm) := by
  rw [instrPUSHR, if_pos (bad_left hbad (by simp [usesB, hop, hm]))]
  split <;> rfl

theorem pop_stops (hop : i.opcode = .pop) (hm : i.mode = .regu) (hbad : BadRegister i) :
    instrPOP vm i =
      .ok (if MEM_SIZE ≤ vm.sp.toNat then .stackUnderflow else .illRegister, vm) := by
  have hb : usesB i = (i.mode = .reg || i.mode = .ind || i.mode = .idx) := by rw [usesB, hop]
  rw [instrPOP, if_pos (bad_left hbad (by simp [hb, hm]))]
  split <;> rfl

theorem fas_stops {handler : InstrHandler} (hop : i.opcode = .fas)
    (hslip : ¬ Slips vm i) (hh : dispatchFAS i.mode = some handler) (hbad : BadRegister i) :
    handler vm i = .ok (.illRegister, vm) := by
  have hb : usesB i = (i.mode = .reg || i.mode = .ind || i.mode = .idx) := by rw [usesB, hop]
  have hboth : usesB i = true → N_REG ≤ i.a.toNat ∧ N_REG ≤ i.b.toNat := by
    intro huse
    by_contra hone
    exact hslip (Or.inr ⟨hop, huse, hbad, hone⟩)
  cases hm : i.mode <;> rw [hm] at hh <;> cases hh
  · exact if_pos (bad_left hbad (by simp [hb, hm]))
  · exact if_pos (hboth (by simp [hb, hm]))
  · exact if_pos (hboth (by simp [hb, hm]))

theorem call_stops {handler : InstrHandler} (hop : i.opcode = .call)
    (hh : dispatchCALL i.mode = some handler) (hbad : BadRegister i) :
    handler vm i = .ok (if i.mode ≠ .regu ∧ vm.sp.toNat ≤ STACK_BASE then .stackOverflow
      else .illRegister, vm) := by
  have ha : usesA i = (i.mode = .regu || i.mode = .ind || i.mode = .idx) := by rw [usesA, hop]
  have hb : usesB i = false := by rw [usesB, hop]
  have hnum := bad_left hbad hb
  cases hm : i.mode <;> rw [hm] at hh <;> cases hh
  · exact absurd hbad (not_bad (by simp [ha, hm]) hb)
  · rw [instrCALLR, if_pos hnum, if_neg (by simp)]
  · exact absurd hbad (not_bad (by simp [ha, hm]) hb)
  · rw [instrCALLI, if_pos hnum]
    split <;> simp [*]
  · rw [instrCALLX, if_pos hnum]
    split <;> simp [*]

theorem jump_stops {handler : InstrHandler} (hjump : i.opcode.isJump = true)
    (hgt : i.mode = .regu ∨ i.mode = .ind ∨ i.mode = .idx → i.a.toNat ≠ N_REG)
    (hh : dispatchJMP i.mode = some handler) (hbad : BadRegister i) :
    handler vm i = .ok (.illRegister, vm) := by
  have hb : usesB i = false := by
    cases hop : i.opcode <;> rw [hop] at hjump <;>
      first
      | exact absurd hjump (by decide)
      | rw [usesB, hop]
  have ha : usesA i = true := (hbad.resolve_right fun h => absurd h.1 (by simp [hb])).1
  have hm := (usesA_jump hjump).mp ha
  have hnum : N_REG < i.a.toNat := lt_of_le_of_ne (bad_left hbad hb) (hgt hm).symm
  rcases hm with hm | hm | hm <;> rw [hm] at hh <;> cases hh <;> exact if_pos hnum

theorem conditional_stops {j : Condition} {handler : InstrHandler} (hop : i.opcode = j.opcode)
    (hslip : ¬ Slips vm i) (hh : getHandler host j.opcode i.mode = some handler)
    (hbad : BadRegister i) :
    handler vm i = .ok (if notTaken vm i then .ok else .illRegister, vm) := by
  obtain ⟨jmp, hjmp, rfl⟩ := conditional_handler hh
  have hcond : i.opcode.condition? = some j := by rw [hop]; cases j <;> rfl
  have hskip : notTaken vm i = j.skips i.mode vm := by rw [notTaken, hcond]; rfl
  have hjump : i.opcode.isJump = true := by
    rw [OpCode.isJump, hcond]
    exact Bool.or_true _
  rw [skipIf, hskip]
  split
  · rfl
  · next htaken =>
      have hno : notTaken vm i = false := hskip.trans (Bool.eq_false_iff.mpr htaken)
      exact jump_stops hjump (jump_number_ne hjump hno hslip) hjmp hbad

/-- Every handler answers a register number out of range, and does nothing
else. -/
theorem bad_stops {handler : InstrHandler}
    (hh : getHandler host i.opcode i.mode = some handler) (hslip : ¬ Slips vm i)
    (hbad : BadRegister i) : handler vm i = .ok (answerToBad vm i, vm) := by
  have hill : i.opcode.condition? = none →
      (if notTaken vm i then VmError.ok else .illRegister) = .illRegister := by
    intro hnone
    rw [notTaken, hnone]
    rfl
  cases handled hh with
  | data hdata hh =>
    have hanswer : answerToBad vm i = .illRegister := by
      cases hop : i.opcode <;> rw [hop] at hdata <;> cases hdata <;>
        simp only [answerToBad, notTaken, hop] <;> rfl
    rw [hanswer]
    exact data_stops hdata rfl hh hbad
  | neg hop hm | not hop hm =>
    rw [answerToBad, hop, hill (by rw [hop]; rfl)]
    exact if_pos (bad_left hbad (by simp [usesB, hop, hm]))
  | std hop hm | swpd hop hm =>
    rw [answerToBad, hop, hill (by rw [hop]; rfl)]
    exact atDIR_stops (by simp [usesB, hop, hm]) hbad
  | sti hop | swpi hop =>
    rw [answerToBad, hop, hill (by rw [hop]; rfl)]
    exact atIND_stops hbad
  | stx hop | swpx hop =>
    rw [answerToBad, hop, hill (by rw [hop]; rfl)]
    exact atIDX_stops hbad
  | swpr hop =>
    rw [answerToBad, hop, hill (by rw [hop]; rfl)]
    exact if_pos (bad_either hbad)
  | push hop hm => exact absurd hbad (push_not_bad hop hm)
  | pushr hop hm =>
    rw [answerToBad, hop]
    exact pushr_stops hop hm hbad
  | pop hop hm =>
    rw [answerToBad, hop]
    exact pop_stops hop hm hbad
  | fas hop hh =>
    rw [answerToBad, hop, hill (by rw [hop]; rfl)]
    exact fas_stops hop hslip hh hbad
  | call hop hh =>
    rw [answerToBad, hop]
    exact call_stops hop hh hbad
  | jmp hop hh =>
    have hjump : i.opcode.isJump = true := by rw [hop]; rfl
    have htaken : notTaken vm i = false := by rw [notTaken, hop]; rfl
    rw [answerToBad, hop, hill (by rw [hop]; rfl)]
    exact jump_stops hjump (jump_number_ne hjump htaken hslip) hh hbad
  | conditional j hop hh =>
    have hanswer : answerToBad vm i = if notTaken vm i then .ok else .illRegister := by
      rw [answerToBad, hop]
      cases j <;> rfl
    rw [hanswer]
    exact conditional_stops hop hslip hh hbad
  | rtn hop | nop hop | rst hop | halt hop | trap hop =>
    exact absurd hbad (not_bad (by rw [usesA, hop]) (by rw [usesB, hop]))

/-! ## The numbers that slip -/

theorem jump_slips {handler : InstrHandler}
    (hm : i.mode = .regu ∨ i.mode = .ind ∨ i.mode = .idx) (ha : i.a.toNat = N_REG)
    (hh : dispatchJMP i.mode = some handler) : handler vm i = .error .registers := by
  have hle : ¬ N_REG < i.a.toNat := Nat.not_lt.mpr ha.le
  have hget : vm.getReg i.a = .error .registers := VM.getReg_ge ha.ge
  rcases hm with hm | hm | hm <;> rw [hm] at hh <;> cases hh
  · rw [instrJMPR, jumpr, if_neg hle, hget, Except.error_bind]
  · rw [instrJMPI, jumpi, if_neg hle, hget, Except.error_bind]
  · rw [instrJMPX, jumpx, if_neg hle, hget, Except.error_bind]

/-- The part of `FAS` after the test of the numbers. -/
theorem fas_slips (f : Word → Word) (addr' : Word → VM → Exec Word)
    (hbad : N_REG ≤ i.a.toNat ∨ N_REG ≤ i.b.toNat) :
    (do
      let b ← vm.getReg i.b
      if (f b).toNat < DATA_BASE then return (.illMemAccess, vm)
      else fetchSet vm i.a (f b) (addr' b)) ≠ (.ok (.illRegister, vm) : Exec Result) := by
  by_cases hb : N_REG ≤ i.b.toNat
  · rw [VM.getReg_ge hb]
    exact nofun
  · have ha : N_REG ≤ i.a.toNat := hbad.resolve_right hb
    rw [VM.getReg_reg (Nat.not_le.mp hb), Except.ok_bind]
    split
    · exact nofun
    · intro h
      obtain ⟨⟨status, vm₁⟩, hload, h⟩ := Except.bind_eq_ok.mp h
      obtain ⟨⟨read, v⟩, hread, hset⟩ := Except.bind_eq_ok.mp hload
      rcases memRead64_cases hread with ⟨rfl, -, -⟩ | ⟨rfl, -, -⟩
      · have hfail : bodyLD vm i.a v = .error .registers := by
          rw [bodyLD, VM.setReg_ge ha, Except.error_bind]
        cases hfail.symm.trans hset
      · cases hset
        cases h

/-- A number that slips is accessed, or is not answered for. -/
theorem slips_fail {handler : InstrHandler}
    (hh : getHandler host i.opcode i.mode = some handler) (hslip : Slips vm i) :
    ¬ (handler vm i ≠ .error .registers ∧
      (BadRegister i → handler vm i = .ok (answerToBad vm i, vm))) := by
  rintro ⟨hregs, hanswers⟩
  rcases hslip with ⟨hjump, htaken, huse, ha⟩ | ⟨hop, huse, hbad, hone⟩
  · have hm := (usesA_jump hjump).mp huse
    refine hregs ?_
    cases hcond : i.opcode.condition? with
    | some j =>
        rw [opcode_of_condition hcond] at hh
        obtain ⟨jmp, hjmp, rfl⟩ := conditional_handler hh
        rw [notTaken, hcond] at htaken
        exact (if_neg (Bool.eq_false_iff.mp htaken)).trans (jump_slips hm ha hjmp)
    | none =>
        have hop : i.opcode = .jmp := by simpa [OpCode.isJump, hcond] using hjump
        rw [hop] at hh
        exact jump_slips hm ha hh
  · have hrun := hanswers hbad
    have hanswer : answerToBad vm i = .illRegister := by
      simp only [answerToBad, notTaken, hop]
      rfl
    rw [hanswer] at hrun
    have hm : i.mode = .reg ∨ i.mode = .ind ∨ i.mode = .idx := by
      simpa [usesB, hop, or_assoc] using huse
    rw [hop] at hh
    rcases hm with hm | hm | hm <;> rw [hm] at hh <;> cases hh
    · rw [instrFASI, if_neg hone] at hrun
      exact fas_slips id (fun _ _ => .ok (i.b.setWidth 64)) (bad_either hbad) hrun
    · rw [instrFASX, if_neg hone] at hrun
      exact fas_slips (· + i.args) (fun _ vm => do
        let b ← vm.getReg i.b
        return b + i.args) (bad_either hbad) hrun

/-! ## The handlers -/

/-- **A handler reads and writes no register that is out of range, and answers
a number that its mode uses and that is out of range without any effect.** -/
theorem registers_checked {handler : InstrHandler}
    (hh : getHandler host i.opcode i.mode = some handler) (hslip : ¬ Slips vm i) :
    handler vm i ≠ .error .registers ∧
      (BadRegister i → handler vm i = .ok (answerToBad vm i, vm)) :=
  ⟨handler_avoids hh hslip, bad_stops hh hslip⟩

theorem registers_checked_add :
    instrADDR initVM ⟨.add, .reg, 0, 255, 0⟩ = .ok (.illRegister, initVM) := by
  have hh : getHandler default .add .reg = some instrADDR := rfl
  have hslip : ¬ Slips initVM ⟨.add, .reg, 0, 255, 0⟩ := by
    rintro (h | h)
    · exact absurd h.1 (by decide)
    · exact absurd h.1 (by decide)
  exact (registers_checked hh hslip).2 (Or.inr (by decide))

/-- `PUSH R2` on a full stack, and two instructions that slip. -/
theorem bad_register_accepted :
    let full : VM := { initVM with sp := BitVec.ofNat 64 STACK_BASE }
    let push : Instruction := ⟨.push, .regu, 2, 0, 0⟩
    let jmp : Instruction := ⟨.jmp, .regu, 2, 0, 0⟩
    let fas : Instruction := ⟨.fas, .ind, 0, 2, 0⟩
    getHandler default .push .regu = some instrPUSHR ∧
      BadRegister push ∧ instrPUSHR full push = .ok (.stackOverflow, full) ∧
      BadRegister jmp ∧ instrJMPR initVM jmp = .error .registers ∧
      BadRegister fas ∧ instrFASI initVM fas = .error .registers := by
  exact ⟨rfl, Or.inl (by decide), rfl, Or.inl (by decide), rfl, Or.inr (by decide), rfl⟩

end BSVM
