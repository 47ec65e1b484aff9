/-
# `BSVM.Transfer` — where a control transfer goes

A transfer has a target, which its mode says where to find (`targetWord`),
tests that come before it is looked at (`Reaches`), and a comparison with
the end of the code segment.  The comparison is made on signed words in five
handlers and on unsigned words in the others (`comparesSigned`):

    before the target     an error, nothing changed
    target refused        VM_INVALID_JMP, nothing changed
    otherwise             pc is the target; a call pushes first

`pc_after_transfer_iff` and `target_checked_iff` are what `cpu_step` and the
comparison make of that.
-/
import BSVM.Run

namespace BSVM

variable {host : Host} {vm vm' : VM} {i : Instruction} {status : VmError}

/-! ## The transfers -/

def OpCode.condition? : OpCode → Option Condition
  | .jeq => some .eq
  | .jne => some .ne
  | .jle => some .le
  | .jlt => some .lt
  | .jge => some .ge
  | .jgt => some .gt
  | _ => none

/-- JMP and the six conditional jumps. -/
def OpCode.isJump (opcode : OpCode) : Bool :=
  opcode = .jmp || opcode.condition?.isSome

/-- JMP, CALL, RTN, RST, and a conditional jump that is taken. -/
def transfers (vm : VM) (i : Instruction) : Bool :=
  match i.opcode.condition? with
  | some j => !j.skips i.mode vm
  | none => i.opcode = .jmp ∨ i.opcode = .call ∨ i.opcode = .rtn ∨ i.opcode = .rst

/-- The immediate, the value of the register, or the word in memory. -/
def modeTarget (vm : VM) (i : Instruction) : Word :=
  match i.mode with
  | .regu => vm.reg i.a
  | .dir => readWord vm.memory i.args.toNat
  | .ind => readWord vm.memory (vm.reg i.a).toNat
  | .idx => readWord vm.memory (vm.reg i.a + i.args).toNat
  | _ => i.args

def targetWord (vm : VM) (i : Instruction) : Word :=
  match i.opcode with
  | .rst => 0
  | .rtn => readWord vm.memory vm.sp.toNat
  | _ => modeTarget vm i

/-- The tests of the `jump…` helpers on the operand, the register that is one
too far aside. -/
def JumpReads (vm : VM) (i : Instruction) : Prop :=
  match i.mode with
  | .imm => True
  | .regu => i.a.toNat < N_REG
  | .dir => i.args.toNat < DATA_BASE
  | .ind => i.a.toNat < N_REG ∧ DATA_BASE ≤ (vm.reg i.a).toNat ∧
      (vm.reg i.a).toNat + 7 < MEM_SIZE
  | .idx => i.a.toNat < N_REG ∧ DATA_BASE ≤ (vm.reg i.a + i.args).toNat ∧
      (vm.reg i.a + i.args).toNat + 7 < MEM_SIZE
  | _ => False

/-- The tests of the calls on the operand. -/
def CallReads (vm : VM) (i : Instruction) : Prop :=
  match i.mode with
  | .imm => True
  | .regu => i.a.toNat < N_REG
  | .dir => i.args.toNat + 7 < MEM_SIZE
  | .ind => i.a.toNat < N_REG ∧ (vm.reg i.a).toNat + 7 < MEM_SIZE
  | .idx => i.a.toNat < N_REG ∧ (vm.reg i.a + i.args).toNat + 7 < MEM_SIZE
  | _ => False

/-- The handler gets as far as its target. -/
def Reaches (vm : VM) (i : Instruction) : Prop :=
  match i.opcode with
  | .rst => True
  | .rtn => vm.sp.toNat + 8 ≤ MEM_SIZE
  | .call => STACK_BASE < vm.sp.toNat ∧ CallReads vm i
  | _ => JumpReads vm i

/-- The handlers that compare their target as a signed word. -/
def comparesSigned (i : Instruction) : Bool :=
  i.opcode = .rtn ∨ (i.opcode = .call ∧ i.mode ≠ .imm)

/-- The comparison with the end of the code segment. -/
def refusesTarget (i : Instruction) (target : Word) : Prop :=
  if comparesSigned i then (DATA_BASE : Int) ≤ target.toInt else DATA_BASE ≤ target.toNat

theorem opcode_of_condition {opcode : OpCode} {j : Condition} (h : opcode.condition? = some j) :
    opcode = j.opcode := by
  cases opcode <;> cases h <;> rfl

/-- What the handler of a transfer can return. -/
inductive TransferOutcome (vm : VM) (i : Instruction) : VmError → VM → Prop
  | stopped {status : VmError} (hst : status ≠ .ok) (h : ¬ Reaches vm i) :
      TransferOutcome vm i status vm
  | refused (h : Reaches vm i) (hr : refusesTarget i (targetWord vm i)) :
      TransferOutcome vm i .invalidJmp vm
  /-- a call with `sp` above the end of memory -/
  | unpushed (h : Reaches vm i) (hr : ¬ refusesTarget i (targetWord vm i)) :
      TransferOutcome vm i .illMemAccess vm
  | taken {vm' : VM} (h : Reaches vm i) (hr : ¬ refusesTarget i (targetWord vm i))
      (hpc : vm'.pc = targetWord vm i) : TransferOutcome vm i .ok vm'

/-! ## The jumps -/

/-- The outcome of a jump that is taken. -/
inductive JumpOutcome (vm : VM) (i : Instruction) : Result → Prop
  | stopped {status : VmError} (hst : status ≠ .ok) (h : ¬ JumpReads vm i) :
      JumpOutcome vm i (status, vm)
  | goes (h : JumpReads vm i) : JumpOutcome vm i (goTo vm (modeTarget vm i))

theorem goToWord_cases {addr : Word} {r : Result} (h : goToWord vm addr = .ok r) :
    (addr.toNat + 7 < MEM_SIZE ∧ r = goTo vm (readWord vm.memory addr.toNat)) ∨
    (¬ addr.toNat + 7 < MEM_SIZE ∧ r = (.illMemAccess, vm)) := by
  obtain ⟨⟨status, v⟩, hread, h⟩ := Except.bind_eq_ok.mp h
  dsimp only at h
  rcases memRead64_cases hread with ⟨rfl, hlt, rfl⟩ | ⟨rfl, hge, -⟩
  · cases h
    exact Or.inl ⟨hlt, rfl⟩
  · cases h
    exact Or.inr ⟨hge, rfl⟩

/-- The end of the jumps that go through memory. -/
theorem goToWord_outcome {addr : Word} (hreads : JumpReads vm i ↔ addr.toNat + 7 < MEM_SIZE)
    (htarget : modeTarget vm i = readWord vm.memory addr.toNat) :
    Returns (goToWord vm addr) (JumpOutcome vm i) := by
  intro r hr
  rcases goToWord_cases hr with ⟨hlt, rfl⟩ | ⟨hge, rfl⟩
  · rw [← htarget]
    exact .goes (hreads.mpr hlt)
  · exact .stopped nofun fun h => hge (hreads.mp h)

theorem jump_stopped {status : VmError} (hst : status ≠ .ok) (h : ¬ JumpReads vm i) :
    Returns (.ok (status, vm) : Exec Result) (JumpOutcome vm i) :=
  Returns.ok_iff.mpr (.stopped hst h)

theorem jumpr_outcome (hm : i.mode = .regu) : Returns (jumpr vm i) (JumpOutcome vm i) := by
  have hreads : JumpReads vm i ↔ i.a.toNat < N_REG := by rw [JumpReads, hm]
  have htarget : modeTarget vm i = vm.reg i.a := by rw [modeTarget, hm]
  refine Returns.ite_iff.mpr ⟨fun ha => ?_, fun _ => ?_⟩
  · exact jump_stopped nofun fun h => absurd (hreads.mp h) (Nat.not_lt.mpr ha.le)
  · refine Returns.bind_iff.mpr fun addr hget => Returns.ok_iff.mpr ?_
    obtain ⟨ha, rfl⟩ := getReg_cases hget
    rw [← htarget]
    exact .goes (hreads.mpr ha)

theorem jumpd_outcome (hm : i.mode = .dir) : Returns (jumpd vm i) (JumpOutcome vm i) := by
  have hreads : JumpReads vm i ↔ i.args.toNat < DATA_BASE := by rw [JumpReads, hm]
  refine Returns.ite_iff.mpr ⟨fun hdata => ?_, fun hcode => ?_⟩
  · exact jump_stopped nofun fun h => absurd (hreads.mp h) (Nat.not_lt.mpr hdata)
  · refine goToWord_outcome (hreads.trans ?_) (by rw [modeTarget, hm])
    simp at hcode ⊢
    omega

/-- The two jumps through a register, whose address is checked in between. -/
theorem jump_through {addr : Word} (ha : i.a.toNat < N_REG)
    (hreads : JumpReads vm i ↔
      i.a.toNat < N_REG ∧ DATA_BASE ≤ addr.toNat ∧ addr.toNat + 7 < MEM_SIZE)
    (htarget : modeTarget vm i = readWord vm.memory addr.toNat) :
    Returns (if addr.toNat < DATA_BASE then return (.illMemAccess, vm) else goToWord vm addr)
      (JumpOutcome vm i) := by
  refine Returns.ite_iff.mpr ⟨fun hcode => ?_, fun hdata => ?_⟩
  · exact jump_stopped nofun fun h => absurd (hreads.mp h).2.1 (Nat.not_le.mpr hcode)
  · refine goToWord_outcome (hreads.trans ⟨fun h => h.2.2, fun h => ?_⟩) htarget
    exact ⟨ha, Nat.not_lt.mp hdata, h⟩

theorem jumpi_outcome (hm : i.mode = .ind) : Returns (jumpi vm i) (JumpOutcome vm i) := by
  refine Returns.ite_iff.mpr ⟨fun ha => ?_, fun _ => ?_⟩
  · refine jump_stopped nofun fun h => ?_
    rw [JumpReads, hm] at h
    exact absurd h.1 (Nat.not_lt.mpr ha.le)
  · refine Returns.bind_iff.mpr fun addr hget => ?_
    obtain ⟨ha, rfl⟩ := getReg_cases hget
    exact jump_through ha (by rw [JumpReads, hm]) (by rw [modeTarget, hm])

theorem jumpx_outcome (hm : i.mode = .idx) : Returns (jumpx vm i) (JumpOutcome vm i) := by
  refine Returns.ite_iff.mpr ⟨fun ha => ?_, fun _ => ?_⟩
  · refine jump_stopped nofun fun h => ?_
    rw [JumpReads, hm] at h
    exact absurd h.1 (Nat.not_lt.mpr ha.le)
  · refine Returns.bind_iff.mpr fun addr hget => ?_
    obtain ⟨ha, rfl⟩ := getReg_cases hget
    exact jump_through ha (by rw [JumpReads, hm]) (by rw [modeTarget, hm])

theorem jump_outcome {handler : InstrHandler} (hh : dispatchJMP i.mode = some handler) :
    Returns (handler vm i) (JumpOutcome vm i) := by
  cases hm : i.mode <;> rw [hm] at hh <;> cases hh
  · have htarget : modeTarget vm i = i.args := by rw [modeTarget, hm]
    refine Returns.ok_iff.mpr (htarget ▸ .goes ?_)
    rw [JumpReads, hm]
    trivial
  · exact jumpr_outcome hm
  · exact jumpd_outcome hm
  · exact jumpi_outcome hm
  · exact jumpx_outcome hm

/-! ## The calls -/

abbrev Transferred (vm : VM) (i : Instruction) (r : Result) : Prop :=
  TransferOutcome vm i r.1 r.2

theorem transfer_stopped {status : VmError} (hst : status ≠ .ok) (h : ¬ Reaches vm i) :
    Returns (.ok (status, vm) : Exec Result) (Transferred vm i) :=
  Returns.ok_iff.mpr (.stopped hst h)

/-- A call with its target at hand. -/
theorem callTo_outcome (hsp : STACK_BASE < vm.sp.toNat) (h : Reaches vm i)
    (hr : ¬ refusesTarget i (targetWord vm i)) :
    Returns (callTo vm i (targetWord vm i)) (Transferred vm i) := by
  refine Returns.bind_iff.mpr fun size _ => Returns.bind_iff.mpr ?_
  intro r hpush
  rcases pushWord_cases hsp hpush with ⟨-, rfl⟩ | rfl
  · exact Returns.ok_iff.mpr (.taken h hr rfl)
  · exact Returns.ok_iff.mpr (.unpushed h hr)

section
variable (hop : i.opcode = .call)
include hop

theorem reaches_call : Reaches vm i ↔ STACK_BASE < vm.sp.toNat ∧ CallReads vm i := by
  rw [Reaches, hop]

theorem target_call : targetWord vm i = modeTarget vm i := by
  rw [targetWord, hop]

theorem refuses_call (hm : i.mode ≠ .imm) (t : Word) :
    refusesTarget i t ↔ (DATA_BASE : Int) ≤ t.toInt := by
  have hsigned : comparesSigned i = true := by simp [comparesSigned, hop, hm]
  rw [refusesTarget, if_pos hsigned]

theorem call_full (hsp : vm.sp.toNat ≤ STACK_BASE) :
    Returns (.ok (.stackOverflow, vm) : Exec Result) (Transferred vm i) :=
  transfer_stopped nofun fun h => absurd ((reaches_call hop).mp h).1 (Nat.not_lt.mpr hsp)

theorem instrCALL_outcome (hm : i.mode = .imm) :
    Returns (instrCALL vm i) (Transferred vm i) := by
  have htarget : targetWord vm i = i.args := by rw [target_call hop, modeTarget, hm]
  have hrefuses : refusesTarget i i.args ↔ DATA_BASE ≤ i.args.toNat := by
    have hunsigned : comparesSigned i = false := by simp [comparesSigned, hop, hm]
    rw [refusesTarget, if_neg (by simp [hunsigned])]
  refine Returns.ite_iff.mpr ⟨fun hsp => call_full hop hsp, fun hsp => ?_⟩
  have hreach : Reaches vm i := by
    refine (reaches_call hop).mpr ⟨Nat.not_le.mp hsp, ?_⟩
    rw [CallReads, hm]
    trivial
  refine Returns.ite_iff.mpr ⟨fun hge => Returns.ok_iff.mpr ?_, fun hlt => ?_⟩
  · exact .refused hreach (htarget ▸ hrefuses.mpr hge)
  · have hcall := callTo_outcome (Nat.not_le.mp hsp) hreach fun h =>
      hlt (hrefuses.mp (htarget ▸ h))
    rwa [htarget] at hcall

/-- The comparison and the call that follow a target which was read. -/
theorem call_compared (hm : i.mode ≠ .imm) (hreach : Reaches vm i) :
    Returns (if (DATA_BASE : Int) ≤ (targetWord vm i).toInt then return (.invalidJmp, vm)
      else callTo vm i (targetWord vm i)) (Transferred vm i) := by
  have hrefuses := refuses_call hop hm (targetWord vm i)
  refine Returns.ite_iff.mpr ⟨fun hge => Returns.ok_iff.mpr ?_, fun hlt => ?_⟩
  · exact .refused hreach (hrefuses.mpr hge)
  · exact callTo_outcome ((reaches_call hop).mp hreach).1 hreach fun h => hlt (hrefuses.mp h)

theorem instrCALLR_outcome (hm : i.mode = .regu) :
    Returns (instrCALLR vm i) (Transferred vm i) := by
  have hreads : CallReads vm i ↔ i.a.toNat < N_REG := by rw [CallReads, hm]
  have htarget : targetWord vm i = vm.reg i.a := by rw [target_call hop, modeTarget, hm]
  refine Returns.ite_iff.mpr ⟨fun ha => ?_, fun _ => ?_⟩
  · exact transfer_stopped nofun fun h =>
      absurd (hreads.mp ((reaches_call hop).mp h).2) (Nat.not_lt.mpr ha)
  · refine Returns.ite_iff.mpr ⟨fun hsp => call_full hop hsp, fun hsp => ?_⟩
    refine Returns.bind_iff.mpr fun target hget => ?_
    obtain ⟨ha, rfl⟩ := getReg_cases hget
    rw [← htarget]
    exact call_compared hop (by simp [hm])
      ((reaches_call hop).mpr ⟨Nat.not_le.mp hsp, hreads.mpr ha⟩)

/-- The calls that read their target from memory. -/
theorem callAt_outcome {addr : Word} (hm : i.mode ≠ .imm) (hsp : STACK_BASE < vm.sp.toNat)
    (hreads : CallReads vm i ↔ addr.toNat + 7 < MEM_SIZE)
    (htarget : targetWord vm i = readWord vm.memory addr.toNat) :
    Returns (callAt vm i addr) (Transferred vm i) := by
  refine Returns.bind_iff.mpr ?_
  rintro ⟨status, v⟩ hread
  rcases memRead64_cases hread with ⟨rfl, hlt, rfl⟩ | ⟨rfl, hge, -⟩
  · refine Returns.ite_iff.mpr ⟨fun h => absurd rfl h, fun _ => ?_⟩
    rw [← htarget]
    exact call_compared hop hm ((reaches_call hop).mpr ⟨hsp, hreads.mpr hlt⟩)
  · refine Returns.ite_iff.mpr ⟨fun _ => ?_, fun h => absurd nofun h⟩
    exact transfer_stopped nofun fun h => hge (hreads.mp ((reaches_call hop).mp h).2)

theorem instrCALLD_outcome (hm : i.mode = .dir) :
    Returns (instrCALLD vm i) (Transferred vm i) := by
  refine Returns.ite_iff.mpr ⟨fun hsp => call_full hop hsp, fun hsp => ?_⟩
  exact callAt_outcome hop (by simp [hm]) (Nat.not_le.mp hsp) (by rw [CallReads, hm])
    (by rw [target_call hop, modeTarget, hm])

/-- The two calls through a register. -/
theorem call_through {f : Word → Word} (hm : i.mode ≠ .imm)
    (hreads : CallReads vm i ↔
      i.a.toNat < N_REG ∧ (f (vm.reg i.a)).toNat + 7 < MEM_SIZE)
    (htarget : targetWord vm i = readWord vm.memory (f (vm.reg i.a)).toNat) :
    Returns (if vm.sp.toNat ≤ STACK_BASE then .ok (.stackOverflow, vm)
      else if N_REG ≤ i.a.toNat then .ok (.illRegister, vm)
      else do
        let a ← vm.getReg i.a
        callAt vm i (f a)) (Transferred vm i) := by
  refine Returns.ite_iff.mpr ⟨fun hsp => call_full hop hsp, fun hsp => ?_⟩
  refine Returns.ite_iff.mpr ⟨fun ha => ?_, fun _ => ?_⟩
  · exact transfer_stopped nofun fun h =>
      absurd (hreads.mp ((reaches_call hop).mp h).2).1 (Nat.not_lt.mpr ha)
  · refine Returns.bind_iff.mpr fun a hget => ?_
    obtain ⟨ha, rfl⟩ := getReg_cases hget
    refine callAt_outcome hop hm (Nat.not_le.mp hsp) (hreads.trans ⟨fun h => h.2, ?_⟩) htarget
    exact fun h => ⟨ha, h⟩

theorem call_outcome {handler : InstrHandler} (hh : dispatchCALL i.mode = some handler) :
    Returns (handler vm i) (Transferred vm i) := by
  cases hm : i.mode <;> rw [hm] at hh <;> cases hh
  · exact instrCALL_outcome hop hm
  · exact instrCALLR_outcome hop hm
  · exact instrCALLD_outcome hop hm
  · exact call_through (f := id) hop (by simp [hm]) (by rw [CallReads, hm]; rfl)
      (by rw [target_call hop, modeTarget, hm]; rfl)
  · exact call_through (f := (· + i.args)) hop (by simp [hm]) (by rw [CallReads, hm])
      (by rw [target_call hop, modeTarget, hm])

end

/-! ## All transfers -/

theorem JumpOutcome.transferred {r : Result} (h : JumpOutcome vm i r)
    (hreach : Reaches vm i ↔ JumpReads vm i) (htarget : targetWord vm i = modeTarget vm i)
    (hunsigned : comparesSigned i = false) : Transferred vm i r := by
  have hrefuses : refusesTarget i (targetWord vm i) ↔ DATA_BASE ≤ (modeTarget vm i).toNat := by
    rw [refusesTarget, if_neg (by simp [hunsigned]), htarget]
  cases h with
  | stopped hst hno => exact .stopped hst fun h => hno (hreach.mp h)
  | goes hreads =>
      rw [goTo]
      split
      · next hge => exact .refused (hreach.mpr hreads) (hrefuses.mpr hge)
      · next hlt =>
          exact .taken (hreach.mpr hreads) (fun h => hlt (hrefuses.mp h)) htarget.symm

theorem instrRTN_outcome (hop : i.opcode = .rtn) :
    Returns (instrRTN vm i) (Transferred vm i) := by
  have hreach : Reaches vm i ↔ vm.sp.toNat + 8 ≤ MEM_SIZE := by rw [Reaches, hop]
  have htarget : targetWord vm i = readWord vm.memory vm.sp.toNat := by rw [targetWord, hop]
  have hrefuses : refusesTarget i (targetWord vm i) ↔
      (DATA_BASE : Int) ≤ (targetWord vm i).toInt := by
    rw [refusesTarget, if_pos (by simp [comparesSigned, hop])]
  refine Returns.ite_iff.mpr ⟨fun hempty => ?_, fun hsp => ?_⟩
  · refine transfer_stopped nofun fun h => ?_
    have hroom := hreach.mp h
    omega
  · rw [memRead64_sp 0 (Nat.not_le.mp hsp)]
    split
    · next hroom =>
        rw [Except.ok_bind, ← htarget]
        refine Returns.ite_iff.mpr ⟨fun h => absurd rfl h, fun _ => ?_⟩
        refine Returns.ite_iff.mpr ⟨fun hge => Returns.ok_iff.mpr ?_, fun hlt =>
          Returns.ok_iff.mpr ?_⟩
        · exact .refused (hreach.mpr hroom) (hrefuses.mpr hge)
        · exact .taken (hreach.mpr hroom) (fun h => hlt (hrefuses.mp h)) rfl
    · exact Returns.error_iff.mpr trivial

/-- **A control transfer is stopped before its target, refuses it, or goes
there.** -/
theorem transfer_outcome {handler : InstrHandler}
    (hh : getHandler host i.opcode i.mode = some handler) (ht : transfers vm i = true) :
    Returns (handler vm i) (Transferred vm i) := by
  cases hcond : i.opcode.condition? with
  | some j =>
      have hop := opcode_of_condition hcond
      rw [hop] at hh
      obtain ⟨jmp, hjmp, rfl⟩ := conditional_handler hh
      have htaken : j.skips i.mode vm = false := by
        rw [transfers, hcond] at ht
        simpa using ht
      rw [skipIf, if_neg (by simp [htaken])]
      refine (jump_outcome hjmp).mono fun r hr => hr.transferred ?_ ?_ ?_
      · cases j <;> rw [Reaches, hop] <;> rfl
      · cases j <;> rw [targetWord, hop] <;> rfl
      · cases j <;> rw [comparesSigned, hop] <;> rfl
  | none =>
      rw [transfers, hcond] at ht
      rcases of_decide_eq_true ht with hop | hop | hop | hop
      · rw [hop] at hh
        refine (jump_outcome hh).mono fun r hr => hr.transferred ?_ ?_ ?_
        · rw [Reaches, hop]
        · rw [targetWord, hop]
        · rw [comparesSigned, hop]
          rfl
      · rw [hop] at hh
        exact call_outcome hop hh
      · rw [hop] at hh
        cases hm : i.mode <;> rw [hm] at hh <;> cases hh
        exact instrRTN_outcome hop
      · rw [hop] at hh
        cases hm : i.mode <;> rw [hm] at hh <;> cases hh
        have htarget : targetWord vm i = 0 := by rw [targetWord, hop]
        have hunsigned : comparesSigned i = false := by simp [comparesSigned, hop]
        refine Returns.ok_iff.mpr (.taken ?_ ?_ htarget.symm)
        · rw [Reaches, hop]
          trivial
        · rw [refusesTarget, if_neg (by simp [hunsigned]), htarget]
          decide

/-! ## `pc` after a transfer -/

/-- No instruction is empty, and none is as long as the address space. -/
theorem add_size_ne {mode : Mode} {size : Nat} (h : modeSize mode = .ok size) (pc : Word) :
    pc + BitVec.ofNat 64 size ≠ pc := by
  intro heq
  have hzero : BitVec.ofNat 64 size = 0 := BitVec.add_right_eq_self.mp heq
  cases mode <;> cases h <;> exact absurd hzero (by decide)

/-- **After a transfer that succeeds, `pc` is its target exactly when the
target is not the address of the transfer itself.** -/
theorem pc_after_transfer_iff (hexec : Executes host vm i) (ht : transfers vm i = true)
    (h : cpuStep host vm = .ok (.ok, vm')) :
    vm'.pc = targetWord vm i ↔ targetWord vm i ≠ vm.pc := by
  obtain ⟨handler, size, vm₁, hh, hsize, hrun, rfl⟩ := cpuStep_executes hexec h
  have hpc : vm₁.pc = targetWord vm i := by
    have hout : TransferOutcome vm i .ok vm₁ := transfer_outcome hh ht _ hrun
    cases hout with
    | stopped hst => exact absurd rfl hst
    | taken _ _ hpc => exact hpc
  rw [advance, ← hpc]
  by_cases hself : vm₁.pc = vm.pc
  · rw [if_pos ⟨rfl, hself⟩]
    exact ⟨fun h => absurd h (add_size_ne hsize _), fun h => absurd hself h⟩
  · rw [if_neg fun h => hself h.2]
    exact ⟨fun _ => hself, fun _ => rfl⟩

/-- `JMP n` at address 0. -/
def jumper (n : Byte) : VM :=
  { initVM with
    memory := fun k =>
      if (k : Nat) = 0 then 22 else if (k : Nat) = 1 then 1 else if (k : Nat) = 3 then n else 0 }

theorem pc_after_jmp_five :
    (cpuStep default (jumper 5)).map (fun r => r.2.pc) = .ok 5 := by
  have hexec : Executes default (jumper 5) ⟨.jmp, .imm, 0, 0, 5⟩ :=
    ⟨by decide, ⟨11, rfl, rfl⟩, instrJMP, rfl⟩
  have hstep : cpuStep default (jumper 5) = .ok (.ok, { jumper 5 with pc := 5 }) := rfl
  rw [hstep]
  exact congrArg _ ((pc_after_transfer_iff hexec rfl hstep).mpr (by decide))

/-- `JMP 0` at address 0 goes on with the next instruction. -/
theorem jmp_self_falls_through :
    Executes default (jumper 0) ⟨.jmp, .imm, 0, 0, 0⟩ ∧
      transfers (jumper 0) ⟨.jmp, .imm, 0, 0, 0⟩ = true ∧
      targetWord (jumper 0) ⟨.jmp, .imm, 0, 0, 0⟩ = 0 ∧
      cpuStep default (jumper 0) = .ok (.ok, { jumper 0 with pc := 11 }) ∧
      ({ jumper 0 with pc := 11 } : VM).pc ≠ targetWord (jumper 0) ⟨.jmp, .imm, 0, 0, 0⟩ :=
  ⟨⟨by decide, ⟨11, rfl, rfl⟩, instrJMP, rfl⟩, rfl, rfl, rfl, by decide⟩

/-! ## The end of the code segment -/

/-- JMP, the six conditional jumps, CALL and RTN. -/
def OpCode.isTransfer (opcode : OpCode) : Prop :=
  opcode.condition? ≠ none ∨ opcode = .jmp ∨ opcode = .call ∨ opcode = .rtn

/-- What is asked of a handler that is given `i` in `vm` and returns `r`: `pc`
stays in the code segment, and a target outside it is refused. -/
def TargetChecked (vm : VM) (i : Instruction) (r : Result) : Prop :=
  (r.1 = .ok → r.2.pc ≠ vm.pc → r.2.pc.toNat < DATA_BASE) ∧
  (transfers vm i = true → Reaches vm i → DATA_BASE ≤ (targetWord vm i).toNat →
    r.1 = .invalidJmp ∧ r.2.pc = vm.pc ∧ r.2.sp = vm.sp ∧ r.2.memory = vm.memory)

/-- A target that gets past a signed comparison from outside the code segment
has its top bit set; past an unsigned one none gets. -/
theorem outside_of_not_refuses {t : Word} (h : ¬ refusesTarget i t) :
    DATA_BASE ≤ t.toNat ↔ comparesSigned i = true ∧ 2 ^ 63 ≤ t.toNat := by
  rw [refusesTarget] at h
  split at h
  · next hs =>
      have hlt := t.isLt
      rw [BitVec.toInt_eq_toNat_cond] at h
      simp only [hs, true_and]
      split at h <;> simp at h ⊢ <;> omega
  · next hs =>
      exact ⟨fun hge => absurd hge h, fun hsigned => absurd hsigned.1 hs⟩

theorem inside_of_refuses {t : Word} (h : refusesTarget i t) :
    ¬ (comparesSigned i = true ∧ 2 ^ 63 ≤ t.toNat) := by
  rintro ⟨hs, hbig⟩
  have hlt := t.isLt
  rw [refusesTarget, if_pos hs, BitVec.toInt_eq_toNat_cond] at h
  split at h <;> simp at h hbig <;> omega

/-- Only a conditional jump is not taken, and it compares unsigned. -/
theorem transfer_skipped {handler : InstrHandler} {r : Result} (hop : i.opcode.isTransfer)
    (hh : getHandler host i.opcode i.mode = some handler) (ht : ¬ transfers vm i = true)
    (hrun : handler vm i = .ok r) : r = (.ok, vm) ∧ comparesSigned i = false := by
  cases hcond : i.opcode.condition? with
  | none =>
      rw [transfers, hcond] at ht
      rcases hop with hop | hop | hop | hop
      · exact absurd hcond hop
      · simp [hop] at ht
      · simp [hop] at ht
      · simp [hop] at ht
  | some j =>
      have hj := opcode_of_condition hcond
      rw [hj] at hh
      obtain ⟨jmp, -, rfl⟩ := conditional_handler hh
      have hskip : j.skips i.mode vm = true := by
        rw [transfers, hcond] at ht
        simpa using ht
      rw [skipIf, if_pos hskip] at hrun
      cases hrun
      refine ⟨rfl, ?_⟩
      cases j <;> rw [comparesSigned, hj] <;> rfl

/-- **A transfer keeps `pc` inside the code segment and refuses every target
outside it, except where the comparison is signed and the top bit of the
target is set.** -/
theorem target_checked_iff {handler : InstrHandler} {r : Result} (hop : i.opcode.isTransfer)
    (hh : getHandler host i.opcode i.mode = some handler) (hrun : handler vm i = .ok r) :
    TargetChecked vm i r ↔
      ¬ (comparesSigned i = true ∧ Reaches vm i ∧ 2 ^ 63 ≤ (targetWord vm i).toNat) := by
  obtain ⟨status, vm'⟩ := r
  by_cases ht : transfers vm i = true
  · have hout : TransferOutcome vm i status vm' := transfer_outcome hh ht _ hrun
    cases hout with
    | stopped hst hno =>
        exact ⟨fun _ h => hno h.2.1, fun _ => ⟨fun hok => absurd hok hst,
          fun _ hreach => absurd hreach hno⟩⟩
    | refused hreach hr =>
        exact ⟨fun _ h => inside_of_refuses hr ⟨h.1, h.2.2⟩,
          fun _ => ⟨nofun, fun _ _ _ => ⟨rfl, rfl, rfl, rfl⟩⟩⟩
    | unpushed hreach hr =>
        have hout := outside_of_not_refuses hr
        constructor
        · intro hchecked hslip
          cases (hchecked.2 ht hreach (hout.mpr ⟨hslip.1, hslip.2.2⟩)).1
        · intro hno
          refine ⟨nofun, fun _ _ hge => ?_⟩
          exact absurd (hout.mp hge) fun h => hno ⟨h.1, hreach, h.2⟩
    | taken hreach hr hpc =>
        have hout := outside_of_not_refuses hr
        constructor
        · intro hchecked hslip
          cases (hchecked.2 ht hreach (hout.mpr ⟨hslip.1, hslip.2.2⟩)).1
        · intro hno
          have hin : (targetWord vm i).toNat < DATA_BASE := by
            refine Nat.not_le.mp fun hge => ?_
            exact hno ⟨(hout.mp hge).1, hreach, (hout.mp hge).2⟩
          exact ⟨fun _ _ => hpc ▸ hin, fun _ _ hge => absurd hge (Nat.not_le.mpr hin)⟩
  · obtain ⟨hr, hunsigned⟩ := transfer_skipped hop hh ht hrun
    cases hr
    refine ⟨fun _ h => ?_, fun _ => ⟨fun _ hpc => absurd rfl hpc, fun h => absurd h ht⟩⟩
    rw [hunsigned] at h
    cases h.1

theorem target_checked_jmp :
    TargetChecked initVM ⟨.jmp, .imm, 0, 0, 1024⟩ (.invalidJmp, initVM) := by
  have hop : OpCode.jmp.isTransfer := Or.inr (Or.inl rfl)
  have hh : getHandler default .jmp .imm = some instrJMP := rfl
  have hrun : instrJMP initVM ⟨.jmp, .imm, 0, 0, 1024⟩ = .ok (.invalidJmp, initVM) := rfl
  exact (target_checked_iff hop hh hrun).mpr nofun

/-- `CALL R0` with `R0 = -1` sets `pc` to the last address there is. -/
theorem callr_leaves_code :
    let vm : VM := { initVM with registers := fun _ => -1 }
    let i : Instruction := ⟨.call, .regu, 0, 0, 0⟩
    ∃ vm', instrCALLR vm i = .ok (.ok, vm') ∧ vm'.pc = -1 ∧ ¬ TargetChecked vm i (.ok, vm') := by
  intro vm i
  have hreg : ¬ N_REG ≤ i.a.toNat := by decide
  have hsp : ¬ vm.sp.toNat ≤ STACK_BASE := by decide
  have hget : vm.getReg i.a = .ok (-1) := rfl
  have htarget : ¬ (DATA_BASE : Int) ≤ (-1 : Word).toInt := by decide
  have hpush : pushWord vm (vm.pc + 3) = _ := pushWord_eq _ (Nat.not_le.mp hsp)
  rw [if_pos (by decide)] at hpush
  refine ⟨{ vm with
    sp := vm.sp - 8
    memory := writeWord vm.memory (vm.sp.toNat - 8) (vm.pc + 3)
    pc := -1 }, ?_, rfl, fun hchecked => ?_⟩
  · have hsize : modeSize i.mode = .ok 3 := rfl
    rw [instrCALLR, if_neg hreg, if_neg hsp, hget, Except.ok_bind, if_neg htarget, callTo, hsize,
      Except.ok_bind]
    exact congrArg (fun x : Exec Result => x >>= fun r =>
      if r.1 = .ok then return (.ok, { r.2 with pc := -1 }) else return r) hpush
  · exact absurd (hchecked.1 rfl (by decide)) (by decide)

end BSVM
