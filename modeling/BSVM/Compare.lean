/-
# `BSVM.Compare` — `CMP` and the conditional jumps

A compare leaves the flags of a wrapped subtraction; a conditional jump tests
them.  Between the two stands the fact that the sign of the difference
disagrees with its overflow exactly when the first operand is the smaller
one, so that `eq_log` of N and O reads `>=`.

The thirty handlers are six tests in front of five jumps, except that
`instrJNEI` has the test of `instrJEQI`; `jump_iff_holds` says when a jump
does what its condition says.
-/
import BSVM.Flags
import BSVM.Operand

namespace BSVM

/-! ## The conditions -/

inductive Condition where
  | eq | ne | le | lt | ge | gt
  deriving DecidableEq, Repr

def Condition.opcode : Condition → OpCode
  | .eq => .jeq
  | .ne => .jne
  | .le => .jle
  | .lt => .jlt
  | .ge => .jge
  | .gt => .jgt

/-- The condition on the two compared words, as signed numbers. -/
def Condition.holds (x y : Word) : Condition → Prop
  | .eq => x = y
  | .ne => x ≠ y
  | .le => x.toInt ≤ y.toInt
  | .lt => x.toInt < y.toInt
  | .ge => y.toInt ≤ x.toInt
  | .gt => y.toInt < x.toInt

instance (x y : Word) : (j : Condition) → Decidable (j.holds x y)
  | .eq => inferInstanceAs (Decidable (x = y))
  | .ne => inferInstanceAs (Decidable (x ≠ y))
  | .le => inferInstanceAs (Decidable (x.toInt ≤ y.toInt))
  | .lt => inferInstanceAs (Decidable (x.toInt < y.toInt))
  | .ge => inferInstanceAs (Decidable (y.toInt ≤ x.toInt))
  | .gt => inferInstanceAs (Decidable (y.toInt < x.toInt))

/-- The test that makes the handler of a condition and a mode not jump. -/
def Condition.skips : Condition → Mode → VM → Bool
  | .eq, _ => notZ
  | .ne, .ind => notZ
  | .ne, _ => isZ
  | .le, _ => notLE
  | .lt, _ => notLT
  | .ge, _ => notGE
  | .gt, _ => notGT

/-- The thirty handlers. -/
theorem conditional_handler {host : Host} {j : Condition} {mode : Mode}
    {handler : InstrHandler} (hh : getHandler host j.opcode mode = some handler) :
    ∃ jmp, getHandler host .jmp mode = some jmp ∧ handler = skipIf (j.skips mode) jmp := by
  cases j <;> cases mode <;> cases hh <;> exact ⟨_, rfl, rfl⟩

/-! ## The tests on the flags of a compare -/

theorem sub_eq_zero_iff (x y : Word) : x - y = 0 ↔ x = y := by
  rw [BitVec.sub_eq_iff_eq_add, BitVec.ofNat_eq_ofNat, BitVec.zero_add]

/-- The test that sets O. -/
theorem ssubOverflow_test (x y : Word) :
    (((x ^^^ y) &&& (x ^^^ (x - y))).sshiftRight 63 ≠ 0) ↔ x.ssubOverflow y = true := by
  rw [Signed.ssubOverflow_eq_msb]
  exact Signed.sshiftRight_last_ne_zero _

/-- The flags `CMP` leaves for `x` and `y`. -/
theorem cmp_flags {vm vm' : VM} {a : Byte} {x y : Word} {status : VmError}
    (hx : vm.getReg a = .ok x) (h : bodyCMP vm a y = .ok (status, vm')) :
    vm'.sr = withFlags vm.sr (x = y) (x - y).msb (x.toNat < y.toNat) (x.ssubOverflow y) := by
  simp only [bodyCMP, hx, Except.ok_bind, Except.pure_eq, Except.ok.injEq, Prod.mk.injEq] at h
  rw [← h.2, setSRSUB, setSR_sr]
  simp only [ssubOverflow_test, sub_eq_zero_iff, Bool.decide_eq_true]

section
variable {vm : VM} {sr : Byte} {x y : Word} {c : Bool}
  (h : vm.sr = withFlags sr (x = y) (x - y).msb c (x.ssubOverflow y))
include h

theorem isZ_cmp : isZ vm = true ↔ x = y := by
  rw [isZ, getSRZF_eq h]
  by_cases hxy : x = y <;> simp [hxy]

theorem notZ_cmp : notZ vm = true ↔ x ≠ y := by
  rw [notZ, getSRZF_eq h]
  by_cases hxy : x = y <;> simp [hxy]

theorem eqLog_cmp : eqLog (getSRNF vm) (getSROF vm) = true ↔ y.toInt ≤ x.toInt := by
  have hslt := Signed.slt_eq_msb_bne_overflow x y
  rw [BitVec.slt_eq_decide] at hslt
  have heq : eqLog (getSRNF vm) (getSROF vm) = !((x - y).msb != x.ssubOverflow y) := by
    rw [getSRNF_eq h, getSROF_eq h]
    cases (x - y).msb <;> cases x.ssubOverflow y <;> rfl
  rw [heq, ← hslt]
  simp

theorem notLE_cmp : notLE vm = true ↔ y.toInt < x.toInt := by
  rw [notLE, Bool.and_eq_true, notZ_cmp h, eqLog_cmp h]
  constructor
  · rintro ⟨hne, hle⟩
    have hne' : x.toInt ≠ y.toInt := fun e => hne (BitVec.eq_of_toInt_eq e)
    omega
  · intro hlt
    refine ⟨?_, hlt.le⟩
    rintro rfl
    exact lt_irrefl _ hlt

theorem notGT_cmp : notGT vm = true ↔ x.toInt ≤ y.toInt := by
  rw [notGT, Bool.or_eq_true, Bool.not_eq_true', ← Bool.not_eq_true, isZ_cmp h, eqLog_cmp h]
  constructor
  · rintro (rfl | hlt)
    · exact le_rfl
    · exact (not_le.mp hlt).le
  · intro hle
    rcases hle.eq_or_lt with heq | hlt
    · exact Or.inl (BitVec.eq_of_toInt_eq heq)
    · exact Or.inr (not_le.mpr hlt)

/-- Each test is the negation of its condition, one handler excepted. -/
theorem skips_cmp {j : Condition} {mode : Mode} (hj : ¬ (j = .ne ∧ mode = .ind)) :
    j.skips mode vm = true ↔ ¬ j.holds x y := by
  cases j with
  | eq => exact notZ_cmp h
  | ne =>
      have hskips : Condition.ne.skips mode = isZ := by
        cases mode <;> first | rfl | exact absurd ⟨rfl, rfl⟩ hj
      rw [hskips, isZ_cmp h]
      exact not_not.symm
  | le => exact (notLE_cmp h).trans not_le.symm
  | lt => exact (eqLog_cmp h).trans not_lt.symm
  | ge =>
      show notGE vm = true ↔ _
      rw [notGE, Bool.not_eq_true', ← Bool.not_eq_true, eqLog_cmp h]
      exact Iff.rfl
  | gt => exact (notGT_cmp h).trans not_lt.symm

/-- The excepted handler has the opposite test. -/
theorem skips_cmp_jnei : Condition.ne.skips .ind vm = true ↔ Condition.ne.holds x y :=
  notZ_cmp h

end

/-! ## The jumps -/

/-- `JMP` in mode IND, at `k`, would leave the machine as it is: the word in
memory is the address of the instruction. -/
def JumpsToItself (vm : VM) (k : Instruction) : Prop :=
  ∃ h : k.a.toNat < N_REG,
    let addr := vm.registers ⟨k.a.toNat, h⟩
    DATA_BASE ≤ addr.toNat ∧ addr.toNat + 7 < MEM_SIZE ∧
      readWord vm.memory addr.toNat = vm.pc ∧ vm.pc.toNat < DATA_BASE

theorem goTo_eq_self {vm : VM} {target : Word} :
    goTo vm target = (.ok, vm) ↔ target = vm.pc ∧ vm.pc.toNat < DATA_BASE := by
  rw [goTo]
  split
  · next hge =>
      constructor
      · exact nofun
      · rintro ⟨rfl, hlt⟩
        exact absurd hlt (Nat.not_lt.mpr hge)
  · next hlt =>
      constructor
      · intro h
        have hpc : target = vm.pc := congrArg (fun r : Result => r.2.pc) h
        exact ⟨hpc, hpc ▸ Nat.not_le.mp hlt⟩
      · rintro ⟨rfl, -⟩
        rfl

theorem goToWord_eq_self {vm : VM} {addr : Word} :
    goToWord vm addr = .ok (.ok, vm) ↔ addr.toNat + 7 < MEM_SIZE ∧
      readWord vm.memory addr.toNat = vm.pc ∧ vm.pc.toNat < DATA_BASE := by
  rw [goToWord]
  by_cases hlt : addr.toNat + 7 < MEM_SIZE
  · rw [memRead64_inside hlt]
    simp only [Except.ok_bind, if_true, Except.pure_eq, hlt, true_and]
    rw [Except.ok.injEq, goTo_eq_self]
  · rw [memRead64_eq]
    split
    · exact ⟨nofun, fun h => absurd h.1 hlt⟩
    · exact ⟨nofun, fun h => absurd h.1 hlt⟩

theorem jumpi_eq_self {vm : VM} {k : Instruction} :
    jumpi vm k = .ok (.ok, vm) ↔ JumpsToItself vm k := by
  rw [JumpsToItself]
  by_cases ha : k.a.toNat < N_REG
  · have hle : ¬ N_REG < k.a.toNat := Nat.not_lt.mpr ha.le
    simp only [jumpi, if_neg hle, VM.getReg_lt ha, Except.ok_bind]
    generalize hv : vm.registers ⟨k.a.toNat, ha⟩ = addr
    split
    · next hcode =>
        constructor
        · exact nofun
        · rintro ⟨h, hdata, -⟩
          rw [hv] at hdata
          exact absurd hcode (Nat.not_lt.mpr hdata)
    · next hdata =>
        rw [goToWord_eq_self]
        constructor
        · intro h
          exact ⟨ha, hv ▸ Nat.not_lt.mp hdata, hv ▸ h⟩
        · rintro ⟨h, -, hrest⟩
          rw [hv] at hrest
          exact hrest
  · constructor
    · intro h
      rw [jumpi, VM.getReg_ge (Nat.not_lt.mp ha)] at h
      split at h
      · cases h
      · cases h
    · rintro ⟨h, -⟩
      exact absurd h ha

/-- **After a `CMP` that succeeds, a conditional jump does what `JMP` does
when its condition holds of the compared words and nothing otherwise, exactly
when it is not `JNE` in mode IND, or would jump to itself.** -/
theorem jump_iff_holds {host : Host} {vm vm' w : VM} {i k : Instruction} {x y : Word}
    {j : Condition} {cmp jmp handler : InstrHandler}
    (hcmp : getHandler host .cmp i.mode = some cmp) (hrun : cmp vm i = .ok (.ok, vm'))
    (hx : vm.getReg i.a = .ok x) (hy : operand vm i = .ok (.ok, y)) (hw : w.sr = vm'.sr)
    (hj : getHandler host j.opcode k.mode = some handler)
    (hjmp : getHandler host .jmp k.mode = some jmp) :
    (handler w k = if j.holds x y then jmp w k else .ok (.ok, w)) ↔
      ¬ (j = .ne ∧ k.mode = .ind) ∨ JumpsToItself w k := by
  have hbody : bodyCMP vm i.a y = .ok (.ok, vm') := by
    have hop : dataOp host .cmp = some bodyCMP := rfl
    rw [data_handler_eq hop hcmp, hy] at hrun
    split at hrun
    · cases hrun
    · exact hrun
  have hflags := hw.trans (cmp_flags hx hbody)
  obtain ⟨jmp', hjmp', rfl⟩ := conditional_handler hj
  obtain rfl : jmp' = jmp := Option.some.inj (hjmp'.symm.trans hjmp)
  by_cases hslip : j = .ne ∧ k.mode = .ind
  · obtain ⟨rfl, hmode⟩ := hslip
    rw [hmode] at hjmp
    cases hjmp
    have hskip := skips_cmp_jnei hflags
    rw [← jumpi_eq_self, hmode]
    by_cases hne : Condition.ne.holds x y
    · rw [if_pos hne, skipIf, if_pos (hskip.mpr hne)]
      exact ⟨fun h => Or.inr h.symm, fun h => (h.resolve_left (by simp)).symm⟩
    · rw [if_neg hne, skipIf, if_neg (fun h => hne (hskip.mp h))]
      exact ⟨fun h => Or.inr h, fun h => h.resolve_left (by simp)⟩
  · refine ⟨fun _ => Or.inl hslip, fun _ => ?_⟩
    have hskip := skips_cmp hflags hslip
    rw [skipIf]
    by_cases hholds : j.holds x y
    · rw [if_pos hholds, if_neg (fun h => hskip.mp h hholds)]
    · rw [if_neg hholds, if_pos (hskip.mpr hholds)]

theorem jlt_after_cmp :
    let i : Instruction := ⟨.cmp, .imm, 0, 0, 5⟩
    let k : Instruction := ⟨.jlt, .imm, 0, 0, 7⟩
    let vm' := setSRSUB initVM 0 5 (0 - 5)
    instrCMP initVM i = .ok (.ok, vm') ∧ instrJLT vm' k = instrJMP vm' k := by
  intro i k vm'
  have hrun : instrCMP initVM i = .ok (.ok, vm') := rfl
  have hholds : Condition.lt.holds (0 : Word) 5 := by decide
  have hcmp : getHandler default .cmp i.mode = some instrCMP := rfl
  have hjump := (jump_iff_holds (j := .lt) (w := vm') (k := k) hcmp hrun (x := 0) (y := 5) rfl rfl
    rfl rfl rfl).mpr (Or.inl (by simp))
  rw [if_pos hholds] at hjump
  exact ⟨hrun, hjump⟩

/-- `0 ≠ 5`, and `JNE [R1]` goes on with the next instruction, where `JMP`
goes to the address in memory. -/
theorem jnei_falls_through :
    let vm : VM := { initVM with pc := 11, registers := fun r => if r = 0 then 0 else 1024 }
    let i : Instruction := ⟨.cmp, .imm, 0, 0, 5⟩
    let k : Instruction := ⟨.jne, .ind, 1, 0, 0⟩
    let vm' := setSRSUB vm 0 5 (0 - 5)
    instrCMP vm i = .ok (.ok, vm') ∧ Condition.ne.holds 0 5 ∧
      instrJNEI vm' k = .ok (.ok, vm') ∧ instrJMPI vm' k = .ok (.ok, { vm' with pc := 0 }) ∧
      instrJNEI vm' k ≠ instrJMPI vm' k := by
  intro vm i k vm'
  have hskip : instrJNEI vm' k = .ok (.ok, vm') := if_pos (by decide)
  have hkeep : vm'.memory = (fun _ => 0) ∧ vm'.registers = vm.registers := by
    show (setSRSUB vm 0 5 (0 - 5)).memory = _ ∧ (setSRSUB vm 0 5 (0 - 5)).registers = _
    rw [setSRSUB, setSR_eq]
    exact ⟨rfl, rfl⟩
  have hreg : vm'.getReg k.a = .ok 1024 := by
    rw [VM.getReg_lt (by decide), hkeep.2]
    rfl
  have hread : memRead64 vm' 1024 0 = .ok (.ok, 0) := by
    rw [memRead64_inside (by decide), hkeep.1, readWord_fresh]
  have hjump : instrJMPI vm' k = .ok (.ok, { vm' with pc := 0 }) := by
    rw [instrJMPI, jumpi, if_neg (by decide), hreg, Except.ok_bind, if_neg (by decide), goToWord,
      hread]
    rfl
  refine ⟨rfl, by decide, hskip, hjump, ?_⟩
  rw [hskip, hjump]
  intro h
  have hpc := congrArg (fun r : Exec Result => r.map fun r => r.2.pc) h
  exact absurd hpc (by decide)

end BSVM
