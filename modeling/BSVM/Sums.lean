/-
# `BSVM.Sums` — ADD, SUB, CMP, NEG and MUL as arithmetic

The results are those of the integers modulo 2^64.  The flags, apart from Z and N:

          carry                                overflow
    SUB   x < y, unsigned                      the signed difference does not fit
    CMP   as SUB                               as SUB
    NEG   as SUB from 0                        as SUB from 0
    MUL   the signed product does not fit      the same
    ADD   `res < a`, signed                    the signed sum does not fit

A carry out of the sum is `res < a` unsigned.  The signed comparison agrees with
it when the result has the sign of the first operand (`add_iff`).
-/
import BSVM.Addressing
import BSVM.Compare

namespace BSVM

variable {host : Host} {vm vm' : VM} {i : Instruction} {x y : Word}

/-! ## Two operands -/

/-- The five modes of the rows of the data instructions. -/
def Mode.isData : Mode → Bool
  | .imm | .reg | .dir | .ind | .idx => true
  | _ => false

/-- The instruction is `opcode` on `x`, in a register, and `y`, which its mode has
fetched. -/
structure Operands (opcode : OpCode) (vm : VM) (i : Instruction) (x y : Word) : Prop where
  opcode : i.opcode = opcode
  mode : i.mode.isData = true
  reg : vm.getReg i.a = .ok x
  fetched : operand vm i = .ok (.ok, y)

section
variable {opcode : OpCode} (h : Operands opcode vm i x y)
include h

theorem Operands.lt : i.a.toNat < N_REG :=
  (getReg_cases h.reg).1

theorem Operands.execute_eq {f : DataOp} (hop : dataOp host opcode = some f) :
    execute host vm i = f vm i.a y := by
  have hm : i.mode = .imm ∨ i.mode = .reg ∨ i.mode = .dir ∨ i.mode = .ind ∨ i.mode = .idx := by
    have hmode := h.mode
    cases hm : i.mode <;> rw [hm] at hmode <;> simp [Mode.isData] at hmode ⊢
  rw [execute_data (h.opcode ▸ hop) hm h.lt, h.fetched]
  rfl

end

/-! ## A result and its flags -/

theorem getReg_computed {a : Byte} (ha : a.toNat < N_REG) (res : Word) (c o : Bool) :
    (vm.computed ⟨a.toNat, ha⟩ res c o).getReg a = .ok res := by
  rw [VM.getReg_lt ha, VM.computed]
  exact congrArg Except.ok (Function.update_self ..)

theorem computed_say (vm : VM) (a : Fin N_REG) (res : Word) (c o : Prop) [Decidable c]
    [Decidable o] : FlagsSay (vm.computed a res c o) (res = 0) (res.msb = true) c o := by
  have h := @flagsSay (vm.computed a res c o) _ _ _ _ _ rfl
  simpa only [decide_eq_true_iff] using h

theorem FlagsSay.congr {z n c o z' n' c' o' : Prop} (h : FlagsSay vm z n c o) (hz : z ↔ z')
    (hn : n ↔ n') (hc : c ↔ c') (ho : o ↔ o') : FlagsSay vm z' n' c' o' :=
  ⟨h.zero.trans hz, h.negative.trans hn, h.carry.trans hc, h.overflow.trans ho⟩

/-- The flags are in `sr`. -/
theorem FlagsSay.of_sr {z n c o : Prop} (h : FlagsSay vm z n c o) (hsr : vm'.sr = vm.sr) :
    FlagsSay vm' z n c o := by
  obtain ⟨hz, hn, hc, ho⟩ := h
  rw [getSRZF, ← hsr] at hz
  rw [getSRNF, ← hsr] at hn
  rw [getSRCF, ← hsr] at hc
  rw [getSROF, ← hsr] at ho
  exact ⟨hz, hn, hc, ho⟩

/-! ## ADD -/

/-- What the flags of a sum are to say. -/
def SumFlags (vm' : VM) (x y : Word) : Prop :=
  FlagsSay vm' (x + y = 0) ((x + y).msb = true) (2 ^ 64 ≤ x.toNat + y.toNat)
    (¬ Signed.Fits 64 (x.toInt + y.toInt))

theorem add_overflow (x y : Word) :
    ((~~~(x ^^^ y) &&& (x ^^^ (x + y))).sshiftRight 63 ≠ 0) ↔
      ¬ Signed.Fits 64 (x.toInt + y.toInt) := by
  rw [← Signed.saddOverflow_iff, Signed.saddOverflow_eq_msb]
  exact Signed.sshiftRight_last_ne_zero _

theorem bodyADD_eq {a : Byte} (ha : a.toNat < N_REG) (hx : vm.getReg a = .ok x) (y : Word) :
    bodyADD vm a y = .ok (.ok, vm.computed ⟨a.toNat, ha⟩ (x + y) ((x + y).toInt < x.toInt)
      ((~~~(x ^^^ y) &&& (x ^^^ (x + y))).sshiftRight 63 ≠ 0)) := by
  rw [bodyADD, hx, Except.ok_bind, setSRADD, finish_eq ha]

/-- The signed comparison sees the carry when the sum has the sign of `x`. -/
theorem signed_carry_iff (x y : Word) :
    ((x + y).toInt < x.toInt ↔ 2 ^ 64 ≤ x.toNat + y.toNat) ↔ (x + y).msb = x.msb := by
  have hslt := BitVec.slt_eq_ult (x := x + y) (y := x)
  rw [BitVec.slt_eq_decide, BitVec.ult_eq_decide] at hslt
  have hsame : decide ((x + y).toInt < x.toInt) = decide ((x + y).toNat < x.toNat) ↔
      (x + y).msb = x.msb := by
    rw [hslt]
    cases (x + y).msb <;> cases x.msb <;> simp
  rwa [decide_eq_decide, Signed.add_lt_iff_carry] at hsame

theorem sum_sign_iff (x y : Word) :
    (x + y).msb = x.msb ↔
      (2 ^ 63 ≤ y.toNat ↔ 2 ^ 63 ≤ x.toNat % 2 ^ 63 + y.toNat % 2 ^ 63) := by
  have hx := x.isLt
  have hy := y.isLt
  rw [BitVec.msb_eq_decide, BitVec.msb_eq_decide, decide_eq_decide, BitVec.toNat_add]
  omega

/-- `ADD` leaves the sum, and its flags. -/
def Adds (host : Host) (vm : VM) (i : Instruction) (x y : Word) : Prop :=
  ∃ vm', execute host vm i = .ok (.ok, vm') ∧ vm'.getReg i.a = .ok (x + y) ∧ SumFlags vm' x y

/-- **`ADD` is right** exactly when the carry into the top bit is the top bit of the
second operand. -/
theorem add_iff (host : Host) (h : Operands .add vm i x y) :
    Adds host vm i x y ↔ (2 ^ 63 ≤ y.toNat ↔ 2 ^ 63 ≤ x.toNat % 2 ^ 63 + y.toNat % 2 ^ 63) := by
  have hsay := computed_say vm ⟨i.a.toNat, h.lt⟩ (x + y) ((x + y).toInt < x.toInt)
    ((~~~(x ^^^ y) &&& (x ^^^ (x + y))).sshiftRight 63 ≠ 0)
  rw [← sum_sign_iff, ← signed_carry_iff, Adds, h.execute_eq rfl, bodyADD_eq h.lt h.reg]
  constructor
  · rintro ⟨vm', hrun, -, hflags⟩
    cases hrun
    exact hsay.carry.symm.trans hflags.carry
  · intro hcarry
    refine ⟨_, rfl, getReg_computed h.lt _ _ _, ?_⟩
    exact hsay.congr Iff.rfl Iff.rfl hcarry (add_overflow x y)

/-- `0 + 5`. -/
theorem add_zero_five : Adds default initVM ⟨.add, .imm, 0, 0, 5⟩ 0 5 :=
  (add_iff default (i := ⟨.add, .imm, 0, 0, 5⟩) ⟨rfl, rfl, rfl, rfl⟩).mpr (by decide)

/-- `-1 + 1` carries, and `0 < -1` does not hold. -/
theorem add_without_carry :
    let vm := { initVM with registers := fun _ => -1 }
    let i : Instruction := ⟨.add, .imm, 0, 0, 1⟩
    Operands .add vm i (-1) 1 ∧ ¬ Adds default vm i (-1) 1 := by
  intro vm i
  refine ⟨⟨rfl, rfl, rfl, rfl⟩, ?_⟩
  rintro ⟨vm', hrun, -, hflags⟩
  rw [show execute default vm i = bodyADD vm 0 1 from rfl, bodyADD_eq (by decide) rfl] at hrun
  cases hrun
  exact absurd (hflags.carry.mpr (by decide)) (by decide)

/-! ## SUB, CMP and NEG -/

/-- What the flags of a difference are to say. -/
def DifferenceFlags (vm' : VM) (x y : Word) : Prop :=
  FlagsSay vm' (x = y) ((x - y).msb = true) (x.toNat < y.toNat)
    (¬ Signed.Fits 64 (x.toInt - y.toInt))

/-- The rest of `sr`. -/
def SameHigh (vm vm' : VM) : Prop :=
  vm'.sr &&& 0xF0 = vm.sr &&& 0xF0

theorem sub_overflow (x y : Word) :
    (((x ^^^ y) &&& (x ^^^ (x - y))).sshiftRight 63 ≠ 0) ↔
      ¬ Signed.Fits 64 (x.toInt - y.toInt) :=
  (ssubOverflow_test x y).trans (Signed.ssubOverflow_iff x y)

/-- The machine that `SUB` leaves. -/
def VM.subtracted (vm : VM) (a : Fin N_REG) (x y : Word) : VM :=
  vm.computed a (x - y) (x.toNat < y.toNat)
    (((x ^^^ y) &&& (x ^^^ (x - y))).sshiftRight 63 ≠ 0)

theorem subtracted_flags (vm : VM) (a : Fin N_REG) (x y : Word) :
    DifferenceFlags (vm.subtracted a x y) x y :=
  (computed_say vm a (x - y) _ _).congr (sub_eq_zero_iff x y) Iff.rfl Iff.rfl (sub_overflow x y)

theorem bodySUB_eq {a : Byte} (ha : a.toNat < N_REG) (hx : vm.getReg a = .ok x) (y : Word) :
    bodySUB vm a y = .ok (.ok, vm.subtracted ⟨a.toNat, ha⟩ x y) := by
  rw [bodySUB, hx, Except.ok_bind, setSRSUB, finish_eq ha]
  rfl

/-- `CMP` leaves the flags of that machine. -/
theorem bodyCMP_eq {a : Byte} (ha : a.toNat < N_REG) (hx : vm.getReg a = .ok x) (y : Word) :
    bodyCMP vm a y
      = .ok (.ok, { vm with sr := (vm.subtracted ⟨a.toNat, ha⟩ x y).sr }) := by
  rw [bodyCMP, hx, Except.ok_bind, setSRSUB, setSR_eq]
  rfl

theorem instrNEG_eq {i : Instruction} (ha : i.a.toNat < N_REG) (hx : vm.getReg i.a = .ok x) :
    instrNEG vm i = .ok (.ok, vm.subtracted ⟨i.a.toNat, ha⟩ 0 x) := by
  have hcarry : x ≠ 0 ↔ (0 : Word).toNat < x.toNat := by
    rw [ne_eq, ← BitVec.toNat_inj]
    simp only [BitVec.ofNat_eq_ofNat, BitVec.toNat_ofNat]
    omega
  have hover : x = BitVec.intMin 64 ↔
      ((0 ^^^ x) &&& (0 ^^^ (0 - x))).sshiftRight 63 ≠ 0 := by
    rw [sub_overflow, Signed.Fits, ← BitVec.toInt_inj]
    have hlo := BitVec.le_two_mul_toInt (x := x)
    have hhi := BitVec.two_mul_toInt_lt (x := x)
    have hmin : (BitVec.intMin 64).toInt = -2 ^ 63 := by decide
    rw [hmin]
    simp only [BitVec.ofNat_eq_ofNat, BitVec.toInt_zero]
    omega
  have hneg : -x = 0 - x := (BitVec.zero_sub x).symm
  rw [instrNEG, if_neg (Nat.not_le.mpr ha), hx, Except.ok_bind, setSRNEG, finish_eq ha,
    VM.subtracted, hneg, decide_eq_decide.mpr hcarry, decide_eq_decide.mpr hover]

/-! ## MUL -/

/-- What the flags of a product are to say. -/
def ProductFlags (vm' : VM) (x y : Word) : Prop :=
  FlagsSay vm' (x * y = 0) ((x * y).msb = true) (¬ Signed.Fits 64 (x.toInt * y.toInt))
    (¬ Signed.Fits 64 (x.toInt * y.toInt))

theorem bodyMUL_eq {a : Byte} (ha : a.toNat < N_REG) (hx : vm.getReg a = .ok x) (y : Word) :
    bodyMUL vm a y = .ok (.ok, vm.computed ⟨a.toNat, ha⟩ (x * y)
      (¬ Signed.Fits 64 (x.toInt * y.toInt)) (¬ Signed.Fits 64 (x.toInt * y.toInt))) := by
  have hout : x.toInt * y.toInt > 2 ^ 63 - 1 ∨ x.toInt * y.toInt < -2 ^ 63 ↔
      ¬ Signed.Fits 64 (x.toInt * y.toInt) := by
    rw [Signed.Fits]
    omega
  rw [bodyMUL, hx, Except.ok_bind, setSRMUL, decide_eq_decide.mpr hout]
  exact finish_eq ha _ _ _

/-! ## The four of them -/

theorem computed_high (a : Fin N_REG) (res : Word) (c o : Bool) :
    SameHigh vm (vm.computed a res c o) :=
  withFlags_high ..

/-- `NEG` leaves what `SUB` leaves of 0 in the register. -/
theorem subtracted_from_zero {a : Byte} (ha : a.toNat < N_REG) {vm₀ : VM}
    (h : vm.setReg a 0 = .ok vm₀) (x : Word) :
    vm₀.getReg a = .ok 0 ∧
      vm₀.subtracted ⟨a.toNat, ha⟩ 0 x = vm.subtracted ⟨a.toNat, ha⟩ 0 x := by
  rw [VM.setReg_lt ha] at h
  cases h
  constructor
  · rw [VM.getReg_lt ha]
    exact congrArg Except.ok (Function.update_self ..)
  · rw [VM.subtracted, VM.computed, Function.update_idem]
    rfl

/-- **SUB, CMP, NEG and MUL are right** on all operands, in all modes. -/
theorem differences_and_products (host : Host) (vm : VM) (i : Instruction) (x : Word) :
    (∀ y, Operands .sub vm i x y → ∃ vm', execute host vm i = .ok (.ok, vm') ∧
      vm'.getReg i.a = .ok (x - y) ∧ DifferenceFlags vm' x y ∧ SameHigh vm vm') ∧
    (∀ y, Operands .cmp vm i x y → ∃ vm', execute host vm i = .ok (.ok, vm') ∧
      vm'.registers = vm.registers ∧ DifferenceFlags vm' x y ∧ SameHigh vm vm') ∧
    (i.opcode = .neg → i.mode = .regu → vm.getReg i.a = .ok x →
      ∃ vm', execute host vm i = .ok (.ok, vm') ∧
        vm'.getReg i.a = .ok (0 - x) ∧ DifferenceFlags vm' 0 x ∧ SameHigh vm vm' ∧
        ∀ vm₀ k, vm.setReg i.a 0 = .ok vm₀ → k.a = i.a → Operands .sub vm₀ k 0 x →
          execute host vm₀ k = .ok (.ok, vm')) ∧
    ∀ y, Operands .mul vm i x y → ∃ vm', execute host vm i = .ok (.ok, vm') ∧
      vm'.getReg i.a = .ok (x * y) ∧ ProductFlags vm' x y ∧ SameHigh vm vm' := by
  refine ⟨fun y h => ?_, fun y h => ?_, fun hop hm hx => ?_, fun y h => ?_⟩
  · rw [h.execute_eq rfl, bodySUB_eq h.lt h.reg]
    exact ⟨_, rfl, getReg_computed h.lt _ _ _, subtracted_flags .., computed_high ..⟩
  · rw [h.execute_eq rfl, bodyCMP_eq h.lt h.reg]
    have hflags := subtracted_flags vm ⟨i.a.toNat, h.lt⟩ x y
    exact ⟨_, rfl, rfl, FlagsSay.of_sr hflags rfl, withFlags_high ..⟩
  · have ha := (getReg_cases hx).1
    have hrun : execute host vm i = instrNEG vm i := by
      rw [execute, hop, hm]
      rfl
    rw [hrun, instrNEG_eq ha hx]
    refine ⟨_, rfl, getReg_computed ha _ _ _, subtracted_flags .., computed_high .., ?_⟩
    intro vm₀ k hset hk h
    obtain ⟨hreg, hsame⟩ := subtracted_from_zero ha hset x
    rw [h.execute_eq rfl, hk, bodySUB_eq ha hreg, hsame]
  · rw [h.execute_eq rfl, bodyMUL_eq h.lt h.reg]
    exact ⟨_, rfl, getReg_computed h.lt _ _ _, computed_say .., computed_high ..⟩

/-- 12 and 5. -/
def twelveFive : VM :=
  { initVM with registers := fun r => if (r : Nat) = 0 then 12 else 5 }

/-- `SUB R0, R1`, `CMP R0, R1`, `NEG R0` as `SUB R0, 12` from 0, and `MUL R0, R1`. -/
theorem differences_and_products_twelve :
    (∃ vm', execute default twelveFive ⟨.sub, .reg, 0, 1, 0⟩ = .ok (.ok, vm') ∧
      vm'.getReg 0 = .ok (12 - 5) ∧ DifferenceFlags vm' 12 5 ∧ SameHigh twelveFive vm') ∧
    (∃ vm', execute default twelveFive ⟨.cmp, .reg, 0, 1, 0⟩ = .ok (.ok, vm') ∧
      vm'.registers = twelveFive.registers ∧ DifferenceFlags vm' 12 5 ∧
      SameHigh twelveFive vm') ∧
    (∃ vm' vm₀, execute default twelveFive ⟨.neg, .regu, 0, 0, 0⟩ = .ok (.ok, vm') ∧
      vm'.getReg 0 = .ok (0 - 12) ∧ DifferenceFlags vm' 0 12 ∧
      twelveFive.setReg 0 0 = .ok vm₀ ∧
      execute default vm₀ ⟨.sub, .imm, 0, 0, 12⟩ = .ok (.ok, vm')) ∧
    ∃ vm', execute default twelveFive ⟨.mul, .reg, 0, 1, 0⟩ = .ok (.ok, vm') ∧
      vm'.getReg 0 = .ok (12 * 5) ∧ ProductFlags vm' 12 5 ∧ SameHigh twelveFive vm' := by
  refine ⟨?_, ?_, ?_, ?_⟩
  · exact (differences_and_products default twelveFive ⟨.sub, .reg, 0, 1, 0⟩ 12).1 5
      ⟨rfl, rfl, rfl, rfl⟩
  · exact (differences_and_products default twelveFive ⟨.cmp, .reg, 0, 1, 0⟩ 12).2.1 5
      ⟨rfl, rfl, rfl, rfl⟩
  · obtain ⟨vm', hrun, hreg, hflags, -, hsub⟩ :=
      (differences_and_products default twelveFive ⟨.neg, .regu, 0, 0, 0⟩ 12).2.2.1 rfl rfl rfl
    exact ⟨vm', _, hrun, hreg, hflags, rfl,
      hsub _ ⟨.sub, .imm, 0, 0, 12⟩ rfl rfl ⟨rfl, rfl, rfl, rfl⟩⟩
  · exact (differences_and_products default twelveFive ⟨.mul, .reg, 0, 1, 0⟩ 12).2.2.2 5
      ⟨rfl, rfl, rfl, rfl⟩

end BSVM
