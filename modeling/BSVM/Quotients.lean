/-
# `BSVM.Quotients` — DIV, SHL and SHR, where C defines them

C leaves two operations of the source undefined on some operands: a quotient that
does not fit, and a shift by a count outside `0 .. 63`.  The handlers of DIV test
for a divisor of zero only; those of the shifts test nothing, and the flags shift
by counts of their own:

    SHL by n    result n, carry 64 - n     both in range for n = 1 .. 63
    SHR by n    result n, carry n - 1      both in range for n = 1 .. 63
-/
import BSVM.Sums

namespace BSVM

variable {host : Host} {vm vm' : VM} {i : Instruction} {x y n : Word}

/-! ## DIV -/

/-- `DIV` answers a divisor of zero, and otherwise leaves the quotient and its
flags. -/
structure Divides (host : Host) (vm : VM) (i : Instruction) (x y : Word) : Prop where
  zero : execute host vm i = .ok (.divZero, vm) ↔ y = 0
  fits : y ≠ 0 → Signed.Fits 64 (x.toInt.tdiv y.toInt)
  quotient : y ≠ 0 → ∃ vm' q, execute host vm i = .ok (.ok, vm') ∧ vm'.getReg i.a = .ok q ∧
    q.toInt = x.toInt.tdiv y.toInt ∧ FlagsSay vm' (q = 0) (q.msb = true) False False

theorem fits_toInt (x : Word) : Signed.Fits 64 x.toInt := by
  have hlo := BitVec.le_two_mul_toInt (x := x)
  have hhi := BitVec.two_mul_toInt_lt (x := x)
  rw [Signed.Fits]
  omega

/-- The one quotient that does not fit. -/
abbrev Overflows (x y : Word) : Prop :=
  x = BitVec.intMin 64 ∧ y = -1

theorem toInt_quotient (h : ¬ Overflows x y) : (x.sdiv y).toInt = x.toInt.tdiv y.toInt :=
  BitVec.toInt_sdiv_of_ne_or_ne x y (not_and_or.mp h)

theorem bodyDIV_zero (vm : VM) (a : Byte) : bodyDIV vm a 0 = .ok (.divZero, vm) :=
  if_pos rfl

theorem bodyDIV_eq {a : Byte} (ha : a.toNat < N_REG) (hx : vm.getReg a = .ok x) (hy : y ≠ 0)
    (h : ¬ Overflows x y) :
    bodyDIV vm a y = .ok (.ok, vm.computed ⟨a.toNat, ha⟩ (x.sdiv y) false false) := by
  rw [bodyDIV, if_neg hy, hx, Except.ok_bind, if_neg h]
  exact finish_eq ha _ _ _

theorem bodyDIV_overflows {a : Byte} (hx : vm.getReg a = .ok x) (hy : y ≠ 0)
    (h : Overflows x y) : bodyDIV vm a y = .error .division := by
  rw [bodyDIV, if_neg hy, hx, Except.ok_bind, if_pos h]

/-- **`DIV` is right** on all operands but `INT64_MIN` and `-1`. -/
theorem div_iff (host : Host) (h : Operands .div vm i x y) :
    Divides host vm i x y ↔ ¬ (x = BitVec.intMin 64 ∧ y = -1) := by
  constructor
  · rintro hdiv hover
    have hy : y ≠ 0 := by
      rw [hover.2]
      decide
    obtain ⟨vm', q, hrun, -⟩ := hdiv.quotient hy
    rw [h.execute_eq rfl, bodyDIV_overflows h.reg hy hover] at hrun
    cases hrun
  · intro hover
    have hrun : y ≠ 0 → execute host vm i = _ := fun hy =>
      (h.execute_eq rfl).trans (bodyDIV_eq h.lt h.reg hy hover)
    refine ⟨⟨fun hzero => ?_, ?_⟩, fun _ => ?_, fun hy => ?_⟩
    · by_contra hy
      rw [hrun hy] at hzero
      cases hzero
    · rintro rfl
      rw [h.execute_eq rfl]
      exact bodyDIV_zero vm i.a
    · rw [← toInt_quotient hover]
      exact fits_toInt _
    · refine ⟨_, _, hrun hy, getReg_computed h.lt _ _ _, toInt_quotient hover, ?_⟩
      have hsay := computed_say vm ⟨i.a.toNat, h.lt⟩ (x.sdiv y) False False
      exact hsay

/-- `0 / 5`. -/
theorem div_zero_five : Divides default initVM ⟨.div, .imm, 0, 0, 5⟩ 0 5 :=
  (div_iff default (i := ⟨.div, .imm, 0, 0, 5⟩) ⟨rfl, rfl, rfl, rfl⟩).mpr (by decide)

/-- `INT64_MIN / -1` stops the host. -/
theorem div_stops_host :
    let vm := { initVM with registers := fun _ => BitVec.intMin 64 }
    let i : Instruction := ⟨.div, .imm, 0, 0, -1⟩
    Operands .div vm i (BitVec.intMin 64) (-1) ∧ execute default vm i = .error .division ∧
      ¬ Divides default vm i (BitVec.intMin 64) (-1) := by
  intro vm i
  have hrun : execute default vm i = .error .division := rfl
  refine ⟨⟨rfl, rfl, rfl, rfl⟩, hrun, fun h => ?_⟩
  obtain ⟨vm', q, hok, -⟩ := h.quotient (by decide)
  rw [hrun] at hok
  cases hok

/-! ## SHL and SHR -/

/-- No shift out of range is evaluated, whatever it would give; and for a count of at
most 63 the result, Z, N and C are the right ones. -/
structure ShiftsBy (vm : VM) (i : Instruction) (n : Word) (right : Word → Prop) (c : Prop) :
    Prop where
  defined : ∀ host, execute host vm i ≠ .error .shift
  result : n.toNat ≤ 63 → ∀ host, ∃ vm' res o, execute host vm i = .ok (.ok, vm') ∧
    vm'.getReg i.a = .ok res ∧ right res ∧ FlagsSay vm' (res = 0) (res.msb = true) c o

/-- `SHL` multiplies; the last bit shifted out is bit `64 - n`. -/
def ShiftsLeft (vm : VM) (i : Instruction) (x n : Word) : Prop :=
  ShiftsBy vm i n (fun res => res.toNat = x.toNat * 2 ^ n.toNat % 2 ^ 64)
    (n ≠ 0 ∧ x.getLsbD (64 - n.toNat) = true)

/-- `SHR` divides the signed value and rounds down; the last bit shifted out is bit
`n - 1`. -/
def ShiftsRight (vm : VM) (i : Instruction) (x n : Word) : Prop :=
  ShiftsBy vm i n (fun res => res.toInt = x.toInt / 2 ^ n.toNat)
    (n ≠ 0 ∧ x.getLsbD (n.toNat - 1) = true)

/-- The counts that are in range everywhere. -/
abbrev InRange (n : Word) : Prop :=
  1 ≤ n.toNat ∧ n.toNat ≤ 63

theorem shiftLeft_lt (host : Host) (x : Word) (h : n.toNat < 64) :
    shiftLeft host x n = .ok (x <<< n.toNat) :=
  if_pos h

theorem shiftRight_lt (host : Host) (x : Word) (h : n.toNat < 64) :
    shiftRight host x n = .ok (x.sshiftRight n.toNat) :=
  if_pos h

theorem shiftRight_ge (x : Word) (h : ¬ n.toNat < 64) :
    shiftRight default x n = .error .shift :=
  if_neg h

theorem shiftLeft_ge (x : Word) (h : ¬ n.toNat < 64) :
    shiftLeft default x n = .error .shift :=
  if_neg h

/-- The counts of the flags. -/
theorem carry_count_left (h : InRange n) : (63 - n + 1).toNat = 64 - n.toNat := by
  obtain ⟨h₁, h₂⟩ := h
  rw [BitVec.toNat_add, BitVec.toNat_sub]
  simp only [BitVec.ofNat_eq_ofNat, BitVec.toNat_ofNat]
  omega

theorem carry_count_right (h : InRange n) : (n - 1).toNat = n.toNat - 1 := by
  obtain ⟨h₁, h₂⟩ := h
  rw [BitVec.toNat_sub]
  simp only [BitVec.ofNat_eq_ofNat, BitVec.toNat_ofNat]
  omega

theorem bodySHL_eq (host : Host) {a : Byte} (ha : a.toNat < N_REG) (hx : vm.getReg a = .ok x)
    (h : InRange n) :
    bodySHL host vm a n = .ok (.ok, vm.computed ⟨a.toNat, ha⟩ (x <<< n.toNat)
      (x.sshiftRight (64 - n.toNat) &&& 1 ≠ 0)
      ((x <<< n.toNat).sshiftRight 63 ≠ x.sshiftRight 63)) := by
  have hcount := carry_count_left h
  rw [bodySHL, hx, Except.ok_bind, shiftLeft_lt host x (by omega), Except.ok_bind, setSRSHL,
    shiftRight_lt host x (by omega), hcount]
  exact finish_eq ha _ _ _

theorem bodySHR_eq (host : Host) {a : Byte} (ha : a.toNat < N_REG) (hx : vm.getReg a = .ok x)
    (h : InRange n) :
    bodySHR host vm a n = .ok (.ok, vm.computed ⟨a.toNat, ha⟩ (x.sshiftRight n.toNat)
      (x.sshiftRight (n.toNat - 1) &&& 1 ≠ 0) false) := by
  have hcount := carry_count_right h
  rw [bodySHR, hx, Except.ok_bind, shiftRight_lt host x (by omega), Except.ok_bind, setSRSHR,
    shiftRight_lt host x (by omega), hcount]
  exact finish_eq ha _ _ _

/-- Out of range the result or the carry shifts by 64 or more. -/
theorem eq_zero_or_ge (h : ¬ InRange n) : n = 0 ∨ ¬ n.toNat < 64 := by
  rcases Nat.eq_zero_or_pos n.toNat with hzero | hpos
  · exact .inl (BitVec.eq_of_toNat_eq hzero)
  · exact .inr fun hlt => h ⟨hpos, Nat.le_of_lt_succ hlt⟩

theorem bodySHL_undefined {a : Byte} (hx : vm.getReg a = .ok x) (h : ¬ InRange n) :
    bodySHL default vm a n = .error .shift := by
  rw [bodySHL, hx, Except.ok_bind]
  rcases eq_zero_or_ge h with rfl | hge
  · rw [shiftLeft_lt default x (by decide), Except.ok_bind, setSRSHL, shiftRight_ge x (by decide)]
    rfl
  · rw [shiftLeft_ge x hge]
    rfl

theorem bodySHR_undefined {a : Byte} (hx : vm.getReg a = .ok x) (h : ¬ InRange n) :
    bodySHR default vm a n = .error .shift := by
  rw [bodySHR, hx, Except.ok_bind]
  rcases eq_zero_or_ge h with rfl | hge
  · rw [shiftRight_lt default x (by decide), Except.ok_bind, setSRSHR, shiftRight_ge x (by decide)]
    rfl
  · rw [shiftRight_ge x hge]
    rfl

/-- What is in the two laws apart from the operation. -/
theorem shiftsBy_iff {right : Word → Prop} {c : Prop}
    (hundefined : ¬ InRange n → execute default vm i = .error .shift)
    (hdefined : InRange n → ∀ host, ∃ vm' res o, execute host vm i = .ok (.ok, vm') ∧
      vm'.getReg i.a = .ok res ∧ right res ∧ FlagsSay vm' (res = 0) (res.msb = true) c o) :
    ShiftsBy vm i n right c ↔ InRange n := by
  constructor
  · intro h
    by_contra hout
    exact h.defined default (hundefined hout)
  · intro hin
    refine ⟨fun host herr => ?_, fun _ => hdefined hin⟩
    obtain ⟨vm', res, o, hrun, -⟩ := hdefined hin host
    rw [hrun] at herr
    cases herr

/-- **The shifts are right** for the counts from 1 to 63. -/
theorem shifts_iff (vm : VM) (i : Instruction) (x n : Word) :
    (Operands .shl vm i x n → (ShiftsLeft vm i x n ↔ 1 ≤ n.toNat ∧ n.toNat ≤ 63)) ∧
    (Operands .shr vm i x n → (ShiftsRight vm i x n ↔ 1 ≤ n.toNat ∧ n.toNat ≤ 63)) := by
  have hne : InRange n → n ≠ 0 := by
    rintro ⟨hpos, -⟩ rfl
    exact absurd hpos (by decide)
  constructor
  · intro h
    refine shiftsBy_iff (fun hout => ?_) fun hin host => ?_
    · rw [h.execute_eq rfl]
      exact bodySHL_undefined h.reg hout
    · have hcarry : (x.sshiftRight (64 - n.toNat) &&& 1 ≠ 0) ↔
          n ≠ 0 ∧ x.getLsbD (64 - n.toNat) = true := by
        rw [Signed.sshiftRight_and_one (by omega)]
        exact (and_iff_right (hne hin)).symm
      refine ⟨_, _, _, (h.execute_eq rfl).trans (bodySHL_eq host h.lt h.reg hin),
        getReg_computed h.lt _ _ _, ?_, (computed_say ..).congr Iff.rfl Iff.rfl hcarry Iff.rfl⟩
      rw [BitVec.toNat_shiftLeft, Nat.shiftLeft_eq]
  · intro h
    refine shiftsBy_iff (fun hout => ?_) fun hin host => ?_
    · rw [h.execute_eq rfl]
      exact bodySHR_undefined h.reg hout
    · have hcarry : (x.sshiftRight (n.toNat - 1) &&& 1 ≠ 0) ↔
          n ≠ 0 ∧ x.getLsbD (n.toNat - 1) = true := by
        rw [Signed.sshiftRight_and_one (by omega)]
        exact (and_iff_right (hne hin)).symm
      have hsay := computed_say vm ⟨i.a.toNat, h.lt⟩ (x.sshiftRight n.toNat)
        (x.sshiftRight (n.toNat - 1) &&& 1 ≠ 0) False
      refine ⟨_, _, _, (h.execute_eq rfl).trans (bodySHR_eq host h.lt h.reg hin),
        getReg_computed h.lt _ _ _, ?_, hsay.congr Iff.rfl Iff.rfl hcarry Iff.rfl⟩
      rw [BitVec.toInt_sshiftRight, Int.shiftRight_eq_div_pow]
      norm_cast

/-- 12 by 5, both ways. -/
theorem shifts_twelve :
    ShiftsLeft twelveFive ⟨.shl, .reg, 0, 1, 0⟩ 12 5 ∧
      ShiftsRight twelveFive ⟨.shr, .reg, 0, 1, 0⟩ 12 5 := by
  constructor
  · exact ((shifts_iff twelveFive ⟨.shl, .reg, 0, 1, 0⟩ 12 5).1 ⟨rfl, rfl, rfl, rfl⟩).mpr
      (by decide)
  · exact ((shifts_iff twelveFive ⟨.shr, .reg, 0, 1, 0⟩ 12 5).2 ⟨rfl, rfl, rfl, rfl⟩).mpr
      (by decide)

/-- A count of zero: the flags shift by 64. -/
theorem shift_by_zero :
    let i : Instruction := ⟨.shl, .imm, 0, 0, 0⟩
    Operands .shl initVM i 0 0 ∧ execute default initVM i = .error .shift ∧
      ¬ ShiftsLeft initVM i 0 0 := by
  intro i
  have hrun : execute default initVM i = .error .shift :=
    bodySHL_undefined (x := 0) rfl (by decide)
  exact ⟨⟨rfl, rfl, rfl, rfl⟩, hrun, fun h => h.defined default hrun⟩

end BSVM
