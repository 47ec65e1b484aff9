/-
# `BSVM.Lib.Signed` — signed arithmetic from the bits of a word

At any width, `x < y` as signed numbers exactly when the top bit of the
wrapped difference disagrees with its overflow bit:

    no overflow    the difference is exact, and negative iff x < y
    overflow       the operands have different signs, which decide, and the
                   wrapped difference has the wrong one

The overflow bit is also the top bit of `(x ^ y) & (x ^ (x - y))`, and the
top bit is what an arithmetic shift by the width less one leaves.

The overflow bits of a sum and a difference say that the exact result is not the
value of a signed word (`Fits`); the carry of a sum, that the wrapped result is
smaller than an operand, both taken unsigned.
-/
import Mathlib.Algebra.Ring.Int.Defs
import Mathlib.Algebra.Ring.Nat
import Mathlib.Tactic.Common

namespace Signed

variable {w : Nat}

theorem slt_eq_msb_bne_overflow (x y : BitVec w) :
    x.slt y = ((x - y).msb != x.ssubOverflow y) := by
  rw [BitVec.slt_eq_decide]
  by_cases h : x.ssubOverflow y
  · rw [h]
    rw [BitVec.ssubOverflow_eq] at h
    simp only [BitVec.msb_eq_toInt] at h ⊢
    by_cases hx : x.toInt < 0 <;> by_cases hy : y.toInt < 0 <;>
      simp only [hx, hy, decide_true, decide_false, Bool.not_true, Bool.not_false,
        Bool.true_and, Bool.false_and, Bool.or_false, Bool.false_or, Bool.false_eq_true] at h ⊢
    · simp only [Bool.not_eq_true'] at h
      rw [h]
      simp only [decide_eq_true_eq, Bool.bne_true, Bool.not_false]
      omega
    · rw [h]
      simp only [Bool.bne_true, Bool.not_true, decide_eq_false_iff_not]
      omega
  · have hsub := BitVec.toInt_sub_of_not_ssubOverflow h
    rw [Bool.not_eq_true] at h
    rw [h, Bool.bne_false, BitVec.msb_eq_toInt, hsub]
    exact decide_eq_decide.mpr (by omega)

theorem ssubOverflow_eq_msb (x y : BitVec w) :
    x.ssubOverflow y = ((x ^^^ y) &&& (x ^^^ (x - y))).msb := by
  rw [BitVec.ssubOverflow_eq, BitVec.msb_and, BitVec.msb_xor, BitVec.msb_xor]
  cases x.msb <;> cases y.msb <;> cases (x - y).msb <;> rfl

/-- What an arithmetic shift leaves when only the sign is left. -/
theorem sshiftRight_last (v : BitVec (w + 1)) :
    v.sshiftRight w = if v.msb then BitVec.allOnes (w + 1) else 0 := by
  apply BitVec.eq_of_getLsbD_eq
  intro i hi
  rw [BitVec.getLsbD_sshiftRight, decide_eq_false (by omega)]
  have hlast : (if w + i < w + 1 then v.getLsbD (w + i) else v.msb) = v.msb := by
    split
    · obtain rfl : i = 0 := by omega
      exact (BitVec.msb_eq_getLsbD_last v).symm
    · rfl
  rw [hlast]
  cases v.msb <;> simp [hi]

/-- The sign test of a shifted word. -/
theorem sshiftRight_last_ne_zero (v : BitVec (w + 1)) : v.sshiftRight w ≠ 0 ↔ v.msb = true := by
  rw [sshiftRight_last]
  cases v.msb with
  | false => simp
  | true =>
      have hne : BitVec.allOnes (w + 1) ≠ 0 := by
        intro h
        have hmsb := congrArg BitVec.msb h
        rw [BitVec.msb_allOnes (Nat.succ_pos w)] at hmsb
        simp at hmsb
      simp only [if_true, iff_true]
      exact hne

/-- The same test with the last bit masked out. -/
theorem sshiftRight_last_and_one (v : BitVec (w + 1)) :
    v.sshiftRight w &&& 1 ≠ 0 ↔ v.msb = true := by
  rw [sshiftRight_last]
  cases v.msb <;> simp

/-! ## What fits -/

/-- `n` is the value of a signed word. -/
def Fits (w : Nat) (n : Int) : Prop :=
  -2 ^ (w - 1) ≤ n ∧ n < 2 ^ (w - 1)

instance (w : Nat) (n : Int) : Decidable (Fits w n) :=
  inferInstanceAs (Decidable (_ ∧ _))

theorem saddOverflow_iff (x y : BitVec w) :
    x.saddOverflow y = true ↔ ¬ Fits w (x.toInt + y.toInt) := by
  rw [BitVec.saddOverflow, Bool.or_eq_true, decide_eq_true_iff, decide_eq_true_iff, Fits]
  omega

theorem ssubOverflow_iff (x y : BitVec w) :
    x.ssubOverflow y = true ↔ ¬ Fits w (x.toInt - y.toInt) := by
  rw [BitVec.ssubOverflow, Bool.or_eq_true, decide_eq_true_iff, decide_eq_true_iff, Fits]
  omega

theorem saddOverflow_eq_msb (x y : BitVec (w + 1)) :
    x.saddOverflow y = (~~~(x ^^^ y) &&& (x ^^^ (x + y))).msb := by
  rw [BitVec.saddOverflow_eq, BitVec.msb_and, BitVec.msb_not, BitVec.msb_xor, BitVec.msb_xor]
  cases x.msb <;> cases y.msb <;> cases (x + y).msb <;> simp

/-- The wrapped sum is smaller than an operand when the sum does not fit. -/
theorem add_lt_iff_carry (x y : BitVec w) :
    (x + y).toNat < x.toNat ↔ 2 ^ w ≤ x.toNat + y.toNat := by
  have hx := x.isLt
  have hy := y.isLt
  rw [BitVec.toNat_add]
  constructor
  · intro h
    by_contra hlt
    rw [Nat.mod_eq_of_lt (Nat.not_le.mp hlt)] at h
    omega
  · intro h
    rw [Nat.mod_eq_sub_mod h, Nat.mod_eq_of_lt (by omega)]
    omega

/-- A bit, moved to the end of the word. -/
theorem sshiftRight_and_one {v : BitVec (w + 1)} {k : Nat} (hk : k < w + 1) :
    v.sshiftRight k &&& 1 ≠ 0 ↔ v.getLsbD k = true := by
  have hbit : (v.sshiftRight k).getLsbD 0 = v.getLsbD k := by
    simp only [BitVec.getLsbD_sshiftRight, Nat.add_zero, hk, if_true]
    simp
  have hand : v.sshiftRight k &&& 1 = (BitVec.ofBool (v.getLsbD k)).setWidth (w + 1) := by
    rw [← hbit]
    exact BitVec.and_one_eq_setWidth_ofBool_getLsbD
  rw [hand]
  cases v.getLsbD k <;> simp

end Signed
