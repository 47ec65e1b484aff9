/-
# `BSVM.Flags` — the status register an operation leaves, and the tests on it

`setSR` clears the four flags and sets some of them again, so the low half of
`sr` depends on the operation only and the high half never changes:

    sr = (old sr & 0xF0) | flagBits zero negative carry overflow

The tests of the conditional jumps are read off that byte.
-/
import BSVM.Control
import BSVM.Arith
import BSVM.Lib.Signed

namespace BSVM

/-! ## The byte -/

def flagBits (z n c o : Bool) : Byte :=
  (if z then M_ZERO else 0) ||| (if n then M_NEGATIVE else 0) |||
    (if c then M_CARRY else 0) ||| (if o then M_OVERFLOW else 0)

/-- `sr` with its flags replaced. -/
def withFlags (sr : Byte) (z n c o : Bool) : Byte :=
  (sr &&& 0xF0) ||| flagBits z n c o

theorem setSR_sr (vm : VM) (res : Word) (c o : Bool) :
    (setSR vm res c o).sr = withFlags vm.sr (res = 0) res.msb c o := by
  have hmsb : (res.sshiftRight 63 &&& 1 ≠ 0) ↔ res.msb = true :=
    Signed.sshiftRight_last_and_one res
  simp only [setSR, hmsb, withFlags]
  by_cases hz : res = 0 <;> cases res.msb <;> cases c <;> cases o <;>
    simp only [hz, setSROF, setSRCF, setSRNF, setSRZF, VM.setFlag, if_true, if_false,
      Bool.false_eq_true, decide_true, decide_false, BitVec.and_assoc, BitVec.or_assoc] <;>
    first | rfl | exact BitVec.or_zero.symm

/-! ## Nothing else changes -/

/-- `w` is `vm` up to its status register. -/
def SameButSr (vm w : VM) : Prop :=
  { w with sr := vm.sr } = vm

theorem SameButSr.setFlag {vm w : VM} (h : SameButSr vm w) (mask : Byte) (value : Bool) :
    SameButSr vm (w.setFlag mask value) :=
  h

theorem SameButSr.setFlag_if {vm w : VM} (h : SameButSr vm w) (c : Prop) [Decidable c]
    (mask : Byte) (value : Bool) : SameButSr vm (if c then w.setFlag mask value else w) := by
  split
  · exact h.setFlag mask value
  · exact h

theorem setSR_same (vm : VM) (res : Word) (c o : Bool) : SameButSr vm (setSR vm res c o) := by
  have h : SameButSr vm vm := rfl
  exact ((((((((h.setFlag _ _).setFlag _ _).setFlag _ _).setFlag _ _).setFlag_if _ _ _).setFlag_if
    _ _ _).setFlag_if _ _ _).setFlag_if _ _ _)

/-- What an operation leaves: `vm` with new flags. -/
theorem setSR_eq (vm : VM) (res : Word) (c o : Bool) :
    setSR vm res c o = { vm with sr := withFlags vm.sr (res = 0) res.msb c o } := by
  have h := setSR_same vm res c o
  rw [← setSR_sr]
  generalize setSR vm res c o = w at h ⊢
  rw [← h]

/-! ## The flags of the byte -/

/-- A mask of the low half sees only the new flags. -/
theorem withFlags_and (sr : Byte) (z n c o : Bool) {mask : Byte} (h : 0xF0 &&& mask = 0) :
    withFlags sr z n c o &&& mask = flagBits z n c o &&& mask := by
  rw [withFlags, BitVec.and_or_distrib_right, BitVec.and_assoc, h]
  simp

section
variable {vm : VM} {sr : Byte} {z n c o : Bool}

theorem getSRZF_eq (h : vm.sr = withFlags sr z n c o) :
    getSRZF vm = if z then M_ZERO else 0 := by
  rw [getSRZF, h, withFlags_and _ _ _ _ _ (by decide)]
  cases z <;> cases n <;> cases c <;> cases o <;> rfl

theorem getSRNF_eq (h : vm.sr = withFlags sr z n c o) :
    getSRNF vm = if n then M_NEGATIVE else 0 := by
  rw [getSRNF, h, withFlags_and _ _ _ _ _ (by decide)]
  cases z <;> cases n <;> cases c <;> cases o <;> rfl

theorem getSROF_eq (h : vm.sr = withFlags sr z n c o) :
    getSROF vm = if o then M_OVERFLOW else 0 := by
  rw [getSROF, h, withFlags_and _ _ _ _ _ (by decide)]
  cases z <;> cases n <;> cases c <;> cases o <;> rfl

theorem getSRCF_eq (h : vm.sr = withFlags sr z n c o) :
    getSRCF vm = if c then M_CARRY else 0 := by
  rw [getSRCF, h, withFlags_and _ _ _ _ _ (by decide)]
  cases z <;> cases n <;> cases c <;> cases o <;> rfl

end

/-- What the four flags of a machine say. -/
structure FlagsSay (vm : VM) (z n c o : Prop) : Prop where
  zero : getSRZF vm ≠ 0 ↔ z
  negative : getSRNF vm ≠ 0 ↔ n
  carry : getSRCF vm ≠ 0 ↔ c
  overflow : getSROF vm ≠ 0 ↔ o

theorem flagsSay {vm : VM} {sr : Byte} {z n c o : Bool} (h : vm.sr = withFlags sr z n c o) :
    FlagsSay vm (z = true) (n = true) (c = true) (o = true) where
  zero := by rw [getSRZF_eq h]; cases z <;> decide
  negative := by rw [getSRNF_eq h]; cases n <;> decide
  carry := by rw [getSRCF_eq h]; cases c <;> decide
  overflow := by rw [getSROF_eq h]; cases o <;> decide

/-- The high half stays. -/
theorem withFlags_high (sr : Byte) (z n c o : Bool) :
    withFlags sr z n c o &&& 0xF0 = sr &&& 0xF0 := by
  have hflags : flagBits z n c o &&& 0xF0 = 0 := by
    cases z <;> cases n <;> cases c <;> cases o <;> rfl
  rw [withFlags, BitVec.and_or_distrib_right, BitVec.and_assoc, hflags, BitVec.and_self]
  exact BitVec.or_zero

/-! ## A register and its flags -/

/-- `vm` with a result in register `a`, and its flags. -/
def VM.computed (vm : VM) (a : Fin N_REG) (res : Word) (c o : Bool) : VM :=
  { vm with registers := Function.update vm.registers a res
            sr := withFlags vm.sr (res = 0) res.msb c o }

theorem finish_eq {vm : VM} {a : Byte} (ha : a.toNat < N_REG) (res : Word) (c o : Bool) :
    finish (setSR vm res c o) a res = .ok (.ok, vm.computed ⟨a.toNat, ha⟩ res c o) := by
  rw [finish, VM.setReg_lt ha, setSR_eq]
  rfl

end BSVM
