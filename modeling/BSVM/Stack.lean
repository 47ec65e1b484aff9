/-
# `BSVM.Stack` — pushes and pops

The two handlers and the two calls that move `sp` check it against one end of
the stack only, and leave the other end to the word access:

    push    STACK_BASE < sp     the access is refused above MEM_SIZE, and the
                                push is undone
    pop     sp < MEM_SIZE       the access is refused in the last seven bytes

Neither ever faults.
-/
import BSVM.Moves

namespace BSVM

/-! ## One push, one pop -/

/-- A push where `sp` is above the base: it never faults, and is undone when
`sp` is not inside the stack. -/
theorem pushWord_eq {vm : VM} (v : Word) (h : STACK_BASE < vm.sp.toNat) :
    pushWord vm v =
      if vm.sp.toNat ≤ MEM_SIZE then
        .ok (.ok, { vm with sp := vm.sp - 8,
                            memory := writeWord vm.memory (vm.sp.toNat - 8) v })
      else .ok (.illMemAccess, vm) := by
  have hlt := vm.sp.isLt
  simp at h
  have hsub : (vm.sp - 8).toNat = vm.sp.toNat - 8 := by
    rw [BitVec.toNat_sub]
    simp
    omega
  have hback : vm.sp - 8 + 8 = vm.sp := BitVec.sub_add_cancel _ _
  rw [pushWord]
  by_cases hle : vm.sp.toNat ≤ MEM_SIZE
  · have hinside : (vm.sp - 8).toNat + 7 < MEM_SIZE := by omega
    rw [memWrite64_inside hinside, hsub, if_pos hle]
    rfl
  · have hwrap : (vm.sp - 8).toNat + 7 < 2 ^ 64 := by omega
    have houtside : ¬ (vm.sp - 8).toNat + 7 < MEM_SIZE := by omega
    rw [memWrite64_outside hwrap houtside, if_neg hle]
    simp only [Except.ok_bind, hback]
    rfl

/-- The read at `sp` of a stack that is not empty. -/
theorem memRead64_sp {vm : VM} (out : Word) (h : vm.sp.toNat < MEM_SIZE) :
    memRead64 vm vm.sp out =
      if vm.sp.toNat + 8 ≤ MEM_SIZE then .ok (.ok, readWord vm.memory vm.sp.toNat)
      else .ok (.illMemAccess, out) := by
  have hwrap : vm.sp.toNat + 7 < 2 ^ 64 :=
    Nat.lt_trans (Nat.add_lt_add_right h 7) (by decide)
  by_cases hle : vm.sp.toNat + 8 ≤ MEM_SIZE
  · rw [memRead64_inside hle, if_pos hle]
  · rw [memRead64_outside hwrap hle, if_neg hle]

/-- The machine after a pop into register `a`. -/
def VM.popped (vm : VM) (a : Fin N_REG) : VM :=
  { vm with sp := vm.sp + 8,
            registers := Function.update vm.registers a (readWord vm.memory vm.sp.toNat) }

theorem popped_sp {vm : VM} {a : Fin N_REG} (h : vm.sp.toNat + 8 ≤ MEM_SIZE) :
    (vm.popped a).sp.toNat = vm.sp.toNat + 8 :=
  toNat_add_ofNat (n := 8) (by simp at h; omega)

theorem instrPOP_eq {vm : VM} {i : Instruction} (ha : i.a.toNat < N_REG) :
    instrPOP vm i =
      if MEM_SIZE ≤ vm.sp.toNat then .ok (.stackUnderflow, vm)
      else if vm.sp.toNat + 8 ≤ MEM_SIZE then .ok (.ok, vm.popped ⟨i.a.toNat, ha⟩)
      else .ok (.illMemAccess, vm) := by
  rw [instrPOP]
  split
  · rfl
  · next hlt =>
      rw [if_neg (Nat.not_le.mpr ha), memRead64_sp 0 (Nat.not_le.mp hlt)]
      split
      · simp only [Except.ok_bind, if_true, VM.setReg_lt ha, Except.pure_eq]
        rfl
      · rfl

end BSVM
