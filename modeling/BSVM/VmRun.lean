/-
# `BSVM.VmRun` — `vm_run`

The loop of `vm_run` is `Loop.run` with `cpu_step` as its round, so its rules are
those of `Loop`.  Cycle `k` runs on a host of its own.
-/
import BSVM.Lib.Loop
import BSVM.Run

namespace BSVM

/-- `while (((status = cpu_step(vm)) == VM_OK) && vm->running) cycle++;` -/
def vmLoop : Loop Host Fault VmError VM where
  step := cpuStep
  goesOn status vm := status = .ok && vm.running

/-- `vm_run`, if it ends within `fuel` cycles: `cycle`, the status, and the machine. -/
def vmRun (hosts : Nat → Host) (fuel : Nat) (vm : VM) : Option (Exec (Nat × Result)) :=
  vmLoop.run hosts fuel 0 vm

variable {hosts : Nat → Host} {fuel : Nat} {vm vm' : VM} {status : VmError}

@[simp] theorem vmLoop_step (host : Host) (vm : VM) : vmLoop.step host vm = cpuStep host vm :=
  rfl

theorem goesOn_iff : vmLoop.goesOn status vm = true ↔ status = .ok ∧ vm.running = true := by
  simp [vmLoop]

theorem Rounds.steps {k m : Nat} (h : Loop.Rounds vmLoop hosts k vm m vm') : Steps vm vm' := by
  induction h with
  | refl => exact .refl
  | head hs _ _ ih => exact .head ⟨_, _, hs⟩ ih

end BSVM
