/-
# `BSVM.Cpu` — `cpu_step`, `loadProgram`, and runs

`fetch` is the first half of `cpu_step`: what it decodes at `pc`.  A run is
any number of steps, each with a host of its own; a step that returns an
error leaves a machine that can be stepped again.
-/
import Mathlib.Logic.Relation
import BSVM.Codec
import BSVM.Dispatch

namespace BSVM

/-! ## `cpu.c` -/

/-- `instructionDecode(&instr, vm->memory + vm->pc, DATA_BASE - vm->pc - 1)`. -/
def fetch (host : Host) (vm : VM) : Exec (Nat × Instruction) :=
  instructionDecode host.instr (fun i => vm.load (vm.pc.toNat + i)) (DATA_BASE - vm.pc.toNat - 1)

def cpuStep (host : Host) (vm : VM) : Exec Result :=
  if DATA_BASE ≤ vm.pc.toNat then .ok (.invalidExecutionAddress, vm)
  else do
    let (consumed, instr) ← fetch host vm
    let size ← modeSize instr.mode
    if consumed ≠ size then return (.truncatedInstr, vm)
    else
      match getHandler host instr.opcode instr.mode with
      | none => return (.unknownInstr, vm)
      | some handler => do
          let (status, vm') ← handler vm instr
          if status = .ok ∧ vm'.pc = vm.pc then
            return (status, { vm' with pc := vm'.pc + BitVec.ofNat 64 consumed })
          else return (status, vm')

/-! ## `loader.c` and `binary.h` -/

structure BinaryHeader where
  magicNumber : BitVec 32
  entryPoint : Word
  codeSize : Word
  dataSize : Word
  deriving DecidableEq, Repr

/-- `struct Binary`; the two pointers are to host arrays of some length. -/
structure Binary where
  headers : BinaryHeader
  bytecode : List Byte
  data : List Byte
  deriving DecidableEq, Repr

/-- `memcpy(vm->memory + lo, src, n)` from a host array. -/
def VM.copyIn (vm : VM) (lo : Nat) (src : List Byte) (n : Nat) : Exec VM :=
  if src.length < n then .error .table
  else vm.fill lo n fun k => src.getD k 0

def loadProgram (vm : VM) (bin : Binary) (start : Word) : Exec Result :=
  if DATA_BASE ≤ (bin.headers.codeSize + start).toNat then .ok (.codeLoadOutOfBounds, vm)
  else if HEAP_BASE - DATA_BASE ≤ bin.headers.dataSize.toNat then .ok (.dataLoadOutOfBounds, vm)
  else do
    let vm ← vm.copyIn start.toNat bin.bytecode bin.headers.codeSize.toNat
    let vm ← vm.copyIn DATA_BASE bin.data bin.headers.dataSize.toNat
    return (.ok, { vm with pc := bin.headers.entryPoint })

/-! ## Runs -/

/-- One call of `cpu_step`, whatever it returns. -/
def Step (vm vm' : VM) : Prop :=
  ∃ host status, cpuStep host vm = .ok (status, vm')

/-- Any number of calls. -/
abbrev Steps : VM → VM → Prop := Relation.ReflTransGen Step

/-- `initVM`, `loadProgram` of any binary, and any number of calls. -/
def Reachable (vm : VM) : Prop :=
  ∃ bin start status vm₀, loadProgram initVM bin start = .ok (status, vm₀) ∧ Steps vm₀ vm

/-! ## What a step does -/

/-- The dispatch of `cpu_step`: the handler of the instruction, if it has one. -/
def execute (host : Host) (vm : VM) (i : Instruction) : Exec Result :=
  match getHandler host i.opcode i.mode with
  | none => .ok (.unknownInstr, vm)
  | some handler => handler vm i

/-- `cpu_step` hands the instruction to a handler. -/
def Executes (host : Host) (vm : VM) (instr : Instruction) : Prop :=
  vm.pc.toNat < DATA_BASE ∧
    (∃ consumed, fetch host vm = .ok (consumed, instr) ∧ modeSize instr.mode = .ok consumed) ∧
    ∃ handler, getHandler host instr.opcode instr.mode = some handler

/-- The end of `cpu_step`: `pc` moves past the instruction when the handler
succeeds and leaves it as it was. -/
def advance (vm : VM) (size : Nat) (r : Result) : VM :=
  if r.1 = .ok ∧ r.2.pc = vm.pc then { r.2 with pc := r.2.pc + BitVec.ofNat 64 size } else r.2

@[simp] theorem advance_sp (vm : VM) (size : Nat) (r : Result) :
    (advance vm size r).sp = r.2.sp := by
  rw [advance]
  split
  · rfl
  · rfl

@[simp] theorem advance_memory (vm : VM) (size : Nat) (r : Result) :
    (advance vm size r).memory = r.2.memory := by
  rw [advance]
  split
  · rfl
  · rfl

/-- A step that hands an instruction to a handler is the handler, then
`advance`. -/
theorem cpuStep_executes {host : Host} {vm vm' : VM} {instr : Instruction} {status : VmError}
    (hexec : Executes host vm instr) (h : cpuStep host vm = .ok (status, vm')) :
    ∃ handler size vm₁, getHandler host instr.opcode instr.mode = some handler ∧
      modeSize instr.mode = .ok size ∧ handler vm instr = .ok (status, vm₁) ∧
      vm' = advance vm size (status, vm₁) := by
  obtain ⟨hpc, ⟨consumed, hfetch, hsize⟩, handler, hhandler⟩ := hexec
  rw [cpuStep, if_neg (Nat.not_le.mpr hpc), hfetch] at h
  simp only [Except.ok_bind, hsize, ne_eq, not_true, if_false, hhandler] at h
  obtain ⟨⟨st, vm₁⟩, hrun, h⟩ := Except.bind_eq_ok.mp h
  refine ⟨handler, consumed, vm₁, hhandler, hsize, ?_⟩
  dsimp only at h
  rw [advance]
  split at h
  · next hpc' =>
      cases h
      exact ⟨hrun, (if_pos hpc').symm⟩
  · next hpc' =>
      cases h
      exact ⟨hrun, (if_neg hpc').symm⟩

theorem execute_handler {host : Host} {vm : VM} {i : Instruction} {handler : InstrHandler}
    (hh : getHandler host i.opcode i.mode = some handler) :
    execute host vm i = handler vm i := by
  rw [execute, hh]

/-- A step returns an error and changes nothing, or executes an instruction. -/
theorem cpuStep_cases {host : Host} {vm vm' : VM} {status : VmError}
    (h : cpuStep host vm = .ok (status, vm')) :
    (status ≠ .ok ∧ vm' = vm) ∨ ∃ instr, Executes host vm instr := by
  rw [cpuStep] at h
  split at h
  · cases h
    exact Or.inl ⟨nofun, rfl⟩
  · next hpc =>
      obtain ⟨⟨consumed, instr⟩, hfetch, h⟩ := Except.bind_eq_ok.mp h
      obtain ⟨size, hsize, h⟩ := Except.bind_eq_ok.mp h
      dsimp only at h hsize
      split at h
      · cases h
        exact Or.inl ⟨nofun, rfl⟩
      · next heq =>
          obtain rfl := not_not.mp heq
          split at h
          · cases h
            exact Or.inl ⟨nofun, rfl⟩
          · next handler hhandler =>
              exact Or.inr ⟨instr, Nat.not_le.mp hpc, ⟨_, hfetch, hsize⟩, handler, hhandler⟩

end BSVM
