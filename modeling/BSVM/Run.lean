/-
# `BSVM.Run` — from handlers to runs

A step is a handler's effect with `pc` moved on (`cpuStep_effect`), so a
property of machines that does not mention `pc` is kept by a step when it is
kept by every effect, and by a run when it is kept by every step.
-/
import BSVM.Cpu
import BSVM.Effect

namespace BSVM

variable {host : Host} {vm vm' : VM} {i : Instruction} {status : VmError}

/-! ## Steps -/

/-- An executed instruction has one of the effects listed, up to `pc`. -/
theorem Executes.effect (hexec : Executes host vm i) (h : cpuStep host vm = .ok (status, vm')) :
    ∃ vm₁ pc, Effect host vm i status vm₁ ∧ vm' = { vm₁ with pc := pc } := by
  obtain ⟨handler, size, vm₁, hh, -, hrun, rfl⟩ := cpuStep_executes hexec h
  have heff := handler_effective hh vm _ hrun
  rw [advance]
  split
  · exact ⟨vm₁, _, heff, rfl⟩
  · exact ⟨vm₁, vm₁.pc, heff, rfl⟩

theorem cpuStep_effect (h : cpuStep host vm = .ok (status, vm')) :
    (status ≠ .ok ∧ vm' = vm) ∨
    ∃ i vm₁ pc, Executes host vm i ∧ Effect host vm i status vm₁ ∧ vm' = { vm₁ with pc := pc } := by
  rcases cpuStep_cases h with hsame | ⟨i, hexec⟩
  · exact Or.inl hsame
  · obtain ⟨vm₁, pc, heff, hvm'⟩ := hexec.effect h
    exact Or.inr ⟨i, vm₁, pc, hexec, heff, hvm'⟩

/-- What every effect keeps, whatever `pc` is, every step keeps. -/
theorem Step.keeps {P : VM → Prop} (hpc : ∀ vm pc, P vm → P { vm with pc := pc })
    (heff : ∀ host vm i status vm', P vm → Effect host vm i status vm' → P vm')
    (h : Step vm vm') (hvm : P vm) : P vm' := by
  obtain ⟨host, status, h⟩ := h
  rcases cpuStep_effect h with ⟨-, rfl⟩ | ⟨i, vm₁, pc, -, he, rfl⟩
  · exact hvm
  · exact hpc vm₁ pc (heff host vm i status vm₁ hvm he)

/-! ## Runs -/

/-- The invariant rule: what every step keeps, every run keeps. -/
theorem Steps.keeps {P : VM → Prop} (hstep : ∀ vm vm', Step vm vm' → P vm → P vm')
    (h : Steps vm vm') (hvm : P vm) : P vm' := by
  induction h with
  | refl => exact hvm
  | tail _ hlast ih => exact hstep _ _ hlast ih

/-! ## Loading -/

theorem fill_cases {lo n : Nat} {f : Nat → Byte} (h : vm.fill lo n f = .ok vm') :
    (n = 0 ∨ lo + n ≤ MEM_SIZE) ∧ vm' = { vm with memory := overlay vm.memory lo n f } := by
  obtain ⟨_, hin, h⟩ := Except.bind_eq_ok.mp h
  cases h
  rw [inMemory] at hin
  split at hin
  · next hfits => exact ⟨hfits, rfl⟩
  · cases hin

theorem copyIn_cases {lo n : Nat} {src : List Byte} (h : vm.copyIn lo src n = .ok vm') :
    (n = 0 ∨ lo + n ≤ MEM_SIZE) ∧
      vm' = { vm with memory := overlay vm.memory lo n fun k => src.getD k 0 } := by
  rw [VM.copyIn] at h
  split at h
  · cases h
  · exact fill_cases h

/-- `loadProgram` touches the memory and `pc` only. -/
theorem loadProgram_eq {bin : Binary} {start : Word}
    (h : loadProgram vm bin start = .ok (status, vm')) :
    ∃ m pc, vm' = { vm with memory := m, pc := pc } := by
  rw [loadProgram] at h
  split at h
  · cases h
    exact ⟨_, _, rfl⟩
  · split at h
    · cases h
      exact ⟨_, _, rfl⟩
    · obtain ⟨vm₁, h₁, h⟩ := Except.bind_eq_ok.mp h
      obtain ⟨vm₂, h₂, h⟩ := Except.bind_eq_ok.mp h
      cases h
      rw [(copyIn_cases h₂).2, (copyIn_cases h₁).2]
      exact ⟨_, _, rfl⟩

/-- What a program that is loaded leaves. -/
theorem loadProgram_ok {bin : Binary} {start : Word}
    (h : loadProgram vm bin start = .ok (.ok, vm')) :
    vm' = { vm with
      memory := overlay
        (overlay vm.memory start.toNat bin.headers.codeSize.toNat fun k => bin.bytecode.getD k 0)
        DATA_BASE bin.headers.dataSize.toNat fun k => bin.data.getD k 0
      pc := bin.headers.entryPoint } := by
  rw [loadProgram] at h
  split at h
  · cases h
  · split at h
    · cases h
    · obtain ⟨vm₁, h₁, h⟩ := Except.bind_eq_ok.mp h
      obtain ⟨vm₂, h₂, h⟩ := Except.bind_eq_ok.mp h
      cases h
      rw [(copyIn_cases h₂).2, (copyIn_cases h₁).2]

/-- What holds of `initVM` with any program loaded and is kept by every step
holds of every machine the program can reach. -/
theorem Reachable.induction {P : VM → Prop}
    (hinit : ∀ m pc, P { initVM with memory := m, pc := pc })
    (hstep : ∀ vm vm', Step vm vm' → P vm → P vm') (h : Reachable vm) : P vm := by
  obtain ⟨bin, start, status, vm₀, hload, hrun⟩ := h
  obtain ⟨m, pc, rfl⟩ := loadProgram_eq hload
  exact Steps.keeps hstep hrun (hinit m pc)

/-- The machine after `n` calls, from a binary loaded at 0. -/
def machineAfter (bin : Binary) : Nat → VM
  | 0 => ((loadProgram initVM bin 0).toOption.map Prod.snd).getD initVM
  | n + 1 => ((cpuStep default (machineAfter bin n)).toOption.map Prod.snd).getD initVM

end BSVM
