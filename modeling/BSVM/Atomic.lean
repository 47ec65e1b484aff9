/-
# `BSVM.Atomic` — a step that reports an error changes nothing

Most handlers test everything before they change anything, and a push that
fails is undone.  What is left is FAS, which loads before it stores:

    DIR, IND, IDX with a ≠ b    the store is at the address of the load, or at
                                a register number: it does not fail
    IDX with a = b              the load replaces the base register, and the
                                store is wherever the loaded word says

System calls pop their arguments first and are left out.
-/
import BSVM.Run

namespace BSVM

variable {host : Host} {vm vm' : VM} {i i' : Instruction} {status : VmError}

/-- A step executes one instruction. -/
theorem Executes.unique (h : Executes host vm i) (h' : Executes host vm i') : i' = i := by
  obtain ⟨-, ⟨_, hfetch, -⟩, -⟩ := h
  obtain ⟨-, ⟨_, hfetch', -⟩, -⟩ := h'
  exact (Prod.mk.inj (Except.ok.inj (hfetch'.symm.trans hfetch))).2

/-- An error leaves `pc` to the handler. -/
theorem advance_error {size : Nat} (h : status ≠ .ok) (vm₁ : VM) :
    advance vm size (status, vm₁) = vm₁ :=
  if_neg fun h' => h h'.1

theorem Effect.atomic (h : Effect host vm i status vm') (hfas : i.opcode ≠ .fas)
    (htrap : i.opcode ≠ .trap) (hst : status ≠ .ok) : vm' = vm := by
  cases h with
  | refused => rfl
  | passed | computed | loaded | stored | fetchedSet | pushed | popped | jumped | halted | reset =>
      exact absurd rfl hst
  | fetched hop => exact absurd hop hfas
  | trapped hop => exact absurd hop htrap
  | copied hop => exact absurd hop htrap

/-! ## Fetch and set -/

/-- The load succeeds and the store does not: only with `a = b` in mode IDX,
and never without replacing the base. -/
def LosesBase (vm : VM) (i : Instruction) : Prop :=
  i.mode = .idx ∧ i.a = i.b ∧ FasLoads vm i ∧
    MEM_SIZE ≤ (readWord vm.memory (fasLoad vm i).toNat + i.args).toNat + 7

/-- Everywhere else the store of a `FAS` is in memory. -/
theorem losesBase_iff (hm : i.mode = .dir ∨ i.mode = .ind ∨ i.mode = .idx) :
    LosesBase vm i ↔ FasLoads vm i ∧ ¬ (fasStore vm i).toNat + 7 < MEM_SIZE := by
  rw [LosesBase]
  rcases hm with hm | hm | hm
  · have hsame : fasStore vm i = fasLoad vm i := by rw [fasStore, fasLoad, hm]
    refine ⟨fun h => absurd (hm.symm.trans h.1) (by decide), fun h => ?_⟩
    rw [hsame] at h
    exact absurd h.1.inside h.2
  · have hsmall : (fasStore vm i).toNat < 256 := by
      rw [fasStore, hm, BitVec.toNat_setWidth]
      have hb := i.b.isLt
      omega
    refine ⟨fun h => absurd (hm.symm.trans h.1) (by decide), fun h => ?_⟩
    exact absurd (show (fasStore vm i).toNat + 7 < MEM_SIZE by simp; omega) h.2
  · by_cases hab : i.a = i.b
    · have hstore : fasStore vm i = readWord vm.memory (fasLoad vm i).toNat + i.args := by
        rw [fasStore, hm]
        exact congrArg (· + i.args) (if_pos hab)
      rw [hstore]
      exact ⟨fun h => ⟨h.2.2.1, Nat.not_lt.mpr h.2.2.2⟩,
        fun h => ⟨hm, hab, h.1, Nat.not_lt.mp h.2⟩⟩
    · have hsame : fasStore vm i = fasLoad vm i := by
        rw [fasStore, fasLoad, hm]
        exact congrArg (· + i.args) (if_neg hab)
      refine ⟨fun h => absurd h.2.1 hab, fun h => ?_⟩
      rw [hsame] at h
      exact absurd h.1.inside h.2

theorem fetched_self (a : Fin N_REG) :
    (vm.fetched i a).registers a = readWord vm.memory (fasLoad vm i).toNat :=
  Function.update_self ..

/-- The word that replaces the base is another one. -/
theorem LosesBase.changes (h : LosesBase vm i) :
    vm.fetched i ⟨i.a.toNat, h.2.2.1.reg⟩ ≠ vm := by
  obtain ⟨hm, hab, hloads, hstore⟩ := h
  have hload : fasLoad vm i = vm.reg i.a + i.args := by rw [fasLoad, hm, hab]
  intro heq
  have hreg := congrArg (fun vm : VM => vm.registers ⟨i.a.toNat, hloads.reg⟩) heq
  have hword : readWord vm.memory (fasLoad vm i).toNat = vm.reg i.a := by
    rw [VM.reg, dif_pos hloads.reg]
    exact (fetched_self ⟨i.a.toNat, hloads.reg⟩).symm.trans hreg
  rw [hword, ← hload] at hstore
  exact absurd hloads.inside (Nat.not_lt.mpr hstore)

theorem FasOutcome.atomic_iff (h : FasOutcome vm i status vm')
    (hm : i.mode = .dir ∨ i.mode = .ind ∨ i.mode = .idx) :
    (status ≠ .ok → vm' = vm) ↔ ¬ LosesBase vm i := by
  cases h with
  | refused hst hno => exact ⟨fun _ h => hno h.2.2.1, fun _ _ => rfl⟩
  | set hloads hstore =>
      exact ⟨fun _ h => ((losesBase_iff hm).mp h).2 hstore, fun _ h => absurd rfl h⟩
  | loaded hloads hstore =>
      have hloses := (losesBase_iff hm).mpr ⟨hloads, hstore⟩
      exact ⟨fun h => absurd (h nofun) hloses.changes, fun h => absurd hloses h⟩

/-! ## Steps -/

/-- **A step that executes no TRAP leaves the machine as it was when it reports
an error, unless it is `FAS` on its own base register whose store is out of
memory.** -/
theorem errors_atomic_iff (host : Host) (vm : VM) :
    ∀ status vm', (∀ i, Executes host vm i → i.opcode ≠ .trap) →
      cpuStep host vm = .ok (status, vm') →
      ((status ≠ .ok → vm' = vm) ↔
        ¬ ∃ i, Executes host vm i ∧ i.opcode = .fas ∧ LosesBase vm i) := by
  intro status vm' htrap hstep
  by_cases hexec : ∃ i, Executes host vm i
  · obtain ⟨i, hexec⟩ := hexec
    obtain ⟨handler, size, vm₁, hh, -, hrun, hvm'⟩ := cpuStep_executes hexec hstep
    have hadvance : (status ≠ .ok → vm' = vm) ↔ (status ≠ .ok → vm₁ = vm) := by
      refine forall_congr' fun hst => ?_
      rw [hvm', advance_error hst]
    have honly : (∃ i, Executes host vm i ∧ i.opcode = .fas ∧ LosesBase vm i) ↔
        i.opcode = .fas ∧ LosesBase vm i := by
      constructor
      · rintro ⟨i', hexec', h⟩
        obtain rfl := hexec.unique hexec'
        exact h
      · exact fun h => ⟨i, hexec, h⟩
    rw [hadvance, honly]
    by_cases hfas : i.opcode = .fas
    · rw [hfas] at hh
      have hm : i.mode = .dir ∨ i.mode = .ind ∨ i.mode = .idx := by
        cases hmode : i.mode <;> rw [hmode] at hh <;> cases hh <;> simp
      have hout : FasOutcome vm i status vm₁ := fas_outcome hh _ hrun
      rw [hout.atomic_iff hm]
      simp [hfas]
    · have heff : Effect host vm i status vm₁ := handler_effective hh vm _ hrun
      exact ⟨fun _ h => hfas h.1, fun _ hst => heff.atomic hfas (htrap i hexec) hst⟩
  · have hsame := (cpuStep_cases hstep).resolve_right hexec
    exact ⟨fun _ ⟨i, h, _⟩ => hexec ⟨i, h⟩, fun _ _ => hsame.2⟩

/-- `POP R0` at address 0, with an empty stack. -/
def popper : VM :=
  { initVM with memory := fun k => if (k : Nat) = 0 then 16 else if (k : Nat) = 1 then 2 else 0 }

theorem errors_atomic_pop :
    ∃ vm', cpuStep default popper = .ok (.stackUnderflow, vm') ∧ vm' = popper := by
  have hexec : Executes default popper ⟨.pop, .regu, 0, 0, 0⟩ :=
    ⟨by decide, ⟨3, rfl, rfl⟩, instrPOP, rfl⟩
  have honly : ∀ i, Executes default popper i → i = ⟨.pop, .regu, 0, 0, 0⟩ :=
    fun i h => hexec.unique h
  have hstep : cpuStep default popper = .ok (.stackUnderflow, popper) := rfl
  refine ⟨popper, hstep, (errors_atomic_iff default popper _ _ ?_ hstep).mpr ?_ nofun⟩
  · intro i h
    rw [honly i h]
    exact nofun
  · rintro ⟨i, h, hfas, -⟩
    rw [honly i h] at hfas
    cases hfas

/-- `FAS R0, [R0 + 0]` at address 0, with `R0` in the data segment. -/
def baseLoser : VM :=
  { initVM with
    memory := fun k =>
      if (k : Nat) = 0 then 17 else if (k : Nat) = 1 then 6 else if (k : Nat) = 1025 then 16 else 0
    registers := fun _ => 1024 }

/-- The word at 1024 is an address outside memory, and is left in `R0`. -/
theorem fasx_keeps_load :
    Executes default baseLoser ⟨.fas, .idx, 0, 0, 0⟩ ∧
      ∃ vm', cpuStep default baseLoser = .ok (.illMemAccess, vm') ∧ vm' ≠ baseLoser := by
  have hexec : Executes default baseLoser ⟨.fas, .idx, 0, 0, 0⟩ :=
    ⟨by decide, ⟨12, rfl, rfl⟩, instrFASX, rfl⟩
  have hreg : (cpuStep default baseLoser).map (fun r => (r.1, r.2.registers 0)) =
      .ok (.illMemAccess, 4096) := rfl
  obtain ⟨⟨status, vm'⟩, hstep, heq⟩ := Except.map_eq_ok.mp hreg
  obtain ⟨hst, hload⟩ := Prod.mk.inj heq
  obtain rfl : status = .illMemAccess := hst
  refine ⟨hexec, vm', hstep, fun hsame => ?_⟩
  rw [hsame] at hload
  exact absurd hload (by decide)

end BSVM
