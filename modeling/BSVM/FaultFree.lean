/-
# `BSVM.FaultFree` — listings whose runs have no fault

`Faults` says which instructions can fault; here a listing of others is run.  The
control flow of a listing that jumps to labels only is known (`OnTrack`), so whatever
is executed is one of its instructions, and what is fetched behind them is nothing.

A run of such a listing with tame instructions always has a next machine: `vm_run`
returns a status or goes on for ever.
-/
import BSVM.Faults
import BSVM.LabelRuns

namespace BSVM

variable {status₁ status₂ : AsmError} {irList : IRList} {ass₁ ass₂ : Assembler}
  {host : Host} {vm₀ vm vm' : VM} {f : Fault}

/-- Every instruction of the listing denotes one that cannot fault. -/
def TameListing (irList : IRList) : Prop :=
  ∀ line op a b i, ⟨line, .instr op a b⟩ ∈ irList.nodes →
    denote (layoutOf irList.nodes).address op a b = some i → i.Tame

theorem ZeroedStep.step (h : ZeroedStep vm vm') : Step vm vm' := by
  obtain ⟨host, status, h⟩ := h
  exact ⟨_, status, h⟩

theorem ZeroedSteps.steps (h : ZeroedSteps vm vm') : Steps vm vm' :=
  h.lift id fun _ _ h => h.step

theorem Loaded.reachable (h : Loaded status₁ status₂ irList ass₁ ass₂ vm₀)
    (hrun : ZeroedSteps vm₀ vm) : Reachable vm := by
  obtain ⟨bin, -, hload⟩ := h.load
  exact ⟨bin, 0, .ok, vm₀, hload, hrun.steps⟩

/-! ## What is fetched -/

/-- At an instruction its first two bytes are fetched at least. -/
theorem EncodedAt.fetchSized_ok {i : Instruction} {size : Nat} (h : EncodedAt vm i size)
    (hcanon : i.Canonical) (host : Host) :
    ∃ r, fetchSized (host.withInstr zeroInstr) vm = .ok r := by
  rw [fetchSized, h.fetch_eq hcanon host]
  split
  · rw [Except.ok_bind]
    dsimp only
    rw [h.sized]
    exact ⟨_, rfl⟩
  · rw [Except.ok_bind]
    dsimp only
    rw [h.sized]
    exact ⟨_, rfl⟩

/-- Behind the last instruction there are zeroes, or fewer than two bytes. -/
theorem Loaded.fetch_behind (h : Loaded status₁ status₂ irList ass₁ ass₂ vm₀)
    (hsame : SameCode vm₀ vm) (hpc : vm.pc.toNat = (layoutOf irList.nodes).text)
    (hcode : vm.pc.toNat < DATA_BASE) (host : Host) :
    ∃ n, fetch (host.withInstr zeroInstr) vm = .ok (n, zeroInstr) := by
  rw [fetch_eq]
  split
  · exact ⟨0, rfl⟩
  · rw [h.zero_behind hsame hpc.ge hcode, h.zero_behind hsame (by omega) (by omega)]
    exact ⟨2, rfl⟩

/-! ## Runs -/

/-- The next machine exists. -/
theorem OnTrack.defined (h : Loaded status₁ status₂ irList ass₁ ass₂ vm₀)
    (hlabel : LabelOnly irList) (htame : TameListing irList) (hrun : ZeroedSteps vm₀ vm)
    (host : Host) : ∃ r, cpuStep (host.withInstr zeroInstr) vm = .ok r := by
  have hat := OnTrack.steps h hlabel hrun
  refine Fails.returns fun f hf => ?_
  obtain ⟨hcode, hwhy⟩ := cpuStep_fails _ vm f hf
  rcases hat.pc with ⟨pre, line, op, a, b, post, hsplit, hpc⟩ | hend
  · obtain ⟨i, size, hi⟩ := instr_placed h.first h.second hsplit
    have henc := h.encodedAt hi hat.code hpc
    rcases hwhy with hfetch | ⟨i', hexec, hcause⟩
    · obtain ⟨r, hok⟩ := henc.fetchSized_ok (denote_canonical hi.denotes) host
      cases hok.symm.trans hfetch
    · obtain rfl := henc.executes (denote_canonical hi.denotes) hexec
      have hmem : ⟨line, .instr op a b⟩ ∈ irList.nodes := hsplit ▸ List.mem_append_cons_self
      exact (htame line op a b i' hmem hi.denotes).no_cause (h.reachable hrun).stackAligned hcause
  · obtain ⟨n, hfetch⟩ := h.fetch_behind hat.code hend hcode host
    rcases hwhy with hsized | ⟨i, ⟨-, ⟨size, hfetch', -⟩, handler, hh⟩, -⟩
    · rw [fetchSized, hfetch] at hsized
      cases hsized
    · obtain ⟨-, rfl⟩ := Prod.mk.inj (Except.ok.inj (hfetch.symm.trans hfetch'))
      cases hh

/-- **A listing that jumps to labels only, of tame instructions, has no fault in any
run.** -/
theorem tame_listing_defined (status₁ status₂ : AsmError) (irList : IRList)
    (ass₁ ass₂ : Assembler) (vm₀ : VM) (hosts : Nat → Host) (fuel : Nat) :
    Loaded status₁ status₂ irList ass₁ ass₂ vm₀ → LabelOnly irList → TameListing irList →
      vmRun (zeroed hosts) fuel vm₀ = none ∨
        ∃ cycle status vm, vmRun (zeroed hosts) fuel vm₀ = some (.ok (cycle, status, vm)) := by
  intro h hlabel htame
  cases hvm : vmRun (zeroed hosts) fuel vm₀ with
  | none => exact Or.inl rfl
  | some r =>
      cases r with
      | ok r => exact Or.inr ⟨r.1, r.2.1, r.2.2, rfl⟩
      | error f =>
          have hrun : (vmLoop.comap (·.withInstr zeroInstr)).run hosts fuel 0 vm₀ =
              some (.error f) := (Loop.run_comap _ _ _ _ _).trans hvm
          refine absurd hrun fun hrun => ?_
          refine Loop.run_fails (P := ZeroedSteps vm₀) (E := fun _ => False) ?_ ?_ .refl hrun
          · intro host vm status vm' hreach hstep _
            exact hreach.tail ⟨host, status, hstep⟩
          · intro host vm f hreach herr
            obtain ⟨r, hok⟩ := OnTrack.defined h hlabel htame hreach host
            cases hok.symm.trans herr

theorem backAndForth_tame : TameListing backAndForth := by
  intro line op a b i hmem hi
  simp [backAndForth] at hmem
  rcases hmem with ⟨-, rfl, rfl, rfl⟩ | ⟨-, rfl, rfl, rfl⟩ | ⟨-, rfl, rfl, rfl⟩
  · obtain rfl : (⟨.jmp, .imm, 0, 0, 22⟩ : Instruction) = i := Option.some.inj (Eq.trans rfl hi)
    decide
  · obtain rfl : (⟨.ld, .dir, 1, 0, 1032⟩ : Instruction) = i := Option.some.inj (Eq.trans rfl hi)
    decide
  · obtain rfl : (⟨.jmp, .imm, 0, 0, 11⟩ : Instruction) = i := Option.some.inj (Eq.trans rfl hi)
    decide

theorem tame_listing_defined_back_and_forth : ∃ ass₁ ass₂ vm₀,
    Loaded .ok .ok backAndForth ass₁ ass₂ vm₀ ∧ ∀ hosts fuel,
      vmRun (zeroed hosts) fuel vm₀ = none ∨
        ∃ cycle status vm, vmRun (zeroed hosts) fuel vm₀ = some (.ok (cycle, status, vm)) := by
  have hloaded : ∃ ass₁ ass₂ vm₀, Loaded .ok .ok backAndForth ass₁ ass₂ vm₀ :=
    ⟨_, _, _, rfl, rfl, _, rfl, rfl⟩
  obtain ⟨ass₁, ass₂, vm₀, h⟩ := hloaded
  exact ⟨ass₁, ass₂, vm₀, h, fun hosts fuel => tame_listing_defined .ok .ok backAndForth ass₁ ass₂
    vm₀ hosts fuel h backAndForth_labelOnly backAndForth_tame⟩

end BSVM
