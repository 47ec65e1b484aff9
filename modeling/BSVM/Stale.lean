/-
# `BSVM.Stale` — what the local `instr` of `cpu_step` held before

The decoder stores the opcode, the mode, `a` and `b`, but or-s the bytes of
the argument into `args`, which the caller has not cleared.  Two contents of
`args` are told apart by a decoded instruction exactly when they differ in a
bit that the argument in the buffer leaves at 0 (`decode_stale_iff`).  Where
they are not, the whole step is the same.
-/
import BSVM.Fetch
import BSVM.RoundTrip

namespace BSVM

/-- The two agree on every field that their mode uses. -/
structure SameUsed (i i' : Instruction) : Prop where
  opcode : i'.opcode = i.opcode
  mode : i'.mode = i.mode
  a : i.mode ≠ .none → i'.a = i.a
  b : codecB i.mode = true → i'.b = i.b
  args : codecARGS i.mode = true → i'.args = i.args

/-- The argument behind `f`, if the mode has one, covers the difference of the
two contents. -/
def ArgsCovered (mode : Mode) (f : Nat → Byte) (x y : Word) : Prop :=
  codecARGS mode = true → x ||| argWord mode f = y ||| argWord mode f

/-! ## Decoding -/

section
variable {f : Nat → Byte} {mode : Mode}

theorem decoded_sameUsed_iff (opcode : OpCode) (x y : Instruction) :
    SameUsed (decoded x opcode mode f) (decoded y opcode mode f) ↔
      ArgsCovered mode f x.args y.args := by
  constructor
  · intro h hA
    have hargs := h.args hA
    rw [decoded, decoded] at hargs
    dsimp only at hargs
    rw [if_pos hA, if_pos hA] at hargs
    exact hargs.symm
  · refine fun h => ⟨rfl, rfl, fun _ => rfl, fun hB => ?_, fun hA => ?_⟩
    · exact (if_pos hB).trans (if_pos hB).symm
    · exact (if_pos hA).trans ((h hA).symm.trans (if_pos hA).symm)

end

/-- Two decodings of one buffer, the first of which is complete. -/
theorem sameUsed_iff_covered {buffer : Buffer} {f : Nat → Byte} {remaining n : Nat}
    {x y out : Instruction} (hbuf : ∀ k < remaining, buffer k = .ok (f k))
    (hx : instructionDecode x buffer remaining = .ok (n, out)) (hn : modeSize out.mode = .ok n) :
    (∃ out', instructionDecode y buffer remaining = .ok (n, out') ∧ SameUsed out out') ↔
      ArgsCovered (Mode.ofByte (f 1)) f x.args y.args := by
  rw [instructionDecode_eq hbuf] at hx ⊢
  split at hx
  · cases hx
    cases hm : x.mode <;> rw [hm] at hn <;> cases hn
  · next hrem =>
      rw [if_neg hrem]
      cases hop : OpCode.ofByte? (f 0) with
      | none =>
          rw [hop] at hx
          cases hx
      | some opcode =>
          rw [hop] at hx
          generalize Mode.ofByte (f 1) = mode at hx ⊢
          dsimp only at hx ⊢
          by_cases hnone : mode = .none
          · rw [if_pos hnone] at hx ⊢
            cases hx
            have hA : codecARGS mode ≠ true := by rw [hnone]; exact nofun
            refine ⟨fun _ h => absurd h hA, fun _ => ⟨_, rfl, rfl, rfl, ?_, ?_, ?_⟩⟩
            · exact fun h => absurd hnone h
            · exact fun h => by rw [hnone] at h; cases h
            · exact fun h => absurd h hA
          · rw [if_neg hnone] at hx ⊢
            obtain ⟨size, hsize, hx⟩ := Except.bind_eq_ok.mp hx
            rw [hsize, Except.ok_bind]
            split at hx
            · cases hx
              exact absurd hn (modeSize_ne_two hnone)
            · next hfits =>
                cases hx
                rw [if_neg hfits, ← decoded_sameUsed_iff opcode x y]
                constructor
                · rintro ⟨out', hout, hsame⟩
                  obtain rfl := (Prod.mk.inj (Except.ok.inj hout)).2
                  exact hsame
                · exact fun hsame => ⟨_, rfl, hsame⟩

/-! ## Executing -/

/-- A host that differs in the content of the local. -/
def Host.withInstr (host : Host) (x : Instruction) : Host :=
  { host with instr := x }

theorem getHandler_withInstr (host : Host) (x : Instruction) (opcode : OpCode) (mode : Mode) :
    getHandler (host.withInstr x) opcode mode = getHandler host opcode mode := by
  cases opcode <;> rfl

/-- A handler looks at the fields of its mode only. -/
theorem handler_congr {host : Host} {vm : VM} {i i' : Instruction} {handler : InstrHandler}
    (hh : getHandler host i.opcode i.mode = some handler) (h : SameUsed i i') :
    handler vm i' = handler vm i := by
  obtain ⟨opcode, mode, a, b, args⟩ := i
  obtain ⟨opcode', mode', a', b', args'⟩ := i'
  obtain ⟨hop, hm, ha, hb, hargs⟩ := h
  dsimp only at hop hm ha hb hargs hh
  subst hop hm
  cases mode'
  case none => cases opcode' <;> cases hh <;> rfl
  case other => cases opcode' <;> cases hh
  case imm | dir =>
    obtain rfl := ha nofun
    obtain rfl := hargs rfl
    cases opcode' <;> cases hh <;> rfl
  case regu =>
    obtain rfl := ha nofun
    cases opcode' <;> cases hh <;> rfl
  case reg | ind =>
    obtain rfl := ha nofun
    obtain rfl := hb rfl
    cases opcode' <;> cases hh <;> rfl
  case idx =>
    obtain rfl := ha nofun
    obtain rfl := hb rfl
    obtain rfl := hargs rfl
    rfl

variable {host : Host} {vm : VM} {x y : Instruction}

/-- Two fetches that agree on what the mode uses lead to the same step. -/
theorem cpuStep_sameUsed {n : Nat} {i i' : Instruction}
    (hx : fetch (host.withInstr x) vm = .ok (n, i)) (hy : fetch (host.withInstr y) vm = .ok (n, i'))
    (hsame : SameUsed i i') :
    cpuStep (host.withInstr y) vm = cpuStep (host.withInstr x) vm := by
  rw [cpuStep, cpuStep, hx, hy, Except.ok_bind, Except.ok_bind]
  dsimp only
  rw [hsame.mode, hsame.opcode, getHandler_withInstr, getHandler_withInstr]
  cases hh : getHandler host i.opcode i.mode with
  | none => rfl
  | some handler =>
      dsimp only
      rw [handler_congr hh hsame]

/-- An instruction that does not end inside the code segment is reported,
whatever else it is. -/
theorem cpuStep_truncated {n size : Nat} {i : Instruction} (hpc : vm.pc.toNat < DATA_BASE)
    (hf : fetch host vm = .ok (n, i)) (hsize : modeSize i.mode = .ok size) (hne : n ≠ size) :
    cpuStep host vm = .ok (.truncatedInstr, vm) := by
  rw [cpuStep, if_neg (Nat.not_le.mpr hpc), hf, Except.ok_bind]
  dsimp only
  rw [hsize, Except.ok_bind, if_pos hne]
  rfl

/-- The step does not depend on the local, where two bytes and one more are left
and the argument covers it. -/
theorem cpuStep_covered (hroom : vm.pc.toNat + 2 < DATA_BASE)
    (h : ArgsCovered (Mode.ofByte (byteAt vm.memory (vm.pc.toNat + 1)))
      (fun k => byteAt vm.memory (vm.pc.toNat + k)) x.args y.args) :
    cpuStep (host.withInstr y) vm = cpuStep (host.withInstr x) vm := by
  have hpc : vm.pc.toNat < DATA_BASE := by omega
  have hfetch := fun z => fetch_eq (host.withInstr z) vm
  simp only [if_neg (show ¬ DATA_BASE - vm.pc.toNat - 1 < 2 by omega)] at hfetch
  cases hop : OpCode.ofByte? (byteAt vm.memory vm.pc.toNat) with
  | none =>
      simp only [hop] at hfetch
      rw [cpuStep, cpuStep, hfetch x, hfetch y]
      rfl
  | some opcode =>
      simp only [hop] at hfetch
      generalize Mode.ofByte (byteAt vm.memory (vm.pc.toNat + 1)) = mode at hfetch h
      by_cases hnone : mode = .none
      · simp only [if_pos hnone] at hfetch
        refine cpuStep_sameUsed (hfetch x) (hfetch y) ⟨rfl, rfl, ?_, ?_, ?_⟩
        · exact fun h => absurd hnone h
        · exact fun h => by rw [hnone] at h; cases h
        · exact fun h => by rw [hnone] at h; cases h
      · simp only [if_neg hnone] at hfetch
        cases hsize : modeSize mode with
        | error e =>
            simp only [hsize, Except.error_bind] at hfetch
            rw [cpuStep, cpuStep, hfetch x, hfetch y]
            rfl
        | ok size =>
            simp only [hsize, Except.ok_bind] at hfetch
            by_cases hshort : DATA_BASE - vm.pc.toNat - 1 - 2 < size
            · simp only [if_pos hshort] at hfetch
              have hne : 2 ≠ size := fun he => modeSize_ne_two hnone (he ▸ hsize)
              rw [cpuStep_truncated hpc (hfetch x) hsize hne,
                cpuStep_truncated hpc (hfetch y) hsize hne]
            · simp only [if_neg hshort] at hfetch
              exact cpuStep_sameUsed (hfetch x) (hfetch y) ((decoded_sameUsed_iff opcode x y).mpr h)

/-! ## Both -/

/-- **Two contents of the local are not told apart by a complete instruction
exactly when its argument covers their difference, and then not by the
step.** -/
theorem decode_stale_iff (buffer : Buffer) (f : Nat → Byte) (remaining : Nat) (x y : Instruction) :
    (∀ n out, (∀ k < remaining, buffer k = .ok (f k)) →
      instructionDecode x buffer remaining = .ok (n, out) → modeSize out.mode = .ok n →
      ((∃ out', instructionDecode y buffer remaining = .ok (n, out') ∧ SameUsed out out') ↔
        ArgsCovered (Mode.ofByte (f 1)) f x.args y.args)) ∧
    (∀ (host : Host) (vm : VM), vm.pc.toNat + 2 < DATA_BASE →
      ArgsCovered (Mode.ofByte (byteAt vm.memory (vm.pc.toNat + 1)))
        (fun k => byteAt vm.memory (vm.pc.toNat + k)) x.args y.args →
      cpuStep (host.withInstr y) vm = cpuStep (host.withInstr x) vm) := by
  constructor
  · exact fun n out hbuf hx hn => sameUsed_iff_covered hbuf hx hn
  · exact fun host vm hroom h => cpuStep_covered hroom h

/-- `LD R0, 7` at address 0. -/
def sevenLoader : VM :=
  { initVM with memory := fun k =>
      if (k : Nat) = 0 then 13 else if (k : Nat) = 1 then 1 else if (k : Nat) = 3 then 7 else 0 }

/-- The 7 covers what 5 and 2 differ in. -/
theorem decode_stale_covered :
    (∃ out', instructionDecode ⟨.add, .none, 0, 0, 2⟩
          (fun k => .ok (byteAt sevenLoader.memory k)) 16 = .ok (11, out') ∧
        SameUsed ⟨.ld, .imm, 0, 0, 7⟩ out') ∧
      cpuStep ((default : Host).withInstr ⟨.add, .none, 0, 0, 2⟩) sevenLoader =
        cpuStep ((default : Host).withInstr ⟨.add, .none, 0, 0, 5⟩) sevenLoader := by
  have hcovered : ArgsCovered (Mode.ofByte (byteAt sevenLoader.memory 1))
      (byteAt sevenLoader.memory) 5 2 := fun _ => by decide
  have h := decode_stale_iff (fun k => .ok (byteAt sevenLoader.memory k))
    (byteAt sevenLoader.memory) 16 ⟨.add, .none, 0, 0, 5⟩ ⟨.add, .none, 0, 0, 2⟩
  refine ⟨(h.1 11 ⟨.ld, .imm, 0, 0, 7⟩ (fun _ _ => rfl) rfl rfl).mpr hcovered, ?_⟩
  refine h.2 default sevenLoader (by decide) fun _ => ?_
  decide

/-- `LD R0, 0` at address 0. -/
def loader : VM :=
  { initVM with memory := fun k => if (k : Nat) = 0 then 13 else if (k : Nat) = 1 then 1 else 0 }

/-- Its bytes. -/
def loaderBytes (k : Nat) : Byte := byteAt loader.memory k

/-- What the argument was before is loaded into `R0`. -/
theorem stale_args_loaded :
    let x : Instruction := ⟨.add, .none, 0, 0, 0⟩
    let y : Instruction := ⟨.add, .none, 0, 0, 7⟩
    let buffer : Buffer := fun k => .ok (loaderBytes k)
    instructionDecode x buffer 16 = .ok (11, ⟨.ld, .imm, 0, 0, 0⟩) ∧
      instructionDecode y buffer 16 = .ok (11, ⟨.ld, .imm, 0, 0, 7⟩) ∧
      (cpuStep ((default : Host).withInstr x) loader).map (fun r => r.2.registers 0) = .ok 0 ∧
      (cpuStep ((default : Host).withInstr y) loader).map (fun r => r.2.registers 0) = .ok 7 ∧
      ¬ ∃ out', instructionDecode y buffer 16 = .ok (11, out') ∧
        SameUsed ⟨.ld, .imm, 0, 0, 0⟩ out' := by
  intro x y buffer
  have hy : instructionDecode y buffer 16 = .ok (11, ⟨.ld, .imm, 0, 0, 7⟩) := by decide +kernel
  refine ⟨by decide +kernel, hy, by decide +kernel, by decide +kernel, ?_⟩
  rintro ⟨out', hout, hsame⟩
  obtain rfl := (Prod.mk.inj (Except.ok.inj (hout.symm.trans hy))).2
  exact absurd (hsame.args rfl) (by decide)

end BSVM
