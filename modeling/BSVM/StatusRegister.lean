/-
# `BSVM.StatusRegister` — who writes `sr`

The flag setters change one of the four low bits, so that the high half of `sr`
is what `initVM` made of it.  Apart from the instructions with a result and `CMP`
only `RST` writes it at all (`OpCode.writesSr`); a system call pops its arguments
with `instrPOP`, which does not.

Between an instruction that sets the flags and a conditional jump there may be any
number of other steps (`QuietStep`): the jump tests what that instruction left.
-/
import BSVM.Atomic

namespace BSVM

variable {host : Host} {vm vm' w : VM} {i : Instruction} {status : VmError}

/-! ## The bits that are not flags -/

/-- Bit 4 is set, bits 5 to 7 are not. -/
def FixedBits (sr : Byte) : Prop :=
  sr &&& 0xF0 = 0x10

theorem FixedBits.init : FixedBits initVM.sr :=
  rfl

theorem FixedBits.bits {sr : Byte} (h : FixedBits sr) :
    sr.getLsbD 4 = true ∧ ∀ k, 5 ≤ k → sr.getLsbD k = false := by
  have hbit : ∀ k, (sr.getLsbD k && (0xF0 : Byte).getLsbD k) = (0x10 : Byte).getLsbD k := by
    intro k
    rw [← BitVec.getLsbD_and, h]
  refine ⟨(Bool.and_eq_true_iff.mp (hbit 4)).1, fun k hk => ?_⟩
  rcases Nat.lt_or_ge k 8 with hlt | hge
  · obtain rfl | rfl | rfl : k = 5 ∨ k = 6 ∨ k = 7 := by omega
    · exact (Bool.and_eq_false_iff.mp (hbit 5)).resolve_right (by decide)
    · exact (Bool.and_eq_false_iff.mp (hbit 6)).resolve_right (by decide)
    · exact (Bool.and_eq_false_iff.mp (hbit 7)).resolve_right (by decide)
  · exact BitVec.getLsbD_of_ge sr k hge

theorem fixedBits_withFlags {sr : Byte} (h : FixedBits sr) (z n c o : Bool) :
    FixedBits (withFlags sr z n c o) :=
  (withFlags_high sr z n c o).trans h

theorem Effect.fixedBits (h : Effect host vm i status vm') (hvm : FixedBits vm.sr) :
    FixedBits vm'.sr := by
  cases h with
  | computed regs z n c o _ => exact fixedBits_withFlags hvm z n c o
  | reset _ => exact rfl
  | trapped _ htrap => exact htrap.sr ▸ hvm
  | copied _ _ hcopy => exact hcopy.sr ▸ hvm
  | _ => exact hvm

theorem Reachable.fixedBits (h : Reachable vm) : FixedBits vm.sr := by
  refine h.induction (P := fun vm => FixedBits vm.sr) (fun _ _ => FixedBits.init)
    fun vm vm' hstep hvm => ?_
  exact hstep.keeps (P := fun vm => FixedBits vm.sr) (fun _ _ h => h)
    (fun _ _ _ _ _ hvm heff => heff.fixedBits hvm) hvm

/-! ## The instructions that write it -/

def OpCode.writesSr (opcode : OpCode) : Bool :=
  opcode.setsFlags || opcode = .rst

theorem Effect.sr_eq (h : Effect host vm i status vm') (hop : i.opcode.writesSr = false) :
    vm'.sr = vm.sr := by
  rw [OpCode.writesSr, Bool.or_eq_false_iff, decide_eq_false_iff_not] at hop
  cases h with
  | computed _ _ _ _ _ hsets => exact absurd hsets (Bool.eq_false_iff.mp hop.1)
  | reset hrst => exact absurd hrst hop.2
  | trapped _ htrap => exact htrap.sr
  | copied _ _ hcopy => exact hcopy.sr
  | _ => rfl

/-- A step with such an instruction, whatever it returns. -/
theorem Executes.sr_eq (hexec : Executes host vm i) (hop : i.opcode.writesSr = false)
    (h : cpuStep host vm = .ok (status, vm')) : vm'.sr = vm.sr := by
  obtain ⟨vm₁, pc, heff, rfl⟩ := hexec.effect h
  exact heff.sr_eq hop

/-! ## Runs without them -/

/-- A call of `cpu_step` that executes nothing, or nothing that writes `sr`. -/
def QuietStep (vm vm' : VM) : Prop :=
  ∃ host status, cpuStep host vm = .ok (status, vm') ∧
    ∀ i, Executes host vm i → i.opcode.writesSr = false

theorem QuietStep.sr_eq (h : QuietStep vm vm') : vm'.sr = vm.sr := by
  obtain ⟨host, status, hstep, hquiet⟩ := h
  rcases cpuStep_cases hstep with ⟨-, rfl⟩ | ⟨i, hexec⟩
  · rfl
  · exact hexec.sr_eq (hquiet i hexec) hstep

theorem quiet_run (h : Relation.ReflTransGen QuietStep vm w) : w.sr = vm.sr := by
  induction h with
  | refl => rfl
  | tail _ hlast ih => exact hlast.sr_eq.trans ih

/-- The tests of the conditional jumps see `sr` only. -/
theorem skips_sr (j : Condition) (mode : Mode) (vm : VM) :
    j.skips mode vm = j.skips mode { initVM with sr := vm.sr } := by
  cases j <;> cases mode <;> rfl

theorem skips_congr (h : w.sr = vm.sr) (j : Condition) (mode : Mode) :
    j.skips mode w = j.skips mode vm := by
  rw [skips_sr, h, ← skips_sr]

/-- **The status register is framed**: bits 4 to 7 are as `initVM` left them, a step
with any other instruction leaves `sr` alone, and a conditional jump that comes any
number of such steps after `vm` jumps on the flags of `vm`. -/
theorem status_register_framed :
    (∀ vm, Reachable vm → vm.sr.getLsbD 4 = true ∧ ∀ k, 5 ≤ k → vm.sr.getLsbD k = false) ∧
    (∀ host vm i status vm', Executes host vm i → i.opcode.writesSr = false →
      cpuStep host vm = .ok (status, vm') → vm'.sr = vm.sr) ∧
    ∀ vm w, Relation.ReflTransGen QuietStep vm w →
      ∀ host (j : Condition) (k : Instruction) handler jmp,
        getHandler host j.opcode k.mode = some handler →
        getHandler host .jmp k.mode = some jmp →
        handler w k = if j.skips k.mode vm then .ok (.ok, w) else jmp w k := by
  refine ⟨fun vm hvm => hvm.fixedBits.bits, ?_, ?_⟩
  · intro host vm i status vm' hexec hop hstep
    exact hexec.sr_eq hop hstep
  · intro vm w hrun host j k handler jmp hj hjmp
    obtain ⟨jmp', hjmp', rfl⟩ := conditional_handler hj
    obtain rfl : jmp' = jmp := Option.some.inj (hjmp'.symm.trans hjmp)
    rw [skipIf, skips_congr (quiet_run hrun)]

/-- `CMP R0, 5`, `LD R1, 7`. -/
def oneCompare : Binary where
  headers := ⟨0, 0, 22, 0⟩
  bytecode := [4, 1, 0, 5, 0, 0, 0, 0, 0, 0, 0, 13, 1, 1, 7, 0, 0, 0, 0, 0, 0, 0]
  data := []

/-- `JLT 100` behind the `LD` jumps on the flags of the `CMP`. -/
theorem status_register_framed_cmp :
    (machineAfter oneCompare 1).sr = 0x15 ∧
    ((machineAfter oneCompare 1).sr.getLsbD 4 = true ∧
      ∀ k, 5 ≤ k → (machineAfter oneCompare 1).sr.getLsbD k = false) ∧
    (machineAfter oneCompare 2).sr = (machineAfter oneCompare 1).sr ∧
    ∃ handler jmp, getHandler default .jlt .imm = some handler ∧
      getHandler default .jmp .imm = some jmp ∧
      handler (machineAfter oneCompare 2) ⟨.jlt, .imm, 0, 0, 100⟩ =
        if Condition.lt.skips .imm (machineAfter oneCompare 1) then
          .ok (.ok, machineAfter oneCompare 2)
        else jmp (machineAfter oneCompare 2) ⟨.jlt, .imm, 0, 0, 100⟩ := by
  obtain ⟨hbits, hframe, hjump⟩ := status_register_framed
  have hcmp : Step (machineAfter oneCompare 0) (machineAfter oneCompare 1) := ⟨default, .ok, rfl⟩
  have hld : Executes default (machineAfter oneCompare 1) ⟨.ld, .imm, 1, 0, 7⟩ :=
    ⟨by decide, ⟨11, by decide, rfl⟩, _, rfl⟩
  have hquiet : QuietStep (machineAfter oneCompare 1) (machineAfter oneCompare 2) := by
    refine ⟨default, .ok, rfl, fun i hexec => ?_⟩
    obtain rfl := hld.unique hexec
    rfl
  refine ⟨rfl, hbits _ ⟨oneCompare, 0, .ok, _, rfl, .single hcmp⟩, ?_, _, _, rfl, rfl, ?_⟩
  · exact hframe default _ _ .ok _ hld rfl rfl
  · exact hjump _ _ (.single hquiet) default .lt ⟨.jlt, .imm, 0, 0, 100⟩ _ _ rfl rfl

end BSVM
