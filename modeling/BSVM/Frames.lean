/-
# `BSVM.Frames` — a call, the callee, and the return

    CALL     vm  → vm₁     the return address under the caller's part of the stack
    …        vm₁ → vm₂     the callee: `sp` stays under the return address, and so
                           does whatever else is written (`CalleeStep`)
    RTN      vm₂ → vm₃     with `sp` where `CALL` left it

The callee may push and pop, call others, jump, and write to the data segment and
the heap.  What it does to `pc` is not constrained: the return address is read off
the stack.

`RTN` goes where `CALL` stood, plus its size, with one exception.  `cpu_step` takes
a `pc` that is still the same for one that is to be moved on, so an `RTN` that
returns to itself is passed over.
-/
import BSVM.Endings
import BSVM.Footprint
import BSVM.Preservation

namespace BSVM

variable {host : Host} {vm vm' vm₁ vm₂ : VM} {i : Instruction} {frame : Nat}

/-- A step that leaves the bytes from `frame` on to the caller. -/
def CalleeStep (frame : Nat) (vm vm' : VM) : Prop :=
  ∃ host i, Executes host vm i ∧ cpuStep host vm = .ok (.ok, vm') ∧
    vm'.sp.toNat ≤ frame ∧ footprint vm i ⊆ Set.Iio frame

/-- Any number of them. -/
abbrev CalleeSteps (frame : Nat) : VM → VM → Prop := Relation.ReflTransGen (CalleeStep frame)

/-- A push stays where `sp` is. -/
theorem footprint_push (hop : i.opcode = .push ∨ i.opcode = .call) (hsp : vm.sp.toNat ≤ frame) :
    footprint vm i ⊆ Set.Iio frame := by
  intro k hk
  have hin : k ∈ Set.Ico (vm.sp.toNat - 8) vm.sp.toNat := by
    rcases hop with hop | hop <;> rw [footprint, hop] at hk <;> exact hk
  exact hin.2.trans_le hsp

theorem CalleeStep.keeps (h : CalleeStep frame vm vm') {k : Fin MEM_SIZE} (hk : frame ≤ k) :
    vm'.memory k = vm.memory k := by
  obtain ⟨host, i, hexec, hstep, -, hfoot⟩ := h
  exact hexec.confined hstep fun hin => Nat.not_lt.mpr hk (hfoot hin)

theorem CalleeSteps.keeps (h : CalleeSteps frame vm vm') {k : Fin MEM_SIZE} (hk : frame ≤ k) :
    vm'.memory k = vm.memory k := by
  induction h with
  | refl => rfl
  | tail _ hstep ih => exact (hstep.keeps hk).trans ih

/-- Two memories that agree from the word on. -/
theorem readWord_agree {m m' : Memory} {lo : Nat} (h : ∀ k : Fin MEM_SIZE, lo ≤ k → m' k = m k) :
    readWord m' lo = readWord m lo := by
  refine LittleEndian.join_congr fun j _ => ?_
  rw [byteAt, byteAt]
  split
  · exact h _ (Nat.le_add_right lo j)
  · rfl

/-- What a call that succeeds leaves. -/
theorem Executes.called (hexec : Executes host vm i) (hop : i.opcode = .call)
    (h : cpuStep host vm = .ok (.ok, vm')) :
    ∃ size pc, modeSize i.mode = .ok size ∧ STACK_BASE < vm.sp.toNat ∧ vm.sp.toNat ≤ MEM_SIZE ∧
      vm' = vm.pushed (vm.pc + BitVec.ofNat 64 size) pc := by
  obtain ⟨handler, size, vm₁, hh, hsize, hrun, rfl⟩ := cpuStep_executes hexec h
  rw [hop] at hh
  have hout := call_called hh _ hrun
  cases hout with
  | refused hst => exact absurd rfl hst
  | called target hsize' hlo hhi =>
      cases hsize.symm.trans hsize'
      rw [advance]
      split
      · exact ⟨size, _, hsize, hlo, hhi, rfl⟩
      · exact ⟨size, target, hsize, hlo, hhi, rfl⟩

theorem pushed_sp (hsp : STACK_BASE < vm.sp.toNat) (v pc : Word) :
    (vm.pushed v pc).sp.toNat = vm.sp.toNat - 8 := by
  have hlt := vm.sp.isLt
  simp at hsp
  show (vm.sp - 8).toNat = _
  rw [BitVec.toNat_sub]
  simp
  omega

/-- `RTN` to an address in the code segment. -/
theorem Executes.returned (hexec : Executes host vm i) (hop : i.opcode = .rtn)
    (hroom : vm.sp.toNat + 8 ≤ MEM_SIZE)
    (hback : (readWord vm.memory vm.sp.toNat).toNat < DATA_BASE) :
    cpuStep host vm = .ok (.ok, { vm with
      sp := vm.sp + 8
      pc := if readWord vm.memory vm.sp.toNat = vm.pc then vm.pc + 2
            else readWord vm.memory vm.sp.toNat }) := by
  obtain ⟨hpc, ⟨consumed, hfetch, hsize⟩, handler, hh⟩ := hexec
  rw [cpuStep_at hpc hfetch hsize hh]
  rw [hop] at hh
  cases hm : i.mode <;> rw [hm] at hh <;> cases hh
  rw [hm] at hsize
  cases hsize
  have hlt : vm.sp.toNat < MEM_SIZE := by omega
  have hback' := hback
  simp at hback'
  have hint : (readWord vm.memory vm.sp.toNat).toInt = (readWord vm.memory vm.sp.toNat).toNat :=
    BitVec.toInt_eq_toNat_of_lt (by omega)
  rw [instrRTN, if_neg (Nat.not_le.mpr hlt), memRead64_sp 0 hlt, if_pos hroom]
  simp only [Except.ok_bind, ne_eq, not_true, if_false, hint, Nat.cast_le,
    if_neg (Nat.not_le.mpr hback)]
  simp only [Except.pure_eq, Except.map, advance, true_and]
  split
  · next hself => simp [hself]
  · rfl

/-- **A call comes back.**  When a callee that leaves the caller's bytes alone has put
`sp` back, `RTN` finds the return address: the caller has its stack again, unchanged,
behind the call. -/
theorem call_returns (vm vm₁ vm₂ : VM) (host host' : Host) (i j : Instruction) (size : Nat) :
    Reachable vm → Executes host vm i → i.opcode = .call → modeSize i.mode = .ok size →
      cpuStep host vm = .ok (.ok, vm₁) →
      CalleeSteps vm₁.sp.toNat vm₁ vm₂ → vm₂.sp = vm₁.sp →
      Executes host' vm₂ j → j.opcode = .rtn →
      let back := vm.pc + BitVec.ofNat 64 size
      (∀ k : Fin MEM_SIZE, vm.sp.toNat ≤ k → vm₂.memory k = vm.memory k) ∧
        cpuStep host' vm₂ = .ok (.ok, { vm₂ with
          sp := vm.sp
          pc := if back = vm₂.pc then vm₂.pc + 2 else back }) := by
  intro hreach hexec hop hsize hcall hcallee hsp hexec' hop' back
  obtain ⟨size', pc, hsize', hlo, hhi, rfl⟩ := hexec.called hop hcall
  cases hsize.symm.trans hsize'
  have hsp₁ := pushed_sp hlo back pc
  have hsp₂ : vm₂.sp.toNat = vm.sp.toNat - 8 := by rw [hsp, hsp₁]
  have hroom : vm.sp.toNat - 8 + 8 = vm.sp.toNat := Nat.sub_add_cancel (by simp at hlo; omega)
  -- the word that `CALL` pushed is still there
  have hword : readWord vm₂.memory vm₂.sp.toNat = back := by
    rw [hsp, readWord_agree fun k hk => hcallee.keeps hk, hsp₁]
    exact readWord_writeWord back (hroom.le.trans hhi)
  refine ⟨fun k hk => ?_, ?_⟩
  · rw [hcallee.keeps (hsp₁.le.trans ((Nat.sub_le _ 8).trans hk))]
    refine writeWord_outside fun hin => ?_
    rw [Set.mem_Ico, hroom] at hin
    exact Nat.not_lt.mpr hk hin.2
  · have hback : back.toNat < DATA_BASE := by
      have hends := hexec.ends hsize
      simp at hends
      show (vm.pc + BitVec.ofNat 64 size).toNat < _
      rw [toNat_add_ofNat (by omega)]
      simpa using hends
    have hsp' : vm₂.sp + 8 = vm.sp := by
      rw [hsp]
      exact BitVec.sub_add_cancel vm.sp 8
    rw [hexec'.returned hop' (by rw [hsp₂, hroom]; exact hhi) (hword ▸ hback), hword, hsp']

/-- It is back at `HALT` with an empty stack. -/
theorem call_returns_halt :
    (∀ k : Fin MEM_SIZE, (machineAfter oneCall 0).sp.toNat ≤ k →
      (machineAfter oneCall 3).memory k = (machineAfter oneCall 0).memory k) ∧
    cpuStep default (machineAfter oneCall 3) = .ok (.ok, { machineAfter oneCall 3 with
      sp := (machineAfter oneCall 0).sp
      pc := if 11 = (machineAfter oneCall 3).pc then (machineAfter oneCall 3).pc + 2
            else 11 }) := by
  have hcall : Executes default (machineAfter oneCall 0) ⟨.call, .imm, 0, 0, 13⟩ :=
    ⟨by decide, ⟨11, by decide, rfl⟩, _, rfl⟩
  have hpush : Executes default (machineAfter oneCall 1) ⟨.push, .imm, 0, 0, 7⟩ :=
    ⟨by decide, ⟨11, by decide, rfl⟩, _, rfl⟩
  have hpop : Executes default (machineAfter oneCall 2) ⟨.pop, .regu, 1, 0, 0⟩ :=
    ⟨by decide, ⟨3, by decide, rfl⟩, _, rfl⟩
  have hrtn : Executes default (machineAfter oneCall 3) ⟨.rtn, .none, 0, 0, 0⟩ :=
    ⟨by decide, ⟨2, by decide, rfl⟩, _, rfl⟩
  have h₁ : CalleeStep (machineAfter oneCall 1).sp.toNat (machineAfter oneCall 1)
      (machineAfter oneCall 2) :=
    ⟨_, _, hpush, rfl, by decide, footprint_push (Or.inl rfl) (by decide)⟩
  have h₂ : CalleeStep (machineAfter oneCall 1).sp.toNat (machineAfter oneCall 2)
      (machineAfter oneCall 3) :=
    ⟨_, _, hpop, rfl, by decide, Set.empty_subset _⟩
  have hreach : Reachable (machineAfter oneCall 0) := ⟨oneCall, 0, .ok, _, rfl, .refl⟩
  exact call_returns _ _ _ _ _ _ _ 11 hreach hcall rfl rfl rfl
    ((Relation.ReflTransGen.single h₁).tail h₂) (by decide) hrtn rfl

end BSVM
