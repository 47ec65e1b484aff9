/-
# `BSVM.Fetch` — fetching whatever bytes the code segment holds

What `cpu_step` makes of the bytes at `pc`, before it has a handler:

    fewer than two bytes are left    the mode is never set, and tested
    no operation                     exit
    no mode                          mode_size is indexed out of range
    not enough bytes left            VM_TRUNCATED_INSTR
    no handler                       VM_UNKNOWN_INSTR

`cpu_step` counts one byte of the code segment less than there is, so the
first line is about the last two addresses.
-/
import BSVM.CodeSegment
import BSVM.Decode

namespace BSVM

/-! ## What is asked -/

/-- The code bytes from `pc` on, and nothing behind them. -/
def codeBuffer (vm : VM) : Buffer := fun k =>
  if vm.pc.toNat + k < DATA_BASE then vm.load (vm.pc.toNat + k) else .error .memory

/-- `cpu_step` up to its first comparison. -/
def fetchSized (host : Host) (vm : VM) : Exec (Nat × Nat × Instruction) := do
  let (consumed, instr) ← fetch host vm
  let size ← modeSize instr.mode
  return (consumed, size, instr)

/-- The bytes at `pc` are an instruction that has a handler and ends inside the
code segment. -/
def CompleteKnown (host : Host) (vm : VM) : Prop :=
  ∃ opcode size handler, OpCode.ofByte? (byteAt vm.memory vm.pc.toNat) = some opcode ∧
    let mode := Mode.ofByte (byteAt vm.memory (vm.pc.toNat + 1))
    modeSize mode = .ok size ∧ vm.pc.toNat + size ≤ DATA_BASE ∧
      getHandler host opcode mode = some handler

/-- What is asked of the first half of `cpu_step`, whatever its local `instr`
holds before. -/
structure FetchSafe (vm : VM) : Prop where
  /-- only code bytes are read -/
  reads : ∀ host, fetch host vm =
      instructionDecode host.instr (codeBuffer vm) (DATA_BASE - vm.pc.toNat - 1) ∧
    Avoids (fetch host vm) .memory
  /-- the mode that is tested comes from the bytes -/
  modeSet : ∀ host host', (fetch host vm).map (fun r => r.2.mode) =
    (fetch host' vm).map (fun r => r.2.mode)
  /-- no table is indexed out of range -/
  inRange : ∀ host, Avoids (fetchSized host vm) .table
  noExit : ∀ host, Avoids (fetchSized host vm) .exit
  reported : ∀ host, ¬ CompleteKnown host vm →
    cpuStep host vm = .ok (.truncatedInstr, vm) ∨ cpuStep host vm = .ok (.unknownInstr, vm)

/-! ## What is fetched -/

variable {host : Host} {vm : VM}

theorem load_code {k : Nat} (h : vm.pc.toNat + k < DATA_BASE) :
    vm.load (vm.pc.toNat + k) = .ok (byteAt vm.memory (vm.pc.toNat + k)) :=
  VM.load_lt (by simp at h ⊢; omega)

theorem fetch_eq (host : Host) (vm : VM) :
    fetch host vm =
      if DATA_BASE - vm.pc.toNat - 1 < 2 then .ok (0, host.instr)
      else
        match OpCode.ofByte? (byteAt vm.memory vm.pc.toNat) with
        | none => .error .exit
        | some opcode =>
            let mode := Mode.ofByte (byteAt vm.memory (vm.pc.toNat + 1))
            if mode = .none then .ok (2, { host.instr with opcode := opcode, mode := mode })
            else do
              let size ← modeSize mode
              if DATA_BASE - vm.pc.toNat - 1 - 2 < size then
                return (2, { host.instr with opcode := opcode, mode := mode })
              else
                return (size, decoded host.instr opcode mode fun k =>
                  byteAt vm.memory (vm.pc.toNat + k)) :=
  instructionDecode_eq (f := fun k => byteAt vm.memory (vm.pc.toNat + k))
    (fun k hk => load_code (by omega)) host.instr

/-- The decoder does not look behind the end of the code segment. -/
theorem fetch_reads (host : Host) (vm : VM) :
    fetch host vm =
      instructionDecode host.instr (codeBuffer vm) (DATA_BASE - vm.pc.toNat - 1) := by
  refine instructionDecode_congr (fun k hk => ?_) host.instr
  rw [codeBuffer, if_pos (by omega)]

/-- The two bytes there are name an operation and a mode. -/
structure HeadKnown (vm : VM) : Prop where
  room : vm.pc.toNat + 2 < DATA_BASE
  opcode : (byteAt vm.memory vm.pc.toNat).toNat < OP_COUNT
  mode : (byteAt vm.memory (vm.pc.toNat + 1)).toNat < MODE_COUNT

/-- Then something is fetched, of a mode that has a size. -/
theorem HeadKnown.fetches (h : HeadKnown vm) :
    ∃ opcode size, OpCode.ofByte? (byteAt vm.memory vm.pc.toNat) = some opcode ∧
      let mode := Mode.ofByte (byteAt vm.memory (vm.pc.toNat + 1))
      modeSize mode = .ok size ∧
      ∀ host, ∃ consumed instr, fetch host vm = .ok (consumed, instr) ∧ instr.opcode = opcode ∧
        instr.mode = mode ∧ (consumed = size → vm.pc.toNat + size ≤ DATA_BASE) := by
  obtain ⟨opcode, hop⟩ := ofByte?_isSome h.opcode
  obtain ⟨size, hsize, hlo, -⟩ := modeSize_of_mem (ofByte_mem h.mode)
  have hroom := h.room
  refine ⟨opcode, size, hop, hsize, fun host => ?_⟩
  rw [fetch_eq, if_neg (by omega), hop]
  generalize Mode.ofByte (byteAt vm.memory (vm.pc.toNat + 1)) = mode at hsize ⊢
  dsimp only
  by_cases hnone : mode = .none
  · rw [if_pos hnone]
    exact ⟨_, _, rfl, rfl, rfl, fun _ => by omega⟩
  · rw [if_neg hnone, hsize, Except.ok_bind]
    split
    · exact ⟨_, _, rfl, rfl, rfl, fun htwo => absurd (htwo ▸ hsize) (modeSize_ne_two hnone)⟩
    · exact ⟨_, _, rfl, rfl, rfl, fun _ => by omega⟩

/-- What it takes for the fetch to be safe is enough. -/
theorem HeadKnown.safe (h : HeadKnown vm) : FetchSafe vm := by
  obtain ⟨opcode, size, hop, hsize, hfetch⟩ := h.fetches
  have hsized : ∀ host, ∃ r, fetchSized host vm = .ok r := by
    intro host
    obtain ⟨consumed, instr, hf, -, hm, -⟩ := hfetch host
    rw [fetchSized, hf, Except.ok_bind]
    dsimp only
    rw [hm, hsize]
    exact ⟨_, rfl⟩
  refine ⟨fun host => ⟨fetch_reads host vm, ?_⟩, fun host host' => ?_, fun host => ?_,
    fun host => ?_, fun host hno => ?_⟩
  · obtain ⟨consumed, instr, hf, -⟩ := hfetch host
    rw [hf]
    exact .ok
  · obtain ⟨consumed, instr, hf, -, hm, -⟩ := hfetch host
    obtain ⟨consumed', instr', hf', -, hm', -⟩ := hfetch host'
    rw [hf, hf']
    exact congrArg Except.ok (hm.trans hm'.symm)
  · obtain ⟨r, hr⟩ := hsized host
    rw [hr]
    exact .ok
  · obtain ⟨r, hr⟩ := hsized host
    rw [hr]
    exact .ok
  · obtain ⟨consumed, instr, hf, hiop, him, hend⟩ := hfetch host
    have hroom := h.room
    rw [cpuStep, if_neg (by omega), hf, Except.ok_bind]
    dsimp only
    rw [him, hsize, Except.ok_bind]
    split
    · exact Or.inl rfl
    · next heq =>
        rw [hiop]
        cases hh : getHandler host opcode _ with
        | none => exact Or.inr rfl
        | some handler =>
            have hsame := hend (not_not.mp heq)
            exact absurd ⟨opcode, size, handler, hop, hsize, hsame, hh⟩ hno

/-! ## What goes wrong otherwise -/

/-- A host whose `instr` has the given mode. -/
def hostWith (mode : Mode) : Host :=
  { (default : Host) with instr := { (default : Host).instr with mode := mode } }

theorem FetchSafe.headKnown (h : FetchSafe vm) (hpc : vm.pc.toNat < DATA_BASE) :
    HeadKnown vm := by
  have hroom : vm.pc.toNat + 2 < DATA_BASE := by
    refine Nat.not_le.mp fun hend => ?_
    have hset := h.modeSet (hostWith .none) (hostWith .imm)
    rw [fetch_eq, fetch_eq, if_pos (by omega), if_pos (by omega)] at hset
    cases hset
  have hop : (byteAt vm.memory vm.pc.toNat).toNat < OP_COUNT := by
    refine Nat.not_le.mp fun hbad => h.noExit default ?_
    rw [fetchSized, fetch_eq, if_neg (by omega), ofByte?_eq_none hbad]
    rfl
  refine ⟨hroom, hop, Nat.not_le.mp fun hbad => h.inRange default ?_⟩
  obtain ⟨opcode, hop⟩ := ofByte?_isSome hop
  rw [fetchSized, fetch_eq, if_neg (by omega), hop, ofByte_other hbad]
  rfl

/-- **Fetching is safe exactly where two bytes and one more are left, and they
name an operation and a mode.** -/
theorem fetch_safe_iff (vm : VM) :
    vm.pc.toNat < DATA_BASE →
      (FetchSafe vm ↔ vm.pc.toNat + 2 < DATA_BASE ∧
        (byteAt vm.memory vm.pc.toNat).toNat < OP_COUNT ∧
        (byteAt vm.memory (vm.pc.toNat + 1)).toNat < MODE_COUNT) := by
  intro hpc
  constructor
  · intro h
    have hhead := h.headKnown hpc
    exact ⟨hhead.room, hhead.opcode, hhead.mode⟩
  · rintro ⟨hroom, hop, hmode⟩
    exact HeadKnown.safe ⟨hroom, hop, hmode⟩

/-- `NOP` at address 0. -/
def idler : VM :=
  { initVM with memory := fun k => if (k : Nat) = 0 then 20 else 0 }

theorem fetch_safe_nop : FetchSafe idler :=
  (fetch_safe_iff idler (by decide)).mpr ⟨by decide, by decide, by decide⟩

/-- A byte that is no operation, at address 0, ends the process. -/
theorem unknown_opcode_exits :
    let vm : VM := { initVM with memory := fun k => if (k : Nat) = 0 then 255 else 0 }
    cpuStep default vm = .error .exit ∧ ¬ FetchSafe vm := by
  intro vm
  have hexit : fetch default vm = .error .exit := rfl
  refine ⟨rfl, fun h => h.noExit default ?_⟩
  rw [fetchSized, hexit]
  rfl

end BSVM
