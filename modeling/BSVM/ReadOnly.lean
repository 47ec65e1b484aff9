/-
# `BSVM.ReadOnly` — is the code read only?

`CodeSegment` finds the stores of a step that has a next machine.  A word access tests
`addr + 7`, which wraps, and the tests of the system calls wrap as well, so a store can
also go over the end of the addresses and come round to address 0.  C leaves such a step
undefined, and the handler ends in an error instead of a machine.  `Overshoots` lists these
instructions by what they are and find:

    ST, SWP    an address in the last seven
    FAS        the same for either of its two, or a number that slips
    TRAP       an id that is not in the table, or a range that comes round

`keepsCode_iff` says that the code is read only for every instruction but these and the
stores of `Rewrites`.
-/
import BSVM.Atomic
import BSVM.Footprint
import BSVM.Preservation

namespace BSVM

variable {host : Host} {vm vm' : VM} {i : Instruction}

/-! ## Accesses that are not made -/

/-- Both tests of an address let it pass. -/
structure Passes (addr : Word) : Prop where
  data : DATA_BASE ≤ addr.toNat
  inside : (addr + 7).toNat < MEM_SIZE

theorem Wraps.passes {addr : Word} (h : Wraps addr) : Passes addr := by
  rw [Wraps] at h
  constructor
  · simp only [DATA_BASE]
    omega
  · simp only [MEM_SIZE]
    bv_omega

theorem Wraps.outside {addr : Word} (h : Wraps addr) : ¬ addr.toNat + 7 < MEM_SIZE := by
  rw [Wraps] at h
  simp only [MEM_SIZE]
  omega

/-- An address that passes is that of a word, or wraps. -/
theorem passes_word_iff {addr : Word} :
    Passes addr ↔ Wraps addr ∨ (DATA_BASE ≤ addr.toNat ∧ addr.toNat + 7 < MEM_SIZE) := by
  constructor
  · rintro ⟨hdata, hinside⟩
    by_cases h : Wraps addr
    · exact .inl h
    · refine .inr ⟨hdata, ?_⟩
      exact Classical.byContradiction fun hge => h (wraps_of (Nat.not_le.mpr hinside) hge)
  · rintro (h | ⟨hdata, hinside⟩)
    · exact h.passes
    · exact ⟨hdata, Nat.not_le.mp fun hge => not_inside hge hinside⟩

theorem getReg_raises {α : Type} {k : Byte} {g : Word → Exec α} :
    Raises (vm.getReg k >>= g) ↔
      N_REG ≤ k.toNat ∨ (k.toNat < N_REG ∧ Raises (g (vm.reg k))) := by
  by_cases h : k.toNat < N_REG
  · rw [VM.getReg_reg h, Except.ok_bind]
    simp only [h, Nat.not_le.mpr h, true_and, false_or]
  · have hge := Nat.not_lt.mp h
    rw [VM.getReg_ge hge, Except.error_bind, Raises.error_iff]
    simp only [hge, true_or]

theorem setReg_raises {α : Type} {k : Byte} {v : Word} {g : VM → Exec α} :
    Raises (vm.setReg k v >>= g) ↔ N_REG ≤ k.toNat ∨ ∃ hk : k.toNat < N_REG,
      Raises (g { vm with registers := Function.update vm.registers ⟨k.toNat, hk⟩ v }) := by
  by_cases h : k.toNat < N_REG
  · rw [VM.setReg_lt h, Except.ok_bind]
    simp only [h, Nat.not_le.mpr h, false_or, exists_true_left]
  · have hge := Nat.not_lt.mp h
    rw [VM.setReg_ge hge, Except.error_bind, Raises.error_iff]
    simp only [hge, true_or]

/-- What is behind a read that is refused does not fail. -/
theorem memRead64_raises {addr out : Word} {g : VmError × Word → Exec Result}
    (hg : ¬ Raises (g (.illMemAccess, out))) :
    Raises (memRead64 vm addr out >>= g) ↔
      Wraps addr ∨ (addr.toNat + 7 < MEM_SIZE ∧
        Raises (g (.ok, readWord vm.memory addr.toNat))) := by
  by_cases hin : addr.toNat + 7 < MEM_SIZE
  · have hwraps : ¬ Wraps addr := fun h => h.outside hin
    rw [memRead64_inside hin, Except.ok_bind]
    simp only [hin, hwraps, true_and, false_or]
  · rw [memRead64_eq, if_neg hin]
    simp only [hin, false_and, or_false]
    by_cases hge : MEM_SIZE ≤ (addr + 7).toNat
    · rw [if_pos hge, Except.ok_bind]
      refine iff_of_false hg fun h => ?_
      exact Nat.not_le.mpr h.passes.inside hge
    · rw [if_neg hge, Except.error_bind, Raises.error_iff]
      exact iff_of_true trivial (wraps_of hge hin)

theorem memWrite64_raises {addr v : Word} : Raises (memWrite64 vm addr v) ↔ Wraps addr := by
  rw [memWrite64_eq, Raises.guard_iff]
  constructor
  · rintro ⟨hpass, hraise⟩
    refine wraps_of hpass fun hin => ?_
    rw [if_pos hin] at hraise
    exact Raises.ok_iff.mp hraise
  · intro h
    rw [if_neg h.outside]
    exact ⟨Nat.not_le.mpr h.passes.inside, Raises.error_iff.mpr trivial⟩

/-! ## Stores and swaps -/

theorem bodyST_raises {a : Byte} (ha : a.toNat < N_REG) (addr : Word) :
    Raises (bodyST vm a addr) ↔ Wraps addr := by
  rw [bodyST, getReg_raises, memWrite64_raises]
  simp only [ha, Nat.not_le.mpr ha, true_and, false_or]

theorem bodySWP_raises {a : Byte} (ha : a.toNat < N_REG) (addr : Word) :
    Raises (bodySWP vm a addr) ↔ Wraps addr := by
  rw [bodySWP, memRead64_raises (by exact fun h => Raises.ok_iff.mp h)]
  refine or_iff_left_of_imp ?_
  rintro ⟨hin, hraise⟩
  -- the write goes where the read was, and the register has been tested
  dsimp only at hraise
  rw [if_pos rfl, getReg_raises] at hraise
  obtain ⟨-, hraise⟩ := hraise.resolve_left (Nat.not_le.mpr ha)
  obtain hwrite | ⟨⟨status, vm₁⟩, -, hset⟩ := Raises.bind_iff.mp hraise
  · exact memWrite64_raises.mp hwrite
  · dsimp only at hset
    split at hset
    · obtain hge | ⟨_, hok⟩ := setReg_raises.mp hset
      · exact absurd ha (Nat.not_lt.mpr hge)
      · exact absurd hok Raises.ok_iff.mp
    · exact absurd hset Raises.ok_iff.mp

section
variable {op : AddrOp}
  (hop : i.a.toNat < N_REG → ∀ addr, Raises (op vm i.a addr) ↔ Wraps addr)
include hop

theorem inData_raises (ha : i.a.toNat < N_REG) (addr : Word) :
    Raises (inData op vm i.a addr) ↔ Wraps addr := by
  rw [inData, Raises.guard_iff, hop ha]
  exact and_iff_right_of_imp fun h => Nat.not_lt.mpr h.passes.data

theorem atDIR_raises : Raises (atDIR op vm i) ↔ i.a.toNat < N_REG ∧ Wraps i.args := by
  rw [atDIR, Raises.guard_iff, Nat.not_le]
  exact and_congr_right fun ha => inData_raises hop ha _

theorem atIND_raises :
    Raises (atIND op vm i) ↔ (i.a.toNat < N_REG ∧ i.b.toNat < N_REG) ∧ Wraps (vm.reg i.b) := by
  rw [atIND, Raises.guard_iff, not_or, Nat.not_le, Nat.not_le]
  refine and_congr_right fun h => ?_
  obtain ⟨ha, hb⟩ := h
  rw [getReg_raises, inData_raises hop ha]
  simp only [hb, Nat.not_le.mpr hb, true_and, false_or]

theorem atIDX_raises :
    Raises (atIDX op vm i) ↔
      (i.a.toNat < N_REG ∧ i.b.toNat < N_REG) ∧ Wraps (vm.reg i.b + i.args) := by
  rw [atIDX, Raises.guard_iff, not_or, Nat.not_le, Nat.not_le]
  refine and_congr_right fun h => ?_
  obtain ⟨ha, hb⟩ := h
  rw [getReg_raises, inData_raises hop ha]
  simp only [hb, Nat.not_le.mpr hb, true_and, false_or]

end

/-! ## Fetch and set -/

/-- A `FAS` gets to an access that does not exist. -/
inductive FasStops (vm : VM) (i : Instruction) : Prop
  | load (hregs : ¬ BadRegister i) (h : Wraps (fasLoad vm i))
  | store (hload : FasLoads vm i) (h : Wraps (fasStore vm i))
  | slip (h : Slips vm i) (hload : i.b.toNat < N_REG → Passes (fasLoad vm i))

theorem fasStops_iff : FasStops vm i ↔ (¬ BadRegister i ∧ Wraps (fasLoad vm i)) ∨
    (FasLoads vm i ∧ Wraps (fasStore vm i)) ∨
    (Slips vm i ∧ (i.b.toNat < N_REG → Passes (fasLoad vm i))) := by
  constructor
  · rintro (⟨hregs, h⟩ | ⟨hload, h⟩ | ⟨h, hload⟩)
    · exact .inl ⟨hregs, h⟩
    · exact .inr (.inl ⟨hload, h⟩)
    · exact .inr (.inr ⟨h, hload⟩)
  · rintro (⟨hregs, h⟩ | ⟨hload, h⟩ | ⟨h, hload⟩)
    · exact .load hregs h
    · exact .store hload h
    · exact .slip h hload

theorem fetchSet_raises {a : Byte} {addr t : Word} {addr' : VM → Exec Word}
    (haddr : ∀ ha : a.toNat < N_REG, addr' { vm with
      registers := Function.update vm.registers ⟨a.toNat, ha⟩
        (readWord vm.memory addr.toNat) } = .ok t) :
    Raises (fetchSet vm a addr addr') ↔
      Wraps addr ∨ (addr.toNat + 7 < MEM_SIZE ∧ (N_REG ≤ a.toNat ∨ Wraps t)) := by
  have hassoc : fetchSet vm a addr addr' = memRead64 vm addr 0 >>= fun r =>
      (if r.1 = .ok then bodyLD vm a r.2 else .ok (r.1, vm)) >>= fun r =>
        if r.1 = .ok then addr' r.2 >>= fun t => memWrite64 r.2 t 1 else .ok r := by
    rw [fetchSet, onWord, bind_assoc]
    rfl
  rw [hassoc, memRead64_raises (by exact fun h => Raises.ok_iff.mp h)]
  refine or_congr_right (and_congr_right fun _ => ?_)
  by_cases ha : a.toNat < N_REG
  · rw [if_pos rfl, bodyLD, VM.setReg_lt ha, Except.ok_bind, Except.pure_eq, Except.ok_bind,
      if_pos rfl, haddr ha, Except.ok_bind, memWrite64_raises]
    exact (or_iff_right (Nat.not_le.mpr ha)).symm
  · have hge := Nat.not_lt.mp ha
    rw [if_pos rfl, bodyLD, VM.setReg_ge hge, Except.error_bind, Except.error_bind]
    exact iff_of_true (Raises.error_iff.mpr trivial) (.inl hge)

theorem instrFASD_raises (hop : i.opcode = .fas) (hm : i.mode = .dir) :
    Raises (instrFASD vm i) ↔ FasStops vm i := by
  have hload : fasLoad vm i = i.args := by rw [fasLoad, hm]
  have hstore : fasStore vm i = i.args := by rw [fasStore, hm]
  have hbad : BadRegister i ↔ N_REG ≤ i.a.toNat := by
    simp [BadRegister, usesA, usesB, hop, hm]
  have hiff : Raises (instrFASD vm i) ↔ i.a.toNat < N_REG ∧ Wraps i.args := by
    refine atDIR_raises fun ha addr => ?_
    rw [fetchSet_raises (t := addr) fun _ => rfl]
    exact or_iff_left_of_imp fun h => h.2.resolve_left (Nat.not_le.mpr ha)
  rw [hiff]
  constructor
  · rintro ⟨ha, hwraps⟩
    exact .load (mt hbad.mp (Nat.not_le.mpr ha)) (hload ▸ hwraps)
  · rintro (⟨hregs, h⟩ | ⟨hl, h⟩ | ⟨h, -⟩)
    · exact ⟨Nat.not_le.mp (mt hbad.mpr hregs), hload ▸ h⟩
    · exact ⟨hl.reg, hstore ▸ h⟩
    · rcases h with ⟨hjump, -⟩ | ⟨-, huses, -⟩
      · rw [hop] at hjump
        cases hjump
      · rw [usesB, hop, hm] at huses
        cases huses

/-- The two modes with a base register. -/
theorem fasMem_raises {f : Word → Word} {addr' : VM → Exec Word} (hop : i.opcode = .fas)
    (huses : usesB i = true) (hload : fasLoad vm i = f (vm.reg i.b))
    (haddr : i.b.toNat < N_REG → ∀ ha : i.a.toNat < N_REG,
      addr' (vm.fetched i ⟨i.a.toNat, ha⟩) = .ok (fasStore vm i)) :
    Raises (if N_REG ≤ i.a.toNat ∧ N_REG ≤ i.b.toNat then .ok (.illRegister, vm) else do
        let b ← vm.getReg i.b
        if (f b).toNat < DATA_BASE then return (.illMemAccess, vm)
        else fetchSet vm i.a (f b) addr') ↔ FasStops vm i := by
  have hbad : BadRegister i ↔ N_REG ≤ i.a.toNat ∨ N_REG ≤ i.b.toNat := by
    simp [BadRegister, usesA, huses, hop]
  have hjump : OpCode.fas.isJump = false := rfl
  have hslips : Slips vm i ↔ BadRegister i ∧ ¬ (N_REG ≤ i.a.toNat ∧ N_REG ≤ i.b.toNat) := by
    simp [Slips, hjump, hop, huses]
  have hloads : FasLoads vm i ↔ i.a.toNat < N_REG ∧ DATA_BASE ≤ (fasLoad vm i).toNat ∧
      (fasLoad vm i).toNat + 7 < MEM_SIZE :=
    ⟨fun h => ⟨h.reg, h.data, h.inside⟩, fun h => ⟨h.1, h.2.1, h.2.2⟩⟩
  rw [fasStops_iff, hloads, hslips, hbad, Raises.guard_iff, getReg_raises, Except.pure_eq,
    Raises.guard_iff, ← hload, passes_word_iff, Nat.not_lt]
  by_cases hb : i.b.toNat < N_REG
  · have hb' := Nat.not_le.mpr hb
    have hdata : Wraps (fasLoad vm i) → DATA_BASE ≤ (fasLoad vm i).toNat := fun h => h.passes.data
    rw [fetchSet_raises (haddr hb)]
    by_cases ha : i.a.toNat < N_REG
    · have ha' := Nat.not_le.mpr ha
      simp only [ha, ha', hb, hb', and_false, false_and, not_false_eq_true, true_and, or_false,
        false_or]
      rw [and_or_left, and_iff_right_of_imp hdata, and_assoc]
    · have ha' := Nat.not_lt.mp ha
      simp only [ha, ha', hb, hb', and_false, false_and, not_false_eq_true, not_true, and_true,
        true_and, true_or, or_false, false_or, forall_const]
      rw [and_or_left, and_iff_right_of_imp hdata]
  · have hb' := Nat.not_lt.mp hb
    by_cases ha : i.a.toNat < N_REG
    · have ha' := Nat.not_le.mpr ha
      simp [ha, ha', hb, hb']
    · have ha' := Nat.not_lt.mp ha
      simp [ha, ha', hb, hb']

theorem fas_raises {handler : InstrHandler} (hop : i.opcode = .fas)
    (hh : dispatchFAS i.mode = some handler) : Raises (handler vm i) ↔ FasStops vm i := by
  cases hm : i.mode <;> rw [hm] at hh <;> cases hh
  · exact instrFASD_raises hop hm
  · have hload : fasLoad vm i = vm.reg i.b := by rw [fasLoad, hm]
    refine fasMem_raises (f := id) hop (by rw [usesB, hop, hm]; rfl) hload fun _ _ => ?_
    rw [fasStore, hm]
  · have hload : fasLoad vm i = vm.reg i.b + i.args := by rw [fasLoad, hm]
    refine fasMem_raises (f := (· + i.args)) hop (by rw [usesB, hop, hm]; rfl) hload fun hb ha => ?_
    rw [VM.getReg_reg hb, fetched_reg ⟨_, ha⟩ rfl hb, fasStore, hm]
    rfl

/-! ## System calls -/

/-- A range that is not in memory, and that nothing refuses, is not accessed. -/
theorem strays_raises {id : Nat} {handler : SysCall} (hid : id ∈ [1, 8, 12, 13])
    (hh : dispatchSyscalls host id = some handler) (h : Strays vm id) : Raises (handler vm) := by
  obtain ⟨hargs, href, hnot⟩ := h
  simp only [List.mem_cons, List.not_mem_nil, or_false] at hid
  rcases hid with rfl | rfl | rfl | rfl <;> cases hh
  · rw [readFile_args host hargs href, inMemory_outside (mt List.forall_mem_singleton.mpr hnot)]
    exact ⟨_, rfl⟩
  · rw [syscallREAD_STR, args₂ hargs]
    refine Raises.guard_iff.mpr ⟨href, ?_⟩
    dsimp only
    rw [inMemory_outside (mt List.forall_mem_singleton.mpr hnot)]
    exact ⟨_, rfl⟩
  · rw [syscallMEMSET, args₃ hargs]
    refine Raises.guard_iff.mpr ⟨href, ?_⟩
    rw [VM.fill, inMemory_outside (mt List.forall_mem_singleton.mpr hnot)]
    exact ⟨_, rfl⟩
  · exact ⟨_, memcpy_outside host hargs hnot⟩

/-! ## The condition -/

/-- A byte of code is among these, as the addresses of an access count: modulo 2^64. -/
def ReachesCode (S : Set Nat) : Prop :=
  ∃ k ∈ S, k % 2 ^ 64 < DATA_BASE

/-- The table of the system calls has an entry for the number in `R0`, if only NULL. -/
def InTable (vm : VM) : Prop :=
  0 ≤ syscallId (vm.reg 0) ∧ syscallId (vm.reg 0) < 32

/-- What C leaves undefined is a store that may be one in the code: a byte of code is
among those that the instruction stores, or these are not known, as for a `FAS` whose
second address is not there and a `TRAP` behind the table. -/
def Endangers (vm : VM) (i : Instruction) : Prop :=
  i.opcode = .fas ∨ (i.opcode = .trap ∧ ¬ InTable vm) ∨ ReachesCode (footprint vm i)

/-- The bytes of code are those before the step, where there are bytes after it, and it
is not a store in the code that leaves none. -/
def KeepsCode (host : Host) (vm : VM) (i : Instruction) : Prop :=
  match cpuStep host vm with
  | .ok (_, vm') => SameCode vm vm'
  | .error _ => ¬ Endangers vm i

/-- A store goes over the end of the addresses, or to one that is not there. -/
inductive Overshoots (vm : VM) (i : Instruction) : Prop
  | word {addr : Word} (hop : i.opcode = .st ∨ i.opcode = .swp) (hregs : ¬ BadRegister i)
      (haddr : wordAddress vm i i.b = some addr) (h : Wraps addr)
  | fas (hop : i.opcode = .fas) (h : FasStops vm i)
  | id (hop : i.opcode = .trap) (h : ¬ InTable vm)
  | request (hop : i.opcode = .trap) (h : Strays vm (syscallId (vm.reg 0)).toNat)
      (hcode : ReachesCode (syscallBytes vm (syscallId (vm.reg 0)).toNat))

/-- `ST R0, [-1]` passes both tests. -/
example (vm : VM) : Overshoots vm ⟨.st, .dir, 0, 0, -1⟩ :=
  .word (.inl rfl) (by rintro (⟨-, h⟩ | ⟨h, -⟩) <;> revert h <;> decide) rfl (by decide)

theorem Overshoots.endangers (h : Overshoots vm i) : Endangers vm i := by
  cases h with
  | @word addr hop _ haddr h =>
      -- 2^64 is one of the eight, and counts as 0
      refine .inr (.inr ⟨2 ^ 64, ?_, by decide⟩)
      have hmem : 2 ^ 64 ∈ wordCells addr := ⟨addr.isLt.le, Nat.lt_succ_of_le h⟩
      rcases hop with hop | hop <;> rw [footprint, hop] <;> exact ⟨addr, haddr, hmem⟩
  | fas hop => exact .inl hop
  | id hop h => exact .inr (.inl ⟨hop, h⟩)
  | request hop _ hcode =>
      refine .inr (.inr ?_)
      rw [footprint, hop]
      exact hcode

/-- Only four system calls store. -/
theorem syscallBytes_stored {id : Nat} (h : ReachesCode (syscallBytes vm id)) :
    id ∈ [1, 8, 12, 13] := by
  obtain ⟨k, hk, -⟩ := h
  unfold syscallBytes at hk
  split at hk
  · decide
  · decide
  · decide
  · decide
  · exact absurd hk (Set.notMem_empty k)

theorem instrTRAP_error (h : ¬ InTable vm) : instrTRAP host vm i = .error .table := by
  rw [instrTRAP, VM.getReg_reg (by decide), Except.ok_bind]
  refine if_pos ?_
  rw [InTable] at h
  omega

theorem instrTRAP_call (h : InTable vm) :
    instrTRAP host vm i = match dispatchSyscalls host (syscallId (vm.reg 0)).toNat with
      | none => .ok (.unknownSyscall, vm)
      | some handler => handler vm := by
  rw [instrTRAP, VM.getReg_reg (by decide), Except.ok_bind]
  refine if_neg ?_
  rw [InTable] at h
  omega

theorem trap_overshoots_iff (hop : i.opcode = .trap) :
    Overshoots vm i ↔ Raises (instrTRAP host vm i) ∧ Endangers vm i := by
  constructor
  · intro h
    refine ⟨?_, h.endangers⟩
    cases h with
    | word hst | fas hst => simp [hop] at hst
    | id _ hid => exact ⟨_, instrTRAP_error hid⟩
    | request _ hstrays hcode =>
        by_cases hid : InTable vm
        · have hmem := syscallBytes_stored hcode
          rw [instrTRAP_call hid]
          cases hh : dispatchSyscalls host (syscallId (vm.reg 0)).toNat with
          | none =>
              have hnone := (dispatch_none_iff host _).mp hh
              simp only [List.mem_cons, List.not_mem_nil, or_false] at hmem
              omega
          | some handler => exact strays_raises hmem hh hstrays
        · exact ⟨_, instrTRAP_error hid⟩
  · rintro ⟨⟨f, hf⟩, hdanger⟩
    by_cases hid : InTable vm
    · rcases hdanger with hfas | ⟨-, hno⟩ | hcode
      · cases hfas.symm.trans hop
      · exact absurd hid hno
      · rw [footprint, hop] at hcode
        rw [instrTRAP_call hid] at hf
        cases hh : dispatchSyscalls host (syscallId (vm.reg 0)).toNat with
        | none =>
            rw [hh] at hf
            cases hf
        | some handler =>
            rw [hh] at hf
            exact .request hop (syscall_strays hh hf) hcode
    · exact .id hop hid

theorem word_overshoots_iff {x : Exec Result} {addr : Word}
    (hop : i.opcode = .st ∨ i.opcode = .swp) (haddr : wordAddress vm i i.b = some addr)
    (hx : Raises x ↔ ¬ BadRegister i ∧ Wraps addr) :
    Overshoots vm i ↔ Raises x ∧ Endangers vm i := by
  rw [hx]
  constructor
  · intro h
    refine ⟨?_, h.endangers⟩
    cases h with
    | word _ hregs haddr' hwraps =>
        cases haddr.symm.trans haddr'
        exact ⟨hregs, hwraps⟩
    | fas hop' | id hop' | request hop' => simp [hop'] at hop
  · rintro ⟨⟨hregs, hwraps⟩, -⟩
    exact .word hop hregs haddr hwraps

/-- The modes of a store or a swap with an address. -/
theorem store_overshoots_iff {op : AddrOp} (hop : i.opcode = .st ∨ i.opcode = .swp)
    (hbody : i.a.toNat < N_REG → ∀ addr, Raises (op vm i.a addr) ↔ Wraps addr) :
    (i.mode = .dir → (Overshoots vm i ↔ Raises (atDIR op vm i) ∧ Endangers vm i)) ∧
    (i.mode = .ind → (Overshoots vm i ↔ Raises (atIND op vm i) ∧ Endangers vm i)) ∧
    (i.mode = .idx → (Overshoots vm i ↔ Raises (atIDX op vm i) ∧ Endangers vm i)) := by
  have husesA : usesA i = true := by rcases hop with hop | hop <;> rw [usesA, hop]
  have husesB : usesB i = (i.mode = .reg || i.mode = .ind || i.mode = .idx) := by
    rcases hop with hop | hop <;> rw [usesB, hop]
  refine ⟨fun hm => ?_, fun hm => ?_, fun hm => ?_⟩
  · refine word_overshoots_iff hop (show _ = some i.args by rw [wordAddress, hm]) ?_
    rw [atDIR_raises hbody]
    simp [BadRegister, husesA, husesB, hm]
  · refine word_overshoots_iff hop (show _ = some (vm.reg i.b) by rw [wordAddress, hm]) ?_
    rw [atIND_raises hbody]
    simp [BadRegister, husesA, husesB, hm]
  · refine word_overshoots_iff hop (show _ = some (vm.reg i.b + i.args) by rw [wordAddress, hm]) ?_
    rw [atIDX_raises hbody]
    simp [BadRegister, husesA, husesB, hm]

/-- An instruction that is not listed does not store where it ends in an error. -/
theorem other_overshoots_iff {x : Exec Result} (hop : i.opcode ∉ [.st, .swp, .fas, .trap])
    (hx : Raises x → ¬ ReachesCode (footprint vm i)) :
    Overshoots vm i ↔ Raises x ∧ Endangers vm i := by
  simp only [List.mem_cons, List.not_mem_nil, or_false, not_or] at hop
  obtain ⟨hst, hswp, hfas, htrap⟩ := hop
  refine iff_of_false ?_ ?_
  · rintro (⟨h | h⟩ | ⟨h⟩ | ⟨h⟩ | ⟨h⟩)
    · exact hst h
    · exact hswp h
    · exact hfas h
    · exact htrap h
    · exact htrap h
  · rintro ⟨hraises, h | ⟨h, -⟩ | h⟩
    · exact hfas h
    · exact htrap h
    · exact hx hraises h

theorem not_reachesCode_empty (h : footprint vm i = ∅) : ¬ ReachesCode (footprint vm i) := by
  rw [h]
  rintro ⟨k, hk, -⟩
  exact Set.notMem_empty k hk

/-- The word under `sp` is not code, where a push gets past its test. -/
theorem stack_not_code {x : Exec Result} (hx : Fails x fun _ => STACK_BASE < vm.sp.toNat)
    (h : footprint vm i = Set.Ico (vm.sp.toNat - 8) vm.sp.toNat) :
    Raises x → ¬ ReachesCode (footprint vm i) := by
  rw [h]
  rintro ⟨f, hf⟩ ⟨k, ⟨hlo, hhi⟩, hcode⟩
  have hsp := hx f hf
  rw [Nat.mod_eq_of_lt (hhi.trans vm.sp.isLt)] at hcode
  simp only [STACK_BASE, DATA_BASE] at hsp hcode
  omega

theorem call_room {handler : InstrHandler} (hh : dispatchCALL i.mode = some handler) :
    Fails (handler vm i) fun _ => STACK_BASE < vm.sp.toNat := by
  cases hm : i.mode <;> rw [hm] at hh <;> cases hh
  case regu => exact .guard fun _ => .guard fun hsp _ _ => Nat.not_le.mp hsp
  all_goals exact .guard fun hsp _ _ => Nat.not_le.mp hsp

theorem fas_overshoots_iff {handler : InstrHandler} (hop : i.opcode = .fas)
    (hh : dispatchFAS i.mode = some handler) :
    Overshoots vm i ↔ Raises (handler vm i) ∧ Endangers vm i := by
  rw [fas_raises hop hh]
  constructor
  · intro h
    refine ⟨?_, h.endangers⟩
    cases h with
    | fas _ hstops => exact hstops
    | word hop' | id hop' | request hop' => simp [hop] at hop'
  · exact fun h => .fas hop h.1

/-- **The list is exact.** -/
theorem handler_overshoots_iff {handler : InstrHandler}
    (hh : getHandler host i.opcode i.mode = some handler) :
    Overshoots vm i ↔ Raises (handler vm i) ∧ Endangers vm i := by
  have hempty : ∀ op ∉ [OpCode.st, .swp, .push, .fas, .call, .rst, .trap], i.opcode = op →
      (Overshoots vm i ↔ Raises (handler vm i) ∧ Endangers vm i) := by
    intro op hnot hop
    refine other_overshoots_iff ?_ fun _ => not_reachesCode_empty ?_
    · rw [hop]
      exact fun hmem => hnot (by revert hmem; cases op <;> decide)
    · cases op <;> first | exact absurd (by decide) hnot | rw [footprint, hop]
  cases handled hh with
  | data hop _ =>
      cases hi : i.opcode <;> rw [hi] at hop <;> cases hop
      all_goals exact hempty _ (by decide) hi
  | neg hop | not hop | pop hop | rtn hop | nop hop | halt hop | jmp hop =>
      exact hempty _ (by decide) hop
  | conditional j hop => exact hempty _ (by cases j <;> decide) hop
  | std hop hm => exact (store_overshoots_iff (.inl hop) bodyST_raises).1 hm
  | sti hop hm => exact (store_overshoots_iff (.inl hop) bodyST_raises).2.1 hm
  | stx hop hm => exact (store_overshoots_iff (.inl hop) bodyST_raises).2.2 hm
  | swpr hop hm =>
      have hno : ∀ addr, wordAddress vm i i.b ≠ some addr := by simp [wordAddress, hm]
      refine iff_of_false ?_ fun h => ?_
      · rintro (⟨-, -, haddr⟩ | ⟨h⟩ | ⟨h⟩ | ⟨h⟩)
        · exact hno _ haddr
        all_goals cases hop.symm.trans h
      · obtain ⟨-, hfas | ⟨htrap, -⟩ | ⟨k, hk, -⟩⟩ := h
        · cases hop.symm.trans hfas
        · cases hop.symm.trans htrap
        · rw [footprint, hop] at hk
          obtain ⟨addr, haddr, -⟩ := hk
          exact hno addr haddr
  | swpd hop hm => exact (store_overshoots_iff (.inr hop) bodySWP_raises).1 hm
  | swpi hop hm => exact (store_overshoots_iff (.inr hop) bodySWP_raises).2.1 hm
  | swpx hop hm => exact (store_overshoots_iff (.inr hop) bodySWP_raises).2.2 hm
  | push hop =>
      refine other_overshoots_iff (by simp [hop]) (stack_not_code ?_ (by rw [footprint, hop]))
      exact .guard fun hsp _ _ => Nat.not_le.mp hsp
  | pushr hop =>
      refine other_overshoots_iff (by simp [hop]) (stack_not_code ?_ (by rw [footprint, hop]))
      exact .guard fun hsp _ _ => Nat.not_le.mp hsp
  | fas hop hh => exact fas_overshoots_iff hop hh
  | call hop hh =>
      refine other_overshoots_iff (by simp [hop]) (stack_not_code (call_room hh) ?_)
      rw [footprint, hop]
  | rst hop => exact other_overshoots_iff (by simp [hop]) fun h => absurd h Raises.ok_iff.mp
  | trap hop => exact trap_overshoots_iff hop

theorem Executes.raises_iff (hexec : Executes host vm i) :
    Overshoots vm i ↔ Raises (cpuStep host vm) ∧ Endangers vm i := by
  obtain ⟨hpc, ⟨size, hfetch, hsize⟩, handler, hh⟩ := hexec
  rw [cpuStep_at hpc hfetch hsize hh, Raises.map_iff]
  exact handler_overshoots_iff hh

theorem Rewrites.endangers (h : Rewrites host vm i) : Endangers vm i := by
  rcases h with ⟨hop, -⟩ | ⟨hop, hid, -, k, hcode, hlo, hhi, -⟩
  · exact .inl hop
  · refine .inr (.inr ⟨k, ?_, ?_⟩)
    · rw [footprint, hop]
      dsimp only
      rw [hid]
      exact ⟨hlo, hhi⟩
    · rw [Nat.mod_eq_of_lt (by simp only [DATA_BASE] at hcode; omega)]
      exact hcode

/-- A step keeps the code unless it executes one of the two stores that are not tested,
or one that goes over the end of the addresses. -/
theorem Executes.keepsCode_iff (hexec : Executes host vm i) (hrst : i.opcode ≠ .rst) :
    KeepsCode host vm i ↔ ¬ Rewrites host vm i ∧ ¬ Overshoots vm i := by
  rw [hexec.raises_iff, KeepsCode]
  cases hstep : cpuStep host vm with
  | error f =>
      constructor
      · exact fun h => ⟨mt Rewrites.endangers h, fun h' => h h'.2⟩
      · exact fun h hdanger => h.2 ⟨⟨f, rfl⟩, hdanger⟩
  | ok r =>
      obtain ⟨status, vm'⟩ := r
      have hno : ¬ Raises (.ok (status, vm') : Exec Result) := Raises.ok_iff.mp
      dsimp only
      rw [hexec.sameCode_iff hrst hstep]
      exact (and_iff_left fun h => hno h.1).symm

/-! ## Runs -/

/-- A step that executes neither RST nor one of these stores.  Where a store overshoots
there is no next machine, so a run ends in front of it. -/
def CleanStep (vm vm' : VM) : Prop :=
  ∃ host status, cpuStep host vm = .ok (status, vm') ∧
    ∀ i, Executes host vm i → i.opcode ≠ .rst ∧ ¬ Rewrites host vm i ∧ ¬ Overshoots vm i

abbrev CleanSteps : VM → VM → Prop := Relation.ReflTransGen CleanStep

theorem CleanStep.sameCode (h : CleanStep vm vm') : SameCode vm vm' := by
  obtain ⟨host, status, hstep, hclean⟩ := h
  rcases cpuStep_cases hstep with ⟨-, rfl⟩ | ⟨i, hexec⟩
  · exact .refl vm'
  · obtain ⟨hrst, hno⟩ := hclean i hexec
    have hkeeps := (hexec.keepsCode_iff hrst).mpr hno
    rw [KeepsCode, hstep] at hkeeps
    exact hkeeps

theorem CleanSteps.sameCode (h : CleanSteps vm vm') : SameCode vm vm' := by
  induction h with
  | refl => exact .refl vm
  | tail _ hlast ih => exact ih.trans hlast.sameCode

/-- **A step other than RST keeps the code exactly when its store is tested and does not
overshoot, and a run of such steps executes what `loadProgram` installed.** -/
theorem code_read_only (host : Host) (vm : VM) :
    (∀ i, Executes host vm i → i.opcode ≠ .rst →
      (KeepsCode host vm i ↔ ¬ Rewrites host vm i ∧ ¬ Overshoots vm i)) ∧
    (∀ bin start vm₀, loadProgram initVM bin start = .ok (.ok, vm₀) → CleanSteps vm₀ vm →
      SameCode vm₀ vm ∧
      (∀ k < bin.headers.codeSize.toNat,
        byteAt vm.memory (start.toNat + k) = bin.bytecode.getD k 0) ∧
      fetch host vm = fetch host { vm₀ with pc := vm.pc }) := by
  constructor
  · intro i hexec hrst
    exact hexec.keepsCode_iff hrst
  · intro bin start vm₀ hload hrun
    have hsame := hrun.sameCode
    refine ⟨hsame, ?_, fetch_congr rfl hsame⟩
    intro k hk
    obtain ⟨hbelow, hbyte⟩ := loadProgram_code hload hk
    have hmem : start.toNat + k < MEM_SIZE := by
      simp at hbelow ⊢
      omega
    rw [byteAt_lt hmem] at hbyte ⊢
    rw [hsame ⟨_, hmem⟩ hbelow, hbyte]

/-- `LD R0, 7`, `ST R0, [1032]`. -/
def oneStore : Binary where
  headers := ⟨0, 0, 22, 0⟩
  bytecode := [13, 1, 0, 7, 0, 0, 0, 0, 0, 0, 0, 12, 4, 0, 8, 4, 0, 0, 0, 0, 0, 0]
  data := []

/-- Both keep the code; the second writes the data segment. -/
theorem code_read_only_store :
    byteAt (machineAfter oneStore 2).memory 1032 = 7 ∧
    KeepsCode default (machineAfter oneStore 1) ⟨.st, .dir, 0, 0, 1032⟩ ∧
    SameCode (machineAfter oneStore 0) (machineAfter oneStore 2) ∧
    ∀ k < 22, byteAt (machineAfter oneStore 2).memory k = oneStore.bytecode.getD k 0 := by
  have hld : Executes default (machineAfter oneStore 0) ⟨.ld, .imm, 0, 0, 7⟩ :=
    ⟨by decide, ⟨11, by decide, rfl⟩, _, rfl⟩
  have hst : Executes default (machineAfter oneStore 1) ⟨.st, .dir, 0, 0, 1032⟩ :=
    ⟨by decide, ⟨11, by decide, rfl⟩, _, rfl⟩
  have hclean : ¬ Rewrites default (machineAfter oneStore 1) ⟨.st, .dir, 0, 0, 1032⟩ ∧
      ¬ Overshoots (machineAfter oneStore 1) ⟨.st, .dir, 0, 0, 1032⟩ := by
    constructor
    · rintro (⟨hop, -⟩ | ⟨hop, -⟩) <;> cases hop
    · rintro (⟨-, -, haddr, hwraps⟩ | ⟨hop⟩ | ⟨hop⟩ | ⟨hop⟩)
      · cases haddr
        exact absurd hwraps (by decide)
      all_goals cases hop
  have h₁ : CleanStep (machineAfter oneStore 0) (machineAfter oneStore 1) := by
    refine ⟨default, .ok, rfl, fun i hexec => ?_⟩
    obtain rfl := hld.unique hexec
    refine ⟨nofun, ?_, ?_⟩
    · rintro (⟨hop, -⟩ | ⟨hop, -⟩) <;> cases hop
    · rintro (⟨hop | hop⟩ | ⟨hop⟩ | ⟨hop⟩ | ⟨hop⟩) <;> cases hop
  have h₂ : CleanStep (machineAfter oneStore 1) (machineAfter oneStore 2) := by
    refine ⟨default, .ok, rfl, fun i hexec => ?_⟩
    obtain rfl := hst.unique hexec
    exact ⟨nofun, hclean⟩
  obtain ⟨hsame, hcode, -⟩ := (code_read_only default (machineAfter oneStore 2)).2 oneStore 0 _ rfl
    ((Relation.ReflTransGen.single h₁).tail h₂)
  refine ⟨rfl, ((code_read_only default _).1 _ hst nofun).mpr hclean, hsame, fun k hk => ?_⟩
  rw [← hcode k hk]
  exact congrArg _ (Nat.zero_add k).symm

/-- `FAS R0 [R1]` at address 0, with `R1` in the data segment. -/
def selfWriter : VM :=
  { initVM with
    memory := fun k =>
      if (k : Nat) = 0 then 17 else if (k : Nat) = 1 then 5 else if (k : Nat) = 3 then 1 else 0
    registers := fun r => if r = 0 then 0 else 1024 }

/-- Its `1` goes to address 1, over its own mode. -/
theorem fasi_writes_code :
    Executes default selfWriter ⟨.fas, .ind, 0, 1, 0⟩ ∧
      ∃ vm', cpuStep default selfWriter = .ok (.ok, vm') ∧ ¬ SameCode selfWriter vm' := by
  have hexec : Executes default selfWriter ⟨.fas, .ind, 0, 1, 0⟩ :=
    ⟨by decide, ⟨4, rfl, rfl⟩, instrFASI, rfl⟩
  have hbyte : (cpuStep default selfWriter).map (fun r => (r.1, r.2.memory 1)) = .ok (.ok, 1) := rfl
  obtain ⟨⟨status, vm'⟩, hstep, heq⟩ := Except.map_eq_ok.mp hbyte
  obtain ⟨hok, hmem⟩ := Prod.mk.inj heq
  obtain rfl : status = .ok := hok
  refine ⟨hexec, vm', hstep, fun hsame => ?_⟩
  have hold : vm'.memory 1 = selfWriter.memory 1 := hsame 1 (by decide)
  rw [show vm'.memory 1 = 1 from hmem] at hold
  exact absurd hold (by decide)

end BSVM
