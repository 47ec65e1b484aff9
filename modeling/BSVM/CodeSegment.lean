/-
# `BSVM.CodeSegment` — who writes below `DATA_BASE`

A store of the machine goes through a test of its address, through `sp`,
which is above `STACK_BASE` when it is written to, or to the heap.  Two
stores do not (`Rewrites`):

    FAS      the second address is computed again and not tested again; in
             mode IND it is the number of the register
    MEMCPY   the destination is not tested, where MEMSET's is

`Executes.sameCode_iff` says that these are all, where the step has a next
machine.
-/
import BSVM.Run

namespace BSVM

variable {host : Host} {vm vm' : VM} {i : Instruction} {status : VmError}

/-! ## Code bytes -/

/-- The two machines have the same code. -/
def SameCode (vm vm' : VM) : Prop :=
  ∀ k : Fin MEM_SIZE, (k : Nat) < DATA_BASE → vm'.memory k = vm.memory k

/-- Storing `f 0 … f (n-1)` at `lo` changes a byte of code. -/
def Alters (m : Memory) (lo n : Nat) (f : Nat → Byte) : Prop :=
  ∃ k : Fin MEM_SIZE, (k : Nat) < DATA_BASE ∧ lo ≤ k ∧ (k : Nat) < lo + n ∧ f (k - lo) ≠ m k

theorem SameCode.refl (vm : VM) : SameCode vm vm :=
  fun _ _ => rfl

theorem SameCode.trans {vm₁ vm₂ vm₃ : VM} (h : SameCode vm₁ vm₂) (h' : SameCode vm₂ vm₃) :
    SameCode vm₁ vm₃ :=
  fun k hk => (h' k hk).trans (h k hk)

theorem sameCode_overlay {lo n : Nat} {f : Nat → Byte}
    (h : vm'.memory = overlay vm.memory lo n f) :
    SameCode vm vm' ↔ ¬ Alters vm.memory lo n f := by
  constructor
  · rintro hsame ⟨k, hcode, hlo, hhi, hne⟩
    have hk := hsame k hcode
    rw [h] at hk
    exact hne (overlay_eq_iff.mp hk hlo hhi)
  · intro hno k hcode
    rw [h]
    refine overlay_eq_iff.mpr fun hlo hhi => ?_
    exact Classical.byContradiction fun hne => hno ⟨k, hcode, hlo, hhi, hne⟩

theorem not_alters_above {m : Memory} {lo n : Nat} {f : Nat → Byte} (h : DATA_BASE ≤ lo) :
    ¬ Alters m lo n f := by
  rintro ⟨k, hcode, hlo, -, -⟩
  omega

/-- A store in or above the data segment leaves the code alone. -/
theorem sameCode_above {lo n : Nat} {f : Nat → Byte} (h : vm'.memory = overlay vm.memory lo n f)
    (hlo : DATA_BASE ≤ lo) : SameCode vm vm' :=
  (sameCode_overlay h).mpr (not_alters_above hlo)

/-! ## The two stores that are not tested -/

/-- The instruction stores, at an address the program does not compare with
`DATA_BASE`, something else than what the code has there. -/
def Rewrites (host : Host) (vm : VM) (i : Instruction) : Prop :=
  (i.opcode = .fas ∧ FasLoads vm i ∧
    Alters vm.memory (fasStore vm i).toNat 8 (LittleEndian.byte (1 : Word))) ∨
  (i.opcode = .trap ∧ syscallId (vm.reg 0) = 13 ∧ vm.sp.toNat + 24 ≤ MEM_SIZE ∧
    let dst := (vm.stackWord 0).toNat
    let src := (vm.stackWord 1).toNat
    let n := (vm.stackWord 2).toNat
    Alters vm.memory dst n (copied host vm.memory dst src n))

/-- Every other instruction leaves the code alone. -/
theorem Effect.sameCode (h : Effect host vm i status vm') (hfas : i.opcode ≠ .fas)
    (htrap : i.opcode ≠ .trap) (hrst : i.opcode ≠ .rst) : SameCode vm vm' := by
  cases h with
  | refused | passed | computed | loaded | popped | jumped | halted => exact .refl vm
  | stored regs k v hdata => exact sameCode_above rfl hdata
  | fetchedSet hop | fetched hop => exact absurd hop hfas
  | pushed v pc hbase => exact sameCode_above rfl (by simp at hbase ⊢; omega)
  | reset hop => exact absurd hop hrst
  | trapped hop | copied hop => exact absurd hop htrap

theorem FasOutcome.sameCode_iff (h : FasOutcome vm i status vm') :
    SameCode vm vm' ↔
      ¬ (FasLoads vm i ∧
        Alters vm.memory (fasStore vm i).toNat 8 (LittleEndian.byte (1 : Word))) := by
  cases h with
  | refused _ hno => exact ⟨fun _ h => hno h.1, fun _ => .refl vm⟩
  | set h hstore =>
      rw [sameCode_overlay rfl]
      exact ⟨fun hno h => hno h.2, fun hno h' => hno ⟨h, h'⟩⟩
  | loaded h hstore =>
      -- a store that is refused is above the code
      have habove : DATA_BASE ≤ (fasStore vm i).toNat := by
        simp at hstore ⊢
        omega
      exact ⟨fun _ h => not_alters_above habove h.2, fun _ => .refl vm⟩

theorem Trapped.sameCode (h : Trapped vm vm') : SameCode vm vm' := by
  obtain ⟨lo, n, f, hlo, hmem⟩ := h.memory
  exact sameCode_above hmem (by simp at hlo ⊢; omega)

theorem instrTRAP_sameCode_iff {r : Result} (h : instrTRAP host vm i = .ok r) :
    SameCode vm r.2 ↔
      ¬ (syscallId (vm.reg 0) = 13 ∧ vm.sp.toNat + 24 ≤ MEM_SIZE ∧
        let dst := (vm.stackWord 0).toNat
        let src := (vm.stackWord 1).toNat
        let n := (vm.stackWord 2).toNat
        Alters vm.memory dst n (copied host vm.memory dst src n)) := by
  rcases instrTRAP_cases h with ⟨hid, hr⟩ | ⟨hid, htrap⟩
  · rcases memcpy_cases hr with ⟨hroom, htrap, -⟩ | hcopy
    · exact ⟨fun _ h => hroom h.2.1, fun _ => htrap.sameCode⟩
    · rw [sameCode_overlay hcopy.memory]
      exact ⟨fun hno h => hno h.2.2, fun hno h => hno ⟨hid, hcopy.room, h⟩⟩
  · exact ⟨fun _ h => hid h.1, fun _ => htrap.sameCode⟩

/-- A step changes the code exactly when it executes one of the two. -/
theorem Executes.sameCode_iff (hexec : Executes host vm i) (hrst : i.opcode ≠ .rst)
    (h : cpuStep host vm = .ok (status, vm')) : SameCode vm vm' ↔ ¬ Rewrites host vm i := by
  obtain ⟨handler, size, vm₁, hh, -, hrun, rfl⟩ := cpuStep_executes hexec h
  have hpc : SameCode vm (advance vm size (status, vm₁)) ↔ SameCode vm vm₁ := by
    rw [SameCode, SameCode, advance_memory]
  rw [hpc, Rewrites]
  by_cases hfas : i.opcode = .fas
  · rw [hfas] at hh
    rw [(fas_outcome hh _ hrun).sameCode_iff]
    simp [hfas]
  · by_cases htrap : i.opcode = .trap
    · rw [htrap] at hh
      cases hm : i.mode <;> rw [hm] at hh <;> cases hh
      have hiff := instrTRAP_sameCode_iff hrun
      rw [hiff]
      simp [htrap]
    · have hsame := (handler_effective hh vm _ hrun).sameCode hfas htrap hrst
      simp [hsame, hfas, htrap]

/-! ## What is executed -/

theorem decodeArgs_congr {b b' : Buffer} {i : Nat} (h : ∀ j < 8, b (i + j) = b' (i + j))
    (args : Word) : decodeArgs b i args = decodeArgs b' i args := by
  have hfold : ∀ (l : List Nat) (args : Word), (∀ j ∈ l, b (i + j) = b' (i + j)) →
      l.foldlM (fun args j => do
        let byte ← b (i + j)
        return args ||| (byte.setWidth 64 <<< (8 * j))) args =
      l.foldlM (fun args j => do
        let byte ← b' (i + j)
        return args ||| (byte.setWidth 64 <<< (8 * j))) args := by
    intro l
    induction l with
    | nil => exact fun _ _ => rfl
    | cons j l ih =>
        intro args hl
        obtain ⟨hj, hl⟩ := List.forall_mem_cons.mp hl
        rw [List.foldlM_cons, List.foldlM_cons, hj]
        exact congrArg _ (funext fun args => ih args hl)
  exact hfold (List.range 8) args fun j hj => h j (List.mem_range.mp hj)

/-- The decoder reads nothing at or after `remaining`. -/
theorem instructionDecode_congr {b b' : Buffer} {remaining : Nat}
    (h : ∀ k < remaining, b k = b' k) (instr : Instruction) :
    instructionDecode instr b remaining = instructionDecode instr b' remaining := by
  rw [instructionDecode, instructionDecode]
  split
  · rfl
  · next hrem =>
      rw [h 0 (by omega), h 1 (by omega)]
      refine congrArg _ (funext fun op => ?_)
      cases OpCode.ofByte? op with
      | none => rfl
      | some opcode =>
          dsimp only
          refine congrArg _ (funext fun m => ?_)
          generalize Mode.ofByte m = mode
          cases mode
          case none => rw [if_pos rfl, if_pos rfl]
          case other raw => simp only [modeSize, reduceCtorEq, if_false, Except.error_bind]
          all_goals
            simp only [modeSize, codecB, codecARGS, Except.ok_bind, reduceCtorEq, if_false, if_true,
              Bool.false_eq_true]
          case regu =>
            refine ite_congr rfl (fun _ => rfl) fun hsize => ?_
            rw [h 2 (by omega)]
          case reg | ind =>
            refine ite_congr rfl (fun _ => rfl) fun hsize => ?_
            rw [h 2 (by omega), h 3 (by omega)]
          case imm | dir =>
            refine ite_congr rfl (fun _ => rfl) fun hsize => ?_
            rw [h 2 (by omega)]
            simp only [decodeArgs_congr (i := 3) fun j hj => h (3 + j) (by omega)]
          case idx =>
            refine ite_congr rfl (fun _ => rfl) fun hsize => ?_
            rw [h 2 (by omega), h 3 (by omega)]
            simp only [decodeArgs_congr (i := 4) fun j hj => h (4 + j) (by omega)]

/-- What is decoded depends on the code and `pc` only. -/
theorem fetch_congr (hpc : vm'.pc = vm.pc) (h : SameCode vm vm') :
    fetch host vm' = fetch host vm := by
  rw [fetch, fetch, hpc]
  refine instructionDecode_congr (fun k hk => ?_) _
  have hcode : vm.pc.toNat + k < DATA_BASE := by
    simp at hk ⊢
    omega
  have hmem : vm.pc.toNat + k < MEM_SIZE := by
    simp at hcode ⊢
    omega
  rw [VM.load, VM.load, dif_pos hmem, dif_pos hmem, h ⟨_, hmem⟩ hcode]

/-! ## What is installed -/

/-- The bytecode is where `loadProgram` was told to put it, in the code segment. -/
theorem loadProgram_code {bin : Binary} {start : Word} {k : Nat}
    (h : loadProgram vm bin start = .ok (.ok, vm')) (hk : k < bin.headers.codeSize.toNat) :
    start.toNat + k < DATA_BASE ∧
      byteAt vm'.memory (start.toNat + k) = bin.bytecode.getD k 0 := by
  rw [loadProgram] at h
  split at h
  · cases h
  · next hcode =>
      split at h
      · cases h
      · obtain ⟨vm₁, h₁, h⟩ := Except.bind_eq_ok.mp h
        obtain ⟨vm₂, h₂, h⟩ := Except.bind_eq_ok.mp h
        cases h
        obtain ⟨hfits, rfl⟩ := copyIn_cases h₁
        obtain ⟨-, rfl⟩ := copyIn_cases h₂
        -- the code is not empty, so it is in memory and its end does not wrap
        have hend : start.toNat + bin.headers.codeSize.toNat ≤ MEM_SIZE := by omega
        have hbelow : start.toNat + k < DATA_BASE := by
          rw [BitVec.toNat_add] at hcode
          simp at hcode hend ⊢
          omega
        have hmem : start.toNat + k < MEM_SIZE := by omega
        refine ⟨hbelow, ?_⟩
        rw [byteAt_lt hmem]
        dsimp only
        rw [overlay_outside (Or.inl hbelow), overlay_inside (by simp) (by simpa using hk)]
        simp

end BSVM
