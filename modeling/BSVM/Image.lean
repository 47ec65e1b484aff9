/-
# `BSVM.Image` — an assembled program in the machine

Five sizes have to fit: the passes' `mode_size`, what the encoder is given, the
limit of `loadProgram`, what `cpu_step` gives the decoder, and what that
subtracts.  The first three agree.  `cpu_step` leaves out the last byte of the
code segment, and the decoder two bytes more:

    code_size ≤ 1023                        loaded
    address + size ≤ 1021, or no operands   decoded as it was encoded
    otherwise                               VM_TRUNCATED_INSTR
-/
import BSVM.Emission
import BSVM.Stale
import BSVM.Status

namespace BSVM

/-! ## The binary -/

theorem contents_zipIdx {array : HostArray} {l : List Byte} (hsize : l.length = array.size.toNat)
    (h : array.stores = l.zipIdx) : array.contents = .ok l := by
  rw [HostArray.contents, ← hsize]
  have hread : ∀ k ∈ List.range l.length,
      (array.read k).elim (.error .uninitialised) .ok = (.ok (l.getD k 0) : Exec Byte) := by
    intro k hk
    rw [HostArray.read, h, Written.written_zipIdx, List.getD_eq_getElem?_getD,
      List.getElem?_eq_getElem (List.mem_range.mp hk)]
    rfl
  rw [Except.mapM_ok hread]
  refine congrArg Except.ok (List.ext_getElem (by simp) fun k h₁ h₂ => ?_)
  rw [List.getElem_map, List.getElem_range, List.getD_eq_getElem?_getD,
    List.getElem?_eq_getElem h₂]
  rfl

section
variable {status₁ status₂ : AsmError} {ass₀ ass₁ ass₂ : Assembler} {irList : IRList}

/-- The arrays of an accepted program are complete. -/
theorem binary_eq (h₁ : assemblerFirstPass status₁ ass₀ irList = .ok (.ok, ass₁))
    (h₂ : assemblerSecondPass status₂ ass₁ irList = .ok (.ok, ass₂)) :
    ass₂.headers.codeSize.toNat = (layoutOf irList.nodes).text ∧
      ass₂.headers.dataSize.toNat = (layoutOf irList.nodes).data ∧
      ∃ data : List Byte, data.length = (layoutOf irList.nodes).data ∧ ass₂.binary = .ok {
        headers := ass₂.headers
        bytecode := codeOf (layoutOf irList.nodes).address irList.nodes
        data := data } := by
  have hres := firstPass_result h₁
  have hdata := data_lt h₁ h₂
  obtain ⟨s, -, hat, rfl⟩ := secondPass_end h₁ h₂
  obtain ⟨data, hlen, harray⟩ := hat.dataArray
  have hcode₁ : ass₁.headers.codeSize.toNat = (layoutOf irList.nodes).text :=
    toNat_cursor hres.codeSize irList.text_lt
  have hdata₁ : ass₁.headers.dataSize.toNat = (layoutOf irList.nodes).data :=
    toNat_cursor hres.dataSize hdata
  refine ⟨by rw [hat.codeSize, hcode₁], by rw [hat.dataSize, hdata₁], data, hlen, ?_⟩
  rw [Assembler.binary, hat.bytecode, harray,
    contents_zipIdx (hat.codeLength.trans hcode₁.symm) rfl,
    contents_zipIdx (hlen.trans hdata₁.symm) rfl]
  rfl

end

/-! ## Loading -/

/-- `main_bsm`, and `loadProgram` at 0 into a fresh machine. -/
structure Loaded (status₁ status₂ : AsmError) (irList : IRList) (ass₁ ass₂ : Assembler)
    (vm₀ : VM) : Prop where
  first : assemblerFirstPass status₁ .zero irList = .ok (.ok, ass₁)
  second : assemblerSecondPass status₂ ass₁ irList = .ok (.ok, ass₂)
  load : ∃ bin, ass₂.binary = .ok bin ∧ loadProgram initVM bin 0 = .ok (.ok, vm₀)

theorem start_zero (size : Word) : size + 0 = size :=
  BitVec.add_zero size

theorem loadProgram_size {vm vm' : VM} {bin : Binary}
    (h : loadProgram vm bin 0 = .ok (.ok, vm')) : bin.headers.codeSize.toNat < DATA_BASE := by
  rw [loadProgram, start_zero] at h
  split at h
  · cases h
  · next hcode => exact Nat.not_le.mp hcode

/-- A program that fits is loaded. -/
theorem loadProgram_fits {vm : VM} {bin : Binary} (hcode : bin.headers.codeSize.toNat < DATA_BASE)
    (hdata : bin.headers.dataSize.toNat < HEAP_BASE - DATA_BASE)
    (hbytecode : bin.headers.codeSize.toNat ≤ bin.bytecode.length)
    (hbytes : bin.headers.dataSize.toNat ≤ bin.data.length) :
    ∃ vm', loadProgram vm bin 0 = .ok (.ok, vm') := by
  have hcopy : ∀ (vm : VM) (lo : Nat) (src : List Byte) (n : Nat), n ≤ src.length →
      lo + n ≤ MEM_SIZE → ∃ vm', vm.copyIn lo src n = .ok vm' := by
    intro vm lo src n hn hlo
    rw [VM.copyIn, if_neg (Nat.not_lt.mpr hn), VM.fill, inMemory, if_pos (Or.inr hlo)]
    exact ⟨_, rfl⟩
  rw [loadProgram, start_zero, if_neg (Nat.not_le.mpr hcode), if_neg (Nat.not_le.mpr hdata)]
  obtain ⟨vm₁, h₁⟩ := hcopy vm (0 : Word).toNat _ _ hbytecode (by
    have hzero : (0 : Word).toNat = 0 := rfl
    simp only [DATA_BASE, MEM_SIZE] at hcode ⊢
    omega)
  obtain ⟨vm₂, h₂⟩ := hcopy vm₁ DATA_BASE _ _ hbytes (by
    simp only [DATA_BASE, HEAP_BASE, MEM_SIZE] at hdata ⊢
    omega)
  rw [h₁, Except.ok_bind, h₂]
  exact ⟨_, rfl⟩

/-! ## One instruction -/

/-- What a step makes of the instruction at `pc`, its structure being zero before. -/
structure StepsOver (vm : VM) (i : Instruction) (size : Nat) : Prop where
  decoded : ∀ host : Host, fetch (host.withInstr zeroInstr) vm = .ok (size, i)
  handled : ∀ host : Host, ∃ handler, getHandler host i.opcode i.mode = some handler
  executed : ∀ (host : Host) status vm', cpuStep (host.withInstr zeroInstr) vm = .ok (status, vm') →
    status ≠ .truncatedInstr ∧ status ≠ .unknownInstr

theorem rowData_isSome (imm reg dir ind idx imm' reg' dir' ind' idx' : InstrHandler) (mode : Mode) :
    (rowData imm reg dir ind idx mode).isSome = (rowData imm' reg' dir' ind' idx' mode).isSome := by
  cases mode <;> rfl

theorem rowNone_isSome (h h' : InstrHandler) (mode : Mode) :
    (rowNone h mode).isSome = (rowNone h' mode).isSome := by
  cases mode <;> rfl

/-- Which entries of the tables are set does not depend on the host. -/
theorem hasHandler_host (op : OpCode) (mode : Mode) (host : Host) :
    (getHandler host op mode).isSome = hasHandler op mode := by
  cases op with
  | shl => exact rowData_isSome _ _ _ _ _ _ _ _ _ _ mode
  | shr => exact rowData_isSome _ _ _ _ _ _ _ _ _ _ mode
  | trap => exact rowNone_isSome _ _ mode
  | _ => rfl

theorem two_le_size {mode : Mode} {size : Nat} (h : modeSize mode = .ok size) : 2 ≤ size := by
  cases mode <;> cases h <;> decide

/-- Bytes at `pc` that encode an instruction. -/
structure EncodedAt (vm : VM) (i : Instruction) (size : Nat) : Prop where
  sized : modeSize i.mode = .ok size
  room : vm.pc.toNat + size < DATA_BASE
  bytes : ∀ k < size, (encoding i)[k]? = some (byteAt vm.memory (vm.pc.toNat + k))

namespace EncodedAt
variable {vm : VM} {i : Instruction} {size : Nat}

theorem fetch_eq (h : EncodedAt vm i size) (hcanon : i.Canonical) (host : Host) :
    fetch (host.withInstr zeroInstr) vm =
      if i.mode = .none ∨ vm.pc.toNat + size + 3 ≤ DATA_BASE then .ok (size, i)
      else .ok (2, { zeroInstr with opcode := i.opcode, mode := i.mode }) := by
  have hroom := h.room
  have htwo := two_le_size h.sized
  have hbuf : ∀ k < DATA_BASE - vm.pc.toNat - 1,
      vm.load (vm.pc.toNat + k) = .ok (byteAt vm.memory (vm.pc.toNat + k)) :=
    fun k hk => load_code (by omega)
  rw [fetch, decode_encoding h.sized (by omega) hbuf h.bytes]
  obtain ⟨opcode, mode, a, b, args⟩ := i
  obtain ⟨ha, hb, hargs⟩ := hcanon
  dsimp only at ha hb hargs ⊢
  by_cases hnone : mode = .none
  · rw [if_pos hnone, if_pos (Or.inl hnone)]
    subst hnone
    obtain rfl := ha rfl
    obtain rfl := hb rfl
    obtain rfl := hargs rfl
    cases h.sized
    rfl
  · rw [if_neg hnone]
    by_cases hfits : vm.pc.toNat + size + 3 ≤ DATA_BASE
    · rw [if_pos (Or.inr hfits), if_neg (by omega)]
      have hb' : (if codecB mode then b else (0 : Byte)) = b := by
        split
        · rfl
        · next hB => exact (hb (Bool.not_eq_true _ ▸ hB)).symm
      have hargs' : (if codecARGS mode then (0 : Word) ||| args else 0) = args := by
        split
        · exact BitVec.zero_or
        · next hA => exact (hargs (Bool.not_eq_true _ ▸ hA)).symm
      show Except.ok (size, Instruction.mk opcode mode a (if codecB mode then b else 0)
        (if codecARGS mode then 0 ||| args else 0)) = _
      rw [hb', hargs']
    · rw [if_pos (by omega), if_neg (not_or.mpr ⟨hnone, hfits⟩)]
      rfl

/-- The instruction is executed where the decoder has two bytes to spare. -/
theorem stepsOver_iff (h : EncodedAt vm i size) (hcanon : i.Canonical)
    (hhandler : ∀ host, ∃ handler, getHandler host i.opcode i.mode = some handler) :
    StepsOver vm i size ↔ i.mode = .none ∨ vm.pc.toNat + size + 3 ≤ DATA_BASE := by
  constructor
  · intro hstep
    by_contra hno
    have hfetch := hstep.decoded default
    rw [h.fetch_eq hcanon, if_neg hno] at hfetch
    obtain rfl : 2 = size := (Prod.mk.inj (Except.ok.inj hfetch)).1
    exact modeSize_ne_two (not_or.mp hno).1 h.sized
  · intro hfits
    have hfetch : ∀ host : Host, fetch (host.withInstr zeroInstr) vm = .ok (size, i) := by
      intro host
      rw [h.fetch_eq hcanon, if_pos hfits]
    refine ⟨hfetch, hhandler, fun host status vm' hcpu => ?_⟩
    have hroom := h.room
    have hexec : Executes (host.withInstr zeroInstr) vm i :=
      ⟨by omega, ⟨size, hfetch host, h.sized⟩, hhandler _⟩
    obtain ⟨handler, _, vm₁, hh, -, hrun, -⟩ := cpuStep_executes hexec hcpu
    have hstatus : status.notExecuted = false := handler_keeps hh vm _ hrun
    constructor
    · rintro rfl
      cases hstatus
    · rintro rfl
      cases hstatus

/-- Otherwise it is reported. -/
theorem truncated (h : EncodedAt vm i size) (hcanon : i.Canonical)
    (hno : ¬ (i.mode = .none ∨ vm.pc.toNat + size + 3 ≤ DATA_BASE)) (host : Host) :
    cpuStep (host.withInstr zeroInstr) vm = .ok (.truncatedInstr, vm) := by
  have hroom := h.room
  have hfetch := h.fetch_eq hcanon host
  rw [if_neg hno] at hfetch
  refine cpuStep_truncated (by omega) hfetch h.sized fun htwo => ?_
  exact modeSize_ne_two (not_or.mp hno).1 (htwo ▸ h.sized)

end EncodedAt

/-! ## The whole program -/

section
variable {status₁ status₂ : AsmError} {ass₁ ass₂ : Assembler} {irList : IRList} {vm₀ vm : VM}

/-- The code segment of a loaded program is the code of its list. -/
theorem Loaded.code (h : Loaded status₁ status₂ irList ass₁ ass₂ vm₀) :
    (layoutOf irList.nodes).text < DATA_BASE ∧
      ∀ k < (layoutOf irList.nodes).text, byteAt vm₀.memory k =
        (codeOf (layoutOf irList.nodes).address irList.nodes).getD k 0 := by
  obtain ⟨bin, hbin, hload⟩ := h.load
  obtain ⟨hcode, -, data, -, hbinary⟩ := binary_eq h.first h.second
  obtain rfl := Except.ok.inj (hbinary.symm.trans hbin)
  have hsize := loadProgram_size hload
  dsimp only at hsize
  refine ⟨by rw [← hcode]; exact hsize, fun k hk => ?_⟩
  obtain ⟨-, hbyte⟩ := loadProgram_code hload (by dsimp only; rw [hcode]; exact hk)
  rw [show (0 : Word).toNat = 0 from rfl, Nat.zero_add] at hbyte
  exact hbyte

/-- A program that fits is loaded. -/
theorem exists_loaded (h₁ : assemblerFirstPass status₁ .zero irList = .ok (.ok, ass₁))
    (h₂ : assemblerSecondPass status₂ ass₁ irList = .ok (.ok, ass₂))
    (htext : (layoutOf irList.nodes).text < DATA_BASE)
    (hdata : (layoutOf irList.nodes).data < HEAP_BASE - DATA_BASE) :
    ∃ vm₀, Loaded status₁ status₂ irList ass₁ ass₂ vm₀ := by
  obtain ⟨hcode, hdata', data, hlen, hbinary⟩ := binary_eq h₁ h₂
  obtain ⟨s, -, hat, rfl⟩ := secondPass_end h₁ h₂
  let bin : Binary :=
    ⟨s.ass.headers, codeOf (layoutOf irList.nodes).address irList.nodes, data⟩
  have hfits : ∃ vm₀, loadProgram initVM bin 0 = .ok (.ok, vm₀) := by
    refine loadProgram_fits (hcode ▸ htext) (hdata' ▸ hdata) (Nat.le_of_eq ?_) (Nat.le_of_eq ?_)
    · exact hcode.trans hat.codeLength.symm
    · exact hdata'.trans hlen.symm
  obtain ⟨vm₀, hload⟩ := hfits
  exact ⟨vm₀, h₁, h₂, bin, hbinary, hload⟩

/-- An instruction of the program is in the code segment, whatever happened to
the rest of the machine. -/
theorem Loaded.encodedAt (h : Loaded status₁ status₂ irList ass₁ ass₂ vm₀) {pre : List IRNode}
    {op : OpCode} {a b : Operand} {i : Instruction} {size : Nat}
    (hi : Placed irList pre op a b i size) (hsame : SameCode vm₀ vm)
    (hpc : vm.pc.toNat = (layoutOf pre).text) : EncodedAt vm i size := by
  obtain ⟨htext, hcode⟩ := h.code
  have hfits := hi.fits
  refine ⟨hi.sized, by rw [hpc]; omega, fun k hk => ?_⟩
  have hmem : (layoutOf pre).text + k < MEM_SIZE := by
    simp only [DATA_BASE, MEM_SIZE] at htext ⊢
    omega
  have hbyte := hcode ((layoutOf pre).text + k) (by omega)
  rw [List.getD_eq_getElem?_getD, hi.bytes k hk, byteAt_lt hmem] at hbyte
  rw [hpc, byteAt_lt hmem, hsame ⟨_, hmem⟩ (by dsimp only; omega), hbyte]
  have hlt : k < (encoding i).length := by
    rw [encoding_length hi.sized]
    exact hk
  rw [List.getElem?_eq_getElem hlt]
  rfl

end

/-- **An instruction of a loaded program is executed exactly where it has no
operands or ends two bytes before the end of what `cpu_step` decodes from.** -/
theorem image_executes_iff (status₁ status₂ : AsmError) (irList : IRList) (ass₁ ass₂ : Assembler)
    (vm₀ : VM) :
    Loaded status₁ status₂ irList ass₁ ass₂ vm₀ → ∀ pre line op a b post,
      irList.nodes = pre ++ ⟨line, .instr op a b⟩ :: post →
      ∃ s i size,
        runPass .ok secondPassNode pre (.start status₂ ass₁) = .ok (.ok, s) ∧
        instructionEncode i (ass₂.headers.codeSize - s.textAddr).toNat = (size, encoding i) ∧
        (∀ k < size, ass₂.bytecode.read (s.textAddr.toNat + k) = (encoding i)[k]?) ∧
        ∀ vm, SameCode vm₀ vm → vm.pc = s.textAddr →
          (StepsOver vm i size ↔
            getArgsCount op = 0 ∨ (layoutOf pre).text + instrSize op a b + 3 ≤ DATA_BASE) := by
  intro h pre line op a b post hsplit
  obtain ⟨i, size, hi⟩ := instr_placed h.first h.second hsplit
  obtain ⟨s, hrun, hcursor, henc, hread⟩ := instr_emitted h.first h.second hsplit hi
  refine ⟨s, i, size, hrun, henc, hread, fun vm hsame hpc => ?_⟩
  have hpc' : vm.pc.toNat = (layoutOf pre).text := by rw [hpc, hcursor]
  have hhandler : ∀ host, ∃ handler, getHandler host i.opcode i.mode = some handler :=
    fun host => Option.isSome_iff_exists.mp ((hasHandler_host _ _ host).trans hi.handled)
  have hmode := denote_mode hi.denotes
  rw [(h.encodedAt hi hsame hpc').stepsOver_iff (denote_canonical hi.denotes) hhandler,
    instrMode_none_iff hmode, hpc', instrSize_eq hmode hi.sized]

def onePush : IRList where
  nodes := [⟨1, .dir .text .none⟩, ⟨2, .instr .push (.value 1) .none⟩]
  fits := by decide

theorem image_executes_push : ∃ ass₁ ass₂ vm₀, Loaded .ok .ok onePush ass₁ ass₂ vm₀ ∧
    ∃ s i size,
      runPass .ok secondPassNode [⟨1, .dir .text .none⟩] (.start .ok ass₁) = .ok (.ok, s) ∧
      ∀ vm, SameCode vm₀ vm → vm.pc = s.textAddr → StepsOver vm i size := by
  obtain ⟨ass₁, ass₂, h₁, h₂⟩ : ∃ ass₁ ass₂,
      assemblerFirstPass .ok .zero onePush = .ok (.ok, ass₁) ∧
      assemblerSecondPass .ok ass₁ onePush = .ok (.ok, ass₂) := ⟨_, _, rfl, rfl⟩
  obtain ⟨vm₀, h⟩ := exists_loaded h₁ h₂ (by decide) (by decide)
  obtain ⟨s, i, size, hrun, -, -, hiff⟩ := image_executes_iff .ok .ok onePush _ _ vm₀ h
    [⟨1, .dir .text .none⟩] 2 .push (.value 1) .none [] rfl
  exact ⟨_, _, vm₀, h, s, i, size, hrun,
    fun vm hsame hpc => (hiff vm hsame hpc).mpr (Or.inr (by decide))⟩

/-- A code segment of 1023 bytes: 93 times `PUSH 1`. -/
def fullOfPushes : IRList where
  nodes := ⟨1, .dir .text .none⟩ :: List.replicate 93 ⟨2, .instr .push (.value 1) .none⟩
  fits := by decide

/-- It is loaded, and its last instruction is not executed. -/
theorem last_push_truncated : ∃ ass₁ ass₂ vm₀, Loaded .ok .ok fullOfPushes ass₁ ass₂ vm₀ ∧
    ∃ pre s, fullOfPushes.nodes = pre ++ [⟨2, .instr .push (.value 1) .none⟩] ∧
      runPass .ok secondPassNode pre (.start .ok ass₁) = .ok (.ok, s) ∧
      let vm := { vm₀ with pc := s.textAddr }
      cpuStep ((default : Host).withInstr zeroInstr) vm = .ok (.truncatedInstr, vm) := by
  have haccepted : (do
      let (r₁, ass₁) ← assemblerFirstPass .ok .zero fullOfPushes
      let (r₂, _) ← assemblerSecondPass .ok ass₁ fullOfPushes
      return (r₁, r₂)) = .ok (AsmError.ok, AsmError.ok) := by decide +kernel
  obtain ⟨⟨r₁, ass₁⟩, h₁, haccepted⟩ := Except.bind_eq_ok.mp haccepted
  obtain ⟨⟨r₂, ass₂⟩, h₂, haccepted⟩ := Except.bind_eq_ok.mp haccepted
  cases haccepted
  obtain ⟨vm₀, h⟩ := exists_loaded h₁ h₂ (by decide +kernel) (by decide +kernel)
  let pre : List IRNode :=
    ⟨1, .dir .text .none⟩ :: List.replicate 92 ⟨2, .instr .push (.value 1) .none⟩
  have hsplit : fullOfPushes.nodes = pre ++ [⟨2, .instr .push (.value 1) .none⟩] := by
    decide +kernel
  have htext : (layoutOf pre).text = 1012 := by decide +kernel
  obtain ⟨i, size, hi⟩ := instr_placed h₁ h₂ hsplit
  obtain ⟨s, hrun, hcursor, -, -⟩ := instr_emitted h₁ h₂ hsplit hi
  refine ⟨ass₁, ass₂, vm₀, h, pre, s, hsplit, hrun, ?_⟩
  intro vm
  have hpc : vm.pc.toNat = (layoutOf pre).text := hcursor
  have hmode : some .imm = some i.mode := denote_mode hi.denotes
  have himm : i.mode = .imm := (Option.some.inj hmode).symm
  have hsize : size = 11 := by
    have hsized := hi.sized
    rw [himm] at hsized
    exact (Except.ok.inj hsized).symm
  have hsame : SameCode vm₀ vm := fun _ _ => rfl
  refine (h.encodedAt hi hsame hpc).truncated (denote_canonical hi.denotes) ?_ default
  rw [himm, hpc, htext, hsize]
  decide

end BSVM
