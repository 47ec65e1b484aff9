/-
# `BSVM.AnyFile` — `main_bsvm` on any file

The file may be any sequence of bytes: what the assembler has not written, and what
was cut off.  It is refused, or overruns the array for the data, or is loaded with
zeros for what is missing (`fileVM`) and run.  So this is everything that can go wrong
in `main_bsvm` (`mainBsvm_faults`):

    exit     the file cannot be read, or its header is refused
    table    there are more than 512 bytes of data, and a header that announces them
    the rest `cpu_step`, for one of the causes of `cpuStep_faults`

The header is the only part of the file that is tested.
-/
import BSVM.Faults
import BSVM.Toolchain

namespace BSVM

variable {calls : Calls} {hosts : Nat → Host} {fuel : Nat} {file : List Byte}

/-- The data that a file has, of what it announces. -/
def fileData (file : List Byte) : List Byte :=
  ((file.drop HDR_SIZE).drop (announced file).codeSize.toNat).take (announced file).dataSize.toNat

/-- The machine that a file is loaded into. -/
def fileVM (file : List Byte) : VM :=
  let headers := announced file
  let bytes := fun k => (file.drop HDR_SIZE).getD k 0
  { initVM with
    memory := overlay (overlay initVM.memory 0 headers.codeSize.toNat bytes)
      DATA_BASE headers.dataSize.toNat fun k => bytes (headers.codeSize.toNat + k)
    pc := headers.entryPoint }

/-- Behind the bytes that are received there are zeros. -/
theorem received_getD (l : List Byte) {n k size : Nat} (hk : k < n) :
    (l.take n ++ (List.replicate size (0 : Byte)).drop (l.take n).length).getD k 0 =
      l.getD k 0 := by
  rw [List.drop_replicate, List.getD_eq_getElem?_getD, List.getD_eq_getElem?_getD]
  by_cases hin : k < (l.take n).length
  · rw [List.getElem?_append_left hin, List.getElem?_take_of_lt hk]
  · rw [List.length_take] at hin
    have hout : l.length ≤ k := by omega
    rw [List.getElem?_append_right (by rw [List.length_take]; omega),
      List.getElem?_eq_none hout, List.getElem?_replicate]
    split <;> rfl

/-- A file that is not read. -/
theorem mainBsvm_unread (h : ¬ (calls.Succeed ∧ (announced file).Accepted)) :
    mainBsvm calls hosts fuel file = some (.error .exit) := by
  rw [mainBsvm]
  cases hread : readBinaryFile calls file mainBinary.headers with
  | error f =>
    obtain rfl := readBinaryFile_error hread
    rfl
  | ok t =>
    obtain ⟨hcalls, hacc, -⟩ := readBinaryFile_ok_iff.mp hread
    exact absurd ⟨hcalls, hacc⟩ h

theorem received_length (l : List Byte) {n : Nat} (h : l.length ≤ n) :
    (l ++ (List.replicate n (0 : Byte)).drop l.length).length = n := by
  rw [List.length_append, List.length_drop, List.length_replicate]
  omega

/-- A file is loaded with zeros for what it does not have. -/
theorem load_file (hacc : (announced file).Accepted)
    (hdata : (announced file).dataSize.toNat < HEAP_BASE - DATA_BASE) :
    let code := (file.drop HDR_SIZE).take (announced file).codeSize.toNat
    loadProgram initVM {
      headers := announced file
      bytecode := code ++ (List.replicate DATA_BASE 0).drop code.length
      data := fileData file ++
        (List.replicate (STACK_BASE - DATA_BASE) 0).drop (fileData file).length } 0 =
      .ok (.ok, fileVM file) := by
  intro code
  have hcode := hacc.code
  have hlen : code.length ≤ DATA_BASE := (List.length_take_le _ _).trans hcode.le
  have hlen' : (fileData file).length ≤ STACK_BASE - DATA_BASE := by
    refine (List.length_take_le _ _).trans ?_
    simp only [HEAP_BASE, DATA_BASE, STACK_BASE] at hdata ⊢
    omega
  obtain ⟨vm, hload⟩ := @loadProgram_fits initVM {
      headers := announced file
      bytecode := code ++ (List.replicate DATA_BASE 0).drop code.length
      data := fileData file ++
        (List.replicate (STACK_BASE - DATA_BASE) 0).drop (fileData file).length } hcode hdata
    (hcode.le.trans_eq (received_length code hlen).symm)
    (by
      dsimp only
      rw [received_length _ hlen']
      simp only [HEAP_BASE, DATA_BASE, STACK_BASE] at hdata ⊢
      omega)
  rw [hload, loadProgram_ok hload, fileVM]
  dsimp only
  have hbytes : ∀ k < (announced file).dataSize.toNat, (fileData file ++
      (List.replicate (STACK_BASE - DATA_BASE) 0).drop (fileData file).length).getD k 0 =
      (file.drop HDR_SIZE).getD ((announced file).codeSize.toNat + k) 0 := by
    intro k hk
    rw [fileData, received_getD _ hk, List.getD_eq_getElem?_getD, List.getD_eq_getElem?_getD,
      List.getElem?_drop]
  rw [overlay_congr fun k hk => received_getD _ hk, overlay_congr hbytes]
  rfl

theorem receive_overrun {t : FileRead} (h : STACK_BASE - DATA_BASE < t.data.length) :
    mainBinary.receive t = .error .table :=
  if_neg fun hfits => absurd (hfits.2.trans_eq List.length_replicate) (Nat.not_le.mpr h)

theorem receive_fits {t : FileRead} (hcode : t.bytecode.length ≤ DATA_BASE)
    (hdata : t.data.length ≤ STACK_BASE - DATA_BASE) : mainBinary.receive t = .ok {
      headers := t.headers
      bytecode := t.bytecode ++ (List.replicate DATA_BASE 0).drop t.bytecode.length
      data := t.data ++ (List.replicate (STACK_BASE - DATA_BASE) 0).drop t.data.length } :=
  if_pos ⟨hcode.trans_eq List.length_replicate.symm, hdata.trans_eq List.length_replicate.symm⟩

/-- A file that is read. -/
theorem mainBsvm_read (hcalls : calls.Succeed) (hacc : (announced file).Accepted) :
    mainBsvm calls hosts fuel file =
      if STACK_BASE - DATA_BASE < (fileData file).length then some (.error .table)
      else if HEAP_BASE - DATA_BASE ≤ (announced file).dataSize.toNat then
        some (.ok (.failed (errorToString .dataLoadOutOfBounds)))
      else (vmRun hosts fuel (fileVM file)).map (Except.map fun r => ending r.2.1 r.2.2.data) := by
  have hcode : ((file.drop HDR_SIZE).take (announced file).codeSize.toNat).length ≤ DATA_BASE :=
    (List.length_take_le _ _).trans hacc.code.le
  have hread : readBinaryFile calls file mainBinary.headers = .ok {
      headers := announced file
      bytecode := (file.drop HDR_SIZE).take (announced file).codeSize.toNat
      data := fileData file } := readBinaryFile_ok_iff.mpr ⟨hcalls, hacc, rfl⟩
  rw [mainBsvm, hread, Except.ok_bind]
  by_cases hover : STACK_BASE - DATA_BASE < (fileData file).length
  · rw [if_pos hover, receive_overrun hover]
    rfl
  rw [if_neg hover, receive_fits hcode (Nat.not_lt.mp hover), Except.ok_bind]
  by_cases hlarge : HEAP_BASE - DATA_BASE ≤ (announced file).dataSize.toNat
  · rw [if_pos hlarge, loadProgram, start_zero]
    dsimp only
    rw [if_neg (Nat.not_le.mpr hacc.code), if_pos hlarge]
    rfl
  · rw [if_neg hlarge, load_file hacc (Nat.not_le.mp hlarge)]
    rfl

/-- **What can go wrong in `main_bsvm`**, whatever the file is. -/
theorem mainBsvm_faults (calls : Calls) (hosts : Nat → Host) (fuel : Nat) (file : List Byte)
    (f : Fault) (h : mainBsvm calls hosts fuel file = some (.error f)) :
    (f = .exit ∧ ¬ (calls.Succeed ∧ (announced file).Accepted)) ∨
      (f = .table ∧ STACK_BASE - DATA_BASE < (fileData file).length) ∨
      ∃ cycle vm, Loop.Rounds vmLoop hosts 0 (fileVM file) cycle vm ∧
        cpuStep (hosts cycle) vm = .error f ∧ StepCause (hosts cycle) vm f := by
  by_cases hread : calls.Succeed ∧ (announced file).Accepted
  · right
    rw [mainBsvm_read hread.1 hread.2] at h
    split at h
    · next hover =>
      cases h
      exact Or.inl ⟨rfl, hover⟩
    split at h
    · cases h
    · right
      obtain ⟨r, hrun, hr⟩ := Option.map_eq_some_iff.mp h
      cases r with
      | ok r => cases hr
      | error f' =>
        cases hr
        obtain ⟨cycle, vm, -, hrounds, ⟨e, he, hstep⟩ | ⟨b, s, hok, -⟩⟩ := Loop.run_some hrun
        · cases he
          exact ⟨cycle, vm, hrounds, hstep, cpuStep_cause _ _ _ hstep⟩
        · cases hok
  · left
    rw [mainBsvm_unread hread] at h
    cases h
    exact ⟨rfl, hread⟩

/-- A header for one byte of code, and a byte that is no opcode. -/
def wildFile : List Byte :=
  BinaryHeader.bytes ⟨MAGIC_NUMBER, 0, 1, 0⟩ ++ [255]

theorem mainBsvm_faults_wild :
    (Fault.exit = .exit ∧ ¬ (noFailure.Succeed ∧ (announced wildFile).Accepted)) ∨
      (Fault.exit = .table ∧ STACK_BASE - DATA_BASE < (fileData wildFile).length) ∨
      ∃ cycle vm, Loop.Rounds vmLoop (fun _ => default) 0 (fileVM wildFile) cycle vm ∧
        cpuStep default vm = .error .exit ∧ StepCause default vm .exit := by
  have hannounced : announced wildFile = ⟨MAGIC_NUMBER, 0, 1, 0⟩ := announced_bytes _ _
  have hacc : (announced wildFile).Accepted := by
    rw [hannounced]
    exact ⟨rfl, by decide, by decide⟩
  have hstep : cpuStep default (fileVM wildFile) = .error .exit := rfl
  have hrun : mainBsvm noFailure (fun _ => default) 1 wildFile = some (.error .exit) := by
    rw [mainBsvm_read noFailure_succeed hacc, if_neg (by decide), hannounced, if_neg (by decide),
      vmRun, Loop.run_error hstep]
    rfl
  exact mainBsvm_faults noFailure (fun _ => default) 1 wildFile .exit hrun

end BSVM
