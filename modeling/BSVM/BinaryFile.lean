/-
# `BSVM.BinaryFile` — `format/binary.c`

A `.bsin` file is a header of 28 bytes, the code and the data.  Each system
call may fail, which exits.  A read that does not fail transfers what it is
asked for as far as the file goes, and nobody looks at how far that was; the
buffer of the header is zero behind it.

The header is or-ed into what its four members hold already.  The limit of the
data is the difference of two constants the wrong way round, as a `size_t`:

    code_size < DATA_BASE                     1024
    data_size < DATA_BASE - STACK_BASE        2^64 - 512

`readBinaryFile_ok_iff` is the whole function in terms of what the file says.
-/
import BSVM.Image

namespace BSVM

/-! ## The system calls -/

/-- Which of the calls fail: `open`, the reads or writes in their order, `close`. -/
structure Calls where
  openFails : Bool
  fails : Nat → Bool
  closeFails : Bool

/-- `CHK(op)`. -/
def chk (fails : Bool) : Exec Unit :=
  if fails then .error .exit else .ok ()

/-- None of the calls fails. -/
structure Calls.Succeed (calls : Calls) : Prop where
  opens : calls.openFails = false
  transfers : ∀ n < 3, calls.fails n = false
  closes : calls.closeFails = false

/-- The calls of a host that answers them all. -/
def noFailure : Calls where
  openFails := false
  fails := fun _ => false
  closeFails := false

theorem noFailure_succeed : noFailure.Succeed :=
  ⟨rfl, fun _ _ => rfl, rfl⟩

/-! ## Reading -/

@[simp] abbrev HDR_SIZE : Nat := 28

/-- The loops `field |= ((uint64_t) buffer[cursor++]) << (i * 8)`. -/
def orBytes {w : Nat} (field : BitVec w) (buffer : Nat → Byte) (cursor size : Nat) : BitVec w :=
  (List.range size).foldl
    (fun field i => field ||| ((buffer (cursor + i)).setWidth w <<< (i * 8))) field

/-- `(size_t) (DATA_BASE - STACK_BASE)`. -/
def dataLimit : Word :=
  BitVec.ofInt 64 ((DATA_BASE : Int) - (STACK_BASE : Int))

/-- What `readBinaryFile` stores: the headers, and the bytes from the start of
the two arrays. -/
structure FileRead where
  headers : BinaryHeader
  bytecode : List Byte
  data : List Byte
  deriving DecidableEq, Repr

/-- `headers` is what `binary->headers` holds before. -/
def readBinaryFile (calls : Calls) (file : List Byte) (headers : BinaryHeader) :
    Exec FileRead := do
  chk calls.openFails
  chk (calls.fails 0)
  let buffer := fun k => (file.take HDR_SIZE).getD k 0
  let file := file.drop HDR_SIZE
  let magicNumber := orBytes headers.magicNumber buffer 0 4
  if magicNumber ≠ MAGIC_NUMBER then .error .exit
  else
    let entryPoint := orBytes headers.entryPoint buffer 4 8
    let codeSize := orBytes headers.codeSize buffer 12 8
    let dataSize := orBytes headers.dataSize buffer 20 8
    if DATA_BASE ≤ codeSize.toNat then .error .exit
    else if dataLimit.toNat ≤ dataSize.toNat then .error .exit
    else do
      chk (calls.fails 1)
      let bytecode := file.take codeSize.toNat
      let file := file.drop codeSize.toNat
      chk (calls.fails 2)
      let data := file.take dataSize.toNat
      chk calls.closeFails
      return {
        headers := {
          magicNumber := magicNumber, entryPoint := entryPoint,
          codeSize := codeSize, dataSize := dataSize }
        bytecode := bytecode
        data := data }

/-- The two arrays with these bytes stored, if they have room for them. -/
def Binary.receive (binary : Binary) (t : FileRead) : Exec Binary :=
  if t.bytecode.length ≤ binary.bytecode.length ∧ t.data.length ≤ binary.data.length then
    .ok {
      headers := t.headers
      bytecode := t.bytecode ++ binary.bytecode.drop t.bytecode.length
      data := t.data ++ binary.data.drop t.data.length }
  else .error .table

/-- `struct Binary bin = {.bytecode=code, .data=data}` of `main_bsvm`. -/
def mainBinary : Binary where
  headers := { magicNumber := 0, entryPoint := 0, codeSize := 0, dataSize := 0 }
  bytecode := List.replicate DATA_BASE 0
  data := List.replicate (STACK_BASE - DATA_BASE) 0

/-! ## Writing -/

/-- The loops `buffer[cursor++] = (uint8_t) (field >> (i * 8))`. -/
def fieldBytes {w : Nat} (field : BitVec w) (size : Nat) : List Byte :=
  (List.range size).map fun i => (field >>> (i * 8)).setWidth 8

/-- `write(fd, array, count)`, which writes the bytes of an array that long. -/
def writeBytes (array : List Byte) (count : Nat) : Exec (List Byte) :=
  if array.length < count then .error .table else .ok (array.take count)

/-- The file that is left. -/
def writeBinaryFile (calls : Calls) (binary : Binary) : Exec (List Byte) := do
  chk calls.openFails
  let headers := binary.headers
  let buffer := fieldBytes headers.magicNumber 4
  let buffer := buffer ++ fieldBytes headers.entryPoint 8
  let buffer := buffer ++ fieldBytes headers.codeSize 8
  let buffer := buffer ++ fieldBytes headers.dataSize 8
  chk (calls.fails 0)
  chk (calls.fails 1)
  let bytecode ← writeBytes binary.bytecode headers.codeSize.toNat
  chk (calls.fails 2)
  let data ← writeBytes binary.data headers.dataSize.toNat
  chk calls.closeFails
  return buffer ++ bytecode ++ data

/-! ## What a file announces -/

/-- The number at an offset of a file, zero where the file has ended. -/
def field (w : Nat) (file : List Byte) (offset size : Nat) : BitVec w :=
  LittleEndian.join w (fun i => file.getD (offset + i) 0) size

def announced (file : List Byte) : BinaryHeader where
  magicNumber := field 32 file 0 4
  entryPoint := field 64 file 4 8
  codeSize := field 64 file 12 8
  dataSize := field 64 file 20 8

/-- The tests of `readBinaryFile`. -/
structure BinaryHeader.Accepted (headers : BinaryHeader) : Prop where
  magic : headers.magicNumber = MAGIC_NUMBER
  code : headers.codeSize.toNat < DATA_BASE
  data : headers.dataSize.toNat < 2 ^ 64 - (STACK_BASE - DATA_BASE)

theorem dataLimit_toNat : dataLimit.toNat = 2 ^ 64 - (STACK_BASE - DATA_BASE) := by
  decide

theorem chk_ok {fails : Bool} : chk fails = .ok () ↔ fails = false := by
  cases fails with
  | false => exact ⟨fun _ => rfl, fun _ => rfl⟩
  | true => exact ⟨nofun, nofun⟩

theorem orBytes_eq {w : Nat} (x : BitVec w) (buffer : Nat → Byte) (cursor size : Nat) :
    orBytes x buffer cursor size =
      x ||| LittleEndian.join w (fun i => buffer (cursor + i)) size := by
  induction size with
  | zero => exact BitVec.or_zero.symm
  | succ n ih =>
      rw [orBytes] at ih ⊢
      rw [List.range_succ, List.foldl_append, ih, LittleEndian.join, ← BitVec.or_assoc,
        Nat.mul_comm 8 n]
      rfl

/-- A field of the header, read into a member that is zero. -/
theorem orBytes_field (w : Nat) (file : List Byte) (offset size : Nat)
    (h : offset + size ≤ HDR_SIZE) :
    orBytes (0 : BitVec w) (fun k => (file.take HDR_SIZE).getD k 0) offset size =
      field w file offset size := by
  rw [orBytes_eq, field]
  refine BitVec.zero_or.trans (LittleEndian.join_congr fun i hi => ?_)
  rw [List.getD_eq_getElem?_getD, List.getD_eq_getElem?_getD, List.getElem?_take_of_lt (by omega)]

theorem chk_bind {α : Type} {fails : Bool} {x : Exec α} {a : α} :
    (chk fails >>= fun _ => x) = .ok a ↔ fails = false ∧ x = .ok a := by
  cases fails with
  | false => exact ⟨fun h => ⟨rfl, h⟩, fun h => h.2⟩
  | true => exact ⟨nofun, nofun⟩

/-- A refusal in front of the rest. -/
theorem exit_or {α : Type} {c : Prop} [Decidable c] {x : Exec α} {a : α} :
    (if c then .error .exit else x) = .ok a ↔ ¬ c ∧ x = .ok a := by
  split
  · next hc => exact ⟨nofun, fun h => absurd hc h.1⟩
  · next hc => exact ⟨fun h => ⟨hc, h⟩, fun h => h.2⟩

/-- **What `readBinaryFile` returns for a file.** -/
theorem readBinaryFile_ok_iff {calls : Calls} {file : List Byte} {t : FileRead} :
    readBinaryFile calls file mainBinary.headers = .ok t ↔
      calls.Succeed ∧ (announced file).Accepted ∧ t = {
        headers := announced file
        bytecode := (file.drop HDR_SIZE).take (announced file).codeSize.toNat
        data := ((file.drop HDR_SIZE).drop (announced file).codeSize.toNat).take
          (announced file).dataSize.toNat } := by
  have hmagic := orBytes_field 32 file 0 4 (by decide)
  have hentry := orBytes_field 64 file 4 8 (by decide)
  have hcode := orBytes_field 64 file 12 8 (by decide)
  have hdata := orBytes_field 64 file 20 8 (by decide)
  rw [readBinaryFile]
  simp only [mainBinary, hmagic, hentry, hcode, hdata]
  rw [chk_bind, chk_bind, exit_or, exit_or, exit_or, chk_bind, chk_bind, chk_bind, dataLimit_toNat]
  constructor
  · rintro ⟨hopen, h0, hm, hc, hd, h1, h2, hclose, ht⟩
    refine ⟨⟨hopen, ?_, hclose⟩, ⟨not_not.mp hm, Nat.not_le.mp hc, Nat.not_le.mp hd⟩, ?_⟩
    · intro n hn
      obtain rfl | rfl | rfl : n = 0 ∨ n = 1 ∨ n = 2 := by omega
      · exact h0
      · exact h1
      · exact h2
    · exact (Except.ok.inj ht).symm
  · rintro ⟨hcalls, hacc, rfl⟩
    exact ⟨hcalls.opens, hcalls.transfers 0 (by decide), not_not.mpr hacc.magic,
      Nat.not_le.mpr hacc.code, Nat.not_le.mpr hacc.data, hcalls.transfers 1 (by decide),
      hcalls.transfers 2 (by decide), hcalls.closes, rfl⟩

/-! ## What is written is read -/

theorem fieldBytes_length {w : Nat} (x : BitVec w) (size : Nat) :
    (fieldBytes x size).length = size := by
  rw [fieldBytes, List.length_map, List.length_range]

theorem fieldBytes_getD {w : Nat} (x : BitVec w) {size i : Nat} (hi : i < size) :
    (fieldBytes x size).getD i 0 = LittleEndian.byte x i := by
  rw [fieldBytes, List.getD_eq_getElem?_getD, List.getElem?_map, List.getElem?_range hi,
    LittleEndian.byte, Nat.mul_comm]
  rfl

/-- A field that was written is read back. -/
theorem field_fieldBytes {w : Nat} (x : BitVec w) (pre post : List Byte) {file : List Byte}
    {offset size : Nat}
    (hfile : file = pre ++ (fieldBytes x size ++ post)) (hoffset : pre.length = offset)
    (hw : w ≤ 8 * size) : field w file offset size = x := by
  rw [field]
  refine Eq.trans (LittleEndian.join_congr fun i hi => ?_) (LittleEndian.join_byte x hw)
  rw [← fieldBytes_getD x hi, List.getD_eq_getElem?_getD, List.getD_eq_getElem?_getD, hfile,
    ← hoffset, List.getElem?_append_right (Nat.le_add_right _ _), Nat.add_sub_cancel_left,
    List.getElem?_append_left (by rw [fieldBytes_length]; exact hi)]

/-- The header of a file. -/
def BinaryHeader.bytes (headers : BinaryHeader) : List Byte :=
  fieldBytes headers.magicNumber 4 ++ fieldBytes headers.entryPoint 8 ++
    fieldBytes headers.codeSize 8 ++ fieldBytes headers.dataSize 8

theorem headerBytes_length (headers : BinaryHeader) : headers.bytes.length = HDR_SIZE := by
  simp [BinaryHeader.bytes, fieldBytes_length]

theorem announced_bytes (headers : BinaryHeader) (rest : List Byte) :
    announced (headers.bytes ++ rest) = headers := by
  obtain ⟨magicNumber, entryPoint, codeSize, dataSize⟩ := headers
  have hm := fieldBytes_length magicNumber 4
  have he := fieldBytes_length entryPoint 8
  have hc := fieldBytes_length codeSize 8
  have hfile : BinaryHeader.bytes ⟨magicNumber, entryPoint, codeSize, dataSize⟩ ++ rest =
      fieldBytes magicNumber 4 ++ (fieldBytes entryPoint 8 ++ (fieldBytes codeSize 8 ++
        (fieldBytes dataSize 8 ++ rest))) := by
    rw [BinaryHeader.bytes, List.append_assoc, List.append_assoc, List.append_assoc]
  rw [hfile, announced]
  congr 1
  · exact field_fieldBytes magicNumber [] _ (List.nil_append _).symm rfl (by decide)
  · exact field_fieldBytes entryPoint (fieldBytes magicNumber 4) _ rfl hm (by decide)
  · refine field_fieldBytes codeSize (fieldBytes magicNumber 4 ++ fieldBytes entryPoint 8) _
      (List.append_assoc _ _ _).symm ?_ (by decide)
    rw [List.length_append, hm, he]
  · refine field_fieldBytes dataSize (fieldBytes magicNumber 4 ++ (fieldBytes entryPoint 8 ++
      fieldBytes codeSize 8)) rest ?_ ?_ (by decide)
    · rw [List.append_assoc, List.append_assoc]
    · rw [List.length_append, List.length_append, hm, he, hc]

theorem writeBytes_ok {array : List Byte} {count : Nat} (h : count ≤ array.length) :
    writeBytes array count = .ok (array.take count) :=
  if_neg (Nat.not_lt.mpr h)

/-- The file that is written. -/
theorem writeBinaryFile_ok {calls : Calls} {binary : Binary} (hcalls : calls.Succeed)
    (hcode : binary.headers.codeSize.toNat ≤ binary.bytecode.length)
    (hdata : binary.headers.dataSize.toNat ≤ binary.data.length) :
    writeBinaryFile calls binary = .ok (binary.headers.bytes ++
      binary.bytecode.take binary.headers.codeSize.toNat ++
      binary.data.take binary.headers.dataSize.toNat) := by
  have hchk : ∀ n < 3, chk (calls.fails n) = .ok () :=
    fun n hn => chk_ok.mpr (hcalls.transfers n hn)
  rw [writeBinaryFile, chk_ok.mpr hcalls.opens, hchk 0 (by decide), hchk 1 (by decide),
    hchk 2 (by decide), chk_ok.mpr hcalls.closes]
  dsimp only [Except.ok_bind]
  rw [writeBytes_ok hcode, Except.ok_bind, writeBytes_ok hdata]
  rfl

/-- The binary in memory, and nothing else but `pc` touched. -/
structure LoadedFrom (binary : Binary) (vm : VM) : Prop where
  code : ∀ k : Fin MEM_SIZE, (k : Nat) < binary.headers.codeSize.toNat →
    binary.bytecode[(k : Nat)]? = some (vm.memory k)
  data : ∀ k : Fin MEM_SIZE, DATA_BASE ≤ (k : Nat) →
    (k : Nat) < DATA_BASE + binary.headers.dataSize.toNat →
    binary.data[(k : Nat) - DATA_BASE]? = some (vm.memory k)
  other : ∀ k : Fin MEM_SIZE, binary.headers.codeSize.toNat ≤ (k : Nat) →
    ((k : Nat) < DATA_BASE ∨ DATA_BASE + binary.headers.dataSize.toNat ≤ (k : Nat)) →
    vm.memory k = 0
  rest : ∃ m, vm = { initVM with memory := m, pc := binary.headers.entryPoint }

theorem receive_ok (dst : Binary) (t : FileRead)
    (hcode : t.bytecode.length ≤ dst.bytecode.length) (hdata : t.data.length ≤ dst.data.length) :
    ∃ bytecode data, dst.receive t = .ok { headers := t.headers
                                           bytecode := t.bytecode ++ bytecode
                                           data := t.data ++ data } :=
  ⟨_, _, if_pos ⟨hcode, hdata⟩⟩

/-- Loading, up to what the arrays hold behind the sizes of the header. -/
theorem loadedFrom {binary : Binary} {bytecode data : List Byte} {vm : VM}
    (hcode : binary.headers.codeSize.toNat ≤ binary.bytecode.length)
    (hdata : binary.headers.dataSize.toNat ≤ binary.data.length)
    (h : loadProgram initVM {
      headers := binary.headers
      bytecode := binary.bytecode.take binary.headers.codeSize.toNat ++ bytecode
      data := binary.data.take binary.headers.dataSize.toNat ++ data } 0 = .ok (.ok, vm)) :
    LoadedFrom binary vm := by
  have hsize := loadProgram_size h
  dsimp only at hsize
  have hget : ∀ (l l' : List Byte) (n k : Nat), n ≤ l.length → k < n →
      l[k]? = some ((l.take n ++ l').getD k 0) := by
    intro l l' n k hn hk
    rw [List.getD_eq_getElem?_getD, List.getElem?_append_left (by rw [List.length_take]; omega),
      List.getElem?_take_of_lt hk, List.getElem?_eq_getElem (by omega)]
    rfl
  have hzero : (0 : Word).toNat = 0 := rfl
  rw [loadProgram_ok h, hzero]
  constructor
  · intro k hk
    dsimp only
    rw [overlay_outside (Or.inl (hk.trans hsize)), overlay_inside (Nat.zero_le _) (by omega)]
    exact hget _ _ _ _ hcode hk
  · intro k hlo hhi
    dsimp only
    rw [overlay_inside hlo hhi]
    exact hget _ _ _ _ hdata (by omega)
  · intro k hlo hhi
    dsimp only
    rw [overlay_outside hhi, overlay_outside (Or.inr (by omega))]
    rfl
  · exact ⟨_, rfl⟩

/-- **A binary whose arrays hold what its header says is read back from the file
it was written to, and loaded as it was.** -/
theorem binary_round_trip (calls calls' : Calls) (binary dst : Binary) (hcalls : calls.Succeed)
    (hcalls' : calls'.Succeed) (hmagic : binary.headers.magicNumber = MAGIC_NUMBER)
    (hcode : binary.headers.codeSize.toNat < DATA_BASE)
    (hdata : binary.headers.dataSize.toNat < HEAP_BASE - DATA_BASE)
    (hbytecode : binary.headers.codeSize.toNat ≤ binary.bytecode.length)
    (hbytes : binary.headers.dataSize.toNat ≤ binary.data.length)
    (hdst : dst.headers = mainBinary.headers)
    (hroom : binary.headers.codeSize.toNat ≤ dst.bytecode.length)
    (hroom' : binary.headers.dataSize.toNat ≤ dst.data.length) :
    ∃ file t binary' vm, writeBinaryFile calls binary = .ok file ∧
      readBinaryFile calls' file dst.headers = .ok t ∧
      t.headers = binary.headers ∧
      t.bytecode = binary.bytecode.take binary.headers.codeSize.toNat ∧
      t.data = binary.data.take binary.headers.dataSize.toNat ∧
      dst.receive t = .ok binary' ∧ loadProgram initVM binary' 0 = .ok (.ok, vm) ∧
      LoadedFrom binary vm := by
  have hlen := List.length_take_of_le hbytecode
  have hlen' := List.length_take_of_le hbytes
  have hwrite := writeBinaryFile_ok hcalls hbytecode hbytes
  rw [List.append_assoc] at hwrite
  -- the file announces the header, and goes on with the code and the data
  have hannounced := announced_bytes binary.headers
    (binary.bytecode.take binary.headers.codeSize.toNat ++
      binary.data.take binary.headers.dataSize.toNat)
  have hacc : binary.headers.Accepted := by
    refine ⟨hmagic, hcode, hdata.trans ?_⟩
    decide
  have hread := readBinaryFile_ok_iff.mpr ⟨hcalls', hannounced.symm ▸ hacc, rfl⟩
  rw [hannounced, ← headerBytes_length binary.headers, List.drop_left, List.drop_left' hlen,
    List.take_left' hlen, List.take_of_length_le hlen'.le, ← hdst] at hread
  obtain ⟨bytecode, data, hreceive⟩ := receive_ok dst {
    headers := binary.headers
    bytecode := binary.bytecode.take binary.headers.codeSize.toNat
    data := binary.data.take binary.headers.dataSize.toNat } (hlen.trans_le hroom)
    (hlen'.trans_le hroom')
  have hfits : ∃ vm, loadProgram initVM {
      headers := binary.headers
      bytecode := binary.bytecode.take binary.headers.codeSize.toNat ++ bytecode
      data := binary.data.take binary.headers.dataSize.toNat ++ data } 0 = .ok (.ok, vm) := by
    refine loadProgram_fits hcode hdata ?_ ?_
    · dsimp only
      rw [List.length_append, hlen]
      exact Nat.le_add_right _ _
    · dsimp only
      rw [List.length_append, hlen']
      exact Nat.le_add_right _ _
  obtain ⟨vm, hload⟩ := hfits
  exact ⟨_, _, _, vm, hwrite, hread, rfl, rfl, rfl, hreceive, hload,
    loadedFrom hbytecode hbytes hload⟩

/-- `NOP` and a byte of data, with an entry point that nothing tests. -/
def smallBinary : Binary where
  headers := { magicNumber := MAGIC_NUMBER, entryPoint := -1, codeSize := 2, dataSize := 1 }
  bytecode := [20, 0]
  data := [7]

theorem binary_round_trip_small : ∃ file t vm, writeBinaryFile noFailure smallBinary = .ok file ∧
    readBinaryFile noFailure file mainBinary.headers = .ok t ∧ t.bytecode = [20, 0] ∧
    t.data = [7] ∧ LoadedFrom smallBinary vm := by
  have hroom : mainBinary.bytecode.length = DATA_BASE := List.length_replicate
  have hroom' : mainBinary.data.length = STACK_BASE - DATA_BASE := List.length_replicate
  obtain ⟨file, t, binary', vm, hwrite, hread, -, hcode, hdata, -, -, hloaded⟩ :=
    binary_round_trip noFailure noFailure smallBinary mainBinary noFailure_succeed
      noFailure_succeed rfl (by decide) (by decide) (by decide) (by decide) rfl
      (by rw [hroom]; decide) (by rw [hroom']; decide)
  exact ⟨file, t, vm, hwrite, hread, hcode, hdata, hloaded⟩

/-! ## What the file is asked for -/

/-- The bytes of the arrays of `main_bsvm` are enough, and a file that announces
more is refused. -/
structure CapacityChecked (file : List Byte) : Prop where
  written : ∀ calls t, readBinaryFile calls file mainBinary.headers = .ok t →
    t.bytecode.length ≤ DATA_BASE ∧ t.data.length ≤ STACK_BASE - DATA_BASE
  refused : DATA_BASE < (announced file).codeSize.toNat ∨
      STACK_BASE - DATA_BASE < (announced file).dataSize.toNat →
    ∀ calls t, readBinaryFile calls file mainBinary.headers ≠ .ok t

/-- **The capacity is checked for every file but those whose header is in order
and announces more than 512 bytes of data and less than `2 ^ 64 - 512`.** -/
theorem capacity_checked_iff (file : List Byte) :
    CapacityChecked file ↔
      ¬ ((announced file).magicNumber = MAGIC_NUMBER ∧
        (announced file).codeSize.toNat < DATA_BASE ∧
        STACK_BASE - DATA_BASE < (announced file).dataSize.toNat ∧
        (announced file).dataSize.toNat < 2 ^ 64 - (STACK_BASE - DATA_BASE)) := by
  constructor
  · rintro h ⟨hmagic, hcode, hbig, hdata⟩
    exact h.refused (Or.inr hbig) noFailure _
      (readBinaryFile_ok_iff.mpr ⟨noFailure_succeed, ⟨hmagic, hcode, hdata⟩, rfl⟩)
  · intro hno
    -- what is accepted announces no more than there is room for
    have hsmall : (announced file).Accepted →
        (announced file).dataSize.toNat ≤ STACK_BASE - DATA_BASE := by
      intro hacc
      refine Nat.not_lt.mp fun hbig => ?_
      exact hno ⟨hacc.magic, hacc.code, hbig, hacc.data⟩
    constructor
    · intro calls t h
      obtain ⟨-, hacc, rfl⟩ := readBinaryFile_ok_iff.mp h
      exact ⟨(List.length_take_le _ _).trans hacc.code.le,
        (List.length_take_le _ _).trans (hsmall hacc)⟩
    · intro hmore calls t h
      obtain ⟨-, hacc, rfl⟩ := readBinaryFile_ok_iff.mp h
      rcases hmore with hcode | hdata
      · exact absurd hacc.code (Nat.not_lt.mpr hcode.le)
      · exact absurd (hsmall hacc) (Nat.not_le.mpr hdata)

/-- A file with 600 bytes of data and no code. -/
def bigFile : List Byte :=
  fieldBytes MAGIC_NUMBER 4 ++ List.replicate 16 0 ++ fieldBytes (600 : Word) 8 ++
    List.replicate 600 1

/-- All 600 are stored in the array of 512. -/
theorem big_file_accepted :
    (readBinaryFile noFailure bigFile mainBinary.headers).map (fun t => t.data.length) =
      .ok 600 ∧ ¬ CapacityChecked bigFile := by
  have hread : (readBinaryFile noFailure bigFile mainBinary.headers).map
      (fun t => t.data.length) = .ok 600 := by decide +kernel
  refine ⟨hread, fun h => ?_⟩
  obtain ⟨t, ht, hlength⟩ := Except.map_eq_ok.mp hread
  have hroom := (h.written noFailure t ht).2
  rw [hlength] at hroom
  exact absurd hroom (by decide)

/-- Both arrays hold the slices of the file that the header announces. -/
def ReadWhole (file : List Byte) : Prop :=
  ∀ calls t, readBinaryFile calls file mainBinary.headers = .ok t →
    HDR_SIZE + t.headers.codeSize.toNat + t.headers.dataSize.toNat ≤ file.length ∧
    t.bytecode = (file.drop HDR_SIZE).take t.headers.codeSize.toNat ∧
    t.data = (file.drop (HDR_SIZE + t.headers.codeSize.toNat)).take t.headers.dataSize.toNat

/-- **A file is read whole or refused exactly when its header is refused or the
file is as long as it says.** -/
theorem read_whole_iff (file : List Byte) :
    ReadWhole file ↔ ((announced file).Accepted →
      HDR_SIZE + (announced file).codeSize.toNat + (announced file).dataSize.toNat ≤
        file.length) := by
  constructor
  · intro h hacc
    exact (h noFailure _ (readBinaryFile_ok_iff.mpr ⟨noFailure_succeed, hacc, rfl⟩)).1
  · intro h calls t hread
    obtain ⟨-, hacc, rfl⟩ := readBinaryFile_ok_iff.mp hread
    exact ⟨h hacc, rfl, by rw [List.drop_drop]⟩

/-- `PUSH 1` in a file that ends in the middle of it. -/
def cutFile : List Byte :=
  fieldBytes MAGIC_NUMBER 4 ++ List.replicate 8 0 ++ fieldBytes (11 : Word) 8 ++
    List.replicate 8 0 ++ [15, 1]

theorem cut_file_accepted :
    (readBinaryFile noFailure cutFile mainBinary.headers).map
      (fun t => (t.headers.codeSize, t.bytecode)) = .ok (11, [15, 1]) ∧ ¬ ReadWhole cutFile := by
  have hread : (readBinaryFile noFailure cutFile mainBinary.headers).map
      (fun t => (t.headers.codeSize, t.bytecode)) = .ok (11, [15, 1]) := by decide +kernel
  refine ⟨hread, fun h => ?_⟩
  obtain ⟨t, ht, hsizes⟩ := Except.map_eq_ok.mp hread
  obtain ⟨hcode, -⟩ := Prod.mk.inj hsizes
  have hlength := (h noFailure t ht).1
  rw [hcode] at hlength
  exact absurd (Nat.le_of_add_right_le hlength) (by decide +kernel)

end BSVM
