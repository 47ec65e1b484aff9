/-
# `BSVM.Loader` — `totalProgSize` and `encodeProgram` of `loader.c`

`encodeProgram` encodes one instruction behind the other and stops at the first
for which the encoder returns 0.  Three sizes meet in it:

    mode_size[mode]                 what `totalProgSize` adds up
    what instructionEncode returns  by which the cursor moves
    DATA_BASE - cursor - 1          what the encoder is told remains

The first two are the same for every mode that has a size, so the cursor is
the size of what was encoded, and an instruction is refused if its size is
more than what remains: the instructions before it are the longest beginning
of the program that fits (`encodeProgram_longest`).  The one that is refused
may leave its first bytes behind the others, inside what remained.
-/
import BSVM.Lib.Longest
import BSVM.Layout

namespace BSVM

/-! ## `loader.c` -/

@[simp] abbrev sizeofInstruction : Nat := 24

/-- `program` and `prog_size`: an array of instructions, which is not larger than the
address space. -/
structure Program where
  instrs : List Instruction
  fits : instrs.length * sizeofInstruction < 2 ^ 64

def totalProgSize (program : List Instruction) : Exec Word :=
  program.foldlM (fun total instr => do
    let size ← modeSize instr.mode
    return total + BitVec.ofNat 64 size) 0

/-- The locals of `encodeProgram` between two rounds, and the buffer. -/
structure EncodeState where
  cursor : Word
  buffer : HostArray

/-- One round of the loop; `false` is `break`. -/
def encodeRound (instr : Instruction) (s : EncodeState) : Exec (Bool × EncodeState) := do
  let remaining := BitVec.ofNat 64 DATA_BASE - s.cursor - 1
  let (written, bytes) := instructionEncode instr remaining.toNat
  let buffer ← s.buffer.storeAll s.cursor bytes
  if written = 0 then return (false, { s with buffer := buffer })
  else return (true, { cursor := s.cursor + BitVec.ofNat 64 written, buffer := buffer })

/-- The locals before the loop. -/
def EncodeState.start (buffer : HostArray) : EncodeState where
  cursor := 0
  buffer := buffer

/-- The number returned, and `buffer` afterwards. -/
def encodeProgram (program : List Instruction) (buffer : HostArray) : Exec (Word × HostArray) := do
  let (_, s) ← runPass true encodeRound program (.start buffer)
  return (s.cursor, s.buffer)

/-! ## The code of a program -/

variable {program pre : List Instruction} {instr : Instruction} {buffer : HostArray}
  {s : EncodeState}

/-- The encodings, one behind the other. -/
def encodings (program : List Instruction) : List Byte :=
  program.flatMap encoding

theorem encodings_concat (pre : List Instruction) (instr : Instruction) :
    encodings (pre ++ [instr]) = encodings pre ++ encoding instr := by
  rw [encodings, encodings, List.flatMap_append, List.flatMap_singleton]

theorem encodings_mono {q : List Instruction} (h : q <+: program) :
    encodings q <+: encodings program := by
  obtain ⟨rest, rfl⟩ := h
  rw [encodings, encodings, List.flatMap_append]
  exact List.prefix_append _ _

theorem encoding_length_le (hmode : instr.mode ∈ Mode.all) : (encoding instr).length ≤ 12 := by
  obtain ⟨size, hsize, -, hle⟩ := modeSize_of_mem hmode
  rw [encoding_length hsize]
  exact hle

/-- The two bytes that every instruction has. -/
theorem encoding_length_pos (instr : Instruction) : 0 < (encoding instr).length := by
  rw [encoding, List.length_append]
  exact Nat.add_pos_left Nat.two_pos _

theorem encodings_length_le (hmodes : ∀ instr ∈ program, instr.mode ∈ Mode.all) :
    (encodings program).length ≤ 12 * program.length := by
  induction program with
  | nil => exact Nat.le_refl 0
  | cons instr program ih =>
    obtain ⟨hmode, hrest⟩ := List.forall_mem_cons.mp hmodes
    have hinstr := encoding_length_le hmode
    have hprogram := ih hrest
    rw [encodings, List.flatMap_cons, List.length_append, List.length_cons]
    rw [encodings] at hprogram
    omega

/-- `totalProgSize` is the length of the code. -/
theorem totalProgSize_eq (hmodes : ∀ instr ∈ program, instr.mode ∈ Mode.all) :
    totalProgSize program = .ok (BitVec.ofNat 64 (encodings program).length) := by
  induction program using List.reverseRecOn with
  | nil => rfl
  | append_singleton pre instr ih =>
    obtain ⟨hpre, hinstr⟩ := List.forall_mem_append.mp hmodes
    obtain ⟨size, hsize, -⟩ := modeSize_of_mem (hinstr instr (List.mem_singleton_self instr))
    have htotal := ih hpre
    rw [totalProgSize] at htotal ⊢
    rw [List.foldlM_append, htotal, Except.ok_bind, List.foldlM_cons, hsize, encodings_concat,
      List.length_append, encoding_length hsize, BitVec.ofNat_add]
    rfl

/-! ## One round -/

/-- `buffer` after `bytes` are stored from its start. -/
def HostArray.filled (buffer : HostArray) (bytes : List Byte) : HostArray :=
  { buffer with stores := buffer.stores ++ bytes.zipIdx }

theorem filled_nil (buffer : HostArray) : buffer.filled [] = buffer := by
  rw [HostArray.filled, List.zipIdx_nil, List.append_nil]

theorem filled_read {bytes : List Byte} {k : Nat} (hk : k < bytes.length) :
    (buffer.filled bytes).read k = bytes[k]? := by
  rw [HostArray.filled, HostArray.read, Written.written_log_append, Written.written_zipIdx,
    List.getElem?_eq_getElem hk]
  rfl

/-- The loop behind the instructions `pre`, all of which it has encoded. -/
structure EncodeAt (buffer : HostArray) (pre : List Instruction) (s : EncodeState) : Prop where
  cursor : s.cursor.toNat = (encodings pre).length
  fits : (encodings pre).length ≤ DATA_BASE - 1
  buffer : s.buffer = buffer.filled (encodings pre)

/-- What the loop leaves: `cut` is the part of an instruction that did not fit. -/
def EncodeEnd (buffer : HostArray) (pre : List Instruction) (s : EncodeState) : Prop :=
  ∃ cut : List Byte, s.cursor.toNat = (encodings pre).length ∧
    (encodings pre ++ cut).length ≤ DATA_BASE - 1 ∧
    s.buffer = buffer.filled (encodings pre ++ cut)

theorem EncodeAt.start (buffer : HostArray) : EncodeAt buffer [] (.start buffer) where
  cursor := rfl
  fits := Nat.zero_le _
  buffer := (filled_nil buffer).symm

theorem EncodeAt.stop (h : EncodeAt buffer pre s) : EncodeEnd buffer pre s := by
  refine ⟨[], h.cursor, ?_, ?_⟩
  · rw [List.append_nil]
    exact h.fits
  · rw [List.append_nil]
    exact h.buffer

theorem EncodeAt.cursor_lt (h : EncodeAt buffer pre s) : s.cursor.toNat < DATA_BASE := by
  rw [h.cursor]
  exact Nat.lt_of_le_of_lt h.fits (by decide)

/-- `DATA_BASE - cursor - 1` does not wrap. -/
theorem EncodeAt.remaining (h : EncodeAt buffer pre s) :
    (BitVec.ofNat 64 DATA_BASE - s.cursor - 1).toNat =
      DATA_BASE - 1 - (encodings pre).length := by
  have hlt := h.cursor_lt
  rw [← h.cursor]
  simp only [DATA_BASE] at hlt ⊢
  bv_omega

/-- Bytes that fit are stored behind those of `pre`. -/
theorem EncodeAt.storeAll (h : EncodeAt buffer pre s) (hroom : DATA_BASE - 1 ≤ buffer.size.toNat)
    {bytes : List Byte} (hbytes : (encodings pre).length + bytes.length ≤ DATA_BASE - 1) :
    s.buffer.storeAll s.cursor bytes = .ok (buffer.filled (encodings pre ++ bytes)) := by
  have hfits : s.cursor.toNat + bytes.length ≤ s.buffer.size.toNat := by
    rw [h.cursor, h.buffer]
    exact le_trans hbytes hroom
  obtain ⟨array, hstore⟩ := storeAll_ok hfits
  obtain ⟨-, rfl⟩ := storeAll_cases (le_trans (Nat.le_add_right _ _) hfits) hstore
  rw [hstore, h.cursor, h.buffer, HostArray.filled, HostArray.filled, ← zipIdx_extend,
    List.append_assoc]

/-- A round encodes an instruction that still fits. -/
theorem EncodeAt.go (h : EncodeAt buffer pre s) (hroom : DATA_BASE - 1 ≤ buffer.size.toNat)
    (hfits : (encodings (pre ++ [instr])).length ≤ DATA_BASE - 1) :
    ∃ s', encodeRound instr s = .ok (true, s') ∧ EncodeAt buffer (pre ++ [instr]) s' := by
  have hsplit := encodings_concat pre instr
  have hlen : (encodings pre).length + (encoding instr).length ≤ DATA_BASE - 1 := by
    rw [hsplit, List.length_append] at hfits
    exact hfits
  have hencode : instructionEncode instr (BitVec.ofNat 64 DATA_BASE - s.cursor - 1).toNat =
      ((encoding instr).length, encoding instr) := by
    rw [h.remaining]
    exact instructionEncode_fits (by omega)
  have hcursor : (s.cursor + BitVec.ofNat 64 (encoding instr).length).toNat =
      (encodings pre).length + (encoding instr).length := by
    rw [← h.cursor]
    refine toNat_add_ofNat ?_
    rw [h.cursor]
    exact lt_of_le_of_lt hlen (by decide)
  refine ⟨⟨s.cursor + BitVec.ofNat 64 (encoding instr).length,
    buffer.filled (encodings pre ++ encoding instr)⟩, ?_, ?_, hfits, ?_⟩
  · rw [encodeRound, hencode]
    dsimp only
    rw [h.storeAll hroom hlen, Except.ok_bind, if_neg (encoding_length_pos instr).ne']
    rfl
  · rw [hsplit, List.length_append]
    exact hcursor
  · rw [hsplit]

/-- A round stops at one that does not, and stores no byte past what remains. -/
theorem EncodeAt.break (h : EncodeAt buffer pre s) (hroom : DATA_BASE - 1 ≤ buffer.size.toNat)
    (hfull : ¬ (encodings (pre ++ [instr])).length ≤ DATA_BASE - 1) :
    ∃ s', encodeRound instr s = .ok (false, s') ∧ EncodeEnd buffer pre s' := by
  have hfits := h.fits
  have hremaining := h.remaining
  rw [encodings_concat, List.length_append] at hfull
  rw [encodeRound]
  generalize (BitVec.ofNat 64 DATA_BASE - s.cursor - 1).toNat = remaining at hremaining ⊢
  have hcut := instructionEncode_length_le instr remaining
  have hzero : (instructionEncode instr remaining).1 = 0 := by
    rcases instructionEncode_eq instr remaining with ⟨hle, -⟩ | ⟨-, hzero⟩
    · omega
    · exact hzero
  generalize instructionEncode instr remaining = encoded at hcut hzero
  obtain ⟨written, cut⟩ := encoded
  dsimp only at hcut hzero ⊢
  have hlen : (encodings pre).length + cut.length ≤ DATA_BASE - 1 := by omega
  refine ⟨⟨s.cursor, buffer.filled (encodings pre ++ cut)⟩, ?_, cut, h.cursor, ?_, rfl⟩
  · rw [h.storeAll hroom hlen, Except.ok_bind, if_pos hzero]
    rfl
  · rw [List.length_append]
    exact hlen

/-! ## The loop -/

/-- The loop stops behind the longest beginning whose code fits. -/
theorem encode_run (program : List Instruction) (hroom : DATA_BASE - 1 ≤ buffer.size.toNat) :
    ∃ r s pre, runPass true encodeRound program (.start buffer) = .ok (r, s) ∧
      Longest (fun q => (encodings q).length ≤ DATA_BASE - 1) program pre ∧
      EncodeEnd buffer pre s := by
  refine runPass_longest ?_ (Nat.zero_le _) (EncodeAt.start buffer) ?_ fun _ h => h.stop
  · intro p q hq hp
    exact le_trans (encodings_mono hq).length_le hp
  · intro pre instr post s _ h
    by_cases hfits : (encodings (pre ++ [instr])).length ≤ DATA_BASE - 1
    · exact .inl ⟨hfits, h.go hroom hfits⟩
    · obtain ⟨s', hround, hend⟩ := h.break hroom hfits
      exact .inr ⟨hfits, false, s', nofun, hround, hend⟩

/-- Every state that a round begins in. -/
theorem encode_at {seen : List Instruction} (hroom : DATA_BASE - 1 ≤ buffer.size.toNat)
    (h : runPass true encodeRound seen (.start buffer) = .ok (true, s)) :
    EncodeAt buffer seen s := by
  have hstep : ∀ pre instr post s₁ s₂, seen = pre ++ instr :: post → EncodeAt buffer pre s₁ →
      encodeRound instr s₁ = .ok (true, s₂) → EncodeAt buffer (pre ++ [instr]) s₂ := by
    intro pre instr post s₁ s₂ _ hat hround
    by_cases hfits : (encodings (pre ++ [instr])).length ≤ DATA_BASE - 1
    · obtain ⟨s', hround', hat'⟩ := hat.go hroom hfits
      cases hround.symm.trans hround'
      exact hat'
    · obtain ⟨s', hround', -⟩ := hat.break hroom hfits
      cases hround.symm.trans hround'
  obtain ⟨s₁, -, hat, hrest⟩ := runPass_at (EncodeAt.start buffer) hstep h (List.append_nil _).symm
  cases hrest
  exact hat

/-! ## The whole program -/

/-- `totalProgSize` is at most `DATA_BASE - 1`. -/
def SizeFits (program : List Instruction) : Prop :=
  ∃ total, totalProgSize program = .ok total ∧ total.toNat ≤ DATA_BASE - 1

/-- What is asked of `encodeProgram`: `pre` are the instructions that it encodes. -/
structure EncodesLongest (program : Program) (buffer : HostArray) (pre : List Instruction)
    (total : Word) (buffer' : HostArray) : Prop where
  longest : Longest SizeFits program.instrs pre
  size : totalProgSize pre = .ok total
  /-- the buffer starts with their code -/
  length : (encodings pre).length = total.toNat
  code : ∀ k < total.toNat, buffer'.read k = (encodings pre)[k]?
  /-- nothing is stored from `DATA_BASE - 1` on -/
  below : ∃ stores, buffer' = { buffer with stores := buffer.stores ++ stores } ∧
    ∀ place ∈ Written.places stores, place < DATA_BASE - 1
  /-- `DATA_BASE - cursor - 1` does not wrap where a round begins -/
  cursor : ∀ seen rest s, program.instrs = seen ++ rest →
    runPass true encodeRound seen (.start buffer) = .ok (true, s) →
    s.cursor.toNat + 1 ≤ DATA_BASE
  whole : SizeFits program.instrs → pre = program.instrs

theorem sizeFits_iff {q : List Instruction} (hlen : q.length * sizeofInstruction < 2 ^ 64)
    (hmodes : ∀ instr ∈ q, instr.mode ∈ Mode.all) :
    (encodings q).length ≤ DATA_BASE - 1 ↔ SizeFits q := by
  have hle := encodings_length_le hmodes
  have hsize : (BitVec.ofNat 64 (encodings q).length).toNat = (encodings q).length := by
    rw [BitVec.toNat_ofNat, Nat.mod_eq_of_lt]
    rw [sizeofInstruction] at hlen
    omega
  rw [SizeFits, totalProgSize_eq hmodes]
  constructor
  · exact fun h => ⟨_, rfl, hsize.le.trans h⟩
  · rintro ⟨total, htotal, hfits⟩
    cases htotal
    rwa [hsize] at hfits

/-- **`encodeProgram` encodes the longest beginning of the program that fits**, and
returns its size. -/
theorem encodeProgram_longest (program : Program) (buffer : HostArray)
    (hmodes : ∀ instr ∈ program.instrs, instr.mode ∈ Mode.all)
    (hroom : DATA_BASE - 1 ≤ buffer.size.toNat) :
    ∃ pre total buffer', encodeProgram program.instrs buffer = .ok (total, buffer') ∧
      EncodesLongest program buffer pre total buffer' := by
  obtain ⟨r, s, pre, hrun, hlongest, cut, hcursor, hlen, hbuffer⟩ :=
    encode_run program.instrs hroom
  have hiff : ∀ q, q <+: program.instrs → ((encodings q).length ≤ DATA_BASE - 1 ↔ SizeFits q) := by
    intro q hq
    refine sizeFits_iff ?_ fun instr hinstr => hmodes instr (hq.subset hinstr)
    exact lt_of_le_of_lt (Nat.mul_le_mul_right _ hq.length_le) program.fits
  have hsize := hlongest.congr hiff
  have hreturn : encodeProgram program.instrs buffer = .ok (s.cursor, s.buffer) := by
    rw [encodeProgram, hrun]
    rfl
  refine ⟨pre, s.cursor, s.buffer, hreturn, hsize, ?_, hcursor.symm, ?_, ?_, ?_, hsize.whole⟩
  · rw [totalProgSize_eq fun instr hinstr => hmodes instr (hsize.isPrefix.subset hinstr), ← hcursor,
      BitVec.ofNat_toNat, BitVec.setWidth_eq]
  · intro k hk
    rw [hcursor] at hk
    rw [hbuffer, filled_read (by rw [List.length_append]; omega), List.getElem?_append_left hk]
  · refine ⟨_, hbuffer, fun place hplace => ?_⟩
    rw [Written.places_zipIdx, List.mem_range] at hplace
    exact lt_of_lt_of_le hplace hlen
  · intro seen rest s' _ hseen
    exact (encode_at hroom hseen).cursor_lt

/-- `NOP` and `ADD R1 5`, of 2 and 11 bytes. -/
def nopAdd : Program where
  instrs := [⟨.nop, .none, 0, 0, 0⟩, ⟨.add, .imm, 1, 0, 5⟩]
  fits := by decide

theorem encodeProgram_longest_nop_add :
    ∃ buffer', encodeProgram nopAdd.instrs (malloc 1024) = .ok (13, buffer') ∧
      EncodesLongest nopAdd (malloc 1024) nopAdd.instrs 13 buffer' := by
  obtain ⟨pre, total, buffer', hreturn, hlongest⟩ :=
    encodeProgram_longest nopAdd (malloc 1024) (by decide) (by decide)
  obtain rfl := hlongest.whole ⟨13, rfl, by decide⟩
  have htotal : totalProgSize nopAdd.instrs = .ok 13 := rfl
  cases htotal.symm.trans hlongest.size
  exact ⟨buffer', hreturn, hlongest⟩

end BSVM
