/-
# `BSVM.Decode` — what the encoder and the decoder compute

The layout of an instruction is the same in both (`encoding`), what they test
before is not:

    encoder    the instruction fits in what remains
    decoder    it fits in what remains, less two; where it does not, two
               bytes are consumed and the mode is set

`instructionDecode_eq` is the decoder without its loop.
-/
import BSVM.Codec

namespace BSVM

/-! ## Bytes of the enumerations -/

theorem ofByte?_toByte (op : OpCode) : OpCode.ofByte? op.toByte = some op := by
  cases op <;> rfl

theorem ofByte_toByte {mode : Mode} (h : mode ∈ Mode.all) : Mode.ofByte mode.toByte = mode := by
  cases mode
  case other raw => simp [Mode.all] at h
  all_goals rfl

theorem ofByte?_isSome {b : Byte} (h : b.toNat < OP_COUNT) : ∃ op, OpCode.ofByte? b = some op := by
  have hlen : b.toNat < OpCode.all.length := h
  exact ⟨_, List.getElem?_eq_getElem hlen⟩

theorem ofByte?_eq_none {b : Byte} (h : OP_COUNT ≤ b.toNat) : OpCode.ofByte? b = none := by
  have hlen : OpCode.all.length ≤ b.toNat := h
  exact List.getElem?_eq_none hlen

theorem ofByte_mem {b : Byte} (h : b.toNat < MODE_COUNT) : Mode.ofByte b ∈ Mode.all := by
  have hlen : b.toNat < Mode.all.length := h
  rw [Mode.ofByte, List.getElem?_eq_getElem hlen]
  exact List.getElem_mem hlen

theorem ofByte_other {b : Byte} (h : MODE_COUNT ≤ b.toNat) : Mode.ofByte b = .other b.toNat := by
  have hlen : Mode.all.length ≤ b.toNat := h
  rw [Mode.ofByte, List.getElem?_eq_none hlen]
  rfl

theorem toByte_ofByte? {b : Byte} {op : OpCode} (h : OpCode.ofByte? b = some op) :
    op.toByte = b := by
  have hall : ∀ n < OP_COUNT, (OpCode.ofByte? (BitVec.ofNat 8 n)).map OpCode.toByte =
      some (BitVec.ofNat 8 n) := by decide
  have hb : b.toNat < OP_COUNT := by
    by_contra hge
    rw [ofByte?_eq_none (Nat.not_lt.mp hge)] at h
    cases h
  have hmap := hall b.toNat hb
  rw [BitVec.ofNat_toNat, BitVec.setWidth_eq, h] at hmap
  exact Option.some.inj hmap

theorem toByte_ofByte (b : Byte) : (Mode.ofByte b).toByte = b := by
  have hall : ∀ n < MODE_COUNT, (Mode.ofByte (BitVec.ofNat 8 n)).toByte = BitVec.ofNat 8 n := by
    decide
  by_cases hb : b.toNat < MODE_COUNT
  · have hmode := hall b.toNat hb
    rwa [BitVec.ofNat_toNat, BitVec.setWidth_eq] at hmode
  · rw [ofByte_other (Nat.not_lt.mp hb), Mode.toByte, BitVec.ofNat_toNat, BitVec.setWidth_eq]

/-- `mode_size` of a mode that has one. -/
theorem modeSize_of_mem {mode : Mode} (h : mode ∈ Mode.all) :
    ∃ size, modeSize mode = .ok size ∧ 2 ≤ size ∧ size ≤ 12 := by
  cases mode
  case other raw => simp [Mode.all] at h
  all_goals exact ⟨_, rfl, by decide, by decide⟩

/-- No mode with operands has two bytes. -/
theorem modeSize_ne_two {mode : Mode} (h : mode ≠ .none) : modeSize mode ≠ .ok 2 := by
  cases mode <;> first | exact absurd rfl h | exact nofun

/-! ## The layout -/

/-- The bytes of an instruction. -/
def encoding (instr : Instruction) : List Byte :=
  [instr.opcode.toByte, instr.mode.toByte] ++
    if instr.mode = .none then []
    else [instr.a] ++ (if codecB instr.mode then [instr.b] else []) ++
      if codecARGS instr.mode then encodeArgs instr.args else []

theorem encodeArgs_length (args : Word) : (encodeArgs args).length = 8 := by
  simp [encodeArgs]

/-- An instruction has the size of its mode. -/
theorem encoding_length {instr : Instruction} {size : Nat} (h : modeSize instr.mode = .ok size) :
    (encoding instr).length = size := by
  rw [encoding]
  cases hm : instr.mode <;> rw [hm] at h <;> cases h <;> simp [codecB, codecARGS, encodeArgs_length]

/-! ## The encoder -/

/-- Which fields follow the first three bytes. -/
theorem codec_cases (mode : Mode) :
    (codecB mode = false ∧ codecARGS mode = false) ∨ (codecB mode = true ∧ codecARGS mode = false) ∨
      (codecB mode = false ∧ codecARGS mode = true) ∨
      (codecB mode = true ∧ codecARGS mode = true) := by
  cases codecB mode <;> cases codecARGS mode <;> simp

theorem instructionEncode_eq (instr : Instruction) (remaining : Nat) :
    (encoding instr).length ≤ remaining ∧
        instructionEncode instr remaining = ((encoding instr).length, encoding instr) ∨
      remaining < (encoding instr).length ∧ (instructionEncode instr remaining).1 = 0 := by
  rw [instructionEncode]
  by_cases hm : instr.mode = .none
  · have hlayout : encoding instr = [instr.opcode.toByte, instr.mode.toByte] := by
      rw [encoding, if_pos hm]
      rfl
    simp only [hlayout, hm, if_true]
    split
    · next h => exact Or.inr ⟨h, rfl⟩
    · next h => exact Or.inl ⟨Nat.not_lt.mp h, rfl⟩
  · have hlayout : encoding instr = [instr.opcode.toByte, instr.mode.toByte] ++ ([instr.a] ++
        (if codecB instr.mode then [instr.b] else []) ++
        if codecARGS instr.mode then encodeArgs instr.args else []) := by
      rw [encoding, if_neg hm]
    rw [hlayout]
    have hargs := encodeArgs_length instr.args
    rcases codec_cases instr.mode with ⟨hB, hA⟩ | ⟨hB, hA⟩ | ⟨hB, hA⟩ | ⟨hB, hA⟩
    all_goals
      simp only [hB, hA, hm, Bool.false_and, Bool.true_and, Bool.false_eq_true, if_false, if_true,
        List.length_cons, List.length_nil, List.append_nil, hargs, decide_eq_true_eq,
        List.cons_append, List.nil_append]
      split_ifs <;> first | (left; exact ⟨by omega, rfl⟩) | (right; exact ⟨by omega, rfl⟩)

/-- An instruction that does not fit is stored in part, but not past what remains. -/
theorem instructionEncode_length_le (instr : Instruction) (remaining : Nat) :
    (instructionEncode instr remaining).2.length ≤ remaining := by
  rw [instructionEncode]
  by_cases hm : instr.mode = .none
  · simp only [hm, if_true]
    split
    · exact Nat.zero_le _
    · next h => exact Nat.not_lt.mp h
  · have hargs := encodeArgs_length instr.args
    rcases codec_cases instr.mode with ⟨hB, hA⟩ | ⟨hB, hA⟩ | ⟨hB, hA⟩ | ⟨hB, hA⟩
    all_goals
      simp only [hB, hA, hm, Bool.false_and, Bool.true_and, Bool.false_eq_true, if_false, if_true,
        decide_eq_true_eq, List.cons_append, List.nil_append]
      split_ifs <;> simp only [List.length_cons, List.length_nil, hargs] <;> omega

/-! ## The decoder -/

theorem decodeArgs_eq {buffer : Buffer} {f : Nat → Byte} {i : Nat}
    (h : ∀ j < 8, buffer (i + j) = .ok (f (i + j))) (args : Word) :
    decodeArgs buffer i args = .ok (args ||| LittleEndian.join 64 (fun j => f (i + j)) 8) := by
  have hloop : ∀ n ≤ 8, (List.range n).foldlM (fun args j => do
        let byte ← buffer (i + j)
        return args ||| (byte.setWidth 64 <<< (8 * j))) args =
      .ok (args ||| LittleEndian.join 64 (fun j => f (i + j)) n) := by
    intro n
    induction n with
    | zero =>
        intro _
        exact congrArg Except.ok (BitVec.or_zero (x := args)).symm
    | succ n ih =>
        intro hn
        rw [List.range_succ, List.foldlM_append, ih (by omega)]
        simp only [List.foldlM_cons, List.foldlM_nil, Except.ok_bind, Except.pure_eq,
          h n (by omega), LittleEndian.join, BitVec.or_assoc]
  exact hloop 8 (Nat.le_refl 8)

/-- The argument among the bytes of an instruction. -/
def argWord (mode : Mode) (f : Nat → Byte) : Word :=
  LittleEndian.join 64 (fun j => f ((if codecB mode then 4 else 3) + j)) 8

/-- What a complete instruction is decoded to; `f` are its bytes. -/
def decoded (instr : Instruction) (opcode : OpCode) (mode : Mode) (f : Nat → Byte) :
    Instruction where
  opcode := opcode
  mode := mode
  a := f 2
  b := if codecB mode then f 3 else instr.b
  args := if codecARGS mode then instr.args ||| argWord mode f else instr.args

/-- The decoder on a buffer of `remaining` bytes. -/
theorem instructionDecode_eq {buffer : Buffer} {f : Nat → Byte} {remaining : Nat}
    (h : ∀ k < remaining, buffer k = .ok (f k)) (instr : Instruction) :
    instructionDecode instr buffer remaining =
      if remaining < 2 then .ok (0, instr)
      else
        match OpCode.ofByte? (f 0) with
        | none => .error .exit
        | some opcode =>
            let mode := Mode.ofByte (f 1)
            if mode = .none then .ok (2, { instr with opcode := opcode, mode := mode })
            else do
              let size ← modeSize mode
              if remaining - 2 < size then return (2, { instr with opcode := opcode, mode := mode })
              else return (size, decoded instr opcode mode f) := by
  rw [instructionDecode]
  split
  · rfl
  · next hrem =>
      rw [h 0 (by omega), Except.ok_bind]
      cases OpCode.ofByte? (f 0) with
      | none => rfl
      | some opcode =>
          dsimp only
          rw [h 1 (by omega), Except.ok_bind]
          generalize Mode.ofByte (f 1) = mode
          cases mode
          case none => rfl
          case other raw => rfl
          all_goals
            simp only [modeSize, codecB, codecARGS, Except.ok_bind, reduceCtorEq, if_false, if_true,
              Bool.false_eq_true, decoded]
            refine ite_congr rfl (fun _ => rfl) fun hsize => ?_
            rw [h 2 (by omega), Except.ok_bind]
          case reg | ind =>
            rw [h 3 (by omega)]
            rfl
          case imm | dir =>
            rw [decodeArgs_eq (f := f) fun j hj => h (3 + j) (by omega)]
            rfl
          case idx =>
            rw [h 3 (by omega), Except.ok_bind,
              decodeArgs_eq (f := f) fun j hj => h (4 + j) (by omega)]
            rfl

end BSVM
