/-
# `BSVM.RoundTrip` — the encoder and the decoder undo each other

Both are given the same number of bytes.  The encoder fits an instruction into
exactly its size; the decoder subtracts the two bytes it has read and compares
the rest with the whole size, so it wants two bytes more:

    r < size              nothing is encoded
    size ≤ r < size + 2   encoded, and decoded as two bytes
    size + 2 ≤ r          encoded, and decoded back

Instructions without operands are decoded before that comparison.

What is decoded as a whole is encoded to the bytes that it came from
(`encode_undoes_decode`), since the decoder wants no fewer bytes than the
encoder.
-/
import BSVM.Decode

namespace BSVM

/-- A buffer of `r` bytes that held `old`, after `bytes` are stored at its start. -/
def bufferAfter (old : Nat → Byte) (bytes : List Byte) (r : Nat) : Buffer := fun k =>
  if k < r then .ok (bytes[k]?.getD (old k)) else .error .table

/-- `n` bytes are consumed, and the fields that the mode of `instr` uses are
those of `instr`. -/
def DecodesTo (instr : Instruction) (n : Nat) (r : Exec (Nat × Instruction)) : Prop :=
  ∃ out, r = .ok (n, out) ∧ out.opcode = instr.opcode ∧ out.mode = instr.mode ∧
    (instr.mode ≠ .none → out.a = instr.a) ∧
    (codecB instr.mode = true → out.b = instr.b) ∧
    (codecARGS instr.mode = true → out.args = instr.args)

/-! ## Where the fields are -/

variable {instr : Instruction}

theorem encoding_a (hm : instr.mode ≠ .none) : (encoding instr)[2]? = some instr.a := by
  rw [encoding, if_neg hm]
  rfl

theorem encoding_b (hB : codecB instr.mode = true) : (encoding instr)[3]? = some instr.b := by
  have hm : instr.mode ≠ .none := fun h => by rw [h] at hB; cases hB
  rw [encoding, if_neg hm, if_pos hB]
  rfl

theorem encodeArgs_byte (args : Word) {j : Nat} (hj : j < 8) :
    (encodeArgs args)[j]? = some (LittleEndian.byte args j) := by
  rw [encodeArgs, List.getElem?_map, List.getElem?_range hj]
  exact congrArg some (LittleEndian.setWidth_sshiftRight args (by omega))

theorem encoding_args (hA : codecARGS instr.mode = true) {j : Nat} (hj : j < 8) :
    (encoding instr)[(if codecB instr.mode then 4 else 3) + j]? =
      some (LittleEndian.byte instr.args j) := by
  have hm : instr.mode ≠ .none := fun h => by rw [h] at hA; cases hA
  rw [encoding, if_neg hm, if_pos hA, ← encodeArgs_byte instr.args hj]
  cases codecB instr.mode with
  | true =>
      show ([_, _, _, _] ++ encodeArgs instr.args)[4 + j]? = _
      rw [List.getElem?_append_right (by simp)]
      simp
  | false =>
      show ([_, _, _] ++ encodeArgs instr.args)[3 + j]? = _
      rw [List.getElem?_append_right (by simp)]
      simp

/-! ## The decoder on an encoding -/

/-- The decoder on a buffer that starts with the bytes of `instr`; `stale` is what
its structure holds before. -/
theorem decode_encoding {instr stale : Instruction} {size remaining : Nat} {f : Nat → Byte}
    {buffer : Buffer} (hsize : modeSize instr.mode = .ok size) (hr : size ≤ remaining)
    (hbuf : ∀ k < remaining, buffer k = .ok (f k))
    (hf : ∀ k < size, (encoding instr)[k]? = some (f k)) :
    instructionDecode stale buffer remaining =
      if instr.mode = .none then
        .ok (2, { stale with opcode := instr.opcode, mode := instr.mode })
      else if remaining - 2 < size then
        .ok (2, { stale with opcode := instr.opcode, mode := instr.mode })
      else
        .ok (size, {
          opcode := instr.opcode
          mode := instr.mode
          a := instr.a
          b := if codecB instr.mode then instr.b else stale.b
          args := if codecARGS instr.mode then stale.args ||| instr.args else stale.args }) := by
  have hmem : instr.mode ∈ Mode.all := by
    cases hm : instr.mode <;> rw [hm] at hsize <;> first | decide | cases hsize
  obtain ⟨_, hsize', htwo, -⟩ := modeSize_of_mem hmem
  obtain rfl := Except.ok.inj (hsize.symm.trans hsize')
  have hop : f 0 = instr.opcode.toByte := (Option.some.inj (hf 0 (by omega))).symm
  have hmode : f 1 = instr.mode.toByte := (Option.some.inj (hf 1 (by omega))).symm
  rw [instructionDecode_eq hbuf, if_neg (by omega), hop, ofByte?_toByte, hmode]
  dsimp only
  rw [ofByte_toByte hmem]
  refine ite_congr rfl (fun _ => rfl) fun hnone => ?_
  rw [hsize, Except.ok_bind]
  refine ite_congr rfl (fun _ => rfl) fun _ => ?_
  have hfield : ∀ {k b}, (encoding instr)[k]? = some b → f k = b := by
    intro k b hk
    obtain ⟨hlt, -⟩ := List.getElem?_eq_some_iff.mp hk
    rw [encoding_length hsize] at hlt
    exact Option.some.inj ((hf k hlt).symm.trans hk)
  have hb : (if codecB instr.mode then f 3 else stale.b) =
      if codecB instr.mode then instr.b else stale.b :=
    ite_congr rfl (fun hB => hfield (encoding_b hB)) fun _ => rfl
  have hargs :
      (if codecARGS instr.mode then stale.args ||| argWord instr.mode f else stale.args) =
        if codecARGS instr.mode then stale.args ||| instr.args else stale.args := by
    refine ite_congr rfl (fun hA => ?_) fun _ => rfl
    rw [argWord, LittleEndian.join_congr fun j hj => hfield (encoding_args hA hj),
      LittleEndian.join_byte instr.args (Nat.le_refl _)]
  rw [decoded, hfield (encoding_a hnone), hb, hargs]
  rfl

/-! ## The round trip -/

/-- The structure that is decoded into an all-zero one. -/
theorem decodesTo_iff {size remaining : Nat} {f : Nat → Byte} {buffer : Buffer}
    (hsize : modeSize instr.mode = .ok size) (hr : size ≤ remaining)
    (hbuf : ∀ k < remaining, buffer k = .ok (f k))
    (hf : ∀ k < size, (encoding instr)[k]? = some (f k)) :
    DecodesTo instr size (instructionDecode zeroInstr buffer remaining) ↔
      instr.mode = .none ∨ size + 2 ≤ remaining := by
  rw [decode_encoding hsize hr hbuf hf]
  by_cases hnone : instr.mode = .none
  · have htwo : size = 2 := by
      rw [hnone] at hsize
      cases hsize
      rfl
    rw [if_pos hnone, htwo]
    refine ⟨fun _ => Or.inl hnone, fun _ => ⟨_, rfl, rfl, rfl, fun h => absurd hnone h, ?_, ?_⟩⟩
    · rw [hnone]
      exact nofun
    · rw [hnone]
      exact nofun
  · have hthree : 2 < size := by
      cases hm : instr.mode <;> rw [hm] at hsize hnone <;> cases hsize <;>
        first | exact absurd rfl hnone | decide
    rw [if_neg hnone]
    by_cases hfits : remaining - 2 < size
    · rw [if_pos hfits]
      constructor
      · rintro ⟨out, hout, -⟩
        obtain rfl := (Prod.mk.inj (Except.ok.inj hout)).1
        exact absurd hthree (Nat.lt_irrefl 2)
      · rintro (h | h)
        · exact absurd h hnone
        · omega
    · rw [if_neg hfits]
      refine ⟨fun _ => Or.inr (by omega), fun _ => ⟨_, rfl, rfl, rfl, fun _ => rfl, ?_, ?_⟩⟩
      · exact fun hB => if_pos hB
      · intro hA
        show (if codecARGS instr.mode then zeroInstr.args ||| instr.args else zeroInstr.args) = _
        rw [if_pos hA]
        exact BitVec.zero_or

/-- **An instruction that was encoded is decoded back from the same number of
bytes exactly when it has no operands or two bytes are left.** -/
theorem decode_undoes_encode_iff (instr : Instruction) (r size : Nat) (old : Nat → Byte) :
    modeSize instr.mode = .ok size → 0 < (instructionEncode instr r).1 →
      (DecodesTo instr (instructionEncode instr r).1
          (instructionDecode zeroInstr (bufferAfter old (instructionEncode instr r).2 r) r) ↔
        instr.mode = .none ∨ size + 2 ≤ r) := by
  intro hsize hpos
  have hlen := encoding_length hsize
  rcases instructionEncode_eq instr r with ⟨hfits, heq⟩ | ⟨-, hzero⟩
  · rw [heq, hlen]
    rw [hlen] at hfits
    refine decodesTo_iff hsize hfits (f := fun k => (encoding instr)[k]?.getD (old k)) ?_ ?_
    · exact fun k hk => if_pos hk
    · intro k hk
      rw [List.getElem?_eq_getElem (by omega)]
      rfl
  · omega

/-- `MODE_IMM` in a buffer of 16 bytes. -/
theorem decode_undoes_encode_imm :
    DecodesTo ⟨.add, .imm, 1, 0, -5⟩ 11 (instructionDecode zeroInstr
      (bufferAfter (fun _ => 0) (instructionEncode ⟨.add, .imm, 1, 0, -5⟩ 16).2 16) 16) :=
  (decode_undoes_encode_iff ⟨.add, .imm, 1, 0, -5⟩ 16 11 (fun _ => 0) rfl (by decide)).mpr
    (Or.inr (by decide))

/-- In a buffer of exactly its size it is decoded as two bytes. -/
theorem exact_fit_truncated :
    let instr : Instruction := ⟨.add, .imm, 1, 0, -5⟩
    let buffer := bufferAfter (fun _ => 0) (instructionEncode instr 11).2 11
    (instructionEncode instr 11).1 = 11 ∧
      (instructionDecode zeroInstr buffer 11).map Prod.fst = .ok 2 ∧
      ¬ DecodesTo instr 11 (instructionDecode zeroInstr buffer 11) := by
  intro instr buffer
  have hconsumed : (instructionDecode zeroInstr buffer 11).map Prod.fst = .ok 2 := rfl
  refine ⟨rfl, hconsumed, ?_⟩
  rintro ⟨out, hout, -⟩
  rw [hout] at hconsumed
  cases hconsumed

/-! ## Encoding what was decoded -/

/-- An instruction of `n` bytes is decoded as a whole. -/
def Decodes (f : Nat → Byte) (r n : Nat) (instr : Instruction) : Prop :=
  instructionDecode zeroInstr (fun k => .ok (f k)) r = .ok (n, instr) ∧ modeSize instr.mode = .ok n

/-- The first `r` bytes. -/
def firstBytes (f : Nat → Byte) (r : Nat) : Buffer := fun k =>
  if k < r then .ok (f k) else .error .table

theorem encodeArgs_join (f : Nat → Byte) :
    encodeArgs (zeroInstr.args ||| LittleEndian.join 64 f 8) = (List.range 8).map f := by
  have hzero : zeroInstr.args ||| LittleEndian.join 64 f 8 = LittleEndian.join 64 f 8 :=
    BitVec.zero_or
  rw [hzero, encodeArgs]
  refine List.map_congr_left fun j hj => ?_
  have hj : j < 8 := List.mem_range.mp hj
  rw [LittleEndian.setWidth_sshiftRight _ (by omega), LittleEndian.byte_join hj (Nat.le_refl _)]

theorem encoding_decoded {f : Nat → Byte} {opcode : OpCode} {size : Nat}
    (hop : OpCode.ofByte? (f 0) = some opcode)
    (hsize : modeSize (Mode.ofByte (f 1)) = .ok size) (hnone : Mode.ofByte (f 1) ≠ .none) :
    encoding (decoded zeroInstr opcode (Mode.ofByte (f 1)) f) = (List.range size).map f := by
  have hmode : (Mode.ofByte (f 1)).toByte = f 1 := toByte_ofByte (f 1)
  rw [encoding, decoded, toByte_ofByte? hop, hmode, if_neg hnone]
  cases hm : Mode.ofByte (f 1) with
  | none => exact absurd hm hnone
  | other raw =>
    rw [hm] at hsize
    cases hsize
  | regu | reg | ind =>
    rw [hm] at hsize
    cases hsize
    rfl
  | imm | dir | idx =>
    rw [hm] at hsize
    cases hsize
    simp only [codecB, codecARGS, if_true, argWord, encodeArgs_join]
    rfl

theorem encoding_of_decodes {f : Nat → Byte} {r n : Nat} {instr : Instruction}
    (h : Decodes f r n instr) : n ≤ r ∧ encoding instr = (List.range n).map f := by
  obtain ⟨hdecode, hsize⟩ := h
  rw [instructionDecode_eq (f := f) fun k _ => rfl] at hdecode
  split at hdecode
  case isTrue =>
    cases hdecode
    cases hsize
  case isFalse hr =>
    cases hop : OpCode.ofByte? (f 0) with
    | none =>
      rw [hop] at hdecode
      cases hdecode
    | some opcode =>
      rw [hop] at hdecode
      dsimp only at hdecode
      split at hdecode
      case isTrue hnone =>
        cases hdecode
        refine ⟨Nat.not_lt.mp hr, ?_⟩
        rw [encoding, if_pos hnone, toByte_ofByte? hop, toByte_ofByte]
        rfl
      case isFalse hnone =>
        obtain ⟨size, hmode, hdecode⟩ := Except.bind_eq_ok.mp hdecode
        split at hdecode
        case isTrue =>
          -- two bytes were consumed, and no such mode has that size
          cases hdecode
          exact absurd hsize (modeSize_ne_two hnone)
        case isFalse hfits =>
          cases hdecode
          exact ⟨by omega, encoding_decoded hop hmode hnone⟩

theorem decode_firstBytes (f : Nat → Byte) (r : Nat) :
    instructionDecode zeroInstr (firstBytes f r) r =
      instructionDecode zeroInstr (fun k => .ok (f k)) r := by
  have hfirst : ∀ k < r, firstBytes f r k = .ok (f k) := fun k hk => if_pos hk
  rw [instructionDecode_eq hfirst, instructionDecode_eq (f := f) fun k _ => rfl]

/-- **An instruction that was decoded as a whole is encoded back**, to the bytes that
were consumed; there are no others that it is decoded from. -/
theorem encode_undoes_decode {f : Nat → Byte} {r n : Nat} {instr : Instruction}
    (h : Decodes f r n instr) :
    instructionDecode zeroInstr (firstBytes f r) r = .ok (n, instr) ∧
      instructionEncode instr r = (n, (List.range n).map f) ∧
      ∀ g r' n', Decodes g r' n' instr → n' = n ∧ (List.range n').map g = (List.range n).map f := by
  obtain ⟨hfits, hbytes⟩ := encoding_of_decodes h
  have hlength : (encoding instr).length = n := encoding_length h.2
  refine ⟨(decode_firstBytes f r).trans h.1, ?_, fun g r' n' h' => ?_⟩
  · rcases instructionEncode_eq instr r with ⟨-, heq⟩ | ⟨hlt, -⟩
    · rw [heq, hlength, hbytes]
    · omega
  · obtain ⟨-, hbytes'⟩ := encoding_of_decodes h'
    exact ⟨Except.ok.inj (h'.2.symm.trans h.2), hbytes'.symm.trans hbytes⟩

/-- `ADD R1 5`, in 13 bytes. -/
theorem encode_undoes_decode_add :
    let f : Nat → Byte := fun k => if k = 1 ∨ k = 2 then 1 else if k = 3 then 5 else 0
    instructionEncode ⟨.add, .imm, 1, 0, 5⟩ 13 = (11, (List.range 11).map f) := by
  intro f
  have hdecodes : Decodes f 13 11 ⟨.add, .imm, 1, 0, 5⟩ := ⟨by decide, rfl⟩
  exact (encode_undoes_decode hdecodes).2.1

end BSVM
