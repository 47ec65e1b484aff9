/-
# `BSVM.Codec` — `instructions_codec.c`

The encoder stores field after field as long as they fit, and returns 0 when
one does not.

The decoder fills a structure the caller passes in.  Its argument bytes are
or-ed into what `args` holds already, and a buffer of fewer than two bytes
leaves the mode as it was.  A buffer is read byte by byte; where its bytes
end, reading faults.
-/
import BSVM.Instruction

namespace BSVM

abbrev Buffer := Nat → Exec Byte

def codecB : Mode → Bool
  | .reg | .ind | .idx => true
  | _ => false

def codecARGS : Mode → Bool
  | .imm | .idx | .dir => true
  | _ => false

/-! ## Encoding -/

/-- `(uint8_t) instr->opcode`. -/
def OpCode.toByte (opcode : OpCode) : Byte :=
  BitVec.ofNat 8 (OpCode.all.idxOf opcode)

/-- `(uint8_t) instr->mode`. -/
def Mode.toByte : Mode → Byte
  | .other raw => BitVec.ofNat 8 raw
  | mode => BitVec.ofNat 8 (Mode.all.idxOf mode)

/-- The loop `buffer[i++] = (uint8_t) (args >> (j * 8))`. -/
def encodeArgs (args : Word) : List Byte :=
  (List.range 8).map fun j => (args.sshiftRight (8 * j)).setWidth 8

/-- The number returned, and the bytes stored from the start of the buffer.
An `OpCode` is below `OP_COUNT` by its type, so `exit` is not reached. -/
def instructionEncode (instr : Instruction) (remaining : Nat) : Nat × List Byte :=
  if remaining < 2 then (0, [])
  else
    let buffer := [instr.opcode.toByte, instr.mode.toByte]
    if instr.mode = .none then (buffer.length, buffer)
    else
      let remaining := remaining - 2
      if remaining < 1 then (0, buffer)
      else
        let buffer := buffer ++ [instr.a]
        let remaining := remaining - 1
        if codecB instr.mode && remaining < 1 then (0, buffer)
        else
          let buffer := if codecB instr.mode then buffer ++ [instr.b] else buffer
          let remaining := if codecB instr.mode then remaining - 1 else remaining
          if codecARGS instr.mode then
            if remaining < 8 then (0, buffer)
            else
              let buffer := buffer ++ encodeArgs instr.args
              (buffer.length, buffer)
          else (buffer.length, buffer)

/-! ## Decoding -/

/-- The loop `args |= ((uint64_t) buffer[i++]) << (j * 8)`. -/
def decodeArgs (buffer : Buffer) (i : Nat) (args : Word) : Exec Word :=
  (List.range 8).foldlM (fun args j => do
    let byte ← buffer (i + j)
    return args ||| (byte.setWidth 64 <<< (8 * j))) args

/-- The number of bytes consumed, and `*instr` afterwards. -/
def instructionDecode (instr : Instruction) (buffer : Buffer) (remaining : Nat) :
    Exec (Nat × Instruction) :=
  if remaining < 2 then .ok (0, instr)
  else do
    let op ← buffer 0
    match OpCode.ofByte? op with
    | none => .error .exit
    | some opcode => do
        let m ← buffer 1
        let mode := Mode.ofByte m
        let instr := { instr with opcode := opcode, mode := mode }
        if mode = .none then return (2, instr)
        else do
          let size ← modeSize mode
          if remaining - 2 < size then return (2, instr)
          else do
            let a ← buffer 2
            let b ← if codecB mode then buffer 3 else .ok instr.b
            let i := if codecB mode then 4 else 3
            if codecARGS mode then do
              let args ← decodeArgs buffer i instr.args
              return (i + 8, { instr with a := a, b := b, args := args })
            else return (i, { instr with a := a, b := b })

end BSVM
