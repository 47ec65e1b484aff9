/-
# `BSVM.Assembler` — `assembler.c`

The two passes are loops over the nodes, each round of which may return an
error; `exit` is a fault.  The state of a loop is `struct Assembler` and the
locals that live from one round to the next.  `status` is one of them in both,
and neither pass sets it first.

The arrays of `malloc` keep what was stored in them, in order, so that a place
that is stored to twice, or not at all, can be told apart.  The symbol table
has a size in entries and one in bytes: `addToSymbolTable` passes the first to
`realloc`, which takes the second.
-/
import BSVM.Lib.Pass
import BSVM.Lib.Written
import BSVM.Cpu
import BSVM.IR

namespace BSVM

/-! ## `assembler.h` -/

/-- `AsmError`, in its order. -/
inductive AsmError where
  | notATextSection
  | notADataSection
  | sectionUndefined
  | labelRedefined
  | labelUndefined
  | entryRedefined
  | wrongArgumentType
  | tooManyArguments
  | tooFewArguments
  | invalidAdressingMode
  | ok
  deriving DecidableEq, Repr

/-- `struct Symbol`; `string` is the object that is pointed to. -/
structure Symbol where
  string : List Byte
  addr : Word
  deriving DecidableEq, Repr

@[simp] abbrev sizeofSymbol : Nat := 16

/-- `struct Symbol_table`: the entries below `next`, and the bytes of the object
that `table` points to. -/
structure SymbolTable where
  table : List Symbol
  size : Nat
  bytes : Nat
  deriving DecidableEq, Repr

/-- `Section`, in its order. -/
inductive Section where
  | undefined | text | data
  deriving DecidableEq, Repr

/-- An array of `malloc`: its size, and the bytes stored in it with their places. -/
structure HostArray where
  size : Word
  stores : List (Byte × Nat)
  deriving DecidableEq, Repr

/-- `struct Assembler`, with the members of `bin`. -/
structure Assembler where
  symtable : SymbolTable
  headers : BinaryHeader
  bytecode : HostArray
  data : HostArray
  errorLine : Word
  deriving DecidableEq, Repr

@[simp] abbrev MAGIC_NUMBER : BitVec 32 := 0x66838677

/-- `struct Assembler ass = {0}`. -/
def Assembler.zero : Assembler where
  symtable := { table := [], size := 0, bytes := 0 }
  headers := { magicNumber := 0, entryPoint := 0, codeSize := 0, dataSize := 0 }
  bytecode := { size := 0, stores := [] }
  data := { size := 0, stores := [] }
  errorLine := 0

/-! ## Arrays -/

def malloc (size : Word) : HostArray where
  size := size
  stores := []

def HostArray.store (array : HostArray) (k : Nat) (byte : Byte) : Exec HostArray :=
  if k < array.size.toNat then .ok { array with stores := array.stores ++ [(byte, k)] }
  else .error .table

/-- Consecutive bytes from `cursor` on: a loop of stores, or a `memcpy`. -/
def HostArray.storeAll : HostArray → Word → List Byte → Exec HostArray
  | array, _, [] => .ok array
  | array, cursor, byte :: bytes => do
      let array ← array.store cursor.toNat byte
      array.storeAll (cursor + 1) bytes

/-- The byte at `k`, if it was stored. -/
def HostArray.read (array : HostArray) (k : Nat) : Option Byte :=
  Written.written array.stores k

/-- The whole array. -/
def HostArray.contents (array : HostArray) : Exec (List Byte) :=
  (List.range array.size.toNat).mapM fun k => (array.read k).elim (.error .uninitialised) .ok

/-- `ass.bin`, as `writeBinaryFile` reads it. -/
def Assembler.binary (ass : Assembler) : Exec Binary := do
  let bytecode ← ass.bytecode.contents
  let data ← ass.data.contents
  return { headers := ass.headers, bytecode := bytecode, data := data }

/-! ## The symbol table -/

/-- `!strcmp(s, t)`. -/
def strEq : List Byte → List Byte → Exec Bool
  | a :: s, b :: t =>
      if a ≠ b then .ok false
      else if a = 0 then .ok true
      else strEq s t
  | _, _ => .error .table

/-- The loop of `isInSymbolTable` and `getSymbolAddr`: the first symbol that is
called `s`. -/
def findSymbol (s : List Byte) : List Symbol → Exec (Option Symbol)
  | [] => .ok none
  | symbol :: table => do
      if ← strEq s symbol.string then return some symbol
      else findSymbol s table

def isInSymbolTable (symtable : SymbolTable) (s : List Byte) : Exec Bool := do
  return (← findSymbol s symtable.table).isSome

/-- `*addr`, if the result is 1. -/
def getSymbolAddr (symtable : SymbolTable) (s : List Byte) : Exec (Option Word) := do
  return (← findSymbol s symtable.table).map Symbol.addr

def addToSymbolTable (symtable : SymbolTable) (s : Symbol) : Exec SymbolTable :=
  let symtable :=
    if symtable.table.length = symtable.size then
      { symtable with size := 2 * symtable.size, bytes := 2 * symtable.size }
    else symtable
  if (symtable.table.length + 1) * sizeofSymbol ≤ symtable.bytes then
    .ok { symtable with table := symtable.table ++ [s] }
  else .error .table

/-! ## Operands -/

/-- The mode returned, and `*status` afterwards. -/
def getModeFromOperands (a b : Operand) (argsCount : Nat) (status : AsmError) : Mode × AsmError :=
  if argsCount = 0 then
    if a.type ≠ .none ∨ b.type ≠ .none then (.none, .tooManyArguments)
    else (.none, status)
  else if argsCount = 1 ∧ b.type ≠ .none then (.none, .tooManyArguments)
  else if argsCount = 1 ∧ a.type = .reg then (.regu, .ok)
  else
    let b := if argsCount = 1 then a else b
    if a.type = .none then (.none, .tooFewArguments)
    else if argsCount = 2 ∧ b.type = .none then (.none, .tooFewArguments)
    else if argsCount = 2 ∧ a.type ≠ .reg then (.none, .wrongArgumentType)
    else
      match b.type with
      | .ident | .value => (.imm, .ok)
      | .reg => (.reg, .ok)
      | .memIdent | .memIdxIdent | .memValue => (.dir, .ok)
      | .memReg => (.ind, .ok)
      | .memIdx => (.idx, .ok)
      | .none | .string => (.none, .wrongArgumentType)

/-- `get_handler(op, mode) != NULL`; which entries of the tables are set does not
depend on the host. -/
def hasHandler (op : OpCode) (mode : Mode) : Bool :=
  (getHandler default op mode).isSome

/-! ## The first pass -/

structure FirstPass where
  ass : Assembler
  textAddr : Word
  dataAddr : Word
  sect : Section
  entryOk : Bool
  status : AsmError

abbrev FirstRound := Exec (AsmError × FirstPass)

def firstPassLabel (name : Operand) (s : FirstPass) : FirstRound := do
  let ident ← name.asIdent
  if ← isInSymbolTable s.ass.symtable ident.str then return (.labelRedefined, s)
  else if s.sect = .undefined then return (.sectionUndefined, s)
  else do
    let addr := if s.sect = .data then s.dataAddr else s.textAddr
    let symtable ← addToSymbolTable s.ass.symtable { string := ident.str, addr := addr }
    return (.ok, { s with ass.symtable := symtable })

def firstPassDir (type : DirType) (operand : Operand) (s : FirstPass) : FirstRound :=
  match type with
  | .byte =>
      if operand.type ≠ .value then .ok (.wrongArgumentType, s)
      else if s.sect ≠ .data then .ok (.notADataSection, s)
      else .ok (.ok, { s with dataAddr := s.dataAddr + 1 })
  | .word | .addr =>
      if operand.type ≠ .value ∧ operand.type ≠ .ident then .ok (.wrongArgumentType, s)
      else if s.sect ≠ .data then .ok (.notADataSection, s)
      else .ok (.ok, { s with dataAddr := s.dataAddr + 8 })
  | .string =>
      if operand.type ≠ .string then .ok (.wrongArgumentType, s)
      else do
        let ident ← operand.asIdent
        let s := { s with dataAddr := s.dataAddr + ident.length }
        if s.sect ≠ .data then return (.notADataSection, s)
        else return (.ok, s)
  | .entry =>
      if operand.type ≠ .ident then .ok (.wrongArgumentType, s)
      else if s.entryOk then .ok (.entryRedefined, s)
      else .ok (.ok, { s with entryOk := true })
  | .data =>
      if operand.type ≠ .none then .ok (.tooManyArguments, s)
      else .ok (.ok, { s with sect := .data })
  | .text =>
      if operand.type ≠ .none then .ok (.tooManyArguments, s)
      else .ok (.ok, { s with sect := .text })

def firstPassInstr (op : OpCode) (a b : Operand) (s : FirstPass) : FirstRound :=
  if s.sect ≠ .text then .ok (.notATextSection, s)
  else
    let (mode, status) := getModeFromOperands a b (getArgsCount op) s.status
    let s := { s with status := status }
    if status ≠ .ok then .error .exit
    else if !hasHandler op mode then .ok (.invalidAdressingMode, s)
    else do
      let size ← modeSize mode
      return (.ok, { s with textAddr := s.textAddr + BitVec.ofNat 64 size })

/-- One round of the loop. -/
def firstPassNode (node : IRNode) (s : FirstPass) : FirstRound :=
  let s := { s with ass.errorLine := node.line }
  match node.body with
  | .label name => firstPassLabel name s
  | .dir type operand => firstPassDir type operand s
  | .instr op a b => firstPassInstr op a b s

/-- The locals before the loop; `status` is not set. -/
def FirstPass.start (status : AsmError) (ass : Assembler) : FirstPass where
  ass := { ass with symtable := { table := [], size := 16, bytes := 16 * sizeofSymbol } }
  textAddr := 0
  dataAddr := BitVec.ofNat 64 DATA_BASE
  sect := .undefined
  entryOk := false
  status := status

def assemblerFirstPass (status : AsmError) (ass : Assembler) (irList : IRList) :
    Exec (AsmError × Assembler) := do
  let (r, s) ← runPass .ok firstPassNode irList.nodes (.start status ass)
  if r ≠ .ok then return (r, s.ass)
  else return (.ok, { s.ass with
    headers.codeSize := s.textAddr
    headers.dataSize := s.dataAddr - BitVec.ofNat 64 DATA_BASE })

/-! ## The second pass -/

structure SecondPass where
  ass : Assembler
  textAddr : Word
  dataAddr : Word
  sect : Section
  status : AsmError

abbrev SecondRound := Exec (AsmError × SecondPass)

/-- The loop that stores `addr >> (8 * j)`. -/
def addrBytes (addr : Word) : List Byte :=
  (List.range 8).map fun j => (addr >>> (8 * j)).setWidth 8

/-- `DIR_WORD`, into which `DIR_ADDR` falls through. -/
def secondPassWord (operand : Operand) (s : SecondPass) : SecondRound :=
  if s.sect ≠ .data then .ok (.notADataSection, s)
  else do
    let value ← operand.asValue
    let data ← s.ass.data.storeAll s.dataAddr (encodeArgs value)
    return (.ok, { s with ass.data := data, dataAddr := s.dataAddr + 8 })

def secondPassDir (type : DirType) (operand : Operand) (s : SecondPass) : SecondRound :=
  match type with
  | .byte =>
      if s.sect ≠ .data then .ok (.notADataSection, s)
      else do
        let value ← operand.asValue
        let data ← s.ass.data.storeAll s.dataAddr [value.setWidth 8]
        return (.ok, { s with ass.data := data, dataAddr := s.dataAddr + 1 })
  | .addr =>
      if s.sect ≠ .data then .ok (.notADataSection, s)
      else if operand.type = .ident then do
        let ident ← operand.asIdent
        match ← getSymbolAddr s.ass.symtable ident.str with
        | none => return (.labelUndefined, s)
        | some addr => do
            let data ← s.ass.data.storeAll s.dataAddr (addrBytes addr)
            return (.ok, { s with ass.data := data, dataAddr := s.dataAddr + 8 })
      else secondPassWord operand s
  | .word => secondPassWord operand s
  | .data => .ok (.ok, { s with sect := .data })
  | .text => .ok (.ok, { s with sect := .text })
  | .entry => do
      let ident ← operand.asIdent
      match ← getSymbolAddr s.ass.symtable ident.str with
      | none => return (.labelUndefined, s)
      | some addr => return (.ok, { s with ass.headers.entryPoint := addr })
  | .string =>
      if s.sect ≠ .data then .ok (.notADataSection, s)
      else do
        let ident ← operand.asIdent
        if ident.str.length < ident.length.toNat then .error .table
        else do
          let data ← s.ass.data.storeAll s.dataAddr (ident.str.take ident.length.toNat)
          return (.ok, { s with ass.data := data, dataAddr := s.dataAddr + ident.length })

/-- `*base_reg = reg`. -/
def Instruction.setBase (instr : Instruction) (argsCount : Nat) (reg : Byte) : Instruction :=
  if argsCount ≤ 1 then { instr with a := reg } else { instr with b := reg }

/-- `instr.a` before the switch, which is the first register of two operands. -/
def firstReg (argsCount : Nat) (a : Operand) : Exec Byte :=
  if argsCount = 2 then a.asReg else .ok 0

/-- The `switch (ope->type)`; no result where a label is not defined. -/
def setOperand (symtable : SymbolTable) (argsCount : Nat) (ope : Operand) (instr : Instruction) :
    Exec (Option Instruction) :=
  match ope with
  | .none => .ok (some instr)
  | .value v | .memValue v => .ok (some { instr with args := v })
  | .reg r | .memReg r => .ok (some (instr.setBase argsCount r))
  | .memIdx r offset => .ok (some { instr.setBase argsCount r with args := offset })
  | .ident x | .memIdent x => do
      return (← getSymbolAddr symtable x.str).map fun addr => { instr with args := addr }
  | .memIdxIdent x offset => do
      return (← getSymbolAddr symtable x.str).map fun addr => { instr with args := addr + offset }
  | .string _ => .error .exit

def secondPassInstr (op : OpCode) (a b : Operand) (s : SecondPass) : SecondRound :=
  if s.sect ≠ .text then .ok (.notATextSection, s)
  else
    let argsCount := getArgsCount op
    let (mode, status) := getModeFromOperands a b argsCount s.status
    let s := { s with status := status }
    if status ≠ .ok then .error .exit
    else do
      let ope := if argsCount ≤ 1 then a else b
      let reg ← firstReg argsCount a
      let instr := { zeroInstr with opcode := op, mode := mode, a := reg }
      match ← setOperand s.ass.symtable argsCount ope instr with
      | none => return (.labelUndefined, s)
      | some instr => do
          let (_, bytes) := instructionEncode instr (s.ass.headers.codeSize - s.textAddr).toNat
          let bytecode ← s.ass.bytecode.storeAll s.textAddr bytes
          let size ← modeSize instr.mode
          return (.ok, { s with
            ass.bytecode := bytecode
            textAddr := s.textAddr + BitVec.ofNat 64 size })

/-- One round of the loop. -/
def secondPassNode (node : IRNode) (s : SecondPass) : SecondRound :=
  let s := { s with ass.errorLine := node.line }
  match node.body with
  | .label _ => .ok (.ok, s)
  | .dir type operand => secondPassDir type operand s
  | .instr op a b => secondPassInstr op a b s

/-- The locals before the loop; `status` is not set. -/
def SecondPass.start (status : AsmError) (ass : Assembler) : SecondPass where
  ass := { ass with
    headers.magicNumber := MAGIC_NUMBER
    bytecode := malloc ass.headers.codeSize
    data := malloc ass.headers.dataSize }
  textAddr := 0
  dataAddr := 0
  sect := .undefined
  status := status

def assemblerSecondPass (status : AsmError) (ass : Assembler) (irList : IRList) :
    Exec (AsmError × Assembler) := do
  let (r, s) ← runPass .ok secondPassNode irList.nodes (.start status ass)
  return (r, s.ass)

end BSVM
