/-
# `BSVM.Parser` — `parser.c`

A function that returns `PARSER_OK` gives what it has parsed; after any other
status nobody looks at the node.  `CHK_LEXER_STATUS` and `CHK_PARSER_STATUS`
exit.  `malloc` succeeds, with a pointer that is not known.

Three things depend on more than the line:

    an operand in brackets that begins with PLUS, a string or a mnemonic
                        sets an offset and nothing else of `*ope`
    a token behind EOF  is taken from what the buffer held before
    `IRList`            is not set to the block that `realloc` returns, and
                        points to no block from then on
-/
import BSVM.IR
import BSVM.Lexer

namespace BSVM

/-- `ParserError`, in its order, without `PARSER_OK`. -/
inductive ParserError where
  | invalidArgs
  | invalidRegister
  | unknownDir
  | unknownOp
  | unknownInstr
  | syntaxError
  | tooManyOpe
  | tooFewOpe
  | empty
  deriving DecidableEq, Repr

/-- A status, or what was parsed, with the lexer behind it. -/
abbrev Parsed (α : Type) := Except ParserError (α × Lexer)

/-! ## Names -/

/-- A string literal. -/
def literal (s : String) : List Byte :=
  s.toList.map chr ++ [nul]

/-- `op_map[i].mnemonic`. -/
def OpCode.mnemonic : OpCode → List Byte
  | .add => literal "ADD"
  | .sub => literal "SUB"
  | .mul => literal "MUL"
  | .div => literal "DIV"
  | .cmp => literal "CMP"
  | .neg => literal "NEG"
  | .and => literal "AND"
  | .or => literal "OR"
  | .xor => literal "XOR"
  | .not => literal "NOT"
  | .shl => literal "SHL"
  | .shr => literal "SHR"
  | .st => literal "ST"
  | .ld => literal "LD"
  | .swp => literal "SWP"
  | .push => literal "PUSH"
  | .pop => literal "POP"
  | .fas => literal "FAS"
  | .call => literal "CALL"
  | .rtn => literal "RTN"
  | .nop => literal "NOP"
  | .rst => literal "RST"
  | .jmp => literal "JMP"
  | .jeq => literal "JEQ"
  | .jne => literal "JNE"
  | .jle => literal "JLE"
  | .jlt => literal "JLT"
  | .jge => literal "JGE"
  | .jgt => literal "JGT"
  | .halt => literal "HALT"
  | .trap => literal "TRAP"

def DirType.all : List DirType :=
  [.string, .addr, .entry, .word, .byte, .text, .data]

/-- `dir_map[i].mnemonic`. -/
def DirType.mnemonic : DirType → List Byte
  | .string => literal "string"
  | .addr => literal "addr"
  | .entry => literal "entry"
  | .word => literal "word"
  | .byte => literal "byte"
  | .text => literal "text"
  | .data => literal "data"

/-- `!strncmp(s, t, len)`, `len` being the length of `t`. -/
def strnEq : List Byte → List Byte → Bool
  | _, [] => true
  | [], _ => false
  | a :: s, b :: t =>
      if a ≠ b then false
      else if a = nul then true
      else strnEq s t

def opLookup (text : List Byte) : Option OpCode :=
  OpCode.all.find? fun op => strnEq op.mnemonic text

def dirLookup (text : List Byte) : Option DirType :=
  DirType.all.find? fun type => strnEq type.mnemonic text

/-! ## Tokens -/

def isSyntaxElement : Token → Bool
  | .comma | .dot | .openBracket | .closeBracket | .colon => true
  | _ => false

def isEndOfInstr : Token → Bool
  | .eof | .newline => true
  | _ => false

/-- `lexer_next_token`, then `CHK_LEXER_STATUS`. -/
def next (lexer : Lexer) : Exec (Token × Lexer) := do
  let (status, tok, lexer) ← lexerNextToken lexer
  if status ≠ .ok then .error .exit
  else return (tok, lexer)

/-- `CHK_PARSER_STATUS`. -/
def chkParser {α : Type} : Parsed α → Exec (α × Lexer)
  | .error _ => .error .exit
  | .ok a => .ok a

/-- `malloc`, `memcpy`, and the NUL behind the text. -/
def mkIdent (ptr : Word) (text : List Byte) : Ident where
  str := text ++ [nul]
  ptr := ptr
  length := BitVec.ofNat 64 (text.length + 1)

/-- The end of the line, which is the end of every directive, label and
instruction. -/
def lineEnd {α : Type} (a : α) (lexer : Lexer) : Exec (Parsed α) := do
  let (tok, lexer) ← next lexer
  if !isEndOfInstr tok && isSyntaxElement tok then return .error .syntaxError
  else if !isEndOfInstr tok then return .error .tooManyOpe
  else return .ok (a, lexer)

/-! ## Directives and labels -/

def parseDir (ptr : Word) (lexer : Lexer) : Exec (Parsed IRBody) := do
  let (tok, lexer) ← next lexer
  match tok with
  | .ident text =>
      match dirLookup text with
      | none => return .error .unknownDir
      | some type => do
          let (tok, lexer) ← next lexer
          match tok with
          | .number n => lineEnd (.dir type (.value n)) lexer
          | .minus => do
              let (tok, lexer) ← next lexer
              match tok with
              | .number n => lineEnd (.dir type (.value (-n))) lexer
              | _ => return .error .syntaxError
          | .ident text => lineEnd (.dir type (.ident (mkIdent ptr text))) lexer
          | .string text => lineEnd (.dir type (.string (mkIdent ptr text))) lexer
          | _ =>
              if isEndOfInstr tok then return .ok (.dir type .none, lexer)
              else if isSyntaxElement tok then return .error .syntaxError
              else return .error .invalidArgs
  | _ => return .error .syntaxError

def parseLabel (ptr : Word) (text : List Byte) (lexer : Lexer) : Exec (Parsed IRBody) := do
  let (tok, lexer) ← next lexer
  match tok with
  | .colon => lineEnd (.label (.ident (mkIdent ptr text))) lexer
  | _ =>
      if isEndOfInstr tok then return .error .syntaxError
      else return .error .tooManyOpe

/-! ## Operands -/

/-- `ope->mem.offset = offset`, which shares its bytes with no other member. -/
def Operand.setOffset : Operand → Word → Operand
  | .memIdx r _, offset => .memIdx r offset
  | .memIdxIdent x _, offset => .memIdxIdent x offset
  | ope, _ => ope

/-- The tail of a bracket: the offset and `]`.  The status of the lexer is not
looked at. -/
def parseOffset (neg : Bool) (set : Word → Operand) (lexer : Lexer) :
    Exec (Parsed Operand) := do
  let (_, tok, lexer) ← lexerNextToken lexer
  match tok with
  | .number n => do
      let offset := if neg then -n else n
      let (_, tok, lexer) ← lexerNextToken lexer
      if tok ≠ .closeBracket then return .error .syntaxError
      else return .ok (set offset, lexer)
  | _ => return .error .syntaxError

/-- What stands behind `[`: two tokens are read before the first is looked at.
A `-` has no number in its union, and `ope` is what `*ope` holds. -/
def parseBracket (ptr : Word) (ope : Operand) (lexer : Lexer) : Exec (Parsed Operand) := do
  let (tok, lexer) ← next lexer
  let (suiv, lexer) ← next lexer
  if isEndOfInstr tok || isSyntaxElement tok || isEndOfInstr suiv then return .error .syntaxError
  else
    match tok with
    | .minus =>
        match suiv with
        | .number _ =>
            if suiv ≠ .closeBracket then return .error .syntaxError
            else return .ok (.memValue (-0), lexer)
        | _ => return .error .syntaxError
    | .number n =>
        if suiv ≠ .closeBracket then return .error .syntaxError
        else return .ok (.memValue n, lexer)
    | .ident text =>
        match suiv with
        | .minus => parseOffset true (.memIdxIdent (mkIdent ptr text)) lexer
        | .plus => parseOffset false (.memIdxIdent (mkIdent ptr text)) lexer
        | .closeBracket => lineEnd (.memIdent (mkIdent ptr text)) lexer
        | _ => return .error .syntaxError
    | .register r =>
        match suiv with
        | .minus => parseOffset true (.memIdx (r.setWidth 8)) lexer
        | .plus => parseOffset false (.memIdx (r.setWidth 8)) lexer
        | .closeBracket => return .ok (.memReg (r.setWidth 8), lexer)
        | _ => return .error .syntaxError
    | _ => parseOffset false ope.setOffset lexer

def parseInstrOPE (ptr : Word) (ope : Operand) (tok : Token) (lexer : Lexer) :
    Exec (Parsed Operand) := do
  match tok with
  | .ident text => return .ok (.ident (mkIdent ptr text), lexer)
  | .minus => do
      let (tok, lexer) ← next lexer
      match tok with
      | .number n => return .ok (.value (-n), lexer)
      | _ => return .error .syntaxError
  | .number n => return .ok (.value n, lexer)
  | .register r =>
      if 255 < r.toNat then return .error .invalidRegister
      else return .ok (.reg (r.setWidth 8), lexer)
  | .openBracket => parseBracket ptr ope lexer
  | _ => return .error .invalidArgs

/-! ## Instructions and lines -/

/-- What the members `a` and `b` of `IR->instr` hold. -/
structure Slot where
  a : Operand
  b : Operand

/-- `ptr` is what `malloc` returns for each of them. -/
def parseInstr (ptr : Nat → Word) (slot : Slot) (text : List Byte) (lexer : Lexer) :
    Exec (Parsed IRBody) := do
  match opLookup text with
  | none => return .error .unknownInstr
  | some op => do
      let (tok, lexer) ← next lexer
      if isEndOfInstr tok then return .ok (.instr op .none .none, lexer)
      else do
        let a ← parseInstrOPE (ptr 0) slot.a tok lexer
        let (a, lexer) ← chkParser a
        let (tok, lexer) ← next lexer
        if !isEndOfInstr tok && tok ≠ .comma then
          if isSyntaxElement tok then return .error .syntaxError
          else return .error .tooManyOpe
        else if isEndOfInstr tok then return .ok (.instr op a .none, lexer)
        else do
          let (tok, lexer) ← next lexer
          let b ← parseInstrOPE (ptr 1) slot.b tok lexer
          let (b, lexer) ← chkParser b
          lineEnd (.instr op a b) lexer

/-- A pointer that is written through, if it points into its block. -/
def access {α : Type} : Option α → Exec α
  | none => .error .table
  | some a => .ok a

/-- `IR` is the node to be filled; it is written to as soon as the first token
has been recognised. -/
def parseLine (ptr : Nat → Word) (buffer : List Byte) (IR : Option Slot) (lexer : Lexer) :
    Exec (Except ParserError IRNode) := do
  let (tok, lexer) ← next { lexer with cursor := buffer }
  if isEndOfInstr tok then return .error .empty
  else if tok ≠ .dot && isSyntaxElement tok then return .error .syntaxError
  else
    match tok with
    | .dot => do
        let _ ← access IR
        let (body, _) ← chkParser (← parseDir (ptr 0) lexer)
        return .ok { line := lexer.line + 1, body := body }
    | .ident text => do
        let _ ← access IR
        let (body, _) ← chkParser (← parseLabel (ptr 0) text lexer)
        return .ok { line := lexer.line + 1, body := body }
    | .mnemonic text => do
        let slot ← access IR
        let (body, _) ← chkParser (← parseInstr ptr slot text lexer)
        return .ok { line := lexer.line + 1, body := body }
    | _ => return .error .unknownInstr

/-! ## `parser` -/

@[simp] abbrev INSTR_LEN : Nat := 255

/-- The strings that the calls of `fgets(str, INSTR_LEN, file)` store, until one
of them finds nothing; `str` is what the current one has read. -/
def pieces (str : List Byte) : List Byte → List (List Byte)
  | [] => if str = [] then [] else [str]
  | c :: file =>
      if c = chr '\n' ∨ str.length + 1 = INSTR_LEN - 1 then (str ++ [c]) :: pieces [] file
      else pieces (str ++ [c]) file

/-- What the parser takes from outside the file. -/
structure ParserHost where
  /-- what `malloc` returns on a line -/
  ptr : Word → Nat → Word
  /-- what the block of `malloc` holds in its places: the node, and what the
  members `a` and `b` of its `instr` would be -/
  fresh : Nat → IRNode × Slot

/-- What `memset` makes of a node. -/
def zeroNode : IRNode × Slot :=
  ({ line := 0, body := .instr .add .none .none }, { a := .none, b := .none })

/-- The locals of `parser` that live from one line to the next. -/
structure ParserState where
  /-- `IRList[0 .. i)` -/
  nodes : List IRNode
  /-- `IRList[i]` was cleared -/
  cleared : Bool
  progSize : Nat
  /-- the bytes of the block that `IRList` points to -/
  block : Nat
  str : List Byte
  line : Word

/-- `IRList[i]`, as it was. -/
def ParserState.current (host : ParserHost) (s : ParserState) : IRNode × Slot :=
  if s.cleared then zeroNode else host.fresh s.nodes.length

/-- `IRList[i]` is in the block. -/
def ParserState.room (s : ParserState) : Bool :=
  (s.nodes.length + 1) * sizeofIRNode ≤ s.block

/-- `str[0 ..]` after `fgets`. -/
def fill (piece str : List Byte) : List Byte :=
  piece ++ nul :: str.drop (piece.length + 1)

/-- `if (i == prog_size)`; `tmp` is not assigned to `IRList`, whose block is gone. -/
def ParserState.grow (s : ParserState) : ParserState :=
  if s.nodes.length = s.progSize then { s with progSize := 2 * s.progSize, block := 0 } else s

/-- One round of the loop. -/
def parserStep (host : ParserHost) (s : ParserState) (piece : List Byte) : Exec ParserState := do
  let s := { s.grow with str := fill piece s.str }
  let (node, slot) := s.current host
  let status ← parseLine (host.ptr s.line) s.str (if s.room then some slot else none)
    { cursor := s.str, line := s.line }
  match status with
  | .ok node => return { s with nodes := s.nodes ++ [node], cleared := false, line := s.line + 1 }
  | .error .empty =>
      if s.room then return { s with cleared := true, line := s.line + 1 } else .error .table
  | .error _ => return { s with nodes := s.nodes ++ [node], cleared := false, line := s.line + 1 }

/-- The locals before the loop. -/
def ParserState.start : ParserState where
  nodes := []
  cleared := false
  progSize := 128
  block := 128 * sizeofIRNode
  str := List.replicate (INSTR_LEN + 1) nul
  line := 0

/-- The list that is returned, as its caller reads it.  `file` is what `fopen`
opens, if it does, and `closes` whether `fclose` succeeds. -/
def parser (host : ParserHost) (file : Option (List Byte)) (closes : Bool) :
    Exec (List IRNode) :=
  match file with
  | none => .error .exit
  | some file => do
      let s ← (pieces [] file).foldlM (parserStep host) .start
      if !closes then .error .exit
      else if s.nodes.length * sizeofIRNode ≤ s.block then return s.nodes
      else .error .table

end BSVM
