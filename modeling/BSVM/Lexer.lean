/-
# `BSVM.Lexer` — `lexer.c`

`cursor` is what is left of the object that `lexer->cursor` points into; the
lexer stops at a NUL, and where the object ends without one, reading faults.

`char` is signed, so the tests of `ctype.h` are false from 128 on, and the
`EOF` that `escape_sequence` returns is the character 255.  Its `'\"'` is a tab.
The accumulator of a number is compared with `INT64_MAX` before the digit is
added; it wraps when the digit is too much.

Every token has the line of the lexer, and a column that only messages show;
neither is kept here.
-/
import BSVM.State

namespace BSVM

/-! ## Characters -/

def chr (c : Char) : Byte :=
  BitVec.ofNat 8 c.toNat

@[simp] abbrev nul : Byte := 0

def isdigit (c : Byte) : Bool := (chr '0').toNat ≤ c.toNat && c.toNat ≤ (chr '9').toNat
def islower (c : Byte) : Bool := (chr 'a').toNat ≤ c.toNat && c.toNat ≤ (chr 'z').toNat
def isupper (c : Byte) : Bool := (chr 'A').toNat ≤ c.toNat && c.toNat ≤ (chr 'Z').toNat
def isalnum (c : Byte) : Bool := isdigit c || islower c || isupper c

/-- `(*cursor == ' ') || (*cursor == '\t')`. -/
def isBlank (c : Byte) : Bool := c = chr ' ' || c = chr '\t'

/-- What an identifier goes on with. -/
def isIdent (c : Byte) : Bool := isalnum c || c = chr '_'

/-- What a comment goes on with. -/
def inComment (c : Byte) : Bool := c ≠ chr '\n' && c ≠ nul

/-- `c - '0'`. -/
def digit (c : Byte) : Word := (c - chr '0').setWidth 64

@[simp] abbrev EOF : Byte := 255

def escapeSequence (c : Byte) : Byte :=
  if c = chr 'n' then chr '\n'
  else if c = chr 't' then chr '\t'
  else if c = chr 'r' then chr '\r'
  else if c = chr '"' then chr '\t'
  else if c = chr '\\' then chr '\\'
  else if c = chr '0' then nul
  else EOF

/-! ## Tokens -/

/-- `struct Token`: its type, and the members of the union that were set. -/
inductive Token where
  | openBracket | closeBracket
  | comma | dot | colon
  | string (text : List Byte)
  | number (number : Word)
  | ident (text : List Byte)
  | register (reg : Word)
  | mnemonic (text : List Byte)
  | plus | minus
  | newline | eof
  deriving DecidableEq, Repr

inductive LexerError where
  | missingQuote | invalidToken | unknownEscapeSequence | ok
  deriving DecidableEq, Repr

/-- `*status`, the token, and the cursor afterwards. -/
abbrev Lexed := LexerError × Token × List Byte

/-- The `switch (*lexer->cursor)`. -/
def punctuation (c : Byte) : Option Token :=
  if c = chr '.' then some .dot
  else if c = chr ',' then some .comma
  else if c = chr '[' then some .openBracket
  else if c = chr ']' then some .closeBracket
  else if c = chr ':' then some .colon
  else if c = chr '+' then some .plus
  else if c = chr '-' then some .minus
  else if c = chr '\n' then some .newline
  else if c = nul then some .eof
  else none

/-! ## Loops -/

/-- `while (p(*cursor)) cursor++`: the characters passed, and the cursor. -/
def spanChars (p : Byte → Bool) : List Byte → Exec (List Byte × List Byte)
  | [] => .error .table
  | c :: s =>
      if p c then do
        let (text, cursor) ← spanChars p s
        return (c :: text, cursor)
      else .ok ([], c :: s)

/-- The two loops over digits: the value, if it does not get too large, how many
digits there were, and the cursor. -/
def scanDigits (tooLarge : Word → Bool) (value : Word) (len : Nat) :
    List Byte → Exec (Option Word × Nat × List Byte)
  | [] => .error .table
  | c :: s =>
      if isdigit c then
        if tooLarge value then .ok (none, len, c :: s)
        else scanDigits tooLarge (value * 10 + digit c) (len + 1) s
      else .ok (some value, len, c :: s)

/-- `((__int128_t) reg * 10) > INT64_MAX`. -/
def regTooLarge (reg : Word) : Bool := 2 ^ 63 - 1 < reg.toNat * 10

/-- `((__int128_t) value * 10) > INT64_MAX`. -/
def valueTooLarge (value : Word) : Bool := 2 ^ 63 - 1 < value.toInt * 10

/-- `str[len] = c`. -/
def storeChar (str : List Byte) (strSize : Nat) (c : Byte) : Exec (List Byte) :=
  if str.length < strSize then .ok (str ++ [c]) else .error .table

/-- The loop over a string, and the test behind it; `str` is what has been stored. -/
def scanString (str : List Byte) (strSize : Nat) : List Byte → Exec Lexed
  | [] => .error .table
  | c :: s =>
      if c = nul then .ok (.missingQuote, .string [], c :: s)
      else if c = chr '"' then .ok (.ok, .string str, s)
      else
        let strSize := if str.length = strSize then 2 * strSize else strSize
        if c = chr '\\' then
          match s with
          | [] => .error .table
          | e :: s => do
              let str ← storeChar str strSize (escapeSequence e)
              if escapeSequence e = EOF then return (.unknownEscapeSequence, .string [], e :: s)
              else scanString str strSize s
        else do
          let str ← storeChar str strSize c
          scanString str strSize s

/-! ## `lexer_next_token` -/

/-- From `//nombre` on. -/
def lexWord (c : Byte) (s : List Byte) : Exec Lexed :=
  if isdigit c then do
    let (value, _, cursor) ← scanDigits valueTooLarge (digit c) 0 s
    match value with
    | none => return (.invalidToken, .number 0, cursor)
    | some value => return (.ok, .number value, cursor)
  else if c = chr '"' then scanString [] 32 s
  else if islower c then do
    let (text, cursor) ← spanChars isIdent s
    return (.ok, .ident (c :: text), cursor)
  else if isupper c then do
    let (text, cursor) ← spanChars isupper s
    return (.ok, .mnemonic (c :: text), cursor)
  else .ok (.invalidToken, .eof, c :: s)

/-- From `//register` on. -/
def lexRegister (c : Byte) (s : List Byte) : Exec Lexed :=
  if c = chr 'R' then do
    let (reg, len, cursor) ← scanDigits regTooLarge 0 0 s
    match reg with
    | none => return (.invalidToken, .register 0, cursor)
    | some reg => if 0 < len then return (.ok, .register reg, cursor) else lexWord c s
  else lexWord c s

/-- `(*cursor == '/') && (*(cursor+1) == '/')`. -/
def startsComment (c : Byte) : List Byte → Exec Bool
  | [] => if c = chr '/' then .error .table else .ok false
  | d :: _ => .ok (c = chr '/' && d = chr '/')

/-- From `//comment` on. -/
def lexComment (c : Byte) (s : List Byte) : Exec Lexed := do
  if ← startsComment c s then
    let (_, cursor) ← spanChars inComment s.tail
    return (.ok, if cursor.head? = some (chr '\n') then .newline else .eof, cursor)
  else lexRegister c s

/-- The token at a cursor. -/
def nextToken (cursor : List Byte) : Exec Lexed := do
  let (_, cursor) ← spanChars isBlank cursor
  match cursor with
  | [] => .error .table
  | c :: s =>
      match punctuation c with
      | some token => return (.ok, token, s)
      | none => lexComment c s

structure Lexer where
  cursor : List Byte
  line : Word

def lexerNextToken (lexer : Lexer) : Exec (LexerError × Token × Lexer) := do
  let (status, tok, cursor) ← nextToken lexer.cursor
  return (status, tok, { lexer with cursor := cursor })

end BSVM
