import SeedTables.Json.Position

namespace SeedTables.Json

inductive Cause where
  | unfinishedValue
  | unfinishedList
  | unfinishedObject
  | unfinishedString
  | expectedWord
  | expectedValue
  | expectedColon
  | expectedListEnd
  | expectedObjectEnd
  | trailingComma
  | trailingText
  | keyNotString
  | invalidNumber
  | numberOutOfRange
  | invalidEscape
  | controlCharacter
  | unpairedSurrogate
  | unfinishedSurrogate
  | nestedTooDeep
  deriving DecidableEq

def Cause.message : Cause → String
  | unfinishedValue => "EOF while parsing a value"
  | unfinishedList => "EOF while parsing a list"
  | unfinishedObject => "EOF while parsing an object"
  | unfinishedString => "EOF while parsing a string"
  | expectedWord => "expected ident"
  | expectedValue => "expected value"
  | expectedColon => "expected `:`"
  | expectedListEnd => "expected `,` or `]`"
  | expectedObjectEnd => "expected `,` or `\x7d`"
  | trailingComma => "trailing comma"
  | trailingText => "trailing characters"
  | keyNotString => "key must be a string"
  | invalidNumber => "invalid number"
  | numberOutOfRange => "number out of range"
  | invalidEscape => "invalid escape"
  | controlCharacter =>
    "control character (\\u0000-\\u001F) found while parsing a string"
  | unpairedSurrogate => "lone leading surrogate in hex escape"
  | unfinishedSurrogate => "unexpected end of hex escape"
  | nestedTooDeep => "recursion limit exceeded"

/-- A cause, and the place of the objection: `ahead` bytes into the text left. -/
structure Fault where
  cause : Cause
  rest : List Char
  ahead : Nat

namespace Fault

def atEnd (cause : Cause) : Fault := ⟨cause, [], 0⟩

/-- The objection is to the next character; its first byte counts as seen. -/
def next (cause : Cause) (rest : List Char) : Fault :=
  ⟨cause, rest, if rest.isEmpty then 0 else 1⟩

/-- The objection is to the next character, or to the value's end where there is none. -/
def nextOrEnd (cause : Cause) (rest : List Char) : Fault :=
  if rest.isEmpty then atEnd .unfinishedValue else next cause rest

end Fault

structure ReadError where
  cause : Cause
  position : Position
  deriving DecidableEq

def Fault.locate (text : List Char) (f : Fault) : ReadError :=
  ⟨f.cause, Position.ofOffset text (byteLength text - byteLength f.rest + f.ahead)⟩

def ReadError.message (e : ReadError) : String :=
  e.cause.message ++ " at line " ++ toString e.position.line ++ " column "
    ++ toString e.position.column

end SeedTables.Json
