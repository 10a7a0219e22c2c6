import StorySuite.Json.Number
import StorySuite.Text.Shown

/-!
# Faults of a JSON text

A fault has a cause and a place.  While a text is read, the place is given by what is still to be
read; `Fault.message` turns it into a line and a column, which counts bytes.

Some faults are known before it is known where to report them: a record has a field too many or too
few.  They are pending until the bracket around them is closed.
-/

namespace StorySuite.Json

/-- What was found in place of something else. -/
inductive Found where
  | null
  | boolean (b : Bool)
  | number (n : Number)
  | string (t : Text)
  | sequence
  | map
  deriving DecidableEq, Repr

/-- What is wrong with a text. -/
inductive Cause where
  | endInValue
  | endInString
  | endInList
  | endInObject
  | expectedColon
  | expectedCommaOrBracket
  | expectedCommaOrBrace
  | expectedWord
  | expectedValue
  | expectedKey
  | invalidEscape
  | endOfEscape
  | loneSurrogate
  | controlCharacter
  | invalidNumber
  | numberTooLarge
  | trailingComma
  | trailingText
  | tooDeep
  | wrongType (found : Found) (expected : Text)
  | wrongValue (found : Found) (expected : Text)
  | wrongLength (length : Nat) (expected : Text)
  | missingField (key : Text)
  | repeatedField (key : Text)
  | noForm (name : Text)
  deriving DecidableEq, Repr

/-- Something between back quotes. -/
def marked (t : Text) : Text := '\x60' :: t ++ ['\x60']

def Found.wording : Found → Text
  | null => "null"
  | boolean true => "boolean ".toList ++ marked "true"
  | boolean false => "boolean ".toList ++ marked "false"
  | number (.real minus x) => "floating point ".toList ++ marked (Number.real minus x).text
  | number n => "integer ".toList ++ marked n.text
  | string t => "string ".toList ++ t.shown
  | sequence => "sequence"
  | map => "map"

def Cause.wording : Cause → Text
  | endInValue => "EOF while parsing a value"
  | endInString => "EOF while parsing a string"
  | endInList => "EOF while parsing a list"
  | endInObject => "EOF while parsing an object"
  | expectedColon => "expected \x60:\x60"
  | expectedCommaOrBracket => "expected \x60,\x60 or \x60]\x60"
  | expectedCommaOrBrace => "expected \x60,\x60 or \x60\x7d\x60"
  | expectedWord => "expected ident"
  | expectedValue => "expected value"
  | expectedKey => "key must be a string"
  | invalidEscape => "invalid escape"
  | endOfEscape => "unexpected end of hex escape"
  | loneSurrogate => "lone leading surrogate in hex escape"
  | controlCharacter => "control character (\\u0000-\\u001F) found while parsing a string"
  | invalidNumber => "invalid number"
  | numberTooLarge => "number out of range"
  | trailingComma => "trailing comma"
  | trailingText => "trailing characters"
  | tooDeep => "recursion limit exceeded"
  | wrongType found expected =>
    "invalid type: ".toList ++ found.wording ++ ", expected ".toList ++ expected
  | wrongValue found expected =>
    "invalid value: ".toList ++ found.wording ++ ", expected ".toList ++ expected
  | wrongLength n expected =>
    "invalid length ".toList ++ Text.ofNat n ++ ", expected ".toList ++ expected
  | missingField key => "missing field ".toList ++ marked key
  | repeatedField key => "duplicate field ".toList ++ marked key
  | noForm name => "data did not match any variant of untagged enum ".toList ++ name

/-- A cause with its place: so many bytes into what was still to be read.  A pending fault has no
place yet. -/
structure Fault where
  cause : Cause
  rest : Text
  ahead : Nat
  pending : Bool
  deriving DecidableEq, Repr

/-- What reading gives: a value and what is still to be read. -/
abbrev Outcome (α : Type) := Except Fault (α × Text)

namespace Fault

/-- A fault in front of `rest`. -/
def before (cause : Cause) (rest : Text) : Fault := ⟨cause, rest, 0, false⟩

/-- A fault behind the next byte, or at the end of the text. -/
def behind (cause : Cause) (rest : Text) : Fault := ⟨cause, rest, 1, false⟩

/-- A fault whose place is still open. -/
def unplaced (cause : Cause) (rest : Text) : Fault := ⟨cause, rest, 0, true⟩

def offset (text : Text) (f : Fault) : Nat :=
  min text.size (text.size - f.rest.size + f.ahead)

/-- The line of byte `n` and the number of bytes in front of it on that line, from a character on:
the number of its line, where that line begins, and its own offset. -/
def lineAndColumn (n line start : Nat) : Nat → Text → Nat × Nat
  | _, [] => (line, n - start)
  | i, c :: t =>
    if n < i + c.utf8Size then (line, n - start)
    else if c = '\n' then lineAndColumn n (line + 1) (i + 1) (i + 1) t
    else lineAndColumn n line start (i + c.utf8Size) t

/-- The wording of a fault of `text`. -/
def message (text : Text) (f : Fault) : Text :=
  let (line, column) := lineAndColumn (f.offset text) 1 0 0 text
  f.cause.wording ++ " at line ".toList ++ Text.ofNat line ++ " column ".toList ++ Text.ofNat column

end Fault

end StorySuite.Json
