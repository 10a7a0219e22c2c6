import StorySuite.Json.Number

/-!
# JSON

Values and how they are written: `Json.compact` without any blanks, `Json.pretty` with one member
to a line and two blanks to a level.  The fields of an object keep their order.
-/

namespace StorySuite

/-- A JSON value. -/
inductive Json where
  | null
  | boolean (b : Bool)
  | number (n : Json.Number)
  | string (t : Text)
  | array (items : List Json)
  | object (fields : List (Text × Json))
  deriving Repr, Inhabited

namespace Json

/-- A digit of a hexadecimal number. -/
def hexDigit (n : Nat) : Char := Nat.digitChar n

/-- A character inside a string. -/
def escapeChar (c : Char) : Text :=
  if c = '"' then ['\\', '"']
  else if c = '\\' then ['\\', '\\']
  else if c = '\n' then ['\\', 'n']
  else if c = '\r' then ['\\', 'r']
  else if c = '\t' then ['\\', 't']
  else if c.toNat = 8 then ['\\', 'b']
  else if c.toNat = 12 then ['\\', 'f']
  else if c.toNat < 32 then ['\\', 'u', '0', '0', hexDigit (c.toNat / 16), hexDigit (c.toNat % 16)]
  else [c]

/-- A truth value. -/
def word (b : Bool) : Text := if b then "true" else "false"

/-- A string in its quotes. -/
def quote (t : Text) : Text := '"' :: t.flatMap escapeChar ++ ['"']

mutual

/-- A value without blanks. -/
def compact : Json → Text
  | null => "null"
  | boolean b => word b
  | number n => n.text
  | string t => quote t
  | array vs => '[' :: compactItems true vs ++ [']']
  | object fs => '{' :: compactFields true fs ++ ['}']

/-- Items with commas between them. -/
def compactItems (first : Bool) : List Json → Text
  | [] => []
  | v :: vs => (if first then [] else [',']) ++ compact v ++ compactItems false vs

/-- Fields with commas between them. -/
def compactFields (first : Bool) : List (Text × Json) → Text
  | [] => []
  | (k, v) :: fs => (if first then [] else [',']) ++ quote k ++ ':' :: compact v ++ compactFields false fs

end

/-- A new line, `depth` levels deep. -/
def newLine (depth : Nat) : Text := '\n' :: List.replicate (2 * depth) ' '

mutual

/-- A value `depth` levels deep, with one member to a line. -/
def prettyAt (depth : Nat) : Json → Text
  | null => "null"
  | boolean b => word b
  | number n => n.text
  | string t => quote t
  | array [] => ['[', ']']
  | array (v :: vs) =>
    '[' :: newLine (depth + 1) ++ prettyAt (depth + 1) v ++ prettyItems (depth + 1) vs ++ newLine depth ++ [']']
  | object [] => ['{', '}']
  | object ((k, v) :: fs) =>
    '{' :: newLine (depth + 1) ++ quote k ++ ':' :: ' ' :: prettyAt (depth + 1) v ++
      prettyFields (depth + 1) fs ++ newLine depth ++ ['}']

/-- The items behind the first. -/
def prettyItems (depth : Nat) : List Json → Text
  | [] => []
  | v :: vs => ',' :: newLine depth ++ prettyAt depth v ++ prettyItems depth vs

/-- The fields behind the first. -/
def prettyFields (depth : Nat) : List (Text × Json) → Text
  | [] => []
  | (k, v) :: fs =>
    ',' :: newLine depth ++ quote k ++ ':' :: ' ' :: prettyAt depth v ++ prettyFields depth fs

end

/-- A value with one member to a line. -/
def pretty (v : Json) : Text := prettyAt 0 v

def ofNat (n : Nat) : Json := number (.natural n)

def strings (ts : List Text) : Json := array (ts.map string)

end Json

end StorySuite
