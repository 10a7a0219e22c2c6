import StorySuite.Json.Fault

/-!
# The characters of a JSON string

What stands between the quotes of a string.

* `Json.characters t`       the string whose opening quote stands in front of `t`;
* `Json.skipCharacters t`   what follows this string, which is looked at less closely: a `\u` escape
                            only needs its four digits;
* `Json.escape t`           the character that an escape behind its backslash stands for, and the
                            number of characters that it is written with.
-/

namespace StorySuite.Json

/-- The value of a hexadecimal digit. -/
def hexValue? (c : Char) : Option Nat :=
  if '0' ≤ c && c ≤ '9' then some (c.toNat - 48)
  else if 'a' ≤ c && c ≤ 'f' then some (c.toNat - 87)
  else if 'A' ≤ c && c ≤ 'F' then some (c.toNat - 55)
  else none

/-- The value of four hexadecimal digits. -/
def hex4? : Text → Option Nat
  | a :: b :: c :: d :: _ => do
    let a ← hexValue? a
    let b ← hexValue? b
    let c ← hexValue? c
    let d ← hexValue? d
    return ((a * 16 + b) * 16 + c) * 16 + d
  | _ => none

/-- The four digits that have to follow. -/
def hex4 (t : Text) : Except Fault Nat :=
  match hex4? t with
  | some n => .ok n
  | none =>
    if t.size < 4 then .error (.before .endInString []) else .error ⟨.invalidEscape, t, 4, false⟩

/-- The unit is the first of a pair. -/
def isHighSurrogate (n : Nat) : Bool := 0xd800 ≤ n && n ≤ 0xdbff

/-- The unit is the second of a pair. -/
def isLowSurrogate (n : Nat) : Bool := 0xdc00 ≤ n && n ≤ 0xdfff

/-- The character of a pair of units. -/
def ofSurrogates (high low : Nat) : Char :=
  Char.ofNat ((high - 0xd800) * 0x400 + (low - 0xdc00) + 0x10000)

/-- The second unit of a pair, written as an escape of its own. -/
def lowSurrogate : Text → Except Fault Nat
  | [] => .error (.before .endInString [])
  | '\\' :: [] => .error (.before .endInString [])
  | '\\' :: 'u' :: t => do
    let n ← hex4 t
    if isLowSurrogate n then .ok n else .error (.before .loneSurrogate (List.drop 4 t))
  | '\\' :: t => .error (.behind .endOfEscape t)
  | t => .error (.behind .endOfEscape t)

/-- The character whose escape begins with `\u`, and the number of characters behind that. -/
def unitEscape (t : Text) : Except Fault (Char × Nat) := do
  let n ← hex4 t
  let rest := List.drop 4 t
  if isLowSurrogate n then .error (.before .loneSurrogate rest)
  else if isHighSurrogate n then return (ofSurrogates n (← lowSurrogate rest), 10)
  else return (Char.ofNat n, 4)

/-- The character that a letter behind a backslash stands for. -/
def letterEscape? (c : Char) : Option Char :=
  if c = '"' || c = '\\' || c = '/' then some c
  else if c = 'b' then some (Char.ofNat 8)
  else if c = 'f' then some (Char.ofNat 12)
  else if c = 'n' then some '\n'
  else if c = 'r' then some '\r'
  else if c = 't' then some '\t'
  else none

/-- The character that an escape stands for, and its length. -/
def escape : Text → Except Fault (Char × Nat)
  | [] => .error (.before .endInString [])
  | c :: t =>
    match letterEscape? c with
    | some x => .ok (x, 1)
    | none =>
      if c = 'u' then (unitEscape t).map fun p => (p.1, p.2 + 1)
      else .error (.behind .invalidEscape (c :: t))

def escapeLength : Text → Except Fault Nat
  | [] => .error (.before .endInString [])
  | c :: t =>
    match letterEscape? c with
    | some _ => .ok 1
    | none =>
      if c = 'u' then (hex4 t).map fun _ => 5
      else .error (.behind .invalidEscape (c :: t))

/-- The string in front of its closing quote; the first `n` characters belong to an escape that is
already read. -/
def charactersFrom : Nat → Text → Outcome Text
  | _, [] => .error (.before .endInString [])
  | n + 1, _ :: t => charactersFrom n t
  | 0, c :: t =>
    if c = '"' then .ok ([], t)
    else if c = '\\' then
      match escape t with
      | .error e => .error e
      | .ok (x, n) => (charactersFrom n t).map fun p => (x :: p.1, p.2)
    else if c.toNat < 32 then .error (.behind .controlCharacter (c :: t))
    else (charactersFrom 0 t).map fun p => (c :: p.1, p.2)

/-- The string whose opening quote stands in front of the text. -/
def characters (t : Text) : Outcome Text := charactersFrom 0 t

/-- What follows a string; the first `n` characters belong to an escape. -/
def skipCharactersFrom : Nat → Text → Except Fault Text
  | _, [] => .error (.before .endInString [])
  | n + 1, _ :: t => skipCharactersFrom n t
  | 0, c :: t =>
    if c = '"' then .ok t
    else if c = '\\' then
      match escapeLength t with
      | .error e => .error e
      | .ok n => skipCharactersFrom n t
    else if c.toNat < 32 then .error (.before .controlCharacter (c :: t))
    else skipCharactersFrom 0 t

/-- What follows the string whose opening quote stands in front of the text. -/
def skipCharacters (t : Text) : Except Fault Text := skipCharactersFrom 0 t

end StorySuite.Json
