import StorySuite.Json.Characters

/-!
# Blanks, words and brackets

What stands between the values of a JSON text, and the members of a list or an object read one by
one: `Json.gather` asks what comes next and reads it, until the closing bracket is seen.
`Json.enclosed` reads the inside of a bracket together with the bracket that closes it.
-/

namespace StorySuite.Json

def isBlank (c : Char) : Bool := c = ' ' || c = '\n' || c = '\t' || c = '\r'

/-- A text without the blanks at its front. -/
def skipBlanks (t : Text) : Text := t.dropWhile isBlank

/-- What follows the rest of a word. -/
def wordRest : Text → Text → Except Fault Text
  | [], t => .ok t
  | _ :: _, [] => .error (.before .endInValue [])
  | w :: ws, c :: t => if c = w then wordRest ws t else .error (.behind .expectedWord (c :: t))

/-- The words and what they stand for, each by its first letter and the letters behind it. -/
def wordOf? (c : Char) : Option (Text × Found) :=
  if c = 'n' then some ("ull".toList, .null)
  else if c = 't' then some ("rue".toList, .boolean true)
  else if c = 'f' then some ("alse".toList, .boolean false)
  else none

/-- What follows the colon between a key and its value. -/
def colon (t : Text) : Except Fault Text :=
  match skipBlanks t with
  | ':' :: u => .ok u
  | [] => .error (.before .endInObject [])
  | u => .error (.behind .expectedColon u)

/-- Where the next item of a list begins, unless the list ends. -/
def nextItem (first : Bool) (t : Text) : Except Fault (Option Text) :=
  match skipBlanks t with
  | [] => .error (.before .endInList [])
  | ']' :: _ => .ok none
  | ',' :: u =>
    if first then .ok (some (',' :: u))
    else match skipBlanks u with
      | [] => .error (.before .endInValue [])
      | ']' :: v => .error (.behind .trailingComma (']' :: v))
      | v => .ok (some v)
  | u => if first then .ok (some u) else .error (.behind .expectedCommaOrBracket u)

/-- What follows the opening quote of the next key of an object, unless the object ends. -/
def nextKey (first : Bool) (t : Text) : Except Fault (Option Text) :=
  match skipBlanks t with
  | [] => .error (.before .endInObject [])
  | '\x7d' :: _ => .ok none
  | '"' :: u => if first then .ok (some u) else .error (.behind .expectedCommaOrBrace ('"' :: u))
  | ',' :: u =>
    if first then .error (.behind .expectedKey (',' :: u))
    else match skipBlanks u with
      | [] => .error (.before .endInValue [])
      | '"' :: v => .ok (some v)
      | '\x7d' :: v => .error (.behind .trailingComma ('\x7d' :: v))
      | v => .error (.behind .expectedKey v)
  | u => .error (.behind (if first then .expectedKey else .expectedCommaOrBrace) u)

/-- The members of a list or an object put together one by one, up to the closing bracket.  The first
number bounds that of the members. -/
def gather {σ : Type} (next : Bool → Text → Except Fault (Option Text))
    (member : σ → Text → Outcome σ) : Nat → Bool → σ → Text → Outcome σ
  | 0, _, _, _ => .error (.before .endInValue [])
  | n + 1, first, s, t =>
    match next first t with
    | .error e => .error e
    | .ok none => .ok (s, t)
    | .ok (some u) =>
      match member s u with
      | .error e => .error e
      | .ok (s, v) => gather next member n false s v

/-- A bracket that is closed. -/
inductive Bracket where
  | list
  | object
  deriving DecidableEq, Repr

namespace Bracket

/-- What follows the closing bracket. -/
def close (b : Bracket) (t : Text) : Except Fault Text :=
  match b, skipBlanks t with
  | list, ']' :: u => .ok u
  | object, '\x7d' :: u => .ok u
  | list, [] => .error (.before .endInList [])
  | object, [] => .error (.before .endInObject [])
  | list, ',' :: u =>
    match skipBlanks u with
    | ']' :: v => .error (.behind .trailingComma (']' :: v))
    | v => .error (.behind .trailingText v)
  | object, ',' :: u => .error (.behind .trailingComma (',' :: u))
  | _, u => .error (.behind .trailingText u)

/-- How far the closing of a bracket gets. -/
def closing (b : Bracket) (t : Text) : Text :=
  match b, skipBlanks t with
  | list, ']' :: u => u
  | object, '\x7d' :: u => u
  | list, ',' :: u => skipBlanks u
  | _, u => u

/-- What follows the bracket behind its inside.  A pending fault is reported where the closing of the
bracket ends. -/
def settle {α : Type} (b : Bracket) : Outcome α → Outcome α
  | .ok (v, t) => (b.close t).map fun u => (v, u)
  | .error e => .error (if e.pending then .before e.cause (b.closing e.rest) else e)

end Bracket

/-- The number of brackets that may be open at once, and one more. -/
def maxLevels : Nat := 128

/-- The inside of a bracket, read with one level less, and the bracket that closes it.  The opening
bracket `c` stands in front of `t`. -/
def enclosed {α : Type} (b : Bracket) (c : Char) (levels : Nat) (t : Text)
    (inside : Nat → Text → Outcome α) : Outcome α :=
  if levels ≤ 1 then .error (.behind .tooDeep (c :: t)) else b.settle (inside (levels - 1) t)

end StorySuite.Json
