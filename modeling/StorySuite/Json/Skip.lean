import StorySuite.Json.Bracket
import StorySuite.Json.Numeral

/-!
# Values that are not needed

`Json.skip t` is what follows the value at the front of `t`.  Brackets may be nested to any depth
here and numbers may have any size.
-/

namespace StorySuite.Json

/-- What follows the colon and its blanks, a key having been read. -/
def skipKey (t : Text) : Except Fault Text :=
  match skipBlanks t with
  | '"' :: u => do colon (← skipCharacters u)
  | [] => .error (.before .endInObject [])
  | u => .error (.behind .expectedKey u)

mutual

/-- What follows a value; the number bounds the nesting and the length of all that is in it. -/
def skipValue : Nat → Text → Except Fault Text
  | 0, _ => .error (.before .endInValue [])
  | n + 1, t =>
    match skipBlanks t with
    | [] => .error (.before .endInValue [])
    | '"' :: u => skipCharacters u
    | '-' :: u => Number.skip u
    | '[' :: u => skipItems n true u
    | '\x7b' :: u => skipFields n true u
    | c :: u =>
      match wordOf? c with
      | some (w, _) => wordRest w u
      | none => if c.isDigit then Number.skip (c :: u) else .error (.behind .expectedValue (c :: u))

/-- What follows a list from one of its items on. -/
def skipItems : Nat → Bool → Text → Except Fault Text
  | 0, _, _ => .error (.before .endInList [])
  | n + 1, first, t =>
    match skipBlanks t with
    | [] => .error (.before .endInList [])
    | ']' :: u => .ok u
    | ',' :: u =>
      if first then .error (.behind .expectedValue (',' :: u)) else do skipItems n false (← skipValue n u)
    | u =>
      if first then do skipItems n false (← skipValue n u)
      else .error (.behind .expectedCommaOrBracket u)

/-- What follows an object from one of its fields on. -/
def skipFields : Nat → Bool → Text → Except Fault Text
  | 0, _, _ => .error (.before .endInObject [])
  | n + 1, first, t =>
    match skipBlanks t with
    | [] => .error (.before .endInObject [])
    | '\x7d' :: u => .ok u
    | ',' :: u =>
      if first then .error (.behind .expectedKey (',' :: u))
      else do skipFields n false (← skipValue n (← skipKey u))
    | u =>
      if first then do skipFields n false (← skipValue n (← skipKey u))
      else .error (.behind .expectedCommaOrBrace u)

end

/-- What follows the value at the front of a text. -/
def skip (t : Text) : Except Fault Text := skipValue (2 * t.length + 2) t

end StorySuite.Json
