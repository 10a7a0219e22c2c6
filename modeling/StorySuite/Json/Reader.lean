import StorySuite.Json.Basic
import StorySuite.Json.Skip

/-!
# Reading JSON

A `Reader` reads a value of one shape at the front of a text.  It takes the number of brackets that
may still be opened, and gives the value and what follows it.  The text is read once from its start,
so the fault that is reported is the first one, whether of the text or of the shape.

* `Reader.text`, `Reader.byte`, `Reader.list`, `Reader.optional`   values of simple shapes;
* `Reader.record`    an object with known fields, or a list of their values in order;
* `Reader.value`     any value;
* `Reader.run r t`   the value that the whole of `t` is.
-/

namespace StorySuite.Json

/-- A reader of values at the front of a text. -/
abbrev Reader (α : Type) := Nat → Text → Outcome α

namespace Reader

/-- The fault of a value that has another shape; a value on one line is read to its end first. -/
def mismatch (expected : Text) : Text → Fault
  | [] => .before .endInValue []
  | c :: t =>
    let after (found : Found) (rest : Text) : Fault := .before (.wrongType found expected) rest
    if c = '"' then
      match characters t with
      | .ok (v, u) => after (.string v) u
      | .error e => e
    else if c = '[' then after .sequence (c :: t)
    else if c = '\x7b' then after .map (c :: t)
    else if c = '-' || c.isDigit then
      match Number.read (c = '-') (if c = '-' then t else c :: t) with
      | .ok (v, u) => after (.number v) u
      | .error e => e
    else match wordOf? c with
      | some (w, found) =>
        match wordRest w t with
        | .ok u => after found u
        | .error e => e
      | none => .behind .expectedValue (c :: t)

/-- A string; the first text says what is expected. -/
def text (expected : Text) : Reader Text := fun _ t =>
  match skipBlanks t with
  | '"' :: u => characters u
  | u => .error (mismatch expected u)

def toByte (n : Number) (rest : Text) : Outcome UInt8 :=
  match n with
  | .natural n =>
    if n < 256 then .ok (n.toUInt8, rest)
    else .error (.before (.wrongValue (.number (.natural n)) "u8") rest)
  | .negative n => .error (.before (.wrongValue (.number (.negative n)) "u8") rest)
  | .real minus x => .error (.before (.wrongType (.number (.real minus x)) "u8") rest)

/-- A number below 256. -/
def byte : Reader UInt8 := fun _ t =>
  match skipBlanks t with
  | '-' :: u => (Number.read true u).bind fun p => toByte p.1 p.2
  | c :: u =>
    if c.isDigit then (Number.read false (c :: u)).bind fun p => toByte p.1 p.2
    else .error (mismatch "u8" (c :: u))
  | [] => .error (mismatch "u8" [])

/-- A value or `null`. -/
def optional {α : Type} (r : Reader α) : Reader (Option α) := fun levels t =>
  match skipBlanks t with
  | 'n' :: u => (wordRest "ull" u).map fun v => (none, v)
  | u => (r levels u).map fun p => (some p.1, p.2)

/-- The items of a list in front of its closing bracket. -/
def items {α : Type} (r : Reader α) (levels : Nat) (t : Text) : Outcome (List α) :=
  (gather nextItem (fun vs u => (r levels u).map fun p => (p.1 :: vs, p.2)) (t.length + 1) true [] t).map
    fun p => (p.1.reverse, p.2)

def list {α : Type} (r : Reader α) : Reader (List α) := fun levels t =>
  match skipBlanks t with
  | '[' :: u => enclosed .list '[' levels u (items r)
  | u => .error (mismatch "a sequence" u)

/-- The value of a key, which the key stands in front of. -/
def field {α : Type} (r : Reader α) (levels : Nat) (t : Text) : Outcome α :=
  (colon t).bind (r levels)

/-- The fields of an object in front of its closing bracket. -/
def fields {α : Type} (r : Reader α) (levels : Nat) (t : Text) : Outcome (List (Text × α)) :=
  (gather nextKey
    (fun fs u =>
      match characters u with
      | .error e => .error e
      | .ok (key, v) => (field r levels v).map fun p => ((key, p.1) :: fs, p.2))
    (t.length + 1) true [] t).map fun p => (p.1.reverse, p.2)

/-- Any value with at most `depth` open brackets. -/
def valueWithin : Nat → Text → Outcome Json
  | 0, t => .error (.behind .tooDeep t)
  | depth + 1, t =>
    match skipBlanks t with
    | [] => .error (.before .endInValue [])
    | '"' :: u => (characters u).map fun p => (.string p.1, p.2)
    | '-' :: u => (Number.read true u).map fun p => (.number p.1, p.2)
    | '[' :: u =>
      (enclosed .list '[' (depth + 1) u (items fun _ => valueWithin depth)).map fun p => (.array p.1, p.2)
    | '\x7b' :: u =>
      (enclosed .object '\x7b' (depth + 1) u (fields fun _ => valueWithin depth)).map fun p =>
        (.object p.1, p.2)
    | c :: u =>
      if c.isDigit then (Number.read false (c :: u)).map fun p => (.number p.1, p.2)
      else match wordOf? c with
        | some (w, .boolean b) => (wordRest w u).map fun v => (.boolean b, v)
        | some (w, _) => (wordRest w u).map fun v => (.null, v)
        | none => .error (.behind .expectedValue (c :: u))

def value : Reader Json := valueWithin

/-- A field of a record that is put together step by step. -/
structure Member (σ : Type) where
  key : Text
  required : Bool
  read : Reader (σ → σ)

/-- A field that may be left out. -/
def Member.free {σ α : Type} (key : Text) (r : Reader α) (put : α → σ → σ) : Member σ :=
  ⟨key, false, fun levels t => (r levels t).map fun p => (put p.1, p.2)⟩

/-- A field that has to be there. -/
def Member.needed {σ α : Type} (key : Text) (r : Reader α) (put : α → σ → σ) : Member σ :=
  ⟨key, true, fun levels t => (r levels t).map fun p => (put p.1, p.2)⟩

/-- The number of members in words. -/
def countOf {σ : Type} (expected : Text) (ms : List (Member σ)) : Text :=
  expected ++ " with ".toList ++ Text.ofNat ms.length ++
    (if ms.length = 1 then " element" else " elements").toList

/-- The values of the members in order; those at the end may be left out.  `i` of them are read. -/
def recordItems {σ : Type} (expected : Text) (levels : Nat) (i : Nat) :
    List (Member σ) → σ → Text → Outcome σ
  | [], s, t => .ok (s, t)
  | m :: ms, s, t =>
    match nextItem (i = 0) t with
    | .error e => .error e
    | .ok none =>
      match (m :: ms).findIdx? (·.required) with
      | some k => .error (.unplaced (.wrongLength (i + k) expected) t)
      | none => .ok (s, t)
    | .ok (some u) =>
      match m.read levels u with
      | .error e => .error e
      | .ok (put, v) => recordItems expected levels (i + 1) ms (put s) v

/-- A field of a record: `s` is what is put together so far and `keys` are the keys seen. -/
def recordField {σ : Type} (ms : List (Member σ)) (levels : Nat) (p : List Text × σ) (t : Text) :
    Outcome (List Text × σ) :=
  match characters t with
  | .error e => .error e
  | .ok (key, u) =>
    match ms.find? (·.key = key) with
    | none => ((colon u).bind skip).map fun v => (p, v)
    | some m =>
      if p.1.contains key then .error (.unplaced (.repeatedField key) u)
      else (field m.read levels u).map fun q => ((key :: p.1, q.1 p.2), q.2)

/-- The fields of a record in front of its closing bracket. -/
def recordFields {σ : Type} (ms : List (Member σ)) (start : σ) (levels : Nat) (t : Text) : Outcome σ :=
  match gather nextKey (recordField ms levels) (t.length + 1) true ([], start) t with
  | .error e => .error e
  | .ok ((keys, s), u) =>
    match ms.find? fun m => m.required && !keys.contains m.key with
    | some m => .error (.unplaced (.missingField m.key) u)
    | none => .ok (s, u)

/-- A record put together from `start`.  Keys that are not among those of the members are passed
over. -/
def record {σ : Type} (expected : Text) (ms : List (Member σ)) (start : σ) : Reader σ := fun levels t =>
  match skipBlanks t with
  | '[' :: u =>
    enclosed .list '[' levels u fun levels v => recordItems (countOf expected ms) levels 0 ms start v
  | '\x7b' :: u => enclosed .object '\x7b' levels u (recordFields ms start)
  | u => .error (mismatch expected u)

/-- The value that a whole text is. -/
def run {α : Type} (r : Reader α) (t : Text) : Except Fault α :=
  match r maxLevels t with
  | .error e => .error e
  | .ok (v, u) =>
    match skipBlanks u with
    | [] => .ok v
    | rest => .error (.behind .trailingText rest)

end Reader

end StorySuite.Json
