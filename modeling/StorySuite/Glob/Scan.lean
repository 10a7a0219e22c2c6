import StorySuite.Text.Basic

/-!
# Groups by their bytes

The first group of a text is found by passing over bytes, and it is told by byte offsets: where it
opens, where it closes, and what is cut out between.  The brackets that are open inside of it are
counted, and its parts stand in the text one after the other.

None of this goes without saying.  A count could fall below zero, a cut could go through a
character, and a text that a part is put in could be no shorter than before, so that spelling it out
would not end.  All of these are `Trouble`, and `Scan.expand` stops at them.
-/

namespace StorySuite.Glob.Scan

/-- What can be wrong on the way. -/
inductive Trouble where
  | uncounted (pos : Nat)
  | badCut (start stop : Nat)
  | notShorter (t : Text)
  deriving DecidableEq, Repr

/-- A group: the bytes that it opens and closes at, and its parts. -/
structure Found where
  opening : Nat
  closing : Nat
  parts : List Text
  deriving DecidableEq, Repr

/-- A bracket that is counted. -/
def opens (b : UInt8) : Bool := b = '{'.toUInt8 || b = '('.toUInt8

/-- What takes a bracket off the count, or ends the group. -/
def closes (b : UInt8) : Bool := b = '}'.toUInt8 || b = ')'.toUInt8

/-- Where the first group opens from byte `i` on, where its inside begins and what separates its
parts. -/
def opening? (i : Nat) : List UInt8 → Option (Nat × Nat × UInt8)
  | [] => none
  | b :: bs =>
    if b = '{'.toUInt8 then some (i, i + 1, ','.toUInt8)
    else if b = '@'.toUInt8 && bs.head? = some '('.toUInt8 then some (i, i + 2, '|'.toUInt8)
    else opening? (i + 1) bs

/-- The part of `t` from byte `a` to byte `b`. -/
def cut (t : Text) (a b : Nat) : Except Trouble Text :=
  match t.slice? a b with
  | some s => .ok s
  | none => .error (.badCut a b)

/-- The number of open brackets without the one that is closed at byte `i`. -/
def uncount (i : Nat) : Nat → Except Trouble Nat
  | 0 => .error (.uncounted i)
  | depth + 1 => .ok depth

/-- Where the group closes and its parts, from byte `i` on: `depth` brackets are open inside, the
current part begins at byte `start`, and `parts` are those before it, the latest first. -/
def closing? (t : Text) (separator : UInt8) (i depth start : Nat) (parts : List Text) :
    List UInt8 → Except Trouble (Option (Nat × List Text))
  | [] => .ok none
  | b :: bs =>
    if opens b then closing? t separator (i + 1) (depth + 1) start parts bs
    else if closes b && depth = 0 then do
      let part ← cut t start i
      return some (i, (part :: parts).reverse)
    else if closes b then do
      closing? t separator (i + 1) (← uncount i depth) start parts bs
    else if b = separator && depth = 0 then do
      let part ← cut t start i
      closing? t separator (i + 1) depth (i + 1) (part :: parts) bs
    else closing? t separator (i + 1) depth start parts bs

/-- The first group of a text, if it is closed. -/
def firstGroup (t : Text) : Except Trouble (Option Found) :=
  match opening? 0 t.bytes with
  | none => .ok none
  | some (opening, inner, separator) => do
    let end? ← closing? t separator inner 0 inner [] (t.bytes.drop inner)
    return end?.map fun e => ⟨opening, e.1, e.2⟩

/-- The texts that a text with groups stands for. -/
def expand (t : Text) : Except Trouble (List Text) := do
  match ← firstGroup t with
  | none => return [t]
  | some g =>
    let before ← cut t 0 g.opening
    let after ← cut t (g.closing + 1) t.size
    let texts ← g.parts.mapM fun part =>
      let u := before ++ part ++ after
      if _ : u.size < t.size then expand u else .error (.notShorter u)
    return texts.flatten
termination_by t.size
decreasing_by assumption

end StorySuite.Glob.Scan
