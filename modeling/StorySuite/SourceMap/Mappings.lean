import StorySuite.SourceMap.Vlq

/-!
# Mappings

The lines of a generated text, each with the segments that say where it comes from.  All numbers
are written as differences from the segment before: columns start over on each line, source
positions run on.  There is a single source, whose number is always zero.

`Mappings.encode` writes mappings, `Mappings.decode?` reads them.
-/

namespace StorySuite

/-- A column of a generated line and the place in the source that it comes from. -/
structure Segment where
  column : Nat
  sourceLine : Nat
  sourceColumn : Nat
  deriving DecidableEq, Repr, Inhabited

/-- The segments of each generated line. -/
abbrev Mappings := List (List Segment)

namespace Segment

def encode (before : Segment) (s : Segment) : Text :=
  Vlq.encode ((s.column : Int) - before.column) ++ Vlq.encode 0 ++
    Vlq.encode ((s.sourceLine : Int) - before.sourceLine) ++
    Vlq.encode ((s.sourceColumn : Int) - before.sourceColumn)

def decode? (before : Segment) (t : Text) : Option Segment := do
  let (c, t) ← Vlq.decode? t
  let (source, t) ← Vlq.decode? t
  let (l, t) ← Vlq.decode? t
  let (k, t) ← Vlq.decode? t
  let c := before.column + c
  let l := before.sourceLine + l
  let k := before.sourceColumn + k
  if t.isEmpty && source = 0 && 0 ≤ c && 0 ≤ l && 0 ≤ k then some ⟨c.toNat, l.toNat, k.toNat⟩
  else none

/-- The segments of a line, each after the one before it. -/
def encodeAll (before : Segment) : List Segment → List Text
  | [] => []
  | s :: ss => encode before s :: encodeAll s ss

/-- The segments that the parts of a line add, one after the other. -/
def decodeAll? (before : Segment) : List Text → Option (List Segment)
  | [] => some []
  | t :: ts => do
    let s ← decode? before t
    return s :: (← decodeAll? s ts)

/-- What the first segment of a line is added to: its column starts over. -/
def lineStart (s : Segment) : Segment := { s with column := 0 }

/-- The last segment of a line, or the one before the line. -/
def lastOf (before : Segment) (ss : List Segment) : Segment := ss.getLast?.getD before

end Segment

namespace Mappings

def encodeLines (before : Segment) : Mappings → List Text
  | [] => []
  | ss :: lines =>
    Text.join [','] (Segment.encodeAll before.lineStart ss) ::
      encodeLines (Segment.lastOf before ss) lines

def encode (m : Mappings) : Text := Text.join [';'] (encodeLines ⟨0, 0, 0⟩ m)

/-- The segments of each line. -/
def decodeLines? (before : Segment) : List Text → Option Mappings
  | [] => some []
  | t :: ts => do
    let parts := if t.isEmpty then [] else Text.fields ',' t
    let ss ← Segment.decodeAll? before.lineStart parts
    return ss :: (← decodeLines? (Segment.lastOf before ss) ts)

def decode? (t : Text) : Option Mappings := decodeLines? ⟨0, 0, 0⟩ (Text.fields ';' t)

end Mappings

end StorySuite
