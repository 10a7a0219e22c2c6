import StorySuite.SourceMap.Position

/-!
# Line indexes

Where the lines of a text begin is found once.  The line of a byte is then searched for by halves,
and its column is measured from where this line begins.

`LineIndex.of t` is the index of `t`, and `LineIndex.position? i n` looks byte `n` up in it.
-/

namespace StorySuite

/-- The first item of `xs` between `lo` and `hi` that `p` does not hold of, given that it holds of
none behind that one. -/
def partitionPoint {α : Type} (p : α → Bool) (xs : Array α) (lo hi : Nat) : Nat :=
  if lo < hi then
    let mid := (lo + hi) / 2
    if xs[mid]?.any p then partitionPoint p xs (mid + 1) hi else partitionPoint p xs lo mid
  else lo
termination_by hi - lo

/-- A text with the bytes that its lines begin at. -/
structure LineIndex where
  text : Text
  starts : Array Nat

namespace LineIndex

/-- The bytes behind the line feeds of a text that begins at byte `n`. -/
def startsFrom (n : Nat) : Text → List Nat
  | [] => []
  | c :: t => if c = '\n' then (n + 1) :: startsFrom (n + 1) t else startsFrom (n + c.utf8Size) t

def of (t : Text) : LineIndex := ⟨t, (0 :: startsFrom 0 t).toArray⟩

/-- The number of lines that begin at byte `n` or in front of it. -/
def linesTo (i : LineIndex) (n : Nat) : Nat := partitionPoint (· ≤ n) i.starts 0 i.starts.size

/-- The position of byte `n`, unless no line begins in front of it or it is no place to cut the text
at. -/
def position? (i : LineIndex) (n : Nat) : Option Position :=
  match i.linesTo n with
  | 0 => none
  | line + 1 => do
    let start ← i.starts[line]?
    let before ← i.text.slice? start n
    return ⟨line, before.units⟩

end LineIndex

end StorySuite
