import StorySuite.Patch.Chunk
import StorySuite.Text.Letter
import StorySuite.SourceMap.Position
import StorySuite.SourceMap.Mappings

/-!
# Tracing a patched text

What is copied is mapped at its first character and at each start of a token after it, a
replacement at its first place, and an insertion not at all.  For this purpose a token is a run of
letters, digits, `_` and `$`, or any other character that is no blank.

`Trace` collects the segments while it passes over the generated text.
-/

namespace StorySuite

/-- What tokens are made of. -/
inductive CharClass where
  | blank
  | word
  | mark
  deriving DecidableEq, Repr

def CharClass.of (c : Char) : CharClass :=
  if Letter.isSpace c then blank
  else if Letter.isLetterOrDigit c || c = '_' || c = '$' then word
  else mark

/-- Whether `c` begins a token behind `before`. -/
def startsToken (before c : Char) : Bool :=
  match CharClass.of c with
  | .blank => false
  | .mark => true
  | .word => CharClass.of before != .word

/-- The segments of the lines that are complete and of the line that is not, the latest first, and
the column that this has come to. -/
structure Trace where
  lines : Mappings
  line : List Segment
  column : Nat

namespace Trace

/-- Nothing yet. -/
def empty : Trace := ⟨[], [], 0⟩

/-- Maps the place it has come to. -/
def mark (t : Trace) (source : Position) : Trace :=
  { t with line := ⟨t.column, source.line, source.column⟩ :: t.line }

/-- Passes over a character. -/
def advance (t : Trace) (c : Char) : Trace :=
  if c = '\n' then ⟨t.line.reverse :: t.lines, [], 0⟩
  else { t with column := t.column + Text.charUnits c }

/-- Passes over text that comes from nowhere. -/
def skip (t : Trace) (s : Text) : Trace := s.foldl advance t

/-- Passes over text that is copied from the position `source`, behind the character `before`. -/
def copy (t : Trace) (source : Position) (before : Option Char) : Text → Trace
  | [] => t
  | c :: s =>
    let t := if before.all (startsToken · c) then t.mark source else t
    copy (t.advance c) (source.after c) (some c) s

/-- Passes over a chunk of a patch of `text`. -/
def chunk (text : Text) (t : Trace) : Chunk → Trace
  | .copied start s => t.copy (Position.ofOffset text start) none s
  | .replaced start s => (t.mark (Position.ofOffset text start)).skip s
  | .inserted s => t.skip s

/-- The mappings of what was passed over. -/
def mappings (t : Trace) : Mappings := (t.line.reverse :: t.lines).reverse

end Trace

/-- The mappings of the chunks of a patch of `text`. -/
def Mappings.ofChunks (text : Text) (cs : List Chunk) : Mappings :=
  (cs.foldl (Trace.chunk text) Trace.empty).mappings

end StorySuite
