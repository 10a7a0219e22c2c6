import StorySuite.Patch.Basic

/-!
# Chunks

The patched text as a list of chunks, each of which knows where it comes from.  The chunks are
read off the edits in the order of the text; edits at one place take effect in the order they
came, insertions before the replacement that begins there.
-/

namespace StorySuite

/-- A part of a patched text. -/
inductive Chunk where
  /-- A part of the text as it was, from byte `start` on. -/
  | copied (start : Nat) (text : Text)
  /-- What stands in the place of a part that began at byte `start`. -/
  | replaced (start : Nat) (text : Text)
  /-- What stands in no other text's place. -/
  | inserted (text : Text)
  deriving DecidableEq, Repr

def Chunk.text : Chunk → Text
  | copied _ t => t
  | replaced _ t => t
  | inserted t => t

/-- The text that chunks make up. -/
def Chunk.textOf (cs : List Chunk) : Text := cs.flatMap Chunk.text

namespace Edit

/-- Whether `a` takes effect before `b` does, wherever `b` came later. -/
def notAfter (a b : Edit) : Bool :=
  a.start < b.start || (a.start = b.start && match a, b with
    | replace _ _ _, insert _ _ => false
    | _, _ => true)

/-- `e` among edits in the order of the text, in front of those that it comes before. -/
def place (e : Edit) : List Edit → List Edit
  | [] => [e]
  | f :: fs => if e.notAfter f then e :: f :: fs else f :: place e fs

/-- Edits in the order of the text. -/
def arrange (es : List Edit) : List Edit := es.foldr place []

end Edit

namespace Patch

/-- A part of a text as a chunk, unless it is empty. -/
def copy (start : Nat) (t : Text) : List Chunk := if t.isEmpty then [] else [.copied start t]

/-- The chunks of a text that is copied up to byte `cursor` already, with the edits to come. -/
def chunksFrom (t : Text) (cursor : Nat) : List Edit → List Chunk
  | [] => copy cursor (t.drop cursor)
  | e :: es =>
    let here := max cursor e.start
    copy cursor (t.slice cursor here) ++
      match e with
      | .insert _ s => (if s.isEmpty then [] else [.inserted s]) ++ chunksFrom t here es
      | .replace start stop s => .replaced start s :: chunksFrom t stop es

def chunks (p : Patch) : List Chunk := chunksFrom p.text 0 (Edit.arrange p.edits)

def render (p : Patch) : Text := Chunk.textOf p.chunks

end Patch

end StorySuite
