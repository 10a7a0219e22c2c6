import StorySuite.Text.Basic

/-!
# Patches

A patch is a text with the edits that are asked of it.  Edits name byte offsets of the text as it
was given, so they can come in any order; one that would cut a character or undo another edit is
refused and changes nothing.

* `Patch.insert p pos t`             `t` in front of byte `pos`;
* `Patch.overwrite p start stop t`   `t` instead of the bytes from `start` to `stop`;
* `Patch.append p t`                 `t` at the end.

An overwrite whose text ends with what it replaces is an insertion of the part before that: the
text it keeps is not touched at all.
-/

namespace StorySuite

/-- A change of a text. -/
inductive Edit where
  | insert (pos : Nat) (text : Text)
  | replace (start stop : Nat) (text : Text)
  deriving DecidableEq, Repr

namespace Edit

/-- Where a change begins. -/
def start : Edit → Nat
  | insert p _ => p
  | replace s _ _ => s

/-- Whether byte `pos` lies inside what the edit replaces. -/
def covers (pos : Nat) : Edit → Bool
  | insert _ _ => false
  | replace s e _ => s < pos && pos < e

/-- Whether the edit replaces a byte between `start` and `stop`. -/
def overlaps (start stop : Nat) : Edit → Bool
  | insert _ _ => false
  | replace s e _ => s < stop && start < e

/-- Whether the edit inserts something inside `start` and `stop`. -/
def insertsInside (start stop : Nat) : Edit → Bool
  | insert p _ => start < p && p < stop
  | replace _ _ _ => false

end Edit

/-- A text and the edits that it was given, in the order they came. -/
structure Patch where
  text : Text
  edits : List Edit

/-- Why an edit is refused. -/
inductive Refusal where
  | reversed (start stop : Nat)
  | noBoundary (pos size : Nat)
  | insideReplaced (pos start stop : Nat)
  | overlap (start stop otherStart otherStop : Nat)
  | swallowsInsert (start stop pos : Nat)
  deriving DecidableEq, Repr

namespace Refusal

/-- A range of bytes as it is written. -/
def range (start stop : Nat) : Text := Text.ofNat start ++ ".." ++ Text.ofNat stop

def message : Refusal → Text
  | reversed s e => "overwrite range " ++ range s e ++ " is reversed"
  | noBoundary p n =>
    "offset " ++ Text.ofNat p ++ " is not a char boundary of a " ++ Text.ofNat n ++ " byte source"
  | insideReplaced p s e =>
    "insert at " ++ Text.ofNat p ++ " falls inside overwritten range " ++ range s e
  | overlap s e s' e' => "overwrite " ++ range s e ++ " overlaps overwritten range " ++ range s' e'
  | swallowsInsert s e p =>
    "overwrite " ++ range s e ++ " would swallow insert at " ++ Text.ofNat p

end Refusal

namespace Patch

/-- A text without changes. -/
def ofText (t : Text) : Patch := ⟨t, []⟩

/-- Whether nothing is to be changed. -/
def isEmpty (p : Patch) : Bool := p.edits.isEmpty

/-- Refuses an offset that is no place to cut at. -/
def checkOffset (p : Patch) (pos : Nat) : Except Refusal Unit :=
  if p.text.isBoundary pos then .ok () else .error (.noBoundary pos p.text.size)

/-- The first edit that meets `f`, as what `refusal` makes of it. -/
def conflict (p : Patch) (f : Edit → Bool) (refusal : Edit → Refusal) : Except Refusal Unit :=
  match p.edits.find? f with
  | some e => .error (refusal e)
  | none => .ok ()

/-- `p` with one more edit. -/
def push (p : Patch) (e : Edit) : Patch := ⟨p.text, p.edits ++ [e]⟩

/-- Puts `t` in front of byte `pos`. -/
def insert (p : Patch) (pos : Nat) (t : Text) : Except Refusal Patch := do
  p.checkOffset pos
  p.conflict (·.covers pos) fun
    | .replace s e _ => .insideReplaced pos s e
    | .insert q _ => .insideReplaced pos q q
  return p.push (.insert pos t)

/-- Puts `t` at the end. -/
def append (p : Patch) (t : Text) : Except Refusal Patch := p.insert p.text.size t

/-- Puts `t` in the place of the bytes from `start` to `stop`. -/
def overwrite (p : Patch) (start stop : Nat) (t : Text) : Except Refusal Patch := do
  if stop < start then throw (.reversed start stop)
  p.checkOffset start
  p.checkOffset stop
  match Text.dropTail? (p.text.slice start stop) t with
  | some [] => return p
  | some added => p.insert start added
  | none =>
    p.conflict (·.overlaps start stop) fun
      | .replace s e _ => .overlap start stop s e
      | .insert q _ => .overlap start stop q q
    p.conflict (·.insertsInside start stop) fun e => .swallowsInsert start stop e.start
    return p.push (.replace start stop t)

end Patch

end StorySuite
