import StorySuite.Text.Basic

/-!
# Positions

A position is a line and a column, both counted from zero; a column counts UTF-16 units, and only
a line feed ends a line.  `Position.ofOffset t n` is the position of byte `n` of `t`.
-/

namespace StorySuite

/-- A place in a text as a line and a column. -/
structure Position where
  line : Nat
  column : Nat
  deriving DecidableEq, Repr, Inhabited

namespace Position

/-- The start of a text. -/
def zero : Position := ⟨0, 0⟩

/-- The position behind a character. -/
def after (p : Position) (c : Char) : Position :=
  if c = '\n' then ⟨p.line + 1, 0⟩ else ⟨p.line, p.column + Text.charUnits c⟩

/-- The position behind a text. -/
def through (p : Position) (t : Text) : Position := t.foldl after p

/-- The position of byte `n` of `t`. -/
def ofOffset (t : Text) (n : Nat) : Position := zero.through (t.take n)

@[simp] theorem through_cons (p : Position) (c : Char) (t : Text) :
    p.through (c :: t) = (p.after c).through t := rfl

@[simp] theorem through_append (p : Position) (s t : Text) :
    p.through (s ++ t) = (p.through s).through t := by
  simp [through]

end Position

end StorySuite
