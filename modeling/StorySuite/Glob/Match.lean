import StorySuite.Glob.Pattern

/-!
# Matching

A match can fail in two ways: with the text at hand, or for every end of it.  The second stops the
search at once, since a longer match of what came before leaves even less.
-/

namespace StorySuite.Glob

/-- What comes of a match. -/
inductive Outcome where
  | found
  /-- What came before may match more or less of the text. -/
  | notHere
  /-- Nothing that came before can make it match. -/
  | never
  deriving DecidableEq, Repr

/-- Tries `rest` after each beginning of a text that a wildcard may stand for, the shortest first.
`slashes` says whether it may stand for slashes and `whole` whether it stands for whole directories
only; `here` says whether `rest` may begin right away, and `start` whether a directory does. -/
def Outcome.search (slashes whole : Bool) (rest : Bool → Text → Outcome) :
    Bool → Bool → Text → Outcome
  | _, start, [] => rest start []
  | here, start, c :: t =>
    match if here then rest start (c :: t) else .notHere with
    | .notHere =>
      if c = '/' && !slashes then .notHere
      else search slashes whole rest (!whole || c = '/') (c = '/') t
    | o => o

namespace Token

/-- Whether a token for one character stands for `c`. -/
def takes (slashes : Bool) (tok : Token) (c : Char) : Bool :=
  match tok with
  | char d => d = c
  | anyChar => slashes || c != '/'
  | within s => (slashes || c != '/') && s.has c
  | except s => (slashes || c != '/') && !s.has c
  | anySequence | anyDirectories => false

end Token

namespace Pattern

/-- Matches a text from its front; `start` says whether a directory begins there. -/
def matchFrom (slashes : Bool) : Pattern → Bool → Text → Outcome
  | [], _, t => if t.isEmpty then .found else .notHere
  | .anySequence :: p, start, t => Outcome.search slashes false (matchFrom slashes p) true start t
  | .anyDirectories :: p, start, t => Outcome.search true true (matchFrom slashes p) true start t
  | tok :: p, _, t =>
    match t with
    | [] => .never
    | c :: u => if tok.takes slashes c then matchFrom slashes p (c = '/') u else .notHere

/-- Whether a pattern matches all of a text; `slashes` says whether `?`, `*` and classes stand for
slashes too. -/
def accepts (slashes : Bool) (p : Pattern) (t : Text) : Bool := matchFrom slashes p true t = .found

end Pattern

end StorySuite.Glob
