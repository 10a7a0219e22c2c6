import StorySuite.Text.Basic

/-!
# Paths

A path is a text.  What it means are its components: slashes next to each other and steps to the
current directory count for nothing, except that a relative path may begin with one.  What is cut
off a path is cut off its text, so the spelling of what is kept stays.

* `Path.components p`        what `p` means;
* `Path.join p q`            `q` as seen from `p`;
* `Path.below? base p`       the rest of `p` below `base`;
* `Path.parent? p`, `Path.fileName? p`, `Path.extension? p`   its parts;
* `Path.resolve? cwd p`      the names on the way from the root to `p`, found without looking at
                             any directory.
-/

namespace StorySuite

/-- A step of a path. -/
inductive Component where
  | root
  | current
  | parent
  | named (name : Text)
  deriving DecidableEq, Repr

namespace Component

/-- How a step is written. -/
def text : Component → Text
  | root => ['/']
  | current => ['.']
  | parent => ['.', '.']
  | named n => n

/-- The step that a piece between two slashes stands for, if it stands for one. -/
def ofPiece? (p : Text) : Option Component :=
  if p = [] || p = ['.'] then none
  else if p = ['.', '.'] then some parent
  else some (named p)

end Component

namespace Path

/-- Whether `p` begins at the root. -/
def isAbsolute (p : Text) : Bool := p.head? = some '/'

/-- What a path begins with before its first name: the root, the current directory or nothing;
and the rest of it. -/
def splitHead : Text → Text × Text
  | '/' :: t => (['/'], t)
  | ['.'] => (['.'], [])
  | '.' :: '/' :: t => (['.'], '/' :: t)
  | t => ([], t)

/-- The steps of a path. -/
def components (p : Text) : List Component :=
  let (head, body) := splitHead p
  let steps := (Text.fields '/' body).filterMap Component.ofPiece?
  match head with
  | ['/'] => .root :: steps
  | ['.'] => .current :: steps
  | _ => steps

/-- `q` as seen from `p`. -/
def join (p q : Text) : Text :=
  if isAbsolute q then q
  else if p.isEmpty || p.getLast? = some '/' then p ++ q
  else p ++ '/' :: q

/-- A text without the slashes and the steps to the current directory that it begins with. -/
def dropEmpty : Text → Text
  | '/' :: t => dropEmpty t
  | ['.'] => []
  | '.' :: '/' :: t => dropEmpty t
  | t => t

/-- A text without the slashes and the steps to the current directory that it ends with. -/
def dropEmptyEnd (t : Text) : Text := (dropEmpty t.reverse).reverse

/-- A path without what its end says in vain. -/
def trim (p : Text) : Text :=
  let (head, body) := splitHead p
  head ++ dropEmptyEnd body

/-- What is left of a path without its head when `n` steps are taken off its front. -/
def dropSteps : Nat → Text → Text
  | 0, t => dropEmptyEnd (dropEmpty t)
  | n + 1, t => dropSteps n ((dropEmpty t).dropWhile (· != '/'))

/-- The rest of `p` below `base`, if it lies there. -/
def below? (base p : Text) : Option Text :=
  let bs := components base
  if bs.isPrefixOf (components p) then
    match bs.length with
    | 0 => some (trim p)
    | n + 1 =>
      let (head, body) := splitHead p
      some (if head.isEmpty then dropSteps (n + 1) body else dropSteps n body)
  else none

/-- The path without its last step. -/
def parent? (p : Text) : Option Text :=
  let (head, body) := splitHead p
  match dropEmptyEnd body with
  | [] => if head = ['.'] then some [] else none
  | b => some (head ++ dropEmptyEnd (b.reverse.dropWhile (· != '/')).reverse)

/-- The last step, if it is a name. -/
def fileName? (p : Text) : Option Text :=
  match (components p).getLast? with
  | some (.named n) => some n
  | _ => none

/-- What follows the last dot of a file's name, unless the name begins with it. -/
def extensionOf? (name : Text) : Option Text :=
  let tail := name.reverse.takeWhile (· != '.')
  let rest := name.reverse.drop tail.length
  match rest with
  | '.' :: _ :: _ => some tail.reverse
  | _ => none

/-- What follows the last dot of the file's name, unless the name begins with it. -/
def extension? (p : Text) : Option Text := (fileName? p).bind extensionOf?

/-- The names on the way to a path, from those on the way to where it begins. -/
def walk (here : List Text) : List Component → List Text
  | [] => here
  | .root :: cs => walk [] cs
  | .current :: cs => walk here cs
  | .parent :: cs => walk here.dropLast cs
  | .named n :: cs => walk (here ++ [n]) cs

/-- The names on the way from the root to `p`, where a relative path begins at `cwd`; none for the
empty path, which names nothing. -/
def resolve? (cwd : List Text) (p : Text) : Option (List Text) :=
  if p.isEmpty then none else some (walk cwd (components p))

end Path

end StorySuite
