import StorySuite.Files.Workspace
import StorySuite.Glob.Match
import StorySuite.Story.Basic

/-!
# Looking for story files

A file is a story file by its name and its ending.  A directory is searched as deep as it goes;
what is excluded is passed over, and so is everything below it.  A path that is given is never
excluded itself.
-/

namespace StorySuite

/-- The endings of files that can be transformed. -/
def storyExtensions : List Text := ["ts", "tsx", "mts", "cts", "js", "jsx", "mjs"]

def isStoryPath (path : Text) : Bool :=
  (Path.extension? path).any storyExtensions.contains && isStoryFile path

/-- Why no story files can be looked for. -/
inductive ScanError where
  | pattern (text : Text) (e : Glob.PatternError)
  | walk (path : Text) (e : FileError)
  deriving DecidableEq, Repr

/-- What went wrong, and why, from the outside in. -/
def ScanError.causes : ScanError → List Text
  | pattern t e => ["Invalid exclude pattern \x27" ++ t ++ "\x27", e.message]
  | walk p e =>
    ["Failed to walk " ++ p, "IO error for operation on " ++ p ++ ": " ++ e.message, e.message]

/-- What is passed over. -/
structure Exclusion where
  patterns : List Glob.Pattern
  /-- Whether names are passed over that begin with a dot or an underscore. -/
  hidden : Bool

namespace Exclusion

/-- The exclusion of what matches one of the texts, read as patterns. -/
def ofTexts (hidden : Bool) : List Text → Except ScanError Exclusion
  | [] => .ok ⟨[], hidden⟩
  | t :: ts =>
    match Glob.Pattern.ofText t with
    | .error e => .error (.pattern t e)
    | .ok p => (ofTexts hidden ts).map fun x => { x with patterns := p :: x.patterns }

/-- Whether a name is passed over when nothing else is said. -/
def isHidden (name : Text) : Bool := name.head? = some '.' || name.head? = some '_'

/-- Whether the entry `name` at `path` is passed over. -/
def excludes (x : Exclusion) (name path : Text) : Bool :=
  (x.hidden && isHidden name) ||
    x.patterns.any fun p =>
      p.accepts true name || p.accepts true ((Path.below? ['.'] path).getD path)

end Exclusion

mutual

/-- The story files below an entry at `path`. -/
def Entry.stories (x : Exclusion) (path : Text) : Entry → List Text
  | .file _ => if isStoryPath path then [path] else []
  | .directory es => Entry.storiesIn x path es

/-- The story files below those entries of the directory `path` that are not excluded. -/
def Entry.storiesIn (x : Exclusion) (path : Text) : List (Text × Entry) → List Text
  | [] => []
  | (n, e) :: es =>
    let p := Path.join path n
    (if x.excludes n p then [] else Entry.stories x p e) ++ Entry.storiesIn x path es

end

namespace Workspace

/-- The story files below one path. -/
def storiesBelow (w : Workspace) (x : Exclusion) (path : Text) : Except ScanError (List Text) :=
  match w.entry path with
  | .ok e => .ok (e.stories x path)
  | .error e => .error (.walk path e)

/-- The story files below each path of a list, in its order. -/
def storiesBelowAll (w : Workspace) (x : Exclusion) : List Text → Except ScanError (List Text)
  | [] => .ok []
  | p :: ps => do
    let fs ← w.storiesBelow x p
    return fs ++ (← storiesBelowAll w x ps)

/-- The story files below the paths, where what matches one of the texts is excluded. -/
def scan (w : Workspace) (paths excludes : List Text) (hidden : Bool) :
    Except ScanError (List Text) := do
  w.storiesBelowAll (← Exclusion.ofTexts hidden excludes) paths

end Workspace

end StorySuite
