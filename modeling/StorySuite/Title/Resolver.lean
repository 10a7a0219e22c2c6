import StorySuite.Path.Basic
import StorySuite.Glob.Alternatives
import StorySuite.Title.Entry

/-!
# Titles

The title of a story file is its path below the first entry that it matches, behind the prefix of
this entry; a file that matches none goes by its own name.  The endings of the file's name do not
show in a title, and neither does a name that only repeats its directory.

* `autoTitle path titlePrefix`   the title of a file at `path` below its entry;
* `TitleRules.title r file`      the title of a file.
-/

namespace StorySuite

/-- Whether a part of a path is the word `index`, in letters of either case. -/
def isIndex (t : Text) : Bool := t.map Char.toLower = "index".toList

/-- A file's name up to its first dot, unless it begins with it. -/
def stem (name : Text) : Text :=
  match name with
  | '.' :: _ => name
  | _ => name.takeWhile (· != '.')

/-- A list without its last item, if `drop` says so of the item in front of it and of itself. -/
def dropLastIf (drop : Text → Text → Bool) (parts : List Text) : List Text :=
  match parts.reverse with
  | last :: before :: rest => if drop before last then (before :: rest).reverse else parts
  | _ => parts

/-- The parts of a path that show in a title. -/
def titleParts (path : Text) : List Text :=
  let parts := (Text.fields '/' path).filter fun p => p != [] && p != ['.']
  let parts := match parts.getLast? with
    | some last => parts.dropLast ++ [stem last]
    | none => []
  dropLastIf (· = ·) (dropLastIf (fun _ last => isIndex last) parts)

/-- The title of a file at `path` below its entry. -/
def autoTitle (path titlePrefix : Text) : Text :=
  Text.join ['/'] ((Text.fields '/' titlePrefix).filter (· != []) ++ titleParts path)

/-- How titles are found: the entries, the directory that they are relative to, and the names on
the way from the root to the directory that everything else is relative to. -/
structure TitleRules where
  entries : List TitleEntry
  configDir : Text
  cwd : List Text

namespace TitleRules

/-- The names on the way from the root to a directory of an entry, seen from the configuration; none
where both are empty. -/
def directoryOf? (r : TitleRules) (e : TitleEntry) : Option (List Text) :=
  match Path.resolve? r.cwd r.configDir with
  | none => Path.resolve? r.cwd e.directory
  | some config => some (Path.walk config (Path.components e.directory))

/-- The names of a file below a directory, slashes between them. -/
def below? (directory file : Option (List Text)) : Option Text :=
  match directory, file with
  | none, none => some []
  | none, some names => some (Text.join ['/'] (['/'] :: names))
  | some _, none => none
  | some dir, some names =>
    if dir.isPrefixOf names then some (Text.join ['/'] (names.drop dir.length)) else none

/-- The path of a file below the directory of an entry, if the file matches the entry. -/
def match? (r : TitleRules) (file : Option (List Text)) (e : TitleEntry) : Option Text :=
  (below? (r.directoryOf? e) file).bind fun path =>
    if Glob.matchesPath e.files path then some path else none

/-- The title of a story file, whose name may carry a query. -/
def title (r : TitleRules) (id : Text) : Text :=
  let file := Path.resolve? r.cwd (id.takeWhile (· != '?'))
  match r.entries.findSome? fun e => (r.match? file e).map fun path => autoTitle path e.titlePrefix with
  | some t => t
  | none => autoTitle ((file.bind List.getLast?).getD []) []

end TitleRules

end StorySuite
