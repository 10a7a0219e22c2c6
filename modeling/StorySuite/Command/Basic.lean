import StorySuite.Command.Arguments
import StorySuite.Title.Entry

/-!
# Commands

What the program can be asked for:

* `transform`   one story file, printed as a test module;
* `build`       all story files below some paths, written to a directory;
* `scan`        the story files that a build would take;
* `title`       the titles of files.

`Command.ofArguments` reads a command line.
-/

namespace StorySuite

/-- Settings on the command line; they replace those of the file. -/
structure Overrides where
  /-- The file that the settings are in. -/
  config : Option Text
  configDir : Option Text
  included : List Text
  excluded : List Text
  skipped : List Text
  stories : List Specifier
  deriving DecidableEq, Repr

/-- Which files are looked for. -/
structure Search where
  paths : List Text
  excludes : List Text
  /-- Whether names that begin with a dot or an underscore are passed over. -/
  hidden : Bool
  deriving DecidableEq, Repr

/-- What `transform` is asked for. -/
structure TransformRequest where
  file : Text
  id : Option Text
  overrides : Overrides
  json : Bool
  verbose : Bool
  deriving DecidableEq, Repr

/-- What `build` is asked for. -/
structure BuildRequest where
  search : Search
  overrides : Overrides
  outDir : Text
  write : Bool
  interactive : Bool
  verbose : Bool
  deriving DecidableEq, Repr

/-- What `title` is asked for. -/
structure TitleRequest where
  files : List Text
  overrides : Overrides
  deriving DecidableEq, Repr

/-- What the program is asked for. -/
inductive Command where
  | transform (r : TransformRequest)
  | build (r : BuildRequest)
  | scan (s : Search)
  | title (r : TitleRequest)
  deriving DecidableEq, Repr

open Arguments

namespace Specifier

/-- A specifier as an argument: a prefix for titles, `=` and a pattern, or only a pattern. -/
def ofArgument (arg : Text) : Except ValueError Specifier :=
  match Form.splitValue arg with
  | (_, none) => .ok (.pattern arg)
  | (_, some []) =>
    .error (.refused ("Invalid stories entry ".toList ++ quoted arg ++ ", expected ".toList ++
      quoted "[prefix=]specifier"))
  | (titlePrefix, some rest) =>
    let e := TitleEntry.ofPattern rest
    .ok (.directory e.directory (some e.files) (some titlePrefix))

end Specifier

namespace Command

def text {σ : Type} (put : Text → σ → σ) (t : Text) : Except ValueError (σ → σ) := .ok (put t)

def path {σ : Type} (put : Text → σ → σ) (t : Text) : Except ValueError (σ → σ) :=
  if t.isEmpty then .error .empty else .ok (put t)

/-- An option with a value that may be given once. -/
def single {σ : Type} (long : String) (short : Option Char) (name : String)
    (put : Text → Except ValueError (σ → σ)) : Flag σ :=
  ⟨long.toList, short, .value name.toList false put⟩

/-- An option with a value that may be given often. -/
def many {σ : Type} (long : String) (short : Option Char) (name : String)
    (put : Text → Except ValueError (σ → σ)) : Flag σ :=
  ⟨long.toList, short, .value name.toList true put⟩

/-- An option without a value. -/
def switch {σ : Type} (long : String) (short : Option Char) (put : σ → σ) : Flag σ :=
  ⟨long.toList, short, .switch put⟩

/-- The options for settings; `change` makes a change to the settings in a request. -/
def overrideFlags {σ : Type} (change : (Overrides → Overrides) → σ → σ) : List (Flag σ) :=
  [single "config" (some 'c') "CONFIG" (path fun t => change fun o => { o with config := some t }),
    single "config-dir" none "CONFIG_DIR"
      (path fun t => change fun o => { o with configDir := some t }),
    many "include-tag" none "INCLUDE_TAGS"
      (text fun t => change fun o => { o with included := o.included ++ [t] }),
    many "exclude-tag" none "EXCLUDE_TAGS"
      (text fun t => change fun o => { o with excluded := o.excluded ++ [t] }),
    many "skip-tag" none "SKIP_TAGS"
      (text fun t => change fun o => { o with skipped := o.skipped ++ [t] }),
    many "stories" none "STORIES" fun t =>
      (Specifier.ofArgument t).map fun s => change fun o => { o with stories := o.stories ++ [s] }]

def searchFlags {σ : Type} (change : (Search → Search) → σ → σ) : List (Flag σ) :=
  [many "paths" (some 'p') "PATHS" (path fun t => change fun s => { s with paths := s.paths ++ [t] }),
    many "exclude" (some 'e') "EXCLUDE"
      (text fun t => change fun s => { s with excludes := s.excludes ++ [t] }),
    switch "no-default-excludes" none (change fun s => { s with hidden := false })]

def noOverrides : Overrides := ⟨none, none, [], [], [], []⟩

/-- A search without a path. -/
def noSearch : Search := ⟨[], [], true⟩

/-- A search that goes through the current directory when no path is given. -/
def searchHere (s : Search) : Search := if s.paths.isEmpty then { s with paths := [['.']] } else s

/-- The arguments of `transform`. -/
def transformForm : Form TransformRequest where
  flags :=
    single "id" none "ID" (text fun t r => { r with id := some t }) ::
      overrideFlags (fun f r => { r with overrides := f r.overrides }) ++
      [switch "json" none fun r => { r with json := true },
        switch "verbose" (some 'v') fun r => { r with verbose := true }]
  operand := some ⟨"FILE", false, path fun t r => { r with file := t }⟩
  start := ⟨[], none, noOverrides, false, false⟩

/-- The arguments of `build`. -/
def buildForm : Form BuildRequest where
  flags :=
    searchFlags (fun f r => { r with search := f r.search }) ++
      overrideFlags (fun f r => { r with overrides := f r.overrides }) ++
      [single "out-dir" (some 'o') "OUT_DIR" (path fun t r => { r with outDir := t }),
        switch "write" none fun r => { r with write := true },
        switch "interactive" (some 'i') fun r => { r with interactive := true },
        switch "verbose" (some 'v') fun r => { r with verbose := true }]
  operand := none
  start := ⟨noSearch, noOverrides, "story-tests", false, false, false⟩

/-- The arguments of `scan`. -/
def scanForm : Form Search where
  flags := searchFlags fun f s => f s
  operand := none
  start := noSearch

/-- The arguments of `title`. -/
def titleForm : Form TitleRequest where
  flags := overrideFlags fun f r => { r with overrides := f r.overrides }
  operand := some ⟨"FILES", true, path fun t r => { r with files := r.files ++ [t] }⟩
  start := ⟨[], noOverrides⟩

/-- The command of a name, and its arguments. -/
def ofName? (name : Text) (args : List Text) : Option (Except UsageError Command) :=
  if name = "transform".toList then some ((transformForm.read args).map .transform)
  else if name = "build".toList then
    some ((buildForm.read args).map fun r => .build { r with search := searchHere r.search })
  else if name = "scan".toList then some ((scanForm.read args).map fun s => .scan (searchHere s))
  else if name = "title".toList then some ((titleForm.read args).map .title)
  else none

def ofArguments : List Text → Except UsageError Command
  | [] => .error .noCommand
  | ['-', '-'] :: [] => .error .noCommand
  | ['-', '-'] :: name :: _ =>
    .error (if (ofName? name []).isSome then .hiddenCommand name else .unknownCommand name)
  | ('-' :: '-' :: t) :: _ => .error (.unexpected ('-' :: '-' :: (Form.splitValue t).1))
  | ('-' :: c :: _) :: _ => .error (.unexpected ['-', c])
  | name :: args => (ofName? name args).getD (.error (.unknownCommand name))

end Command

end StorySuite
