import StorySuite.Json.Reader
import StorySuite.Story.Tags
import StorySuite.Title.Entry

/-!
# Settings

What a project says about its stories: where its configuration lies, which tags decide what is run,
and where the stories are.  All of it may be left out.

* `Settings.read t`   the settings of a JSON text;
* `Options`           what a transformation needs of them, nothing left out.
-/

namespace StorySuite

/-- What a project says about its stories. -/
structure Settings where
  configDir : Option Text
  tags : Option TagFilter
  stories : List Specifier
  deriving DecidableEq, Repr

/-- What a transformation needs to know. -/
structure Options where
  tags : TagFilter
  configDir : Text
  deriving DecidableEq, Repr

open Json.Reader

namespace TagFilter

def tagList : Json.Reader (List Text) := list (text "a string")

def members : List (Member TagFilter) :=
  [.free "include" tagList fun ts f => { f with included := ts },
    .free "exclude" tagList fun ts f => { f with excluded := ts },
    .free "skip" tagList fun ts f => { f with skipped := ts }]

/-- A filter; a list that is left out is that of the standard filter. -/
def reader : Json.Reader TagFilter := record "struct TagFilter" members standard

end TagFilter

namespace Specifier

/-- A string that may be left out; none for a value that is no string. -/
def optionalText? : Option Json → Option (Option Text)
  | none => some none
  | some .null => some none
  | some (.string t) => some (some t)
  | some _ => none

def valuesOf (key : Text) (fields : List (Text × Json)) : List Json :=
  fields.filterMap fun f => if f.1 = key then some f.2 else none

/-- The value of a key; none where the key is there twice. -/
def single? (key : Text) (fields : List (Text × Json)) : Option (Option Json) :=
  match valuesOf key fields with
  | [] => some none
  | [v] => some (some v)
  | _ => none

/-- The specifier of a directory, of the files in it and of a prefix. -/
def ofParts? (directory : Json) (files titlePrefix : Option Json) : Option Specifier :=
  match directory, optionalText? files, optionalText? titlePrefix with
  | .string d, some f, some p => some (.directory d f p)
  | _, _, _ => none

/-- The specifier that a value is: a string is a pattern; a directory is an object, or a list of the
values in order. -/
def ofJson? : Json → Option Specifier
  | .string t => some (.pattern t)
  | .object fields =>
    match single? "directory" fields, single? "files" fields, single? "titlePrefix" fields with
    | some (some d), some f, some p => ofParts? d f p
    | _, _, _ => none
  | .array [d] => ofParts? d none none
  | .array [d, f] => ofParts? d (some f) none
  | .array [d, f, p] => ofParts? d (some f) (some p)
  | _ => none

def reader : Json.Reader Specifier := fun levels t =>
  match value levels t with
  | .error e => .error e
  | .ok (v, u) =>
    match ofJson? v with
    | some s => .ok (s, u)
    | none => .error (.unplaced (.noForm "StoriesSpecifier") u)

end Specifier

namespace Options

/-- Where the configuration lies when nothing is said. -/
def standardDir : Text := ".storybook"

/-- The options when nothing is said. -/
def standard : Options := ⟨.standard, standardDir⟩

end Options

namespace Settings

/-- The settings when nothing is said. -/
def empty : Settings := ⟨none, none, []⟩

def members : List (Member Settings) :=
  [.free "configDir" (optional (text "path string")) fun v s => { s with configDir := v },
    .free "tags" (optional TagFilter.reader) fun v s => { s with tags := v },
    .free "stories" (list Specifier.reader) fun v s => { s with stories := v }]

/-- Settings at the front of a text. -/
def reader : Json.Reader Settings := record "struct PluginConfig" members empty

def read (t : Text) : Except Json.Fault Settings := run reader t

/-- What is said of a text that cannot be read. -/
def complaint : Text := "Invalid plugin config JSON"

def options (s : Settings) : Options :=
  ⟨s.tags.getD .standard, s.configDir.getD Options.standardDir⟩

end Settings

end StorySuite
