import StorySuite.SourceMap.Basic
import StorySuite.Story.Tags
import StorySuite.Story.Meta
import StorySuite.Story.Registration

/-!
# Story modules

A story module becomes a test module of its own stories: its meta object gets a title, its stories
are registered, and what the registrations use is imported at its end.  What kind of module a file
holds is told by its name.

`Story.ofModule` is the test module; `transform` leaves other modules as they are.
-/

namespace StorySuite

/-- What the name of a story file contains. -/
def storyMarkers : List Text := [".story.", ".stories."]

/-- Whether a file of this name holds a story module. -/
def isStoryFile (id : Text) : Bool := storyMarkers.any fun m => Text.contains m id

/-- A story module as a test module. -/
structure Story where
  code : Text
  map : SourceMap
  title : Text
  metaBinding : Text
  metaShape : MetaShape
  /-- The names of the stories, in the order they are exported. -/
  scenarios : List Text
  findings : Findings
  deriving DecidableEq, Repr

namespace Story

/-- The imports that registrations need. -/
def imports : List Text :=
  ["import \x7b test as __test \x7d from 'vitest';",
    "import \x7b composeStories as __composeStories \x7d from 'storybook/internal/preview-api';",
    "import \x7b testStory as __testStory \x7d from '@storybook/experimental-addon-vitest/internal/test-utils';"]

/-- The imports at the end of a test module. -/
def importBlock : Text := '\n' :: Text.join ['\n'] imports

/-- The warning that part of a module was not understood. -/
def errorWarning (m : Module) : Text :=
  m.id ++ " has syntax errors; only recognizable exports are rewritten"

/-- What is noted before anything is looked for. -/
def firstFindings (m : Module) : Findings :=
  if m.hasErrors then Findings.none.warn (errorWarning m) else Findings.none

/-- The test module that a story module becomes. -/
def ofModule (m : Module) (tags : TagFilter) (title : Text) : Except Failure Story := do
  let bs := Bindings.ofModule m
  let (info, p, f) ← Meta.apply m bs title (Patch.ofText m.text) (firstFindings m)
  let r ← Scenario.registerAll m bs tags.render p f
  let p ← (r.patch.append importBlock).mapError Failure.refused
  let cs := p.chunks
  return {
    code := Chunk.textOf cs
    map := SourceMap.ofChunks m.id m.text cs
    title := title
    metaBinding := info.binding
    metaShape := info.shape
    scenarios := r.names
    findings := r.findings }

end Story

/-- What becomes of a module. -/
inductive Transformed where
  /-- It is no story module. -/
  | unchanged (code : Text)
  | story (s : Story)

/-- The code that is to be run. -/
def Transformed.code : Transformed → Text
  | unchanged c => c
  | story s => s.code

/-- Makes a test module of a story module; `title` gives it its title. -/
def transform (id code : Text) (tags : TagFilter) (title : Text → Text) :
    Except Failure Transformed :=
  if isStoryFile id then do
    return .story (← Story.ofModule (Module.read id code) tags (title id))
  else .ok (.unchanged code)

end StorySuite
