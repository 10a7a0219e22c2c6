import StorySuite.Files.Workspace
import StorySuite.Output.Target
import StorySuite.Story.Basic

/-!
# Writing test modules

A test module is written after its source map, and both after the directory they lie in is made.
What was written before something failed stays.
-/

namespace StorySuite

/-- Why a test module cannot be written. -/
inductive WriteError where
  | create (path : Text) (e : FileError)
  | write (path : Text) (e : FileError)
  deriving DecidableEq, Repr

/-- What went wrong, and why, from the outside in. -/
def WriteError.causes : WriteError → List Text
  | create p e => ["Failed to create " ++ p, e.message]
  | write p e => ["Failed to write " ++ p, e.message]

namespace Workspace

/-- Writes a file, and says under which path it failed. -/
def writeFile (w : Workspace) (path t : Text) : Workspace × Option WriteError :=
  match w.write path t with
  | .ok w => (w, none)
  | .error e => (w, some (.write path e))

/-- Makes the directory that a path lies in. -/
def makeParent (w : Workspace) (path : Text) : Workspace × Option WriteError :=
  match Path.parent? path with
  | none => (w, none)
  | some p =>
    match w.makeDirectories p with
    | (w, some e) => (w, some (.create p e))
    | (w, none) => (w, none)

def nameOf (path : Text) : Text := (Path.fileName? path).getD []

/-- Writes a test module to `path` and its source map next to it. -/
def writeStory (w : Workspace) (s : Story) (path : Text) : Workspace × Option WriteError :=
  let mapPath := Output.mapPath path
  match w.makeParent path with
  | (w, some e) => (w, some e)
  | (w, none) =>
    match w.writeFile mapPath { s.map with file := some (nameOf path) }.render with
    | (w, some e) => (w, some e)
    | (w, none) => w.writeFile path (Output.withMapComment s.code (nameOf mapPath))

end Workspace

end StorySuite
