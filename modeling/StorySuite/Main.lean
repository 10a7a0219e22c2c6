import StorySuite.Command.Run

/-!
# The program

Loads the files around the current directory and those that are named by the arguments, runs the
command on them, and writes what has changed.  Of a file that is neither a story file nor named,
only its name is loaded.
-/

open StorySuite

namespace StorySuite.Program

/-- What a file holds. -/
def contentOf (bytes : ByteArray) : Content :=
  match String.fromUTF8? bytes with
  | some s => .text s.toList
  | none => .raw

/-- What lies at a place; `named` says that all of its files are wanted. -/
partial def load (named : Bool) (e : IO.FS.DirEntry) : IO Entry := do
  if ← e.path.isDir then
    let mut entries : List (Text × Entry) := []
    for x in ← e.path.readDir do
      entries := Entry.set x.fileName.toList (← load false x) entries
    return .directory entries
  else if named || isStoryPath e.fileName.toList then
    return .file (contentOf (← IO.FS.readBinFile e.path))
  else
    return .file .raw

/-- The values in an argument. -/
def valuesOf (arg : String) : List Text :=
  let t := arg.toList
  match Arguments.Form.splitValue t with
  | (_, some v) => [t, v]
  | (_, none) => [t, t.drop 2]

/-- The files that a command may look at. -/
def workspace (cwd : String) (args : List String) : IO Workspace := do
  let here ← load false ⟨"/", cwd⟩
  let way := Path.walk [] (Path.components cwd.toList)
  let mut w : Workspace := ⟨Entry.empty.put way here, way⟩
  for value in args.flatMap valuesOf do
    match Path.resolve? way value with
    | none => pure ()
    | some target =>
      let place : IO.FS.DirEntry := ⟨"/", String.ofList ('/' :: Text.join ['/'] target)⟩
      if ← place.path.pathExists then
        let inside := way.isPrefixOf target
        if !inside || !(← place.path.isDir) then
          w := w.put target (← load true place)
  return w

/-- Writes the files that have changed. -/
def save (old new : Workspace) : IO Unit := do
  for (way, content) in Workspace.changes { old with cwd := [] } { new with cwd := [] } do
    match content with
    | .raw => pure ()
    | .text t =>
      let directory : IO.FS.DirEntry := ⟨"/", String.ofList ('/' :: Text.join ['/'] way.dropLast)⟩
      IO.FS.createDirAll directory.path
      let file : IO.FS.DirEntry := ⟨"/", String.ofList ('/' :: Text.join ['/'] way)⟩
      IO.FS.writeFile file.path (String.ofList t)

end StorySuite.Program

open StorySuite.Program

/-- Runs the command of the command line. -/
def main (args : List String) : IO UInt32 := do
  match Command.ofArguments (args.map String.toList) with
  | .error e =>
    IO.eprintln (String.ofList e.message)
    return 2
  | .ok command =>
    let w ← workspace (← IO.currentDir).toString args
    let finish := command.run w
    save w finish.session.workspace
    IO.print (String.ofList finish.output)
    IO.eprint (String.ofList finish.messages)
    return if finish.failed then 1 else 0
