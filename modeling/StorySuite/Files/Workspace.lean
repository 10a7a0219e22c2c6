import StorySuite.Path.Basic
import StorySuite.Files.Tree

/-!
# Workspaces

A workspace is a file tree with the directory that relative paths begin at.  A path is followed
step by step, and every step but the last has to lead to a directory that is there.

* `Workspace.find w path`            where a path leads;
* `Workspace.read w path`            the text of a file;
* `Workspace.write w path t`         makes a file hold a text;
* `Workspace.makeDirectories w path` makes a directory and those around it.
-/

namespace StorySuite

/-- Why a path cannot be used. -/
inductive FileError where
  | notFound
  | alreadyThere
  | notDirectory
  | isDirectory
  deriving DecidableEq, Repr

def FileError.message : FileError → Text
  | notFound => "No such file or directory (os error 2)"
  | alreadyThere => "File exists (os error 17)"
  | notDirectory => "Not a directory (os error 20)"
  | isDirectory => "Is a directory (os error 21)"

/-- Why a file cannot be read. -/
inductive ReadError where
  | file (e : FileError)
  | noText
  deriving DecidableEq, Repr

def ReadError.message : ReadError → Text
  | file e => e.message
  | noText => "stream did not contain valid UTF-8"

/-- Where a path leads. -/
inductive Spot where
  /-- To something that is there. -/
  | found (way : List Text) (e : Entry)
  /-- To nothing yet; `slash` says whether the path ends with a slash. -/
  | vacant (way : List Text) (slash : Bool)

/-- A file tree and the way to the directory that relative paths begin at. -/
structure Workspace where
  root : Entry
  cwd : List Text

namespace Workspace

/-- Follows the pieces of a path from the directory at `here`. -/
def follow (w : Workspace) (here : List Text) : List Text → Except FileError Spot
  | [] =>
    match w.root.get? here with
    | some e => .ok (.found here e)
    | none => .error .notFound
  | p :: ps =>
    match w.root.get? here with
    | none => .error .notFound
    | some (.file _) => .error .notDirectory
    | some (.directory es) =>
      if p = [] || p = ['.'] then follow w here ps
      else if p = ['.', '.'] then follow w here.dropLast ps
      else if ((Entry.directory es).child? p).isSome then follow w (here ++ [p]) ps
      else if ps.all List.isEmpty then .ok (.vacant (here ++ [p]) (!ps.isEmpty))
      else .error .notFound

/-- Where a path leads. -/
def find (w : Workspace) (path : Text) : Except FileError Spot :=
  if path.isEmpty then .error .notFound
  else follow w (if Path.isAbsolute path then [] else w.cwd) (Text.fields '/' path)

/-- What a path leads to. -/
def entry (w : Workspace) (path : Text) : Except FileError Entry :=
  match w.find path with
  | .ok (.found _ e) => .ok e
  | .ok (.vacant _ _) => .error .notFound
  | .error e => .error e

def isFile (w : Workspace) (path : Text) : Bool :=
  match w.entry path with
  | .ok e => e.isFile
  | .error _ => false

def isDirectory (w : Workspace) (path : Text) : Bool :=
  match w.entry path with
  | .ok e => e.isDirectory
  | .error _ => false

def read (w : Workspace) (path : Text) : Except ReadError Text :=
  match w.entry path with
  | .ok (.file (.text t)) => .ok t
  | .ok (.file .raw) => .error .noText
  | .ok (.directory _) => .error (.file .isDirectory)
  | .error e => .error (.file e)

/-- The workspace with `e` at the end of a way. -/
def put (w : Workspace) (way : List Text) (e : Entry) : Workspace :=
  { w with root := w.root.put way e }

/-- Makes a file hold a text. -/
def write (w : Workspace) (path t : Text) : Except FileError Workspace :=
  match w.find path with
  | .error e => .error e
  | .ok (.found _ (.directory _)) => .error .isDirectory
  | .ok (.found way (.file _)) => .ok (w.put way (.file (.text t)))
  | .ok (.vacant _ true) => .error .isDirectory
  | .ok (.vacant way false) => .ok (w.put way (.file (.text t)))

def makeDirectory (w : Workspace) (path : Text) : Except FileError Workspace :=
  match w.find path with
  | .error e => .error e
  | .ok (.found _ _) => .error .alreadyThere
  | .ok (.vacant way _) => .ok (w.put way .empty)

/-- Makes a directory, or leaves one that is there. -/
def ensureDirectory (w : Workspace) (path : Text) : Except FileError Workspace :=
  match w.makeDirectory path with
  | .ok w => .ok w
  | .error e => if w.isDirectory path then .ok w else .error e

/-- Makes a directory and those around it, as far as they are missing.  What was made stays, also
where the rest cannot be.  The number bounds the directories around it. -/
def makeDirectoriesIn : Nat → Workspace → Text → Workspace × Option FileError
  | 0, w, _ => (w, none)
  | n + 1, w, path =>
    if path.isEmpty then (w, none)
    else match w.makeDirectory path with
      | .ok w => (w, none)
      | .error .notFound =>
        match Path.parent? path with
        | none => (w, some .notFound)
        | some p =>
          match makeDirectoriesIn n w p with
          | (w, some e) => (w, some e)
          | (w, none) =>
            match w.ensureDirectory path with
            | .ok w => (w, none)
            | .error e => (w, some e)
      | .error e => if w.isDirectory path then (w, none) else (w, some e)

/-- Makes a directory and those around it, as far as they are missing. -/
def makeDirectories (w : Workspace) (path : Text) : Workspace × Option FileError :=
  makeDirectoriesIn (path.length + 1) w path

/-- The files that hold something else than they did in `old`, or were not there, with the ways to
them from the directory that relative paths begin at. -/
def changes (old new : Workspace) : List (List Text × Content) :=
  match new.root.get? new.cwd with
  | none => []
  | some e =>
    (e.files []).filter fun f => match old.root.get? (old.cwd ++ f.1) with
      | some (.file c) => c != f.2
      | _ => true

end Workspace

end StorySuite
