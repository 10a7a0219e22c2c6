import StorySuite.Command.Basic
import StorySuite.Command.Session
import StorySuite.Title.Resolver

/-!
# Building

`Build.all` goes through the paths of a request one after another: it looks for the story files
below a path and makes a test module of each.  A file that fails is told and counted, and the
others go on.
-/

namespace StorySuite

/-- What stories are transformed with. -/
structure Project where
  options : Options
  titles : TitleRules

/-- What is said of the findings about a module. -/
def Findings.lines (f : Findings) (id : Text) (verbose : Bool) : List Text :=
  f.warnings.map ("warn: ".toList ++ ·) ++
    if verbose && !f.skippedExports.isEmpty then
      ["info: ".toList ++ id ++ ": re-exported names without a top-level declaration: ".toList ++
        Text.join ", ".toList f.skippedExports]
    else []

def Project.transform (p : Project) (id code : Text) : Except Failure Transformed :=
  StorySuite.transform id code p.options.tags p.titles.title

/-- Counts the files of a build. -/
structure Tally where
  scanned : Nat
  transformed : Nat
  written : Nat
  failed : Nat
  deriving DecidableEq, Repr

namespace Tally

def zero : Tally := ⟨0, 0, 0, 0⟩

/-- The counts in a line. -/
def line (t : Tally) : Text :=
  "\nDiagnostics: Files: ".toList ++ Text.ofNat t.scanned ++ ", transformed: ".toList ++
    Text.ofNat t.transformed ++ ", written: ".toList ++ Text.ofNat t.written ++ ", failed: ".toList ++
    Text.ofNat t.failed

end Tally

/-- What becomes of one file. -/
inductive FileResult where
  | written
  | kept
  | failed (t : Trouble)

/-- The counts with one more file. -/
def Tally.add (t : Tally) : FileResult → Tally
  | .written => { t with transformed := t.transformed + 1, written := t.written + 1 }
  | .kept => { t with transformed := t.transformed + 1 }
  | .failed _ => { t with failed := t.failed + 1 }

/-- A build under way. -/
structure Build where
  session : Session
  tally : Tally

namespace Build

/-- What is said of a story before it is written. -/
def announcement (r : BuildRequest) (s : Story) (file target : Text) : List Text :=
  ((if r.write then "Writing: " else "Would write: ").toList ++ file ++ " -> ".toList ++ target) ::
    if r.verbose then s.scenarios.map ("  + ".toList ++ ·) else []

/-- Why nobody can be asked whether a file may be written. -/
def noTerminal : Trouble := ["IO error: not a terminal".toList, "not a terminal".toList]

/-- Writes a story when it is to be written. -/
def deliver (r : BuildRequest) (s : Session) (story : Story) (target : Text) :
    Session × FileResult :=
  if !r.write then (s, .kept)
  else if r.interactive then (s, .failed noTerminal)
  else match s.workspace.writeStory story target with
    | (w, none) => ({ s with workspace := w }, .written)
    | (w, some e) => ({ s with workspace := w }, .failed e.causes)

/-- Makes a test module of one file. -/
def file (p : Project) (r : BuildRequest) (s : Session) (file target : Text) :
    Session × FileResult :=
  match s.workspace.read file with
  | .error e => (s, .failed ["Failed to read ".toList ++ file, e.message])
  | .ok code =>
    match p.transform file code with
    | .error e => (s, .failed ["Failed to transform ".toList ++ file, e.message])
    | .ok (.unchanged _) => (s, .kept)
    | .ok (.story story) =>
      let s := s.tellAll (story.findings.lines file r.verbose)
      deliver r (s.printAll (announcement r story file target)) story target

def tellResult (s : Session) : FileResult → Session
  | .failed t => s.tell ("error: ".toList ++ t.inline)
  | _ => s

/-- A build with one more file, which was found below `root`. -/
def add (p : Project) (r : BuildRequest) (root : Text) (b : Build) (path : Text) : Build :=
  let (s, result) := file p r b.session path (Output.codePath path root r.outDir)
  ⟨tellResult s result, b.tally.add result⟩

/-- What is said of the files that are found. -/
def foundLine (count : Nat) (root : Text) : Text :=
  "info: Found ".toList ++ Text.ofNat count ++ " story files under ".toList ++ root

/-- A build with the files that are found below `root`. -/
def addAll (p : Project) (r : BuildRequest) (root : Text) (b : Build) (files : List Text) : Build :=
  let s := if r.verbose then b.session.tell (foundLine files.length root) else b.session
  files.foldl (add p r root) ⟨s, { b.tally with scanned := b.tally.scanned + files.length }⟩

/-- A build with all that is found below some paths, and why it stops early. -/
def all (p : Project) (r : BuildRequest) (b : Build) : List Text → Build × Option ScanError
  | [] => (b, none)
  | root :: roots =>
    match b.session.workspace.scan [root] r.search.excludes r.search.hidden with
    | .error e => (b, some e)
    | .ok files => all p r (addAll p r root b files) roots

/-- What is said at the end of a build. -/
def closing (r : BuildRequest) (t : Tally) : List Text :=
  (if r.verbose then [t.line] else []) ++
    if t.scanned = 0 then ["info: No story files found".toList]
    else if !r.write then ["\nhint: Use --write to write files".toList]
    else if t.failed = 0 then
      ["ok: Wrote ".toList ++ Text.ofNat t.written ++ " file(s) to ".toList ++ r.outDir]
    else []

/-- The trouble of a build in which some files failed. -/
def trouble? (t : Tally) : Option Trouble :=
  if t.failed = 0 then none else some [Text.ofNat t.failed ++ " story file(s) failed to transform".toList]

def run (p : Project) (r : BuildRequest) (s : Session) : Finish :=
  match all p r ⟨s, .zero⟩ r.search.paths with
  | (b, some e) => ⟨b.session, some e.causes⟩
  | (b, none) => ⟨b.session.printAll (closing r b.tally), trouble? b.tally⟩

end Build

end StorySuite
