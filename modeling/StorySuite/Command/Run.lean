import StorySuite.Command.Build

/-!
# Running commands

`Command.run` does what a command asks for in a workspace.
-/

namespace StorySuite

/-- A list that is used when it has something in it. -/
def preferred {α : Type} (given standard : List α) : List α :=
  if given.isEmpty then standard else given

namespace Settings

def load (w : Workspace) (path : Text) : Except Trouble Settings :=
  match w.read path with
  | .error e => .error ["Failed to read ".toList ++ path, e.message]
  | .ok t =>
    match Settings.read t with
    | .error e => .error ["Failed to parse ".toList ++ path, complaint, e.message t]
    | .ok s => .ok s

end Settings

namespace Overrides

/-- The options of some settings and of the command line. -/
def options (o : Overrides) (s : Settings) : Options :=
  let tags := s.tags.getD .standard
  ⟨⟨preferred o.included tags.included, preferred o.excluded tags.excluded,
      preferred o.skipped tags.skipped⟩,
    (o.configDir <|> s.configDir).getD Options.standardDir⟩

/-- What stories are transformed with, the command line having the last word. -/
def project (o : Overrides) (w : Workspace) : Except Trouble Project := do
  let s ← match o.config with
    | some path => Settings.load w path
    | none => .ok .empty
  let options := o.options s
  return ⟨options, ⟨(preferred o.stories s.stories).map .ofSpecifier, options.configDir, w.cwd⟩⟩

end Overrides

namespace TransformRequest

/-- The test module of a story as a JSON object; for a module that is none, most of it is empty. -/
def report : Transformed → Json
  | .unchanged code => object code .null .null .null [] [] []
  | .story s =>
    object s.code s.map.toJson (.string s.title) (.string s.metaBinding) s.scenarios
      s.findings.warnings s.findings.skippedExports
where
  /-- The object of these values. -/
  object (code : Text) (map title binding : Json) (scenarios warnings skipped : List Text) : Json :=
    .object [("code".toList, .string code), ("map".toList, map), ("title".toList, title),
      ("metaBinding".toList, binding), ("scenarios".toList, .strings scenarios),
      ("warnings".toList, .strings warnings), ("skippedExports".toList, .strings skipped)]

/-- What is said of the result. -/
def lines (id : Text) (verbose : Bool) : Transformed → List Text
  | .unchanged _ =>
    if verbose then ["info: ".toList ++ id ++ " is not a story file, passing through".toList] else []
  | .story s =>
    s.findings.lines id verbose ++
      if verbose then
        ["info: title ".toList ++ Arguments.quoted s.title ++ ", meta bound to ".toList ++
          Json.marked s.metaBinding ++ ", ".toList ++ Text.ofNat s.scenarios.length ++
          " story export(s)".toList]
      else []

def run (r : TransformRequest) (s : Session) : Finish :=
  match r.overrides.project s.workspace with
  | .error t => ⟨s, some t⟩
  | .ok p =>
    match s.workspace.read r.file with
    | .error e => ⟨s, some ["Failed to read ".toList ++ r.file, e.message]⟩
    | .ok code =>
      let id := r.id.getD r.file
      match p.transform id code with
      | .error e => ⟨s, some ["Failed to transform ".toList ++ id, e.message]⟩
      | .ok t =>
        let s := s.tellAll (lines id r.verbose t)
        ⟨s.print (if r.json then (report t).pretty else t.code), none⟩

end TransformRequest

def BuildRequest.run (r : BuildRequest) (s : Session) : Finish :=
  match r.overrides.project s.workspace with
  | .error t => ⟨s, some t⟩
  | .ok p => Build.run p r s

/-- Lists the story files. -/
def Search.run (r : Search) (s : Session) : Finish :=
  match s.workspace.scan r.paths r.excludes r.hidden with
  | .error e => ⟨s, some e.causes⟩
  | .ok files =>
    ⟨s.printAll (("Would transform ".toList ++ Text.ofNat files.length ++ " files:".toList) ::
      files.map ("  ".toList ++ ·)), none⟩

/-- Lists the titles of files. -/
def TitleRequest.run (r : TitleRequest) (s : Session) : Finish :=
  match r.overrides.project s.workspace with
  | .error t => ⟨s, some t⟩
  | .ok p => ⟨s.printAll (r.files.map fun f => f ++ ' ' :: p.titles.title f), none⟩

/-- Does what a command asks for. -/
def Command.run (c : Command) (w : Workspace) : Finish :=
  let s := Session.start w
  match c with
  | transform r => r.run s
  | build r => r.run s
  | scan r => r.run s
  | title r => r.run s

end StorySuite
