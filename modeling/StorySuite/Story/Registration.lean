import StorySuite.Text.Quoted
import StorySuite.Story.Findings

/-!
# Registration of stories

Every exported variable of a story module is a story, under the name that it is exported as.  A
story is registered by a statement on a line of its own, in front of the statement that declares
the variable.
-/

namespace StorySuite

/-- A story to be registered: its name and where the statement begins that declares it. -/
structure Scenario where
  name : Text
  start : Nat
  deriving DecidableEq, Repr

/-- What an export turns out to be. -/
inductive ExportedName where
  | story (s : Scenario)
  /-- A name of something that the module does not declare as a variable. -/
  | skipped (name : Text)
  deriving DecidableEq, Repr

namespace Scenario

/-- The statement that registers a story. -/
def registration (name tags : Text) : Text :=
  "__test(" ++ Quoted.encode name ++ ", __testStory(" ++ Quoted.encode name ++
    ", import.meta.url, __composeStories, " ++ tags ++ "));"

/-- What a name of a clause turns out to be. -/
def ofExportName (bs : Bindings) (n : ExportName) : ExportedName :=
  match bs.get? n.bound with
  | some b => .story ⟨n.exported, b.statement.node.start⟩
  | none => .skipped n.exported

/-- What a statement exports, the default export apart. -/
def ofStatement (m : Module) (bs : Bindings) (n : Node) : List ExportedName :=
  match Statement.ofNode n with
  | .clause _ c =>
    ((ExportName.ofClause m c).filter fun e => !e.isDefault).map (ofExportName bs)
  | .exportedVariables s d =>
    d.declarators.filterMap fun v => (v.boundName? m).map fun name => .story ⟨name, s.start⟩
  | _ => []

/-- All that a module exports, the default export apart. -/
def exports (m : Module) (bs : Bindings) : List ExportedName :=
  (m.tree.walk.filter Place.isTopLevel).flatMap fun p => ofStatement m bs p.node

/-- The names that have been registered, the patch and the findings. -/
structure Progress where
  names : List Text
  patch : Patch
  findings : Findings

/-- The line of `t` that byte `start` stands in, from there on. -/
def lineFrom (t : Text) (start : Nat) : Text := (t.drop start).takeWhile (· != '\n')

/-- Registers a story, unless one of its name is registered already. -/
def register (tags : Text) (s : Scenario) (r : Progress) : Except Failure Progress := do
  if r.names.contains s.name then return r
  let line := lineFrom r.patch.text s.start
  let p ← (r.patch.overwrite s.start (s.start + line.size)
    (registration s.name tags ++ '\n' :: line)).mapError Failure.refused
  return { r with names := r.names ++ [s.name], patch := p }

/-- Takes up what is exported. -/
def take (tags : Text) (r : Progress) : ExportedName → Except Failure Progress
  | .story s => register tags s r
  | .skipped name => .ok { r with findings := r.findings.skip name }

/-- Registers all stories of a module. -/
def registerAll (m : Module) (bs : Bindings) (tags : Text) (p : Patch) (f : Findings) :
    Except Failure Progress :=
  (exports m bs).foldlM (take tags) ⟨[], p, f⟩

end Scenario

end StorySuite
