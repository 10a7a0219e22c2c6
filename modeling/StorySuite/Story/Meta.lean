import StorySuite.Text.Quoted
import StorySuite.Story.Findings

/-!
# The meta object

The default export of a story module is its meta object.  It is given the title of the module,
unless it says one itself, and a name if it has none:

* `const meta = {…}; export default meta;`   the object gets a title;
* `export default {…};`                      it gets a title, and a variable to be exported by;
* any other export                           stays as it is.
-/

namespace StorySuite

/-- A default export of a story module. -/
inductive MetaExport where
  /-- A name that the module binds. -/
  | aliased (name : Text)
  /-- An object, perhaps in wrappers: the statement, the exported value and the object in it. -/
  | inline (statement value object : Node)
  | unrecognized
  deriving Repr

/-- How the meta object was exported. -/
inductive MetaShape where
  | aliased
  | inline
  | unrecognized
  deriving DecidableEq, Repr

/-- What became of the meta object: the name it goes by, how it was exported and whether it was
given a title. -/
structure Meta where
  binding : Text
  shape : MetaShape
  titled : Bool
  deriving DecidableEq, Repr

namespace MetaExport

/-- The name of the variable for an object without one. -/
def binding : Text := "__STORYBOOK_META__"

def ofValue (m : Module) (statement value : Node) : MetaExport :=
  if value.kind = .identifier then .aliased (m.textOf value)
  else match value.objectLiteral? with
    | some o => .inline statement value o
    | none => .unrecognized

/-- The default exports that a statement makes. -/
def ofStatement (m : Module) (n : Node) : List MetaExport :=
  match Statement.ofNode n with
  | .defaultExport s v => [ofValue m s v]
  | .clause _ c => ((ExportName.ofClause m c).filter ExportName.isDefault).map fun e => .aliased e.bound
  | _ => []

def all (m : Module) : List MetaExport := m.statements.flatMap (ofStatement m)

/-- The warning that a module has several default exports. -/
def severalWarning (m : Module) (count : Nat) : Text :=
  m.id ++ " has " ++ Text.ofNat count ++ " default exports; only the first is treated as meta"

/-- The default export that counts, which is the first. -/
def find (m : Module) (f : Findings) : Except Failure (MetaExport × Findings) :=
  match all m with
  | [] => .error (.noMeta m.id)
  | [e] => .ok (e, f)
  | e :: es => .ok (e, f.warn (severalWarning m (es.length + 1)))

/-- The warning that a name is not that of an object. -/
def aliasWarning (m : Module) (name : Text) : Text :=
  "default export \x60" ++ name ++ "\x60 in " ++ m.id ++
    " does not refer to a top-level object literal; title not injected"

end MetaExport

namespace Meta

/-- The property that gives an object a title. -/
def titleProperty (title : Text) : Text := " title: " ++ Quoted.encode title ++ ","

/-- An edit that must not be refused. -/
def edit (r : Except Refusal Patch) : Except Failure Patch := r.mapError Failure.refused

/-- Gives an object a title, unless it has one. -/
def giveTitle (m : Module) (p : Patch) (object : Node) (title : Text) :
    Except Failure (Patch × Bool) := do
  if object.hasTitle m then return (p, false)
  return (← edit (p.insert (object.start + 1) (titleProperty title)), true)

/-- The object that the variable `name` is first given. -/
def objectOf? (bs : Bindings) (name : Text) : Option Node :=
  (bs.get? name).bind fun b => (b.declarator.child? .value).bind Node.objectLiteral?

/-- Gives the meta object its title and its name. -/
def apply (m : Module) (bs : Bindings) (title : Text) (p : Patch) (f : Findings) :
    Except Failure (Meta × Patch × Findings) := do
  let (e, f) ← MetaExport.find m f
  match e with
  | .aliased name =>
    match objectOf? bs name with
    | some o =>
      let (p, titled) ← giveTitle m p o title
      return (⟨name, .aliased, titled⟩, p, f)
    | none => return (⟨name, .aliased, false⟩, p, f.warn (MetaExport.aliasWarning m name))
  | .inline s v o =>
    let (p, titled) ← giveTitle m p o title
    let p ← edit (p.overwrite s.start v.start ("const " ++ MetaExport.binding ++ " = "))
    let p ← edit (p.overwrite v.stop s.stop (";\nexport default " ++ MetaExport.binding ++ ";"))
    return (⟨MetaExport.binding, .inline, titled⟩, p, f)
  | .unrecognized => return (⟨MetaExport.binding, .unrecognized, false⟩, p, f)

end Meta

end StorySuite
