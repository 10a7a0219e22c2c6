import StorySuite.Module.Literal

/-!
# Statements of a module

`Statement.ofNode` says what a statement exports or binds.  Names that only types go by are no
exports, and neither is what comes from another module.
-/

namespace StorySuite

/-- What a statement is, as far as exports and bindings go. -/
inductive Statement where
  /-- An export of `value` as the default. -/
  | defaultExport (node value : Node)
  /-- An export of names that the module binds. -/
  | clause (node names : Node)
  /-- A variable declaration that is exported. -/
  | exportedVariables (node declaration : Node)
  /-- A variable declaration. -/
  | localVariables (declaration : Node)
  | other

def Kind.declaresVariables : Kind → Bool
  | .lexicalDeclaration | .variableDeclaration => true
  | _ => false

namespace Statement

def ofExport (n : Node) : Statement :=
  if n.hasChild .defaultKeyword then
    match (n.child? .value).or (n.child? .declaration) with
    | some v => .defaultExport n v
    | none => .other
  else match n.child? .declaration with
    | some d => if d.kind.declaresVariables then .exportedVariables n d else .other
    | none =>
      match n.named.find? fun c => c.kind = .exportClause with
      | some c =>
        if n.hasChild .typeKeyword || (n.child? .source).isSome then .other else .clause n c
      | none => .other

def ofNode (n : Node) : Statement :=
  match n.kind with
  | .exportStatement => ofExport n
  | .lexicalDeclaration | .variableDeclaration => .localVariables n
  | _ => .other

end Statement

/-- A name of a clause: the one that the module binds and the one that it is exported as, both as
they are written. -/
structure ExportName where
  bound : Text
  exported : Text
  deriving DecidableEq, Repr

namespace ExportName

/-- The name that a part of a clause exports, unless it is one of a type. -/
def ofSpecifier? (m : Module) (n : Node) : Option ExportName :=
  if n.kind = .exportSpecifier && !n.hasChild .typeKeyword then
    (n.child? .name).map fun b =>
      ⟨m.textOf b, ((n.child? .asName).map m.textOf).getD (m.textOf b)⟩
  else none

def ofClause (m : Module) (clause : Node) : List ExportName :=
  clause.named.filterMap (ofSpecifier? m)

/-- Whether the name is that of the default export. -/
def isDefault (n : ExportName) : Bool := n.exported = "default".toList

end ExportName

namespace Node

def declarators (declaration : Node) : List Node :=
  declaration.named.filter fun c => c.kind = .variableDeclarator

/-- The name that a declarator binds, if it is no pattern. -/
def boundName? (m : Module) (declarator : Node) : Option Text :=
  match declarator.child? .name with
  | some n => if n.kind = .identifier then some (m.textOf n) else none
  | none => none

end Node

end StorySuite
