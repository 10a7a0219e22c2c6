import StorySuite.Module.Statement
import StorySuite.Tree.Walk

/-!
# Bindings of a module

The variables that a module binds at its top level, exported or not.  The first declaration of a
name counts.
-/

namespace StorySuite

/-- A variable with the declarator that binds it and the statement that this belongs to. -/
structure Binding where
  name : Text
  declarator : Node
  statement : Place

namespace Place

/-- The statement that a declarator belongs to: its declaration, or the export around that. -/
def enclosingStatement? (p : Place) : Option Place :=
  match p.parent? with
  | none => none
  | some d =>
    match d.parent? with
    | some e => if e.node.kind = .exportStatement then some e else some d
    | none => some d

/-- Whether a node stands at the top level of a module. -/
def isTopLevel (p : Place) : Bool :=
  match p.parent? with
  | some q => q.node.kind = .program
  | none => false

/-- The binding that a declarator at the top level makes. -/
def binding? (m : Module) (p : Place) : Option Binding :=
  if p.node.kind = .variableDeclarator then
    match p.enclosingStatement?, p.node.boundName? m with
    | some s, some n => if s.isTopLevel then some ⟨n, p.node, s⟩ else none
    | _, _ => none
  else none

end Place

/-- The bindings of a module, no two of one name. -/
structure Bindings where
  toList : List Binding

namespace Bindings

/-- The binding of `name`. -/
def get? (bs : Bindings) (name : Text) : Option Binding := bs.toList.find? fun b => b.name = name

/-- `bs` with `b`, unless its name is bound already. -/
def insert (bs : Bindings) (b : Binding) : Bindings :=
  if (bs.get? b.name).isSome then bs else ⟨bs.toList ++ [b]⟩

/-- The number of names. -/
def size (bs : Bindings) : Nat := bs.toList.length

def ofModule (m : Module) : Bindings :=
  (m.tree.walk.filterMap (Place.binding? m)).foldl insert ⟨[]⟩

end Bindings

end StorySuite
