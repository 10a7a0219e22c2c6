import StorySuite.Module.Basic

/-!
# Object literals

What a value is when its wrappers are taken off, and whether an object says its own title.
-/

namespace StorySuite

/-- The kinds of a wrapper that leaves a value what it is. -/
def Kind.isWrapper : Kind → Bool
  | .satisfiesExpression | .asExpression | .nonNullExpression | .parenthesizedExpression => true
  | _ => false

namespace Node

mutual

/-- The object literal that a value is under its wrappers. -/
def objectLiteral? : Node → Option Node
  | mk k r s cs =>
    if k = .object then some (mk k r s cs)
    else if k.isWrapper then objectInFirst? cs
    else none

/-- The object literal that the first child with a name is under its wrappers. -/
def objectInFirst? : List Node → Option Node
  | [] => none
  | n :: ns => if n.kind.isNamed then objectLiteral? n else objectInFirst? ns

end

/-- Whether `n` is the property `title: …`, with a bare name as its key. -/
def isTitle (m : Module) (n : Node) : Bool :=
  n.kind = .pair && (n.child? .key).any fun k => k.kind = .propertyName && m.textOf k = "title".toList

/-- Whether an object has the property `title: …`. -/
def hasTitle (m : Module) (object : Node) : Bool := object.named.any (isTitle m)

end Node

end StorySuite
