import StorySuite.Text.Basic

/-!
# Trees of a module's text

A tree says how a text is built.  Each node has a kind, the role it plays in its parent, the bytes
it covers and its children from left to right.  Only the kinds that a story module is read for are
told apart; every other construct is a `construct`.

* `Node.named`        the children that are more than a keyword, comments among them;
* `Node.child? r`     the first child that plays the role `r`;
* `Node.text t n`     the part of `t` that `n` covers;
* `Node.hasError`     whether some part of the text fitted nowhere.
-/

namespace StorySuite

/-- The bytes from `start` up to `stop`. -/
structure Span where
  start : Nat
  stop : Nat
  deriving DecidableEq, Repr, Inhabited

/-- What a node is. -/
inductive Kind where
  | program | error | comment
  | exportStatement | lexicalDeclaration | variableDeclaration | variableDeclarator
  | exportClause | exportSpecifier
  | identifier | object | pair | propertyName
  | satisfiesExpression | asExpression | nonNullExpression | parenthesizedExpression
  | defaultKeyword | typeKeyword
  | construct
  deriving DecidableEq, Repr, Inhabited

/-- What a node is to its parent. -/
inductive Role where
  | part | value | declaration | source | name | asName | key
  deriving DecidableEq, Repr, Inhabited

/-- A part of a text, with its own parts. -/
inductive Node where
  | mk (kind : Kind) (role : Role) (span : Span) (children : List Node)
  deriving Repr, Inhabited

/-- Keywords are the nodes without a name. -/
def Kind.isNamed : Kind → Bool
  | .defaultKeyword | .typeKeyword => false
  | _ => true

namespace Node

def kind : Node → Kind
  | mk k _ _ _ => k

def role : Node → Role
  | mk _ r _ _ => r

def span : Node → Span
  | mk _ _ s _ => s

def children : Node → List Node
  | mk _ _ _ cs => cs

def start (n : Node) : Nat := n.span.start

def stop (n : Node) : Nat := n.span.stop

/-- The same node in another role. -/
def withRole (r : Role) : Node → Node
  | mk k _ s cs => mk k r s cs

/-- The children that are more than a keyword. -/
def named (n : Node) : List Node := n.children.filter fun c => c.kind.isNamed

/-- The first child that plays the role `r`. -/
def child? (r : Role) (n : Node) : Option Node := n.children.find? fun c => c.role = r

/-- Whether a child is of kind `k`. -/
def hasChild (k : Kind) (n : Node) : Bool := n.children.any fun c => c.kind = k

/-- The part of `t` that `n` covers. -/
def text (t : Text) (n : Node) : Text := t.slice n.start n.stop

mutual

/-- The number of nodes. -/
def count : Node → Nat
  | mk _ _ _ cs => countAll cs + 1

/-- The number of nodes in a list of trees. -/
def countAll : List Node → Nat
  | [] => 0
  | n :: ns => count n + countAll ns

end

mutual

/-- Whether some part of the text fitted nowhere. -/
def hasError : Node → Bool
  | mk k _ _ cs => k = .error || anyError cs

/-- Whether one of the trees has an error. -/
def anyError : List Node → Bool
  | [] => false
  | n :: ns => hasError n || anyError ns

end

end Node

end StorySuite
