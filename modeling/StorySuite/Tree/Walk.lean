import StorySuite.Tree.Basic

/-!
# Walking a tree

`Walk` visits the nodes of a tree with a cursor that knows three moves: to the first child, to the
next sibling and to the parent.  `Node.walk` runs it from the root; `Node.places` lists the same
nodes by recursion on the tree, each before its descendants and siblings from left to right.

Every visited node comes with its ancestors, since what a declaration is worth hangs on where it
stands.
-/

namespace StorySuite

/-- A node of a tree and the nodes it lies in, the nearest first. -/
structure Place where
  node : Node
  ancestors : List Node
  deriving Inhabited

namespace Place

/-- The node that `p` is a child of. -/
def parent? (p : Place) : Option Place :=
  match p.ancestors with
  | [] => none
  | n :: above => some ⟨n, above⟩

/-- The children of `p`, each at its place. -/
def children (p : Place) : List Place := p.node.children.map fun c => ⟨c, p.node :: p.ancestors⟩

end Place

namespace Node

mutual

/-- The nodes of a tree in order: each before its descendants, siblings from left to right. -/
def places (above : List Node) : Node → List Place
  | mk k r s cs => ⟨mk k r s cs, above⟩ :: placesAll (mk k r s cs :: above) cs

/-- The nodes of several trees in order. -/
def placesAll (above : List Node) : List Node → List Place
  | [] => []
  | n :: ns => places above n ++ placesAll above ns

end

end Node

/-- A cursor in a tree.  `trail` holds the nodes around the current one, the nearest first, each
with those of its children that stand to the right of the way to the current node. -/
structure Walk where
  node : Node
  trail : List (Node × List Node)

namespace Walk

/-- The cursor at the root of `n`. -/
def start (n : Node) : Walk := ⟨n, []⟩

/-- Where the cursor stands. -/
def place (w : Walk) : Place := ⟨w.node, w.trail.map (·.1)⟩

def firstChild? (w : Walk) : Option Walk :=
  match w.node.children with
  | [] => none
  | c :: cs => some ⟨c, (w.node, cs) :: w.trail⟩

def nextSibling? (w : Walk) : Option Walk :=
  match w.trail with
  | (p, c :: cs) :: above => some ⟨c, (p, cs) :: above⟩
  | _ => none

def parent? (w : Walk) : Option Walk :=
  match w.trail with
  | [] => none
  | (p, _) :: above => some ⟨p, above⟩

/-- The next sibling of the current node or, failing that, of the nearest node around it that
has one. -/
def climb (node : Node) : List (Node × List Node) → Option Walk
  | [] => none
  | (p, cs) :: above =>
    match nextSibling? ⟨node, (p, cs) :: above⟩ with
    | some w => some w
    | none => climb p above

/-- The cursor at the node that comes next. -/
def next? (w : Walk) : Option Walk :=
  match w.firstChild? with
  | some v => some v
  | none => climb w.node w.trail

/-- The places that the cursor comes to in at most `n` moves, its own first. -/
def run : Nat → Walk → List Place
  | 0, _ => []
  | n + 1, w =>
    w.place :: match w.next? with
      | none => []
      | some v => run n v

end Walk

/-- All nodes of a tree, as a cursor comes to them. -/
def Node.walk (n : Node) : List Place := Walk.run n.count (Walk.start n)

end StorySuite
