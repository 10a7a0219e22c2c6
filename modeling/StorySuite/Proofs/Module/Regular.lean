import StorySuite.Proofs.Text.Cut
import StorySuite.Proofs.Tree.Row
import StorySuite.Module.Statement

/-!
# Regular modules

`Module.Regular` is all that is asked of a tree, whoever built it and however much of the text it
understood: its nodes cut the text between characters, siblings stand in a row inside their
parent, only the root is a program, and the marks that a rewriting counts on are really there.

* `Regular.within`         a node lies inside its parent;
* `Regular.brace_boundary` behind the brace of an object the text may be cut;
* `Regular.object`         the object under the wrappers of a value lies inside it.
-/

namespace StorySuite

/-- **What is asked of the tree of a text.** -/
structure Module.Regular (m : Module) : Prop where
  /-- there is no program below the root -/
  inner : ∀ p ∈ Node.placesAll [m.tree] m.tree.children, p.node.kind ≠ .program
  /-- siblings stand in order and apart from each other inside their parent -/
  row : ∀ p ∈ m.tree.places [], Node.Row p.node.start p.node.stop p.node.children
  /-- a node begins and ends between characters of the text -/
  boundary : ∀ p ∈ m.tree.places [],
    m.text.isBoundary p.node.start = true ∧ m.text.isBoundary p.node.stop = true
  /-- an object begins with its brace -/
  brace : ∀ p ∈ m.tree.places [], p.node.kind = .object → (m.textOf p.node).head? = some '{'
  /-- the keyword `default` is written out, in front of what is exported -/
  keyword : ∀ p ∈ m.tree.places [], p.node.kind = .exportStatement →
    ∀ k ∈ p.node.children, k.kind = .defaultKeyword → m.textOf k = "default".toList ∧
      ∀ v ∈ p.node.children, v.role = .value ∨ v.role = .declaration → k.stop ≤ v.start

/-- whether a node stands somewhere in a module -/
def Module.Has (m : Module) (n : Node) : Prop := ∃ above, ⟨n, above⟩ ∈ m.tree.places []

namespace Module

variable {m : Module}

theorem has_root (m : Module) : m.Has m.tree := ⟨[], Node.mem_places_self [] m.tree⟩

theorem Has.child {n c : Node} (h : m.Has n) (hc : c ∈ n.children) : m.Has c := by
  obtain ⟨above, h⟩ := h
  exact ⟨n :: above, Node.mem_places_child h hc⟩

namespace Regular

variable (hm : m.Regular)
include hm

theorem boundary_start {n : Node} (h : m.Has n) : m.text.isBoundary n.start = true :=
  (hm.boundary _ h.choose_spec).1

theorem boundary_stop {n : Node} (h : m.Has n) : m.text.isBoundary n.stop = true :=
  (hm.boundary _ h.choose_spec).2

theorem row_of_has {n : Node} (h : m.Has n) : Node.Row n.start n.stop n.children :=
  hm.row _ h.choose_spec

theorem start_le_stop {n : Node} (h : m.Has n) : n.start ≤ n.stop := (hm.row_of_has h).le

/-- a node lies inside its parent -/
theorem within {n c : Node} (h : m.Has n) (hc : c ∈ n.children) :
    n.start ≤ c.start ∧ c.stop ≤ n.stop := by
  obtain ⟨h1, -, h2⟩ := (hm.row_of_has h).mem hc
  exact ⟨h1, h2⟩

/-- **Behind the brace of an object the text may be cut.** -/
theorem brace_boundary {o : Node} (h : m.Has o) (ho : o.kind = .object) :
    o.start + 1 ≤ o.stop ∧ m.text.isBoundary (o.start + 1) = true := by
  have hhead : (m.text.slice o.start o.stop).head? = some '{' := hm.brace _ h.choose_spec ho
  obtain ⟨u, w, v, ht, hu, hw, hslice⟩ := Text.exists_pieces (hm.boundary_start h)
    (hm.boundary_stop h) (hm.start_le_stop h)
  rw [hslice] at hhead
  cases w with
  | nil => cases hhead
  | cons c w =>
    obtain rfl : c = '{' := Option.some.inj hhead
    have hc : Char.utf8Size '{' = 1 := by decide
    rw [Text.size_cons, hc] at hw
    refine ⟨by omega, Text.isBoundary_iff.mpr ⟨u ++ ['{'], w ++ v, ?_, ?_⟩⟩
    · rw [ht, List.append_assoc]
      rfl
    · rw [Text.size_append, hu]
      rfl

omit hm in
/-- the named child that counts in a wrapper -/
theorem objectInFirst?_mem {ns : List Node} {o : Node} (h : Node.objectInFirst? ns = some o) :
    ∃ n ∈ ns, n.objectLiteral? = some o := by
  induction ns with
  | nil => cases h
  | cons n ns ih =>
    rw [Node.objectInFirst?] at h
    split at h
    · exact ⟨n, List.mem_cons_self, h⟩
    · obtain ⟨c, hc, h'⟩ := ih h
      exact ⟨c, List.mem_cons_of_mem _ hc, h'⟩

/-- **The object under the wrappers of a value lies inside it.** -/
theorem object {v o : Node} (hv : m.Has v) (h : v.objectLiteral? = some o) :
    m.Has o ∧ o.kind = .object ∧ v.start ≤ o.start ∧ o.stop ≤ v.stop := by
  match v, hv, h with
  | .mk k r s cs, hv, h =>
    rw [Node.objectLiteral?] at h
    split at h
    · next hk =>
      obtain rfl := Option.some.inj h
      exact ⟨hv, hk, Nat.le_refl _, Nat.le_refl _⟩
    · split at h
      · obtain ⟨c, hc, h'⟩ := objectInFirst?_mem h
        have hlt := List.sizeOf_lt_of_mem hc
        obtain ⟨h1, h2, h3, h4⟩ := object (hv.child hc) h'
        obtain ⟨h5, h6⟩ := hm.within hv hc
        exact ⟨h1, h2, Nat.le_trans h5 h3, Nat.le_trans h4 h6⟩
      · cases h
  termination_by sizeOf v
  decreasing_by
    have : sizeOf cs < sizeOf (Node.mk k r s cs) := by
      rw [Node.mk.sizeOf_spec]
      omega
    omega

end Regular

end Module

end StorySuite
