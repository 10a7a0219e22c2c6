import StorySuite.Proofs.Module.Regular

/-!
# Regular trees, node by node

`Node.Regular t n` says of a tree what `Module.Regular` asks of the nodes below the root of a
module.  It goes through the tree, so it is kept up while a tree is built from its parts.

* `Node.Suits t n`         what is asked of one node for its kind;
* `Node.Placed t n`        the same, and where its children stand;
* `Node.Regular t n`       the same for all nodes of a tree;
* `Regular.withRole`, `Regular.relabel`   the same parts under another name;
* `Module.regular_of`      **a module is regular if the trees below its root are**.
-/

namespace StorySuite

/-- the kinds of which nothing is asked -/
def Kind.isOrdinary : Kind → Bool
  | .program | .comment | .object | .exportStatement | .exportClause | .defaultKeyword
  | .typeKeyword => false
  | k => !k.isWrapper

namespace Node

/-- where the keyword `default` stands among the parts of an export -/
def KeywordFirst (t : Text) (cs : List Node) : Prop :=
  ∀ k ∈ cs, k.kind = .defaultKeyword → k.text t = "default".toList ∧
    ∀ v ∈ cs, v.role = .value ∨ v.role = .declaration → k.stop ≤ v.start

/-- whether a node is what an export gives a name or a meaning to -/
def isExported (n : Node) : Bool := n.role = .value || n.role = .declaration

theorem isExported_iff {n : Node} :
    n.isExported = true ↔ n.role = .value ∨ n.role = .declaration := by
  unfold isExported
  rw [Bool.or_eq_true, decide_eq_true_eq, decide_eq_true_eq]

theorem isExported_eq_false {n : Node} (h : n.role = .part) : n.isExported = false := by
  unfold isExported
  rw [h]
  rfl

/-- how the forms of an export are told apart -/
structure ExportForm (cs : List Node) : Prop where
  /-- behind the keyword `default` one thing is exported -/
  value : (∃ k ∈ cs, k.kind = .defaultKeyword) → ∃ v, cs.filter isExported = [v]
  /-- there is one clause at most, and nothing else is exported beside it -/
  clause : ∀ c ∈ cs, c.kind = .exportClause → (cs.filter fun d => d.kind = .exportClause) = [c] ∧
    ∀ d ∈ cs, d.kind ≠ .defaultKeyword ∧ d.isExported = false

/-- how a wrapper is built: it begins with what it is around, but behind an opening parenthesis
comments may come first -/
inductive WrapperForm : Node → Prop where
  | first {k : Kind} {r : Role} {s : Span} {e : Node} {rest : List Node} : e.kind ≠ .comment →
      e.kind.isNamed = true → e.start = s.start → WrapperForm (mk k r s (e :: rest))
  | parentheses {r : Role} {s : Span} {cs : List Node} {e : Node} {rest : List Node} :
      (∀ c ∈ cs, c.kind = .comment) → e.kind ≠ .comment → e.kind.isNamed = true →
      WrapperForm (mk .parenthesizedExpression r s (cs ++ e :: rest))

/-- what is asked of a node for its kind -/
structure Suits (t : Text) (n : Node) : Prop where
  inner : n.kind ≠ .program
  brace : n.kind = .object → (n.text t).head? = some '{'
  behind : n.kind = .object → ∀ c ∈ n.children, n.start < c.start
  wrapper : n.kind.isWrapper = true → n.WrapperForm
  keyword : n.kind = .exportStatement → KeywordFirst t n.children
  form : n.kind = .exportStatement → ExportForm n.children
  comment : n.kind = .comment → n.start < n.stop

/-- what is asked of a node and of where its children stand -/
structure Placed (t : Text) (n : Node) : Prop extends n.Suits t where
  row : Row n.start n.stop n.children
  start_boundary : t.isBoundary n.start = true
  stop_boundary : t.isBoundary n.stop = true

/-- **A regular tree of a part of the text `t`.** -/
inductive Regular (t : Text) : Node → Prop where
  | intro {n : Node} : n.Placed t → (∀ c ∈ n.children, Regular t c) → Regular t n

variable {t : Text} {n : Node}

theorem suits_of_isOrdinary {k : Kind} (hk : k.isOrdinary = true) (r : Role) (s : Span)
    (cs : List Node) : (mk k r s cs).Suits t := by
  have hwrapper : k.isWrapper = false := by
    cases k with
    | satisfiesExpression => cases hk
    | asExpression => cases hk
    | nonNullExpression => cases hk
    | parenthesizedExpression => cases hk
    | _ => rfl
  refine ⟨?_, ?_, ?_, fun h => Bool.noConfusion (hwrapper.symm.trans h), ?_, ?_, ?_⟩
  all_goals
    intro h
    cases h
    cases hk

theorem suits_of_wrapperForm {k : Kind} (hk : k.isWrapper = true) {r : Role} {s : Span}
    {cs : List Node} (h : (mk k r s cs).WrapperForm) : (mk k r s cs).Suits t := by
  refine ⟨?_, ?_, ?_, fun _ => h, ?_, ?_, ?_⟩
  all_goals
    intro h
    cases h
    cases hk

namespace Regular

theorem placed (h : n.Regular t) : n.Placed t := by
  cases h with
  | intro h _ => exact h

theorem child (h : n.Regular t) {c : Node} (hc : c ∈ n.children) : c.Regular t := by
  cases h with
  | intro _ h => exact h c hc

theorem start_le_stop (h : n.Regular t) : n.start ≤ n.stop := h.placed.row.le

theorem withRole (h : n.Regular t) (r : Role) : (n.withRole r).Regular t := by
  cases n with
  | mk k r' s cs =>
    have hp := h.placed
    have hwrapper : k.isWrapper = true → WrapperForm (mk k r s cs) := by
      intro hk
      cases hp.wrapper hk with
      | first h1 h2 h3 => exact .first h1 h2 h3
      | parentheses h1 h2 h3 => exact .parentheses h1 h2 h3
    exact .intro ⟨⟨hp.inner, hp.brace, hp.behind, hwrapper, hp.keyword, hp.form, hp.comment⟩, hp.row,
      hp.start_boundary, hp.stop_boundary⟩ fun c hc => h.child hc

/-- the same parts as a node of another kind -/
theorem relabel (h : n.Regular t) {k : Kind} (hk : k.isOrdinary = true) (r : Role) :
    (Node.mk k r n.span n.children).Regular t := by
  have hp := h.placed
  exact .intro ⟨suits_of_isOrdinary hk r n.span n.children, hp.row, hp.start_boundary,
    hp.stop_boundary⟩ fun c hc => h.child hc

/-- the nodes of a regular tree -/
theorem of_mem_places {p : Place} (h : n.Regular t) {above : List Node}
    (hp : p ∈ n.places above) : p.node.Regular t := by
  induction h generalizing above with
  | @intro n hn hc ih =>
    rw [places_eq] at hp
    rcases List.mem_cons.mp hp with rfl | hp
    · exact .intro hn hc
    · obtain ⟨c, hcn, hp⟩ := mem_placesAll.mp hp
      exact ih c hcn hp

end Regular

end Node

/-- **A module is regular if the trees below its root are**, and stand in a row there. -/
theorem Module.regular_of {m : Module} (hobject : m.tree.kind ≠ .object)
    (hexport : m.tree.kind ≠ .exportStatement)
    (hrow : Node.Row m.tree.start m.tree.stop m.tree.children)
    (hstart : m.text.isBoundary m.tree.start = true) (hstop : m.text.isBoundary m.tree.stop = true)
    (hc : ∀ c ∈ m.tree.children, c.Regular m.text) : m.Regular := by
  have hbelow : ∀ p ∈ Node.placesAll [m.tree] m.tree.children, p.node.Regular m.text := by
    intro p hp
    obtain ⟨c, hcm, hp⟩ := Node.mem_placesAll.mp hp
    exact (hc c hcm).of_mem_places hp
  have hall : ∀ p ∈ m.tree.places [], p.node = m.tree ∨ p.node.Regular m.text := by
    intro p hp
    rw [Node.places_eq] at hp
    rcases List.mem_cons.mp hp with rfl | hp
    · exact Or.inl rfl
    · exact Or.inr (hbelow p hp)
  refine ⟨fun p hp => (hbelow p hp).placed.inner, ?_, ?_, ?_, ?_⟩
  · intro p hp
    rcases hall p hp with h | h
    · rw [h]
      exact hrow
    · exact h.placed.row
  · intro p hp
    rcases hall p hp with h | h
    · rw [h]
      exact ⟨hstart, hstop⟩
    · exact ⟨h.placed.start_boundary, h.placed.stop_boundary⟩
  · intro p hp hk
    rcases hall p hp with h | h
    · rw [h] at hk
      exact absurd hk hobject
    · exact h.placed.brace hk
  · intro p hp hk
    rcases hall p hp with h | h
    · rw [h] at hk
      exact absurd hk hexport
    · exact h.placed.keyword hk

end StorySuite
