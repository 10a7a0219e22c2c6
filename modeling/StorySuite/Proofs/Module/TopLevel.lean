import Mathlib.Data.List.Basic
import StorySuite.Module.Bindings
import StorySuite.Proofs.Module.Regular

/-!
# The top level of a module

What a module exports and binds is looked for by walks over its whole tree, which then leave out
what does not stand at the top level.  In a regular module nothing is found that way but what one
pass over the top-level statements finds:

* `Module.topLevel`       the children of the program;
* `filter_isTopLevel`     **the walk for exports comes to exactly these**;
* `Node.declaratorsIn`    the declarators of a statement, or of the declaration that it exports;
* `Module.declared`       the variables of the top-level statements, in order;
* `get?_ofModule`         **a name is bound by the first declarator of that name at the top level**.
-/

namespace StorySuite

/-- the statements at the top level, comments among them; a tree that is no program has none -/
def Module.topLevel (m : Module) : List Node :=
  if m.tree.kind = .program then m.tree.children else []

/-- the declarators of a statement, or of the declaration that it exports -/
def Node.declaratorsIn (s : Node) : List Node :=
  s.children.flatMap fun d =>
    (if d.kind = .variableDeclarator then [d] else []) ++
      if s.kind = .exportStatement then d.children.filter fun v => v.kind = .variableDeclarator
      else []

/-- the variable that a declarator in the top-level statement `s` binds -/
def Node.bindingIn? (m : Module) (v s : Node) : Option Binding :=
  (v.boundName? m).map fun name => ⟨name, v, ⟨s, [m.tree]⟩⟩

/-- **The variables of the top-level statements, in the order they are declared.** -/
def Module.declared (m : Module) : List Binding :=
  m.topLevel.flatMap fun s => s.declaratorsIn.filterMap fun v => v.bindingIn? m s

/-- the first declarator of a name at the top level -/
def Module.declared? (m : Module) (name : Text) : Option Binding :=
  m.declared.find? fun b => b.name = name

namespace Place

variable {m : Module}

theorem isTopLevel_cons (n a : Node) (as : List Node) :
    isTopLevel ⟨n, a :: as⟩ = decide (a.kind = .program) := rfl

/-- the statement of what stands two levels deep -/
theorem enclosingStatement?_cons (n d e : Node) (above : List Node) :
    enclosingStatement? ⟨n, d :: e :: above⟩ =
      some (if e.kind = .exportStatement then ⟨e, above⟩ else ⟨d, e :: above⟩) := by
  show (if e.kind = .exportStatement then some (⟨e, above⟩ : Place) else some ⟨d, e :: above⟩) = _
  by_cases h : e.kind = .exportStatement
  · rw [if_pos h, if_pos h]
  · rw [if_neg h, if_neg h]

theorem binding?_of_ne {p : Place} (h : p.node.kind ≠ .variableDeclarator) :
    p.binding? m = none :=
  if_neg h

/-- a declarator binds nothing unless its statement stands at the top level -/
theorem binding?_of_not_isTopLevel {p s : Place} (hs : p.enclosingStatement? = some s)
    (htop : s.isTopLevel = false) : p.binding? m = none := by
  by_cases hk : p.node.kind = .variableDeclarator
  · unfold binding?
    rw [if_pos hk, hs]
    cases p.node.boundName? m with
    | none => rfl
    | some name =>
      show (if s.isTopLevel = true then _ else none) = none
      rw [htop]
      rfl
  · exact binding?_of_ne hk

/-- what a declarator of a top-level statement binds -/
theorem binding?_of_enclosing {p : Place} {s : Node} (hroot : m.tree.kind = .program)
    (hs : p.enclosingStatement? = some ⟨s, [m.tree]⟩) :
    p.binding? m = if p.node.kind = .variableDeclarator then p.node.bindingIn? m s else none := by
  have htop : isTopLevel ⟨s, [m.tree]⟩ = true := decide_eq_true hroot
  by_cases hk : p.node.kind = .variableDeclarator
  · unfold binding? Node.bindingIn?
    rw [if_pos hk, if_pos hk, hs]
    cases p.node.boundName? m with
    | none => rfl
    | some name =>
      show (if isTopLevel ⟨s, [m.tree]⟩ = true then _ else none) = _
      rw [if_pos htop]
      rfl
  · rw [if_neg hk, binding?_of_ne hk]

/-- nothing is bound where neither of the two nodes around the parent is a program -/
theorem binding?_eq_none {p : Place}
    (h : ∀ a ∈ (p.ancestors.drop 1).take 2, a.kind ≠ .program) : p.binding? m = none := by
  obtain ⟨n, above⟩ := p
  match above, h with
  | [], _ =>
    show (if n.kind = .variableDeclarator then none else none) = none
    exact ite_self _
  | [d], _ => exact binding?_of_not_isTopLevel (s := ⟨d, []⟩) rfl rfl
  | [d, e], h =>
    refine binding?_of_not_isTopLevel (enclosingStatement?_cons n d e []) ?_
    by_cases he : e.kind = .exportStatement
    · rw [if_pos he]
      rfl
    · rw [if_neg he]
      exact decide_eq_false (h e (by simp))
  | d :: e :: f :: above, h =>
    refine binding?_of_not_isTopLevel (enclosingStatement?_cons n d e (f :: above)) ?_
    by_cases he : e.kind = .exportStatement
    · rw [if_pos he]
      exact decide_eq_false (h f (by simp))
    · rw [if_neg he]
      exact decide_eq_false (h e (by simp))

end Place

namespace Module

variable {m : Module}

theorem topLevel_subset (m : Module) : ∀ s ∈ m.topLevel, s ∈ m.tree.children := by
  intro s hs
  unfold topLevel at hs
  split at hs
  · exact hs
  · cases hs

theorem has_of_topLevel {s : Node} (hs : s ∈ m.topLevel) : m.Has s :=
  (has_root m).child (topLevel_subset m s hs)

namespace Regular

variable (hm : m.Regular)
include hm

theorem child_ne_program {c : Node} (hc : c ∈ m.tree.children) : c.kind ≠ .program :=
  hm.inner _ (Node.mem_placesAll.mpr ⟨c, hc, Node.mem_places_self _ _⟩)

theorem below_ne_program {c : Node} (hc : c ∈ m.tree.children) {p : Place}
    (hp : p ∈ Node.placesAll [c, m.tree] c.children) : p.node.kind ≠ .program := by
  refine hm.inner p (Node.mem_placesAll.mpr ⟨c, hc, ?_⟩)
  rw [Node.places_eq]
  exact List.mem_cons_of_mem _ hp

/-- no node around what stands below a child of the root is a program, the root apart -/
theorem around_below {c : Node} (hc : c ∈ m.tree.children) {p : Place}
    (hp : p ∈ Node.placesAll [c, m.tree] c.children) :
    ∃ as, p.ancestors = as ++ [c, m.tree] ∧ ∀ a ∈ as ++ [c], a.kind ≠ .program := by
  obtain ⟨as, h1, h2⟩ := Node.ancestors_of_mem_placesAll _ _ hp
  refine ⟨as, h1, fun a ha => ?_⟩
  rcases List.mem_append.mp ha with ha | ha
  · obtain ⟨up, hup⟩ := h2 a ha
    exact hm.below_ne_program hc hup
  · rw [List.mem_singleton.mp ha]
    exact hm.child_ne_program hc

theorem not_isTopLevel_below {c : Node} (hc : c ∈ m.tree.children) {p : Place}
    (hp : p ∈ Node.placesAll [c, m.tree] c.children) : p.isTopLevel = false := by
  obtain ⟨as, h1, h2⟩ := hm.around_below hc hp
  obtain ⟨n, above⟩ := p
  obtain rfl : above = as ++ [c, m.tree] := h1
  cases as with
  | nil => exact decide_eq_false (h2 c (by simp))
  | cons a as => exact decide_eq_false (h2 a (by simp))

/-- **The walk for exports comes to the top-level statements and to nothing else.** -/
theorem filter_isTopLevel :
    m.tree.walk.filter Place.isTopLevel = m.topLevel.map fun s => ⟨s, [m.tree]⟩ := by
  have hchild : ∀ c ∈ m.tree.children, (c.places [m.tree]).filter Place.isTopLevel =
      if m.tree.kind = .program then [⟨c, [m.tree]⟩] else [] := by
    intro c hc
    have hbelow : (Node.placesAll [c, m.tree] c.children).filter Place.isTopLevel = [] :=
      List.filter_eq_nil_iff.mpr fun p hp => by
        rw [hm.not_isTopLevel_below hc hp]
        exact Bool.false_ne_true
    rw [Node.places_eq, List.filter_cons, hbelow, Place.isTopLevel_cons]
    by_cases h : m.tree.kind = .program
    · rw [if_pos h, if_pos (decide_eq_true h)]
    · rw [if_neg h, decide_eq_false h]
      rfl
  have hwalk : m.tree.walk.filter Place.isTopLevel =
      (m.tree.children.flatMap (Node.places [m.tree])).filter Place.isTopLevel := by
    rw [Node.walk_eq_places, Node.places_eq, Node.placesAll_eq_flatMap]
    rfl
  rw [hwalk, List.filter_flatMap, List.flatMap_congr hchild, topLevel]
  by_cases h : m.tree.kind = .program
  · simp only [if_pos h, List.map_eq_flatMap]
  · simp only [if_neg h]
    exact List.flatMap_eq_nil_iff.mpr fun _ _ => rfl

/-! ## what is bound -/

/-- where the root is no program, nothing is bound -/
theorem binding?_of_root {p : Place} (hroot : m.tree.kind ≠ .program)
    (hp : p ∈ m.tree.places []) : p.binding? m = none := by
  obtain ⟨as, h1, h2⟩ := Node.ancestors_of_mem_places _ _ hp
  refine Place.binding?_eq_none fun a ha => ?_
  rw [h1, List.append_nil] at ha
  obtain ⟨up, hup⟩ := h2 a (List.mem_of_mem_drop (List.mem_of_mem_take ha))
  rw [Node.places_eq] at hup
  rcases List.mem_cons.mp hup with h | h
  · obtain rfl : a = m.tree := congrArg Place.node h
    exact hroot
  · exact hm.inner _ h

/-- below the third level nothing is bound -/
theorem binding?_below {c d v : Node} (hc : c ∈ m.tree.children) (hd : d ∈ c.children)
    (hv : v ∈ d.children) {p : Place} (hp : p ∈ Node.placesAll [v, d, c, m.tree] v.children) :
    p.binding? m = none := by
  have hplace : p ∈ Node.placesAll [c, m.tree] c.children := by
    refine Node.mem_placesAll.mpr ⟨d, hd, ?_⟩
    rw [Node.places_eq]
    refine List.mem_cons_of_mem _ (Node.mem_placesAll.mpr ⟨v, hv, ?_⟩)
    rw [Node.places_eq]
    exact List.mem_cons_of_mem _ hp
  obtain ⟨as, h1, -⟩ := Node.ancestors_of_mem_placesAll _ _ hp
  obtain ⟨bs, h2, h3⟩ := hm.around_below hc hplace
  -- three nodes stand between `p` and the root, or more
  have hbs : bs = as ++ [v, d] := by
    rw [h1] at h2
    have h4 : as ++ [v, d] ++ [c, m.tree] = bs ++ [c, m.tree] := by
      rw [List.append_assoc]
      exact h2
    exact (List.append_cancel_right h4).symm
  refine Place.binding?_eq_none fun a ha => h3 a ?_
  rw [h2, hbs] at ha
  rw [hbs]
  match as with
  | [] | [_] | [_, _] | _ :: _ :: _ :: _ => simp at ha ⊢; tauto

/-- what is bound within a child of a declaration -/
theorem filterMap_places_inner {c d v : Node} (hroot : m.tree.kind = .program)
    (hc : c ∈ m.tree.children) (hd : d ∈ c.children) (hv : v ∈ d.children) :
    (v.places [d, c, m.tree]).filterMap (Place.binding? m) =
      (if c.kind = .exportStatement then
        if v.kind = .variableDeclarator then v.bindingIn? m c else none
      else none).toList := by
  have hbelow : (Node.placesAll [v, d, c, m.tree] v.children).filterMap (Place.binding? m) = [] :=
    List.filterMap_eq_nil_iff.mpr fun p hp => hm.binding?_below hc hd hv hp
  have hself : Place.binding? m ⟨v, [d, c, m.tree]⟩ =
      if c.kind = .exportStatement then
        if v.kind = .variableDeclarator then v.bindingIn? m c else none
      else none := by
    have henc := Place.enclosingStatement?_cons v d c [m.tree]
    by_cases he : c.kind = .exportStatement
    · rw [if_pos he] at henc ⊢
      exact Place.binding?_of_enclosing hroot henc
    · rw [if_neg he] at henc ⊢
      exact Place.binding?_of_not_isTopLevel henc (decide_eq_false (hm.child_ne_program hc))
  rw [Node.places_eq, List.filterMap_cons, hbelow, hself]
  split <;> rename_i h <;> rw [h] <;> rfl

/-- what is bound within a child of a statement -/
theorem filterMap_places_child {c d : Node} (hroot : m.tree.kind = .program)
    (hc : c ∈ m.tree.children) (hd : d ∈ c.children) :
    (d.places [c, m.tree]).filterMap (Place.binding? m) =
      ((if d.kind = .variableDeclarator then [d] else []) ++
        if c.kind = .exportStatement then d.children.filter fun v => v.kind = .variableDeclarator
        else []).filterMap fun v => v.bindingIn? m c := by
  have hnot : m.tree.kind ≠ .exportStatement := by
    rw [hroot]
    decide
  have hself : Place.binding? m ⟨d, [c, m.tree]⟩ =
      if d.kind = .variableDeclarator then d.bindingIn? m c else none := by
    have henc := Place.enclosingStatement?_cons d c m.tree []
    rw [if_neg hnot] at henc
    exact Place.binding?_of_enclosing hroot henc
  have hinner : (Node.placesAll [d, c, m.tree] d.children).filterMap (Place.binding? m) =
      (if c.kind = .exportStatement then d.children.filter fun v => v.kind = .variableDeclarator
        else []).filterMap fun v => v.bindingIn? m c := by
    rw [Node.placesAll_eq_flatMap, List.filterMap_flatMap,
      List.flatMap_congr fun v hv => hm.filterMap_places_inner hroot hc hd hv]
    by_cases he : c.kind = .exportStatement
    · simp only [if_pos he, List.filterMap_filter, decide_eq_true_eq]
      exact (List.filterMap_eq_flatMap_toList _ _).symm
    · simp only [if_neg he]
      exact List.flatMap_eq_nil_iff.mpr fun _ _ => rfl
  have hcons : (d.places [c, m.tree]).filterMap (Place.binding? m) =
      (if d.kind = .variableDeclarator then d.bindingIn? m c else none).toList ++
        (Node.placesAll [d, c, m.tree] d.children).filterMap (Place.binding? m) := by
    rw [Node.places_eq, List.filterMap_cons, hself]
    split <;> rename_i h <;> rw [h] <;> rfl
  rw [hcons, hinner, List.filterMap_append]
  congr 1
  by_cases hk : d.kind = .variableDeclarator
  · rw [if_pos hk, if_pos hk, List.filterMap_cons]
    cases d.bindingIn? m c <;> rfl
  · rw [if_neg hk, if_neg hk]
    rfl

/-- **The walk for bindings finds the variables of the top-level statements.** -/
theorem filterMap_binding? : m.tree.walk.filterMap (Place.binding? m) = m.declared := by
  rw [Node.walk_eq_places]
  by_cases hroot : m.tree.kind = .program
  · have hchild : ∀ c ∈ m.tree.children, (c.places [m.tree]).filterMap (Place.binding? m) =
        c.declaratorsIn.filterMap fun v => v.bindingIn? m c := by
      intro c hc
      have hself : Place.binding? m ⟨c, [m.tree]⟩ = none :=
        Place.binding?_eq_none fun a ha => absurd ha List.not_mem_nil
      rw [Node.places_eq, List.filterMap_cons, hself, Node.placesAll_eq_flatMap]
      show (c.children.flatMap _).filterMap _ = _
      rw [List.filterMap_flatMap,
        List.flatMap_congr fun d hd => hm.filterMap_places_child hroot hc hd,
        Node.declaratorsIn, List.filterMap_flatMap]
    have hself : Place.binding? m ⟨m.tree, []⟩ = none :=
      Place.binding?_eq_none fun a ha => absurd ha List.not_mem_nil
    rw [Node.places_eq, List.filterMap_cons, hself, Node.placesAll_eq_flatMap]
    show (m.tree.children.flatMap _).filterMap _ = _
    rw [List.filterMap_flatMap, List.flatMap_congr hchild, declared, topLevel, if_pos hroot]
  · rw [declared, topLevel, if_neg hroot]
    exact List.filterMap_eq_nil_iff.mpr fun p hp => hm.binding?_of_root hroot hp

end Regular

end Module

namespace Bindings

theorem get?_insert (bs : Bindings) (b : Binding) (name : Text) :
    (bs.insert b).get? name = (bs.get? name).or (if b.name = name then some b else none) := by
  unfold insert
  by_cases h : (bs.get? b.name).isSome = true
  · rw [if_pos h]
    by_cases hn : b.name = name
    · rw [← hn, Option.or_of_isSome h]
    · rw [if_neg hn, Option.or_none]
  · rw [if_neg h]
    show (bs.toList ++ [b]).find? _ = _
    rw [List.find?_append, List.find?_singleton]
    simp only [decide_eq_true_eq]
    rfl

theorem get?_foldl (l : List Binding) (bs : Bindings) (name : Text) :
    (l.foldl insert bs).get? name = (bs.get? name).or (l.find? fun b => b.name = name) := by
  induction l generalizing bs with
  | nil => exact (Option.or_none).symm
  | cons b l ih =>
    rw [List.foldl_cons, ih, get?_insert, Option.or_assoc, List.find?_cons]
    congr 1
    by_cases h : b.name = name
    · rw [if_pos h, decide_eq_true h]
      rfl
    · rw [if_neg h, decide_eq_false h]
      rfl

/-- **A name is bound by the first declarator of that name at the top level.** -/
theorem get?_ofModule {m : Module} (hm : m.Regular) (name : Text) :
    (ofModule m).get? name = m.declared? name := by
  rw [ofModule, hm.filterMap_binding?, get?_foldl]
  rfl

/-- the statement of a variable is one at the top level -/
theorem mem_topLevel_of_declared? {m : Module} {name : Text} {b : Binding}
    (h : m.declared? name = some b) : ∃ s ∈ m.topLevel, b.statement = ⟨s, [m.tree]⟩ ∧
      b.declarator ∈ s.declaratorsIn := by
  obtain ⟨s, hs, hb⟩ := List.mem_flatMap.mp (List.mem_of_find?_eq_some h)
  obtain ⟨v, hv, hvb⟩ := List.mem_filterMap.mp hb
  obtain ⟨n, -, rfl⟩ := Option.map_eq_some_iff.mp hvb
  exact ⟨s, hs, rfl, hv⟩

end Bindings

end StorySuite
