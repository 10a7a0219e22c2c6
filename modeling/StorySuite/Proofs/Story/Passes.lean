import StorySuite.Story.Meta
import StorySuite.Proofs.Story.Scenarios

/-!
# One top level for all passes

Three passes look at the top level of a module.  The search for the meta object takes the children
of the root, the search for stories walks the tree and leaves out what is no child of a program, and
the search for bindings leaves out what stands at the wrong depth below one.

* `Node.ownDeclarators`   the declarators of the declaration that a statement is or exports;
* `Node.Orderly`          **where the declarators of a statement may stand**;
* `declaratorsIn_of_orderly`   then these are all that is found in it;
* `find?_bindingIn?`      the first declarator of a name, among those found in some statements;
* `Module.Regular.get?_declarator`   the one that binds it;
* `Module.Regular.passes_meet`   **the passes see the same below a program, and two of them see
                                 nothing below another root**;
* `Module.passes_part`    a text whose default export is found and whose story is not.
-/

namespace StorySuite

namespace Node

/-- the declarators of the variable declaration that a statement is or exports -/
def ownDeclarators (s : Node) : List Node :=
  match Statement.ofNode s with
  | .exportedVariables _ d => d.declarators
  | .localVariables d => d.declarators
  | _ => []

/-- **Declarators stand in variable declarations alone**: in those that are statements, and in those
that an export exports as its only declaration. -/
structure Orderly (s : Node) : Prop where
  own : ∀ v ∈ s.children, v.kind = .variableDeclarator → s.kind.declaresVariables = true
  one : (s.children.filter fun c => c.role = .declaration).length ≤ 1
  exported : s.kind = .exportStatement → ∀ d ∈ s.children, d.declarators.isEmpty = false →
    d.role = .declaration ∧ d.kind.declaresVariables = true ∧ s.hasChild .defaultKeyword = false

instance (s : Node) : Decidable s.Orderly :=
  decidable_of_iff
    ((∀ v ∈ s.children, v.kind = .variableDeclarator → s.kind.declaresVariables = true) ∧
      (s.children.filter fun c => c.role = .declaration).length ≤ 1 ∧
      (s.kind = .exportStatement → ∀ d ∈ s.children, d.declarators.isEmpty = false →
        d.role = .declaration ∧ d.kind.declaresVariables = true ∧
          s.hasChild .defaultKeyword = false))
    ⟨fun h => ⟨h.1, h.2.1, h.2.2⟩, fun h => ⟨h.own, h.one, h.exported⟩⟩

variable {s d : Node}

theorem declarators_eq (s : Node) :
    s.declarators = s.children.filter fun v => v.kind = .variableDeclarator := by
  unfold declarators named
  rw [List.filter_filter]
  apply List.filter_congr
  intro v _
  cases v.kind <;> rfl

/-- what is found in a statement: its own declarators, and those in what it exports -/
theorem declaratorsIn_of_ne (hs : s.kind ≠ .exportStatement) : s.declaratorsIn = s.declarators := by
  have hsingle : s.declarators =
      s.children.flatMap fun v => [v].filter fun v => v.kind = .variableDeclarator := by
    rw [declarators_eq, ← List.filter_flatMap, List.flatMap_singleton']
  rw [hsingle]
  apply List.flatMap_congr
  intro v _
  rw [if_neg hs, List.append_nil]
  by_cases hv : v.kind = .variableDeclarator <;> simp [hv]

theorem declaratorsIn_export (hs : s.kind = .exportStatement)
    (hown : ∀ v ∈ s.children, v.kind ≠ .variableDeclarator) :
    s.declaratorsIn = s.children.flatMap declarators := by
  apply List.flatMap_congr
  intro d hd
  rw [if_neg (hown d hd), if_pos hs, declarators_eq]
  rfl

/-- the only declaration of a statement -/
theorem Orderly.filter_declaration (h : s.Orderly) (hd : d ∈ s.children)
    (hrole : d.role = .declaration) : s.children.filter (fun c => c.role = .declaration) = [d] := by
  have hmem : d ∈ s.children.filter fun c => c.role = .declaration :=
    List.mem_filter.mpr ⟨hd, decide_eq_true hrole⟩
  have hone := h.one
  cases hall : s.children.filter fun c => c.role = .declaration with
  | nil =>
    rw [hall] at hmem
    cases hmem
  | cons c cs =>
    rw [hall, List.length_cons] at hone
    obtain rfl : cs = [] := List.length_eq_zero_iff.mp (by omega)
    rw [hall] at hmem
    rw [List.mem_singleton.mp hmem]

theorem child?_declaration (h : s.children.filter (fun c => c.role = .declaration) = [d]) :
    s.child? .declaration = some d := by
  unfold child?
  rw [← List.head?_filter, h]
  rfl

theorem ownDeclarators_export (hs : s.kind = .exportStatement) :
    s.ownDeclarators = if s.hasChild .defaultKeyword then []
      else match s.child? .declaration with
        | some d => if d.kind.declaresVariables then d.declarators else []
        | none => [] := by
  unfold ownDeclarators
  rw [Statement.ofNode_export hs, Statement.ofExport]
  by_cases hdef : s.hasChild .defaultKeyword = true
  · rw [if_pos hdef, if_pos hdef]
    cases (s.child? .value).or (s.child? .declaration) <;> rfl
  · rw [if_neg hdef, if_neg hdef]
    cases s.child? .declaration with
    | some d =>
      dsimp only
      cases d.kind.declaresVariables <;> rfl
    | none =>
      dsimp only
      cases s.named.find? fun c => c.kind = .exportClause with
      | none => rfl
      | some c =>
        dsimp only
        cases s.hasChild .typeKeyword || (s.child? .source).isSome <;> rfl

theorem ownDeclarators_of_ne (hs : s.kind ≠ .exportStatement) :
    s.ownDeclarators = if s.kind.declaresVariables then s.declarators else [] := by
  unfold ownDeclarators Statement.ofNode
  cases hk : s.kind <;> first | rfl | exact absurd hk hs

/-- what is found in an export that holds one declaration -/
theorem flatMap_declarators
    (hone : s.children.filter (fun c => c.role = .declaration) = [d])
    (hrest : ∀ c ∈ s.children, c.role ≠ .declaration → c.declarators = []) :
    s.children.flatMap declarators = d.declarators := by
  obtain ⟨us, vs, hcs, hus, -, hvs⟩ := List.filter_eq_cons_iff.mp hone
  have hnone : ∀ ws : List Node, (∀ c ∈ ws, c ∈ s.children) →
      (∀ c ∈ ws, ¬ decide (c.role = .declaration) = true) → ws.flatMap declarators = [] := by
    intro ws hmem hws
    apply List.flatMap_eq_nil_iff.mpr
    intro c hc
    exact hrest c (hmem c hc) fun hr => hws c hc (decide_eq_true hr)
  rw [hcs, List.flatMap_append, List.flatMap_cons, hnone us ?_ hus, hnone vs ?_ ?_]
  · rw [List.nil_append, List.append_nil]
  · intro c hc
    rw [hcs]
    exact List.mem_append_right _ (List.mem_cons_of_mem _ hc)
  · exact List.filter_eq_nil_iff.mp hvs
  · intro c hc
    rw [hcs]
    exact List.mem_append_left _ hc

/-- **What is found in an orderly statement are the declarators of its declaration.** -/
theorem declaratorsIn_of_orderly (h : s.Orderly) : s.declaratorsIn = s.ownDeclarators := by
  by_cases hs : s.kind = .exportStatement
  · have hown : ∀ v ∈ s.children, v.kind ≠ .variableDeclarator := by
      intro v hv hk
      have hvars := h.own v hv hk
      rw [hs] at hvars
      cases hvars
    rw [declaratorsIn_export hs hown, ownDeclarators_export hs]
    by_cases hany : ∃ d ∈ s.children, d.declarators.isEmpty = false
    · obtain ⟨d, hd, hne⟩ := hany
      obtain ⟨hrole, hvars, hdef⟩ := h.exported hs d hd hne
      have hone := h.filter_declaration hd hrole
      rw [hdef, child?_declaration hone]
      show _ = if d.kind.declaresVariables = true then d.declarators else []
      rw [if_pos hvars]
      apply flatMap_declarators hone
      intro c hc hcrole
      by_contra hcne
      exact hcrole (h.exported hs c hc (List.isEmpty_eq_false_iff.mpr hcne)).1
    · -- an export without declarators may still export a declaration, but an empty one
      have hnone : ∀ d ∈ s.children, d.declarators = [] := by
        intro d hd
        by_contra hne
        exact hany ⟨d, hd, List.isEmpty_eq_false_iff.mpr hne⟩
      rw [List.flatMap_eq_nil_iff.mpr hnone]
      split
      · rfl
      · split
        · next d hd => rw [hnone d (List.mem_of_find?_eq_some hd), ite_self]
        · rfl
  · rw [declaratorsIn_of_ne hs, ownDeclarators_of_ne hs]
    by_cases hvars : s.kind.declaresVariables = true
    · rw [if_pos hvars]
    · rw [if_neg hvars, declarators_eq]
      apply List.filter_eq_nil_iff.mpr
      intro v hv hk
      exact hvars (h.own v hv (of_decide_eq_true hk))

end Node

/-! ## bindings -/

/-- **The first declarator of a name**, among those found in some statements. -/
theorem find?_bindingIn? (m : Module) (ss : List Node) (name : Text) :
    ((ss.flatMap fun s => s.declaratorsIn.filterMap fun v => v.bindingIn? m s).find?
        fun b => b.name = name).map Binding.declarator =
      (ss.flatMap Node.declaratorsIn).find? fun v => v.boundName? m = some name := by
  rw [List.find?_flatMap, List.find?_flatMap, List.map_findSome?]
  congr 1
  funext s
  show ((s.declaratorsIn.filterMap fun v => v.bindingIn? m s).find? _).map _ = _
  rw [List.find?_filterMap]
  have hbound : ∀ v : Node, (v.bindingIn? m s).any (fun b => decide (b.name = name)) =
      decide (v.boundName? m = some name) := by
    intro v
    unfold Node.bindingIn?
    cases v.boundName? m with
    | none => rfl
    | some n =>
      show decide (n = name) = decide (some n = some name)
      exact decide_eq_decide.mpr (Option.some_inj).symm
  simp only [hbound]
  cases hv : s.declaratorsIn.find? fun v => v.boundName? m = some name with
  | none => rfl
  | some v =>
    have hname : v.boundName? m = some name := by simpa using List.find?_some hv
    show (v.bindingIn? m s).map Binding.declarator = some v
    unfold Node.bindingIn?
    rw [hname]
    rfl

namespace Module

variable {m : Module}

/-- what a comment or a keyword adds nothing to -/
theorem flatMap_statements {α : Type} {f : Node → List α}
    (hf : ∀ n, Statement.ofNode n = .other → f n = []) :
    m.statements.flatMap f = m.tree.children.flatMap f := by
  unfold statements Node.named
  induction m.tree.children with
  | nil => rfl
  | cons n ns ih =>
    rw [List.flatMap_cons, ← ih, List.filter_cons]
    by_cases hn : n.kind.isNamed = true
    · rw [if_pos hn, List.filter_cons]
      by_cases hc : n.kind = .comment
      · have hother : Statement.ofNode n = .other := by
          unfold Statement.ofNode
          rw [hc]
        rw [hf n hother, hc]
        rfl
      · rw [if_pos (bne_iff_ne.mpr hc), List.flatMap_cons]
    · have hother : Statement.ofNode n = .other := by
        unfold Statement.ofNode
        cases hk : n.kind <;> first | rfl | exact absurd (by rw [hk]; rfl) hn
      rw [if_neg hn, hf n hother, List.nil_append]

/-- **A name is bound by its first declarator at the top level**, where the root is a program. -/
theorem Regular.get?_declarator (hm : m.Regular) (hroot : m.tree.kind = .program) (name : Text) :
    ((Bindings.ofModule m).get? name).map Binding.declarator =
      (m.tree.children.flatMap Node.declaratorsIn).find? fun v => v.boundName? m = some name := by
  have htop : m.topLevel = m.tree.children := if_pos hroot
  rw [Bindings.get?_ofModule hm, declared?, declared, htop]
  exact find?_bindingIn? m m.tree.children name

end Module

/-- **The passes look at one top level.**  Where the root of a tree is a program, the walk for
stories comes to the statements that the meta object is looked for in, and a name is bound by the
first of its declarators in one of them, or in what one of them exports; these are the declarators
of variable declarations, if no others stand there.  Where the root is no program, neither a story
nor a binding is found at all. -/
theorem Module.Regular.passes_meet {m : Module} (hm : m.Regular) :
    (m.tree.kind = .program →
      ((m.tree.walk.filter Place.isTopLevel).map Place.node).filter
          (fun n => n.kind.isNamed && n.kind != .comment) = m.statements ∧
      (∀ bs, Scenario.exports m bs = m.statements.flatMap (Scenario.ofStatement m bs)) ∧
      (∀ name, ((Bindings.ofModule m).get? name).map Binding.declarator =
        (m.tree.children.flatMap Node.declaratorsIn).find? fun v => v.boundName? m = some name) ∧
      ((∀ s ∈ m.tree.children, s.Orderly) → ∀ name,
        ((Bindings.ofModule m).get? name).map Binding.declarator =
          (m.statements.flatMap Node.ownDeclarators).find? fun v => v.boundName? m = some name)) ∧
    (m.tree.kind ≠ .program →
      m.tree.walk.filter Place.isTopLevel = [] ∧ (∀ bs, Scenario.exports m bs = []) ∧
        ∀ name, (Bindings.ofModule m).get? name = none) := by
  have hwalk := hm.filter_isTopLevel
  constructor
  · intro hroot
    have htop : m.topLevel = m.tree.children := if_pos hroot
    rw [htop] at hwalk
    refine ⟨?_, ?_, hm.get?_declarator hroot, ?_⟩
    · rw [hwalk, List.map_map]
      show (m.tree.children.map fun n => n).filter _ = _
      rw [List.map_id', Module.statements, Node.named, List.filter_filter]
      apply List.filter_congr
      intro n _
      exact Bool.and_comm _ _
    · -- the walk comes to comments too, which export nothing
      intro bs
      rw [Scenario.exports, hwalk, List.flatMap_map]
      refine (Module.flatMap_statements fun n hn => ?_).symm
      rw [Scenario.ofStatement, hn]
    · intro horderly name
      have hown : m.tree.children.flatMap Node.declaratorsIn =
          m.tree.children.flatMap Node.ownDeclarators :=
        List.flatMap_congr fun s hs => Node.declaratorsIn_of_orderly (horderly s hs)
      rw [hm.get?_declarator hroot, hown, Module.flatMap_statements]
      intro n hn
      rw [Node.ownDeclarators, hn]
  · intro hroot
    have htop : m.topLevel = [] := if_neg hroot
    rw [htop, List.map_nil] at hwalk
    refine ⟨hwalk, ?_, ?_⟩
    · intro bs
      rw [Scenario.exports, hwalk]
      rfl
    · intro name
      rw [Bindings.get?_ofModule hm, Module.declared?, Module.declared, htop]
      rfl

/-- a module with a meta object and a story -/
def Module.plainStory : Module :=
  .read "a.stories.ts" "export default {};\nexport const A = {};\n"

/-- The passes over such a module. -/
theorem Module.Regular.passes_meet_plain :
    Module.plainStory.Regular ∧ Module.plainStory.tree.kind = .program ∧
      (∀ s ∈ Module.plainStory.tree.children, s.Orderly) ∧
      Scenario.exports Module.plainStory (Bindings.ofModule Module.plainStory) =
        Module.plainStory.statements.flatMap
          (Scenario.ofStatement Module.plainStory (Bindings.ofModule Module.plainStory)) ∧
      ((Bindings.ofModule Module.plainStory).get? "A").map Binding.declarator =
        (Module.plainStory.statements.flatMap Node.ownDeclarators).find?
          fun v => v.boundName? Module.plainStory = some "A".toList := by
  have hm : Module.plainStory.Regular := Module.regular_read _ _
  have hroot : Module.plainStory.tree.kind = .program := by decide +kernel
  have horderly : ∀ s ∈ Module.plainStory.tree.children, s.Orderly := by decide +kernel
  obtain ⟨-, hexports, -, hbound⟩ := (Module.Regular.passes_meet hm).1 hroot
  exact ⟨hm, hroot, horderly, hexports _, hbound horderly _⟩

/-- the same module, left with sixteen brackets open -/
def Module.openStory : Module :=
  .read "a.stories.ts" "export default {};\nexport const A = {};\n(((((((((((((((("

/-- **Behind too many open brackets the default export is found and the story is not.** -/
theorem Module.passes_part :
    Module.openStory.tree.kind = .error ∧
      (MetaExport.all Module.openStory).length = 1 ∧
      Module.openStory.statements.flatMap
          (Scenario.ofStatement Module.openStory (Bindings.ofModule Module.openStory)) =
        [.story ⟨"A".toList, 19⟩] ∧
      Scenario.exports Module.openStory (Bindings.ofModule Module.openStory) = [] ∧
      ((Module.openStory.statements.flatMap Node.ownDeclarators).find?
          fun v => v.boundName? Module.openStory = some "A".toList).isSome = true ∧
      ((Bindings.ofModule Module.openStory).get? "A").isSome = false := by
  decide +kernel

end StorySuite
