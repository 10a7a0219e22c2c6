import StorySuite.Proofs.Story.Again
import StorySuite.Proofs.Story.Names

/-!
# What is exported as the default

The language knows a default export in several forms: a value or a declaration behind the keyword, a
name of a clause that stands for `default`, and a name of another module that is passed on as such.
A story module needs one of its own, of the first two forms, and the first of these is its meta
object.

* `Module.defaultExports m`         what a module exports as the default, in the order of the text;
* `Module.ownDefaults m`            the same without what comes from another module;
* `MetaExport.all_eq_ownDefaults`   **all of these are found, and nothing else is**;
* `transform_ownDefaults`           **a story module without one is refused, and no other**;
* `reexport_refused`                one that only passes on the default of another module.
-/

namespace StorySuite

/-- something that a module exports as the default -/
inductive DefaultExport where
  /-- what the statement gives behind the keyword: a value or a declaration -/
  | value (statement value : Node)
  /-- a name of a clause -/
  | name (e : ExportName)
  /-- a name of a clause that another module exports -/
  | foreign (e : ExportName)
  deriving Repr

/-- whether a name stands for `default`, however it is spelled -/
def ExportName.standsForDefault (e : ExportName) : Bool :=
  Spelling.name? e.exported = some (Spelling.utf16 "default")

/-- **What a statement exports as the default**: what follows the keyword, and the names of a clause
that stand for `default`, unless types go by them. -/
def Node.defaultExports (m : Module) (n : Node) : List DefaultExport :=
  if n.kind = .exportStatement then
    (if n.hasChild .defaultKeyword then (n.children.filter isExported).map (.value n) else []) ++
      if n.hasChild .typeKeyword then []
      else (n.children.filter fun c => c.kind = .exportClause).flatMap fun c =>
        ((ExportName.ofClause m c).filter ExportName.standsForDefault).map
          (if (n.child? .source).isSome then .foreign else .name)
  else []

/-- **What a module exports as the default.** -/
def Module.defaultExports (m : Module) : List DefaultExport :=
  m.statements.flatMap (Node.defaultExports m)

namespace DefaultExport

def isOwn : DefaultExport → Bool
  | foreign _ => false
  | _ => true

/-- the name that the module binds what it exports to, if it is exported by a name -/
def bound? (m : Module) : DefaultExport → Option Text
  | value _ v => if v.kind = .identifier then some (m.textOf v) else none
  | name e => some e.bound
  | foreign _ => none

/-- the name that the meta object goes by -/
def binding (m : Module) (d : DefaultExport) : Text := (d.bound? m).getD MetaExport.binding

/-- the warning that no object is bound to the name -/
def warnings (m : Module) (d : DefaultExport) : List Text :=
  match d.bound? m with
  | some n =>
    if (Meta.objectOf? (Bindings.ofModule m) n).isSome then [] else [MetaExport.aliasWarning m n]
  | none => []

/-- the meta object that is exported -/
def toMeta (m : Module) : DefaultExport → MetaExport
  | value s v => .ofValue m s v
  | name e => .aliased e.bound
  | foreign _ => .unrecognized

end DefaultExport

/-- **What a module exports as the default without taking it from another one.** -/
def Module.ownDefaults (m : Module) : List DefaultExport :=
  m.defaultExports.filter DefaultExport.isOwn

/-! ## the forms of an export -/

namespace Node

variable {n v c : Node}

theorem hasChild_iff {k : Kind} : n.hasChild k = true ↔ ∃ c ∈ n.children, c.kind = k := by
  unfold hasChild
  simp only [List.any_eq_true, decide_eq_true_eq]

/-- what is exported behind the keyword -/
theorem value_or_declaration (h : n.children.filter isExported = [v]) :
    (n.child? .value).or (n.child? .declaration) = some v := by
  have hchild : ∀ r, r = .value ∨ r = .declaration →
      n.child? r = if v.role = r then some v else none := by
    intro r hr
    have hall : n.children.filter (fun c => c.role = r) = [v].filter fun c => c.role = r := by
      rw [← h, List.filter_filter]
      refine List.filter_congr fun c _ => ?_
      by_cases hc : c.role = r
      · rw [isExported_iff.mpr (hc ▸ hr), Bool.and_true]
      · rw [decide_eq_false hc]
        rfl
    rw [child?, ← List.head?_filter, hall, List.filter_singleton]
    by_cases hv : v.role = r <;> simp [hv]
  have hv : v ∈ n.children.filter isExported := h ▸ List.mem_singleton_self v
  rw [hchild _ (Or.inl rfl), hchild _ (Or.inr rfl)]
  rcases isExported_iff.mp (List.mem_filter.mp hv).2 with hr | hr <;> simp [hr]

/-- the clause among the parts of an export is its first one -/
theorem find?_named (n : Node) : (n.named.find? fun c => c.kind = .exportClause) =
    (n.children.filter fun c => c.kind = .exportClause).head? := by
  rw [← List.head?_filter, named, List.filter_filter]
  refine congrArg List.head? (List.filter_congr fun c _ => ?_)
  by_cases hc : c.kind = .exportClause
  · rw [hc]
    rfl
  · rw [decide_eq_false hc]
    rfl

end Node

namespace Statement

variable {n c : Node} (hform : Node.ExportForm n.children)
include hform

/-- with the keyword, one thing is exported and there is no clause -/
theorem ofExport_default (hdef : n.hasChild .defaultKeyword = true) :
    ∃ v, n.children.filter Node.isExported = [v] ∧
      (n.children.filter fun c => c.kind = .exportClause) = [] ∧
        ofExport n = .defaultExport n v := by
  obtain ⟨v, hv⟩ := hform.value (Node.hasChild_iff.mp hdef)
  obtain ⟨k, hk, hkey⟩ := Node.hasChild_iff.mp hdef
  refine ⟨v, hv, List.filter_eq_nil_iff.mpr fun c hc hck => ?_, ?_⟩
  · exact ((hform.clause c hc (of_decide_eq_true hck)).2 k hk).1 hkey
  · unfold ofExport
    rw [if_pos hdef, Node.value_or_declaration hv]

/-- a clause stands alone, apart from marks and the module behind it -/
theorem ofExport_clause (hc : c ∈ n.children) (hk : c.kind = .exportClause) :
    n.hasChild .defaultKeyword = false ∧
      (n.children.filter fun d => d.kind = .exportClause) = [c] ∧
        ofExport n = if n.hasChild .typeKeyword || (n.child? .source).isSome then .other
          else .clause n c := by
  obtain ⟨hone, hrest⟩ := hform.clause c hc hk
  have hdef : n.hasChild .defaultKeyword = false := by
    refine Bool.eq_false_iff.mpr fun h => ?_
    obtain ⟨k, hk, hkey⟩ := Node.hasChild_iff.mp h
    exact (hrest k hk).1 hkey
  have hdecl : n.child? .declaration = none := by
    refine List.find?_eq_none.mpr fun d hd hdr => ?_
    have hd' := Node.isExported_iff.mpr (Or.inr (of_decide_eq_true hdr))
    rw [(hrest d hd).2] at hd'
    cases hd'
  refine ⟨hdef, hone, ?_⟩
  unfold ofExport
  rw [hdef, hdecl, Node.find?_named, hone]
  rfl

omit hform in
/-- without keyword and clause, nothing is exported by another name than its own -/
theorem ofExport_rest (hdef : n.hasChild .defaultKeyword = false)
    (hnone : (n.children.filter fun c => c.kind = .exportClause) = []) :
    ofExport n = .other ∨ ∃ d, ofExport n = .exportedVariables n d := by
  unfold ofExport
  rw [hdef, Node.find?_named, hnone]
  cases n.child? .declaration with
  | none => exact Or.inl rfl
  | some d =>
    by_cases hd : d.kind.declaresVariables = true
    · exact Or.inr ⟨d, if_pos hd⟩
    · exact Or.inl (if_neg hd)

end Statement

/-! ## how default exports are found -/

/-- a name that is spelled as it is stands for itself -/
theorem ExportName.standsForDefault_of_isDefault {e : ExportName} (h : e.isDefault = true) :
    e.standsForDefault = true := by
  have htext : e.exported = "default".toList := of_decide_eq_true h
  have hplain : Spelling.Plain "default" := by
    refine ⟨?_, ?_, ?_⟩ <;> decide
  unfold standsForDefault
  rw [htext]
  exact decide_eq_true ((Spelling.name?_eq_iff _).mpr hplain)

namespace MetaExport

variable {m : Module} {n c : Node}

theorem aliased_names (hplain : ∀ e ∈ ExportName.ofClause m c,
      e.standsForDefault = true → e.exported = "default".toList) :
    ((ExportName.ofClause m c).filter ExportName.isDefault).map (fun e => aliased e.bound) =
      (((ExportName.ofClause m c).filter ExportName.standsForDefault).map .name).map
        (DefaultExport.toMeta m) := by
  have hsame : (ExportName.ofClause m c).filter ExportName.isDefault =
      (ExportName.ofClause m c).filter ExportName.standsForDefault := by
    refine List.filter_congr fun e he => ?_
    rw [Bool.eq_iff_iff]
    exact ⟨ExportName.standsForDefault_of_isDefault, fun h => decide_eq_true (hplain e he h)⟩
  rw [hsame, List.map_map]
  rfl

theorem ofStatement_clause (hk : n.kind = .exportStatement) (hform : Node.ExportForm n.children)
    (hc : c ∈ n.children) (hck : c.kind = .exportClause)
    (hplain : ∀ e, .name e ∈ n.defaultExports m → e.exported = "default".toList) :
    ofStatement m n =
      ((n.defaultExports m).filter DefaultExport.isOwn).map (DefaultExport.toMeta m) := by
  obtain ⟨hdef, hone, hst⟩ := Statement.ofExport_clause hform hc hck
  unfold ofStatement
  rw [Statement.ofNode_export hk, hst]
  unfold Node.defaultExports at hplain ⊢
  rw [if_pos hk, hdef, hone] at hplain ⊢
  cases ht : n.hasChild .typeKeyword with
  | true => rfl
  | false =>
    cases hs : (n.child? .source).isSome with
    | true =>
      -- what comes from another module is none of its own
      have hforeign : ∀ d ∈ (((ExportName.ofClause m c).filter ExportName.standsForDefault).map
          DefaultExport.foreign), ¬ d.isOwn = true := by
        intro d hd
        obtain ⟨e, -, rfl⟩ := List.mem_map.mp hd
        exact Bool.false_ne_true
      simp only [List.flatMap_cons, List.flatMap_nil, List.append_nil, if_true,
        List.filter_eq_nil_iff.mpr hforeign, List.nil_append, Bool.false_eq_true, if_false]
      rfl
    | false =>
      rw [ht, hs] at hplain
      have hown : ∀ d ∈ (((ExportName.ofClause m c).filter ExportName.standsForDefault).map
          DefaultExport.name), d.isOwn = true := by
        intro d hd
        obtain ⟨e, -, rfl⟩ := List.mem_map.mp hd
        rfl
      have hnames : ∀ e ∈ ExportName.ofClause m c, e.standsForDefault = true →
          e.exported = "default".toList := by
        intro e he hd
        refine hplain e ?_
        simpa using ⟨he, hd⟩
      simp only [List.flatMap_cons, List.flatMap_nil, List.append_nil, Bool.false_eq_true,
        if_false, List.filter_eq_self.mpr hown, List.nil_append]
      exact aliased_names hnames

/-- **What an export gives as the default is found**, whichever form it has. -/
theorem ofStatement_export (hk : n.kind = .exportStatement) (hform : Node.ExportForm n.children)
    (hplain : ∀ e, .name e ∈ n.defaultExports m → e.exported = "default".toList) :
    ofStatement m n =
      ((n.defaultExports m).filter DefaultExport.isOwn).map (DefaultExport.toMeta m) := by
  by_cases hc : ∃ c ∈ n.children, c.kind = .exportClause
  · obtain ⟨c, hc, hck⟩ := hc
    exact ofStatement_clause hk hform hc hck hplain
  have hnone : (n.children.filter fun c => c.kind = .exportClause) = [] :=
    List.filter_eq_nil_iff.mpr fun c hc' hck => hc ⟨c, hc', of_decide_eq_true hck⟩
  unfold ofStatement Node.defaultExports
  rw [Statement.ofNode_export hk, if_pos hk, hnone, List.flatMap_nil, ite_self, List.append_nil]
  by_cases hdef : n.hasChild .defaultKeyword = true
  · obtain ⟨v, hv, -, hst⟩ := Statement.ofExport_default hform hdef
    rw [hst, if_pos hdef, hv]
    rfl
  · rw [if_neg hdef]
    rcases Statement.ofExport_rest (Bool.eq_false_iff.mpr hdef) hnone with hst | ⟨d, hst⟩
    · rw [hst]
      rfl
    · rw [hst]
      rfl

/-- other statements export nothing as the default -/
theorem ofStatement_other (hk : n.kind ≠ .exportStatement) : ofStatement m n = [] := by
  unfold ofStatement Statement.ofNode
  split <;> try rfl
  all_goals
    next h =>
      split at h
      · exact absurd ‹_› hk
      all_goals cases h

/-- **All default exports that a module has of its own are found, and nothing else is**, where the
name `default` is spelled as it is. -/
theorem all_eq_ownDefaults {id text : Text}
    (hplain : ∀ e, .name e ∈ (Module.read id text).defaultExports → e.exported = "default".toList) :
    all (Module.read id text) =
      (Module.read id text).ownDefaults.map (DefaultExport.toMeta (Module.read id text)) := by
  unfold all Module.ownDefaults Module.defaultExports
  rw [List.filter_flatMap, List.map_flatMap]
  refine List.flatMap_congr fun n hn => ?_
  by_cases hk : n.kind = .exportStatement
  · have htop : n ∈ (Module.read id text).tree.children :=
      List.mem_of_mem_filter (List.mem_of_mem_filter hn)
    exact ofStatement_export hk (Module.exportForm_read htop hk) fun e he =>
      hplain e (List.mem_flatMap.mpr ⟨n, hn, he⟩)
  · rw [ofStatement_other hk, Node.defaultExports, if_neg hk]
    rfl

end MetaExport

namespace DefaultExport

variable (m : Module) (d : DefaultExport)

/-- a value is an alias if it is an identifier, and goes by no name of its own otherwise -/
theorem ofValue_cases (s v : Node) :
    (v.kind = .identifier ∧ MetaExport.ofValue m s v = .aliased (m.textOf v)) ∨
      (v.kind ≠ .identifier ∧ ∀ n, MetaExport.ofValue m s v ≠ .aliased n) := by
  unfold MetaExport.ofValue
  by_cases hv : v.kind = .identifier
  · exact Or.inl ⟨hv, if_pos hv⟩
  · refine Or.inr ⟨hv, fun n h => ?_⟩
    rw [if_neg hv] at h
    split at h <;> cases h

theorem name_toMeta : (d.toMeta m).name = d.binding m := by
  unfold toMeta binding bound?
  cases d with
  | name e => rfl
  | foreign e => rfl
  | value s v =>
    rcases ofValue_cases m s v with ⟨hv, he⟩ | ⟨hv, he⟩
    · simp only [he, if_pos hv]
      rfl
    · simp only [if_neg hv]
      cases h : MetaExport.ofValue m s v with
      | aliased n => exact absurd h (he n)
      | inline s' v' o => rfl
      | unrecognized => rfl

theorem warnings_toMeta : (d.toMeta m).warnings m =
    (if (MetaExport.all m).length = 1 then []
      else [MetaExport.severalWarning m (MetaExport.all m).length]) ++ d.warnings m := by
  unfold MetaExport.warnings
  congr 1
  unfold toMeta warnings bound?
  cases d with
  | name e => rfl
  | foreign e => rfl
  | value s v =>
    rcases ofValue_cases m s v with ⟨hv, he⟩ | ⟨hv, he⟩
    · simp only [he, if_pos hv]
    · -- no name is asked for, and there is none
      simp only [if_neg hv]

end DefaultExport

/-! ## what becomes of a story module -/

/-- **A story module is refused if it exports nothing of its own as the default, and only then.**
Otherwise the first of its default exports is its meta object, and it is warned of several of them
once, and of a name that no object is bound to. -/
theorem transform_ownDefaults (id text : Text) (tags : TagFilter) (title : Text → Text)
    (hid : isStoryFile id = true) (herrors : (Module.read id text).hasErrors = false)
    (hplain : ∀ e, .name e ∈ (Module.read id text).defaultExports →
      e.exported = "default".toList) :
    let m := Module.read id text
    (transform id text tags title = .error (.noMeta id) ↔ m.ownDefaults = []) ∧
      ∀ d ds, m.ownDefaults = d :: ds → ∃ s, transform id text tags title = .ok (.story s) ∧
        s.metaBinding = d.binding m ∧
        s.findings.warnings =
          (if ds = [] then [] else [MetaExport.severalWarning m (ds.length + 1)]) ++
            d.warnings m := by
  intro m
  have hall : MetaExport.all m = m.ownDefaults.map (DefaultExport.toMeta m) :=
    MetaExport.all_eq_ownDefaults hplain
  have htransform : transform id text tags title =
      (Story.ofModule m tags (title id)).map Transformed.story := by
    unfold transform
    rw [if_pos hid]
    cases Story.ofModule (Module.read id text) tags (title id) <;> rfl
  have hfound : ∀ d ds, m.ownDefaults = d :: ds → ∃ s,
      transform id text tags title = .ok (.story s) ∧ s.metaBinding = d.binding m ∧
        s.findings.warnings = (if ds = [] then []
          else [MetaExport.severalWarning m (ds.length + 1)]) ++ d.warnings m := by
    intro d ds hds
    have hm : m.Regular := Module.regular_read id text
    have he : (MetaExport.all m).head? = some (d.toMeta m) := by
      rw [hall, hds]
      rfl
    have hlength : (MetaExport.all m).length = ds.length + 1 := by
      rw [hall, hds, List.length_map, List.length_cons]
    obtain ⟨-, s, hs, -⟩ := Story.ofModule_eq hm he tags (title id)
    obtain ⟨hbinding, -, -, hfindings⟩ := Story.ofModule_made hm he hs
    refine ⟨s, by rw [htransform, hs]; rfl, by rw [hbinding, d.name_toMeta], ?_⟩
    have hfirst : (Story.firstFindings m).warnings = [] := by
      rw [Story.firstFindings, herrors]
      rfl
    rw [hfindings]
    show (Story.firstFindings m).warnings ++ _ = _
    rw [hfirst, List.nil_append, d.warnings_toMeta, hlength]
    cases ds <;> rfl
  refine ⟨⟨fun herror => ?_, fun hnone => ?_⟩, hfound⟩
  · cases hds : m.ownDefaults with
    | nil => rfl
    | cons d ds =>
      obtain ⟨s, hs, -⟩ := hfound d ds hds
      rw [herror] at hs
      cases hs
  · have hnil : MetaExport.all m = [] := by rw [hall, hnone]; rfl
    rw [htransform, Story.ofModule_noMeta hnil]
    rfl

theorem Module.exists_of_mem_defaultExports {m : Module} {e : ExportName}
    (h : .name e ∈ m.defaultExports) :
    ∃ n ∈ m.statements, ∃ c ∈ n.children, e ∈ ExportName.ofClause m c := by
  obtain ⟨n, hn, h⟩ := List.mem_flatMap.mp h
  unfold Node.defaultExports at h
  split at h
  · rcases List.mem_append.mp h with h | h
    · split at h
      · obtain ⟨v, -, hv⟩ := List.mem_map.mp h
        cases hv
      · cases h
    · split at h
      · cases h
      · obtain ⟨c, hc, h⟩ := List.mem_flatMap.mp h
        obtain ⟨e', he', heq⟩ := List.mem_map.mp h
        split at heq
        · cases heq
        · cases heq
          exact ⟨n, hn, c, List.mem_of_mem_filter hc, List.mem_of_mem_filter he'⟩
  · cases h

/-- a module with two default exports, one of them a name -/
def twiceText : Text :=
  "const meta = {};\nexport { meta as default };\nexport const A = {};\nexport default function f() {}\n"

theorem transform_ownDefaults_twice :
    isStoryFile "a.stories.ts" = true ∧
      (Module.read "a.stories.ts" twiceText).hasErrors = false ∧
      (transform "a.stories.ts" twiceText TagFilter.standard (fun _ => "T") =
          .error (.noMeta "a.stories.ts") ↔
        (Module.read "a.stories.ts" twiceText).ownDefaults = []) ∧
      ∀ d ds, (Module.read "a.stories.ts" twiceText).ownDefaults = d :: ds → ∃ s,
        transform "a.stories.ts" twiceText TagFilter.standard (fun _ => "T") = .ok (.story s) ∧
          s.metaBinding = d.binding (Module.read "a.stories.ts" twiceText) ∧
          s.findings.warnings = (if ds = [] then []
            else [MetaExport.severalWarning (Module.read "a.stories.ts" twiceText)
              (ds.length + 1)]) ++ d.warnings (Module.read "a.stories.ts" twiceText) := by
  have hid : isStoryFile "a.stories.ts" = true := by decide +kernel
  have herrors : (Module.read "a.stories.ts" twiceText).hasErrors = false := by decide +kernel
  have hnames : ∀ n ∈ (Module.read "a.stories.ts" twiceText).statements, ∀ c ∈ n.children,
      ∀ e ∈ ExportName.ofClause (Module.read "a.stories.ts" twiceText) c,
        e.exported = "default".toList := by decide +kernel
  refine ⟨hid, herrors, transform_ownDefaults _ _ _ _ hid herrors fun e he => ?_⟩
  obtain ⟨n, hn, c, hc, he⟩ := Module.exists_of_mem_defaultExports he
  exact hnames n hn c hc e he

/-- a module that passes the default export of another one on -/
def passingText : Text := "export { default } from './Button';\nexport const A = {};\n"

/-- **A module that only passes a default export on is refused.** -/
theorem reexport_refused :
    isStoryFile "a.stories.ts" = true ∧
      (Module.read "a.stories.ts" passingText).hasErrors = false ∧
      (∃ e, .foreign e ∈ (Module.read "a.stories.ts" passingText).defaultExports) ∧
      transform "a.stories.ts" passingText TagFilter.standard (fun _ => "T") =
        .error (.noMeta "a.stories.ts") := by
  have hall : (MetaExport.all (Module.read "a.stories.ts" passingText)).isEmpty = true := by
    decide +kernel
  have hclause : ∃ n ∈ (Module.read "a.stories.ts" passingText).statements, ∃ c ∈ n.children,
      ∃ e ∈ ExportName.ofClause (Module.read "a.stories.ts" passingText) c,
        n.kind = .exportStatement ∧ n.hasChild .typeKeyword = false ∧ c.kind = .exportClause ∧
          (n.child? .source).isSome = true ∧ e.isDefault = true := by decide +kernel
  refine ⟨by decide +kernel, by decide +kernel, ?_, ?_⟩
  · obtain ⟨n, hn, c, hc, e, he, hk, ht, hck, hs, hd⟩ := hclause
    refine ⟨e, List.mem_flatMap.mpr ⟨n, hn, ?_⟩⟩
    unfold Node.defaultExports
    rw [if_pos hk, ht, hs]
    refine List.mem_append_right _ (List.mem_flatMap.mpr ⟨c, ?_, ?_⟩)
    · exact List.mem_filter.mpr ⟨hc, decide_eq_true hck⟩
    · exact List.mem_map_of_mem
        (List.mem_filter.mpr ⟨he, ExportName.standsForDefault_of_isDefault hd⟩)
  · have hid : isStoryFile "a.stories.ts" = true := by decide +kernel
    unfold transform
    rw [if_pos hid, Story.ofModule_noMeta (List.isEmpty_iff.mp hall)]
    rfl

end StorySuite
