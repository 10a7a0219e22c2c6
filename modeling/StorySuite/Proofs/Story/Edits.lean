import StorySuite.Story.Basic
import StorySuite.Proofs.Story.Scenarios

/-!
# The edits that make a test module

The title, the name of the meta object, the registrations and the imports are edits of one patch.
None of them is ever refused: the two ranges that are replaced lie in front of the exported value
and behind it, the title goes into that value, and statements begin in neither range.

* `Meta.edits m title e`          what is done to the meta object;
* `Meta.apply_eq`                 that this is what becomes of the text of a regular module;
* `Module.edits`                  all edits of a module;
* `Story.ofModule_eq`             **the test module of a regular module is its text with these edits**;
* `Story.ofModule_ok_or_noMeta`   **there is one, unless nothing is exported as the default**.
-/

namespace StorySuite

/-! ## the default export -/

theorem Module.has_of_declaratorsIn {m : Module} {s v : Node} (hs : m.Has s)
    (hv : v ∈ s.declaratorsIn) : m.Has v := by
  obtain ⟨d, hd, h⟩ := List.mem_flatMap.mp hv
  have hdm := hs.child hd
  rcases List.mem_append.mp h with h | h
  · split at h
    · rw [List.mem_singleton.mp h]
      exact hdm
    · cases h
  · split at h
    · exact hdm.child (List.mem_of_mem_filter h)
    · cases h

namespace Node

theorem mem_of_child? {n c : Node} {r : Role} (h : n.child? r = some c) :
    c ∈ n.children ∧ c.role = r := by
  refine ⟨List.mem_of_find?_eq_some h, ?_⟩
  have h' := List.find?_some h
  exact of_decide_eq_true h'

/-- what a default export gives stands in its statement -/
theorem mem_of_exported {n v : Node}
    (h : (n.child? .value).or (n.child? .declaration) = some v) :
    v ∈ n.children ∧ (v.role = .value ∨ v.role = .declaration) := by
  rcases Option.or_eq_some_iff.mp h with h | ⟨-, h⟩
  · obtain ⟨hmem, hrole⟩ := mem_of_child? h
    exact ⟨hmem, Or.inl hrole⟩
  · obtain ⟨hmem, hrole⟩ := mem_of_child? h
    exact ⟨hmem, Or.inr hrole⟩

end Node

/-- a default export is a statement with the keyword -/
theorem Statement.ofNode_eq_defaultExport {n s v : Node} (h : ofNode n = .defaultExport s v) :
    n = s ∧ n.kind = .exportStatement ∧ n.hasChild .defaultKeyword = true ∧
      (n.child? .value).or (n.child? .declaration) = some v := by
  unfold ofNode at h
  split at h
  · next hk =>
    unfold ofExport at h
    by_cases hdef : n.hasChild .defaultKeyword = true
    · rw [if_pos hdef] at h
      split at h
      · next w hw =>
        cases h
        exact ⟨rfl, hk, hdef, hw⟩
      · cases h
    · rw [if_neg hdef] at h
      split at h
      · split at h <;> cases h
      · split at h
        · split at h <;> cases h
        · cases h
  · cases h
  · cases h
  · cases h

namespace MetaExport

variable {m : Module} {s v o : Node}

/-- where the parts of an exported object stand -/
structure Inline (m : Module) (s v o : Node) : Prop where
  statement : s ∈ m.tree.children
  kind : s.kind = .exportStatement
  keyword : s.hasChild .defaultKeyword = true
  value : v ∈ s.children
  role : v.role = .value ∨ v.role = .declaration
  object : v.objectLiteral? = some o

theorem ofValue_eq_inline {n w : Node} (h : ofValue m n w = .inline s v o) :
    n = s ∧ w = v ∧ v.objectLiteral? = some o := by
  unfold ofValue at h
  split at h
  · cases h
  · split at h
    · next o' ho' =>
      cases h
      exact ⟨rfl, rfl, ho'⟩
    · cases h

/-- an exported object is exported by a statement at the top level -/
theorem inline_of_mem_all (h : .inline s v o ∈ all m) : Inline m s v o := by
  obtain ⟨n, hn, hs⟩ := List.mem_flatMap.mp h
  have htop : n ∈ m.tree.children := List.mem_of_mem_filter (List.mem_of_mem_filter hn)
  unfold ofStatement at hs
  split at hs
  · next s' w hst =>
    obtain ⟨rfl, hk, hdef, hw⟩ := Statement.ofNode_eq_defaultExport hst
    obtain ⟨rfl, rfl, ho⟩ := ofValue_eq_inline (List.mem_singleton.mp hs).symm
    obtain ⟨hmem, hrole⟩ := Node.mem_of_exported hw
    exact ⟨htop, hk, hdef, hmem, hrole, ho⟩
  · obtain ⟨e, -, he⟩ := List.mem_map.mp hs
    cases he
  · cases hs

/-- the object inside an exported value, from its brace on -/
theorem Inline.bounds (h : Inline m s v o) (hm : m.Regular) :
    m.Has s ∧ m.Has v ∧ m.Has o ∧ s.start ≤ v.start ∧ v.start ≤ o.start ∧ o.start + 1 ≤ v.stop ∧
      v.stop ≤ s.stop ∧ m.text.isBoundary (o.start + 1) = true := by
  have hs : m.Has s := (Module.has_root m).child h.statement
  have hv : m.Has v := hs.child h.value
  obtain ⟨ho, hk, h1, h2⟩ := hm.object hv h.object
  obtain ⟨h3, h4⟩ := hm.brace_boundary ho hk
  obtain ⟨h5, h6⟩ := hm.within hs h.value
  exact ⟨hs, hv, ho, h5, h1, Nat.le_trans h3 h2, h6, h4⟩

end MetaExport

/-! ## the edits of the meta object -/

namespace Meta

/-- what is done to give an object a title, unless it has one -/
def titleEdits (m : Module) (title : Text) (o : Node) : List Edit :=
  if o.hasTitle m = true then [] else [.insert (o.start + 1) (titleProperty title)]

/-- what stands in the place of `export default` -/
def opening : Text := "const " ++ MetaExport.binding ++ " = "

/-- what comes behind the object then -/
def closing : Text := ";\nexport default " ++ MetaExport.binding ++ ";"

/-- **What is done to the meta object**, in this order. -/
def edits (m : Module) (title : Text) : MetaExport → List Edit
  | .aliased name => ((objectOf? (Bindings.ofModule m) name).map (titleEdits m title)).getD []
  | .inline s v o =>
    titleEdits m title o ++ (Edit.ofOverwrite m.text s.start v.start opening ++
      Edit.ofOverwrite m.text v.stop s.stop closing)
  | .unrecognized => []

variable {m : Module} {title : Text}

theorem edits_aliased (m : Module) (title name : Text) :
    edits m title (.aliased name) =
      ((objectOf? (Bindings.ofModule m) name).map (titleEdits m title)).getD [] := rfl

theorem mem_titleEdits {o : Node} {e : Edit} (he : e ∈ titleEdits m title o) :
    e = .insert (o.start + 1) (titleProperty title) := by
  unfold titleEdits at he
  split at he
  · cases he
  · exact List.mem_singleton.mp he

theorem start_of_mem_titleEdits {o : Node} {e : Edit} (he : e ∈ titleEdits m title o) :
    e.start = o.start + 1 := by
  rw [mem_titleEdits he]
  rfl

theorem within_of_mem_titleEdits {o : Node} {e : Edit} (he : e ∈ titleEdits m title o) :
    e.Within (o.start + 1) (o.start + 1) := by
  rw [mem_titleEdits he]
  exact ⟨Nat.le_refl _, Nat.le_refl _⟩

/-- a meta object that goes by a name is given nothing but a title -/
theorem mem_edits_aliased {name : Text} {e : Edit} (he : e ∈ edits m title (.aliased name)) :
    ∃ o : Node, e = .insert (o.start + 1) (titleProperty title) := by
  rw [edits_aliased] at he
  cases ho : objectOf? (Bindings.ofModule m) name with
  | none =>
    rw [ho] at he
    cases he
  | some o =>
    rw [ho] at he
    exact ⟨o, mem_titleEdits he⟩

/-- the edits of an exported object stay inside of its statement -/
theorem within_of_mem_edits (hm : m.Regular) {s v o : Node} (h : MetaExport.Inline m s v o)
    {e : Edit} (he : e ∈ edits m title (.inline s v o)) : e.Within s.start s.stop := by
  obtain ⟨-, -, -, h1, h2, h3, h4, -⟩ := h.bounds hm
  rcases List.mem_append.mp he with he | he
  · exact (within_of_mem_titleEdits he).mono (by omega) (by omega)
  rcases List.mem_append.mp he with he | he
  · exact (Edit.within_of_mem_ofOverwrite h1 he).mono (Nat.le_refl _) (by omega)
  · exact (Edit.within_of_mem_ofOverwrite h4 he).mono (by omega) (Nat.le_refl _)

theorem giveTitle_eq (title : Text) {p : Patch} {o : Node} (h : p.Admits (o.start + 1)) :
    ∃ b, giveTitle m p o title = .ok (p.extend (titleEdits m title o), b) := by
  unfold giveTitle titleEdits
  by_cases ht : o.hasTitle m = true
  · refine ⟨false, ?_⟩
    rw [if_pos ht, if_pos ht, Patch.extend, List.append_nil]
    rfl
  · refine ⟨true, ?_⟩
    rw [if_neg ht, if_neg ht, h.insert]
    rfl

theorem titleEdits_admitted (title : Text) {p : Patch} {o : Node} (h : p.Admits (o.start + 1)) :
    ∀ e ∈ titleEdits m title o, ∃ n t, e = .insert n t ∧ p.Admits n :=
  fun _ he => ⟨_, _, mem_titleEdits he, h⟩

/-- the object of a variable stands in the tree -/
theorem object_of_objectOf? (hm : m.Regular) {name : Text} {o : Node}
    (h : objectOf? (Bindings.ofModule m) name = some o) : m.Has o ∧ o.kind = .object := by
  obtain ⟨b, hb, h1⟩ := Option.bind_eq_some_iff.mp h
  obtain ⟨v, hv, ho⟩ := Option.bind_eq_some_iff.mp h1
  rw [Bindings.get?_ofModule hm] at hb
  obtain ⟨s, hs, -, hd⟩ := Bindings.mem_topLevel_of_declared? hb
  have hhas := Module.has_of_declaratorsIn (Module.has_of_topLevel hs) hd
  obtain ⟨h2, h3, -, -⟩ := hm.object (hhas.child (Node.mem_of_child? hv).1) ho
  exact ⟨h2, h3⟩

/-- the edits of an exported object are accepted one after the other -/
theorem inline_accepted (title : Text) (hm : m.Regular) {s v o : Node} (h : MetaExport.Inline m s v o) :
    ∃ b, (giveTitle m (Patch.ofText m.text) o title =
        .ok ((Patch.ofText m.text).extend (titleEdits m title o), b)) ∧
      ((Patch.ofText m.text).extend (titleEdits m title o)).overwrite s.start v.start opening =
        .ok ((Patch.ofText m.text).extend (titleEdits m title o ++
          Edit.ofOverwrite m.text s.start v.start opening)) ∧
      ((Patch.ofText m.text).extend (titleEdits m title o ++
          Edit.ofOverwrite m.text s.start v.start opening)).overwrite v.stop s.stop closing =
        .ok ((Patch.ofText m.text).extend (edits m title (.inline s v o))) ∧
      ((Patch.ofText m.text).extend (edits m title (.inline s v o))).Sound := by
  obtain ⟨hs, hv, ho, h1, h2, h3, h4, hbrace⟩ := h.bounds hm
  have hadm : (Patch.ofText m.text).Admits (o.start + 1) :=
    ⟨hbrace, fun _ h => absurd h List.not_mem_nil⟩
  obtain ⟨b, hgive⟩ := giveTitle_eq (m := m) title hadm
  have hsound := (Patch.sound_ofText m.text).extend (titleEdits_admitted (m := m) title hadm)
  obtain ⟨hok, hsound'⟩ := hsound.overwrite_eq (t := opening) h1 (hm.boundary_start hs)
    (hm.boundary_start hv) fun e he =>
      ⟨_, _, within_of_mem_titleEdits he, Or.inr (by omega)⟩
  rw [Patch.extend_extend] at hok hsound'
  obtain ⟨hok', hsound''⟩ := hsound'.overwrite_eq (t := closing) h4 (hm.boundary_stop hv)
    (hm.boundary_stop hs) fun e he => by
      have he' : e ∈ titleEdits m title o ++ Edit.ofOverwrite m.text s.start v.start opening := he
      rcases List.mem_append.mp he' with he | he
      · exact ⟨_, _, within_of_mem_titleEdits he, Or.inl h3⟩
      · exact ⟨_, _, Edit.within_of_mem_ofOverwrite h1 he, Or.inl (by omega)⟩
  rw [Patch.extend_extend, List.append_assoc] at hok' hsound''
  exact ⟨b, hgive, hok, hok', hsound''⟩

/-- the first of the default exports is taken, and several are warned of -/
theorem find_eq {e : MetaExport} (he : (MetaExport.all m).head? = some e)
    (f : Findings) : MetaExport.find m f = .ok (e, { f with warnings := f.warnings ++
      if (MetaExport.all m).length = 1 then []
      else [MetaExport.severalWarning m (MetaExport.all m).length] }) := by
  unfold MetaExport.find
  match MetaExport.all m, he with
  | [e'], he =>
    rw [Option.some.inj he]
    simp
  | e' :: e'' :: es, he =>
    rw [Option.some.inj he]
    rfl

/-- **The edits of the meta object are accepted.** -/
theorem apply_eq (hm : m.Regular) {e : MetaExport} (he : (MetaExport.all m).head? = some e)
    (title : Text) (f : Findings) :
    (∃ info f', apply m (Bindings.ofModule m) title (Patch.ofText m.text) f =
        .ok (info, (Patch.ofText m.text).extend (edits m title e), f')) ∧
      ((Patch.ofText m.text).extend (edits m title e)).Sound := by
  have hsound := Patch.sound_ofText m.text
  obtain ⟨f', hfind⟩ : ∃ f', MetaExport.find m f = .ok (e, f') := ⟨_, find_eq he f⟩
  unfold apply
  rw [hfind]
  cases e with
  | unrecognized => exact ⟨⟨_, f', rfl⟩, hsound⟩
  | aliased name =>
    cases ho : objectOf? (Bindings.ofModule m) name with
    | none =>
      rw [edits_aliased, ho]
      refine ⟨⟨⟨name, .aliased, false⟩, f'.warn (MetaExport.aliasWarning m name), ?_⟩, hsound⟩
      simp only [bind, Except.bind, ho]
      rfl
    | some o =>
      obtain ⟨h1, h2⟩ := object_of_objectOf? hm ho
      have hadm : (Patch.ofText m.text).Admits (o.start + 1) :=
        ⟨(hm.brace_boundary h1 h2).2, fun _ h => absurd h List.not_mem_nil⟩
      obtain ⟨b, hgive⟩ := giveTitle_eq (m := m) title hadm
      rw [edits_aliased, ho]
      refine ⟨⟨⟨name, .aliased, b⟩, f', ?_⟩, hsound.extend (titleEdits_admitted title hadm)⟩
      simp only [bind, Except.bind, ho, hgive]
      rfl
  | inline s v o =>
    have hin := MetaExport.inline_of_mem_all (List.mem_of_mem_head? he)
    obtain ⟨b, hgive, hok, hok', hsound'⟩ := inline_accepted title hm hin
    refine ⟨⟨⟨MetaExport.binding, .inline, b⟩, f', ?_⟩, hsound'⟩
    show (giveTitle m (Patch.ofText m.text) o title >>= _) = _
    rw [hgive]
    show (edit (((Patch.ofText m.text).extend (titleEdits m title o)).overwrite s.start v.start
      opening) >>= _) = _
    rw [hok]
    show (edit (Patch.overwrite _ v.stop s.stop closing) >>= _) = _
    rw [hok']
    rfl

/-- where a statement begins, the edits of the meta object leave the text open -/
theorem admits_start (hm : m.Regular) {e : MetaExport} (he : (MetaExport.all m).head? = some e)
    {x : Node} (hx : x ∈ m.tree.children) :
    ((Patch.ofText m.text).extend (edits m title e)).Admits x.start := by
  refine ⟨hm.boundary_start ((Module.has_root m).child hx), fun f hf => ?_⟩
  have hf' : f ∈ edits m title e := hf
  cases e with
  | unrecognized => cases hf'
  | aliased name =>
    obtain ⟨o, rfl⟩ := mem_edits_aliased hf'
    rfl
  | inline s v o =>
    have hin := MetaExport.inline_of_mem_all (List.mem_of_mem_head? he)
    refine (within_of_mem_edits hm hin hf').covers_eq_false ?_
    have hxs := (hm.row_of_has ((Module.has_root m))).apart hx hin.statement
    have := hm.start_le_stop ((Module.has_root m).child hx)
    rcases hxs with rfl | h | h
    · exact Or.inl (Nat.le_refl _)
    · exact Or.inl (by omega)
    · exact Or.inr h

end Meta

/-! ## the test module -/

variable {m : Module}

/-- the edits behind those of the meta object -/
def Module.laterEdits (m : Module) (tags : Text) : List Edit :=
  m.scenarios.map (Scenario.edit tags) ++ [.insert m.text.size Story.importBlock]

/-- **All edits of a module**, in the order in which they are asked for. -/
def Module.edits (m : Module) (tags title : Text) (e : MetaExport) : List Edit :=
  Meta.edits m title e ++ m.laterEdits tags

namespace Story

/-- **The test module of a regular module is its text with these edits**, all of them accepted. -/
theorem ofModule_eq (hm : m.Regular) {e : MetaExport} (he : (MetaExport.all m).head? = some e)
    (tags : TagFilter) (title : Text) :
    ((Patch.ofText m.text).extend (m.edits tags.render title e)).Sound ∧
      ∃ s, ofModule m tags title = .ok s ∧
        s.code = ((Patch.ofText m.text).extend (m.edits tags.render title e)).render ∧
        s.scenarios = m.scenarios.map Scenario.name := by
  obtain ⟨⟨info, f, happly⟩, hsound⟩ := Meta.apply_eq hm he title (firstFindings m)
  have hadm : ∀ x ∈ m.topLevel,
      ((Patch.ofText m.text).extend (Meta.edits m title e)).Admits x.start :=
    fun x hx => Meta.admits_start hm he (Module.topLevel_subset m x hx)
  have hregister := hm.registerAll_eq tags.render f hsound hadm
  have hlines : ∀ l ∈ m.scenarios.map (Scenario.edit tags.render),
      ∃ n t, l = .insert n t ∧ ((Patch.ofText m.text).extend (Meta.edits m title e)).Admits n := by
    intro l hl
    obtain ⟨s, hs, rfl⟩ := List.mem_map.mp hl
    obtain ⟨n, hn, hstart⟩ := Module.start_of_scenarios hs
    exact ⟨_, _, rfl, hstart ▸ hadm n hn⟩
  have hend : (((Patch.ofText m.text).extend (Meta.edits m title e)).extend
      (m.scenarios.map (Scenario.edit tags.render))).Admits m.text.size := by
    refine Patch.Admits.extend ⟨Text.isBoundary_size _, fun d hd => ?_⟩ fun l hl => ?_
    · -- nothing is replaced behind the end
      have hfit := hsound.fits d hd
      cases d with
      | insert n t => rfl
      | replace a b t =>
        have hb := Text.le_size hfit.2.1
        exact Edit.Within.covers_eq_false (show Edit.Within a b _ from ⟨Nat.le_refl a, Nat.le_refl b⟩)
          (Or.inr hb)
    · obtain ⟨n, t, h, -⟩ := hlines l hl
      exact ⟨n, t, h⟩
  have happend := hend.insert importBlock
  have hall := (hsound.extend hlines).extend_insert hend importBlock
  rw [Patch.extend_extend, Patch.extend_extend] at hall
  refine ⟨hall, ?_⟩
  unfold ofModule
  show ∃ s, (Meta.apply m (Bindings.ofModule m) title _ (firstFindings m) >>= _) = _ ∧ _
  rw [happly]
  show ∃ s, (Scenario.registerAll m (Bindings.ofModule m) tags.render _ f >>= _) = _ ∧ _
  rw [hregister]
  show ∃ s, (Except.mapError Failure.refused (Patch.insert _ m.text.size importBlock) >>= _) = _ ∧ _
  rw [happend, Patch.extend_extend, Patch.extend_extend]
  exact ⟨_, rfl, rfl, rfl⟩

theorem ofModule_noMeta (h : MetaExport.all m = []) (tags : TagFilter) (title : Text) :
    ofModule m tags title = .error (.noMeta m.id) := by
  have hfind : MetaExport.find m (firstFindings m) = .error (.noMeta m.id) := by
    rw [MetaExport.find, h]
  unfold ofModule Meta.apply
  rw [hfind]
  rfl

/-- **No edit of a regular module is refused**: it becomes a test module, unless it exports nothing
as the default. -/
theorem ofModule_ok_or_noMeta (hm : m.Regular) (tags : TagFilter) (title : Text) :
    (∃ s, ofModule m tags title = .ok s) ∨ ofModule m tags title = .error (.noMeta m.id) := by
  cases he : (MetaExport.all m).head? with
  | none => exact Or.inr (ofModule_noMeta (List.head?_eq_none_iff.mp he) tags title)
  | some e =>
    obtain ⟨-, s, hs, -⟩ := ofModule_eq hm he tags title
    exact Or.inl ⟨s, hs⟩

end Story

/-- **No edit of a text is refused**, whatever it holds: it becomes a module that can be run, unless
it is a story module that exports nothing as the default. -/
theorem transform_never_refused (id text : Text) (tags : TagFilter) (title : Text → Text) :
    (∃ r, transform id text tags title = .ok r) ∨
      transform id text tags title = .error (.noMeta id) := by
  unfold transform
  split
  · rcases Story.ofModule_ok_or_noMeta (Module.regular_read id text) tags (title id) with
      ⟨s, hs⟩ | hs
    · rw [hs]
      exact Or.inl ⟨_, rfl⟩
    · rw [hs]
      exact Or.inr rfl
  · exact Or.inl ⟨_, rfl⟩

end StorySuite
