import StorySuite.Story.Registration
import StorySuite.Story.Tags
import StorySuite.Proofs.Patch.Reading
import StorySuite.Proofs.Module.TopLevel
import StorySuite.Proofs.Grammar.Module

/-!
# The stories of a module

Which stories a module has is said by one pass over its top-level statements, and so is where they
are registered.

* `Module.exported`       what a top-level statement exports, the default export apart;
* `Scenario.fresh`        what is registered when some names are registered already;
* `Module.scenarios`      **the stories of a module, in the order they are exported**;
* `foldlM_take`           registering stories one after the other;
* `registerAll_eq`        **what is registered on a patch that admits every statement**;
* `registerAll_scenarios` **what is registered in a text without other edits**.
-/

namespace StorySuite

/-! ## the plain pass -/

/-- a story, if it is one -/
def ExportedName.story? : ExportedName → Option Scenario
  | story s => some s
  | skipped _ => none

/-- the name of what is no variable, if it is none -/
def ExportedName.skipped? : ExportedName → Option Text
  | story _ => none
  | skipped n => some n

namespace Module

/-- what becomes of a name in a clause: a story of the statement that first declares the variable,
or a name that is skipped -/
def exportedAs (m : Module) (e : ExportName) : ExportedName :=
  match m.declared? e.bound with
  | some b => .story ⟨e.exported, b.statement.node.start⟩
  | none => .skipped e.exported

/-- **What a top-level statement exports**, the default export apart: the variables that it
declares, or the names of its clause, unless they are types or another module's. -/
def exported (m : Module) (s : Node) : List ExportedName :=
  if s.kind ≠ .exportStatement ∨ s.hasChild .defaultKeyword = true then []
  else match s.child? .declaration with
    | some d =>
      if d.kind = .lexicalDeclaration ∨ d.kind = .variableDeclaration then
        (d.declarators.filterMap (Node.boundName? m)).map fun name => .story ⟨name, s.start⟩
      else []
    | none =>
      if s.hasChild .typeKeyword = true ∨ (s.child? .source).isSome = true then []
      else match s.named.find? fun c => c.kind = .exportClause with
        | none => []
        | some c => ((ExportName.ofClause m c).filter fun e => !e.isDefault).map m.exportedAs

/-- all that the top-level statements export, in order -/
def allExported (m : Module) : List ExportedName := m.topLevel.flatMap m.exported

/-- the exported names of a clause that no variable goes by -/
def skippedExports (m : Module) : List Text := m.allExported.filterMap ExportedName.skipped?

end Module

/-- what is registered when the names `seen` are registered already: the first of each name -/
def Scenario.fresh (seen : List Text) : List Scenario → List Scenario
  | [] => []
  | s :: ss => if s.name ∈ seen then fresh seen ss else s :: fresh (seen ++ [s.name]) ss

/-- **The stories of a module**, in the order they are exported. -/
def Module.scenarios (m : Module) : List Scenario :=
  Scenario.fresh [] (m.allExported.filterMap ExportedName.story?)

namespace Scenario

theorem mem_of_mem_fresh {seen : List Text} {ss : List Scenario} {s : Scenario}
    (h : s ∈ fresh seen ss) : s ∈ ss ∧ s.name ∉ seen := by
  induction ss generalizing seen with
  | nil => cases h
  | cons c ss ih =>
    unfold fresh at h
    by_cases hc : c.name ∈ seen
    · rw [if_pos hc] at h
      exact ⟨List.mem_cons_of_mem _ (ih h).1, (ih h).2⟩
    · rw [if_neg hc] at h
      rcases List.mem_cons.mp h with rfl | h
      · exact ⟨List.mem_cons_self, hc⟩
      · obtain ⟨h1, h2⟩ := ih h
        exact ⟨List.mem_cons_of_mem _ h1, fun hs => h2 (List.mem_append_left _ hs)⟩

/-- no name is registered twice -/
theorem nodup_fresh (seen : List Text) (ss : List Scenario) :
    ((fresh seen ss).map Scenario.name).Nodup := by
  induction ss generalizing seen with
  | nil => exact List.nodup_nil
  | cons s ss ih =>
    unfold fresh
    by_cases hs : s.name ∈ seen
    · rw [if_pos hs]
      exact ih seen
    · rw [if_neg hs, List.map_cons]
      refine List.nodup_cons.mpr ⟨fun h => ?_, ih _⟩
      obtain ⟨s', h1, h2⟩ := List.mem_map.mp h
      refine (mem_of_mem_fresh h1).2 (List.mem_append_right _ ?_)
      rw [h2]
      exact List.mem_singleton.mpr rfl

end Scenario

theorem Statement.ofNode_export {n : Node} (h : n.kind = .exportStatement) :
    ofNode n = ofExport n := by
  unfold ofNode
  rw [h]

/-! ## what is looked for -/

namespace Module.Regular

variable {m : Module} (hm : m.Regular)
include hm

theorem ofExportName_eq (e : ExportName) :
    Scenario.ofExportName (Bindings.ofModule m) e = m.exportedAs e := by
  rw [Scenario.ofExportName, Bindings.get?_ofModule hm]
  rfl

theorem ofStatement_eq (s : Node) :
    Scenario.ofStatement m (Bindings.ofModule m) s = m.exported s := by
  have hvars : ∀ k : Kind, k.declaresVariables = true ↔
      k = .lexicalDeclaration ∨ k = .variableDeclaration := by
    intro k
    cases k <;> decide
  unfold Scenario.ofStatement Module.exported
  by_cases hk : s.kind = .exportStatement
  · rw [Statement.ofNode_export hk, Statement.ofExport]
    by_cases hdef : s.hasChild .defaultKeyword = true
    · rw [if_pos hdef, if_pos (Or.inr hdef)]
      cases (s.child? .value).or (s.child? .declaration) <;> rfl
    · rw [if_neg hdef, if_neg fun h => h.elim (· hk) hdef]
      cases s.child? .declaration with
      | some d =>
        by_cases hd : d.kind.declaresVariables = true
        · simp only [if_pos hd, if_pos ((hvars _).mp hd), List.map_filterMap]
        · simp only [if_neg hd, if_neg fun h => hd ((hvars _).mpr h)]
      | none =>
        have hout : (s.hasChild .typeKeyword || (s.child? .source).isSome) = true ↔
            s.hasChild .typeKeyword = true ∨ (s.child? .source).isSome = true := Bool.or_eq_true_iff
        cases s.named.find? fun c => c.kind = .exportClause with
        | none => exact (ite_self _).symm
        | some c =>
          by_cases h : (s.hasChild .typeKeyword || (s.child? .source).isSome) = true
          · simp only [if_pos h, if_pos (hout.mp h)]
          · simp only [if_neg h, if_neg fun h' => h (hout.mpr h')]
            exact List.map_congr_left fun e _ => hm.ofExportName_eq e
  · rw [if_pos (Or.inl hk)]
    unfold Statement.ofNode
    cases hkind : s.kind <;> first | rfl | exact absurd hkind hk

/-- **What is looked for in a walk is what the plain pass finds.** -/
theorem exports_eq : Scenario.exports m (Bindings.ofModule m) = m.allExported := by
  rw [Scenario.exports, hm.filter_isTopLevel, List.flatMap_map]
  exact List.flatMap_congr fun s _ => hm.ofStatement_eq s

end Module.Regular

/-- a story is registered where a top-level statement begins -/
theorem Module.start_of_exported {m : Module} {s : Scenario} (h : .story s ∈ m.allExported) :
    ∃ n ∈ m.topLevel, n.start = s.start := by
  obtain ⟨n, hn, hs⟩ := List.mem_flatMap.mp h
  unfold Module.exported at hs
  split at hs
  · cases hs
  split at hs
  · split at hs
    · obtain ⟨name, -, h1⟩ := List.mem_map.mp hs
      rw [← ExportedName.story.inj h1]
      exact ⟨n, hn, rfl⟩
    · cases hs
  split at hs
  · cases hs
  split at hs
  · cases hs
  obtain ⟨e, -, he⟩ := List.mem_map.mp hs
  unfold Module.exportedAs at he
  split at he
  · next b hb =>
    obtain ⟨n', hn', hb', -⟩ := Bindings.mem_topLevel_of_declared? hb
    rw [← ExportedName.story.inj he, hb']
    exact ⟨n', hn', rfl⟩
  · cases he

theorem Module.start_of_scenarios {m : Module} {s : Scenario} (h : s ∈ m.scenarios) :
    ∃ n ∈ m.topLevel, n.start = s.start := by
  obtain ⟨x, hx, hs⟩ := List.mem_filterMap.mp (Scenario.mem_of_mem_fresh h).1
  cases x with
  | skipped name => cases hs
  | story s' =>
    obtain rfl : s' = s := Option.some.inj hs
    exact Module.start_of_exported hx

/-! ## registering -/

namespace Scenario

/-- the line that registers a story -/
def line (tags : Text) (s : Scenario) : Text := registration s.name tags ++ ['\n']

/-- the edit that registers a story -/
def edit (tags : Text) (s : Scenario) : Edit := .insert s.start (s.line tags)

/-- **The lines in front of byte `n`**, in the order in which the stories are exported. -/
def linesAt (tags : Text) (ss : List Scenario) (n : Nat) : Text :=
  (ss.filter fun s => s.start = n).flatMap (line tags)

theorem before_edits (tags : Text) (ss : List Scenario) (n : Nat) :
    Patch.before (ss.map (edit tags)) n = linesAt tags ss n := by
  have h1 : (ss.map (edit tags)).filter (Edit.insertsAt n) =
      (ss.filter fun s => s.start = n).map (edit tags) := List.filter_map
  have h2 : (ss.map (edit tags)).filter (Edit.replacesAt n) = [] :=
    List.filter_eq_nil_iff.mpr fun e he => by
      obtain ⟨s, -, rfl⟩ := List.mem_map.mp he
      exact Bool.false_ne_true
  rw [Patch.before, h1, h2, List.append_nil, List.flatMap_map]
  rfl

theorem keeps_edits (tags : Text) (ss : List Scenario) (n : Nat) :
    Patch.keeps (ss.map (edit tags)) n = true := by
  refine List.all_eq_true.mpr fun e he => ?_
  obtain ⟨s, -, rfl⟩ := List.mem_map.mp he
  rfl

/-- the rest of the line at a boundary is a piece of the text -/
theorem slice_lineFrom {t : Text} {n : Nat} (h : t.isBoundary n = true) :
    t.isBoundary (n + (lineFrom t n).size) = true ∧
      t.slice n (n + (lineFrom t n).size) = lineFrom t n := by
  obtain ⟨u, v, rfl, rfl⟩ := Text.isBoundary_iff.mp h
  have hline : lineFrom (u ++ v) u.size = v.takeWhile (· != '\n') := by
    rw [lineFrom, Text.drop_append]
  obtain ⟨w, hw⟩ : ∃ w, v = v.takeWhile (· != '\n') ++ w := ⟨_, (List.takeWhile_append_dropWhile ..).symm⟩
  rw [hline]
  generalize v.takeWhile (· != '\n') = l at hw
  subst hw
  refine ⟨Text.isBoundary_iff.mpr ⟨u ++ l, w, ?_, Text.size_append u l⟩, Text.slice_append u l w⟩
  exact (List.append_assoc u l w).symm

/-- **A registration is an insertion**, whatever stands on its line. -/
theorem register_eq {tags : Text} {s : Scenario} {r : Progress} (hp : r.patch.Sound)
    (h : r.patch.Admits s.start) (hnew : s.name ∉ r.names) :
    register tags s r =
      .ok ⟨r.names ++ [s.name], r.patch.extend [s.edit tags], r.findings⟩ := by
  have hne : s.line tags ≠ [] := fun h => by
    have h' := congrArg List.length h
    rw [line, List.length_append] at h'
    cases h'
  obtain ⟨h1, h2⟩ := slice_lineFrom h.1
  have hkeep : Edit.ofOverwrite r.patch.text s.start
      (s.start + (lineFrom r.patch.text s.start).size)
      (registration s.name tags ++ '\n' :: lineFrom r.patch.text s.start) = [s.edit tags] := by
    have h3 := Edit.ofOverwrite_keep hne r.patch.text s.start
      (s.start + (lineFrom r.patch.text s.start).size)
    rw [h2, line, List.append_assoc] at h3
    exact h3
  have hover : r.patch.overwrite s.start (s.start + (lineFrom r.patch.text s.start).size)
      (registration s.name tags ++ '\n' :: lineFrom r.patch.text s.start) =
        .ok (r.patch.extend [s.edit tags]) := by
    refine (Patch.overwrite_ok_iff hp).mpr ⟨⟨Nat.le_add_right _ _, h.1, h1⟩, ?_, ?_⟩
    · rw [hkeep]
      intro f hf
      rw [List.mem_singleton.mp hf]
      exact h.apart _
    · rw [hkeep]
      rfl
  have hcontains : r.names.contains s.name = false := by
    rw [List.contains_eq_mem]
    exact decide_eq_false hnew
  unfold register
  rw [hcontains]
  show (Except.mapError Failure.refused (r.patch.overwrite s.start _ _) >>= _) = _
  rw [hover]
  rfl

theorem register_seen {tags : Text} {s : Scenario} {r : Progress} (h : s.name ∈ r.names) :
    register tags s r = .ok r := by
  have hcontains : r.names.contains s.name = true := by
    rw [List.contains_eq_mem]
    exact decide_eq_true h
  unfold register
  rw [hcontains]
  rfl

/-- **Registering stories one after the other** on a patch that admits every one of them. -/
theorem foldlM_take {tags : Text} {xs : List ExportedName} {r : Progress} (hp : r.patch.Sound)
    (h : ∀ s, .story s ∈ xs → r.patch.Admits s.start) :
    xs.foldlM (take tags) r = .ok
      ⟨r.names ++ (fresh r.names (xs.filterMap ExportedName.story?)).map Scenario.name,
        r.patch.extend ((fresh r.names (xs.filterMap ExportedName.story?)).map (edit tags)),
        ⟨r.findings.warnings,
          r.findings.skippedExports ++ xs.filterMap ExportedName.skipped?⟩⟩ := by
  induction xs generalizing r with
  | nil =>
    obtain ⟨names, ⟨text, edits⟩, ⟨ws, ks⟩⟩ := r
    show Except.ok _ = _
    simp only [List.filterMap_nil, fresh, List.map_nil, List.append_nil, Patch.extend]
  | cons x xs ih =>
    have hxs : ∀ s, .story s ∈ xs → r.patch.Admits s.start :=
      fun s hs => h s (List.mem_cons_of_mem _ hs)
    rw [List.foldlM_cons]
    cases x with
    | skipped name =>
      have ih' := ih (r := { r with findings := r.findings.skip name }) hp hxs
      show xs.foldlM (take tags) { r with findings := r.findings.skip name } = _
      rw [ih']
      simp only [Findings.skip, List.append_assoc]
      rfl
    | story s =>
      show (register tags s r >>= _) = _
      have hstories : (ExportedName.story s :: xs).filterMap ExportedName.story? =
          s :: xs.filterMap ExportedName.story? := rfl
      rw [hstories, fresh]
      by_cases hs : s.name ∈ r.names
      · rw [register_seen hs, if_pos hs]
        exact ih hp hxs
      · have hadm := h s List.mem_cons_self
        have hsound := hp.extend_insert hadm (s.line tags)
        rw [register_eq hp hadm hs, if_neg hs]
        show xs.foldlM (take tags) _ = _
        rw [ih hsound fun s' hs' => (hxs s' hs').extend fun e he => ⟨_, _, List.mem_singleton.mp he⟩]
        simp only [List.map_cons, Patch.extend, List.append_assoc, List.singleton_append]
        rfl

end Scenario

/-! ## the stories of a module -/

variable {m : Module}

/-- **What is registered on a patch that admits every statement**: the stories of the module. -/
theorem Module.Regular.registerAll_eq (hm : m.Regular) (tags : Text) {p : Patch} (f : Findings)
    (hp : p.Sound) (hadm : ∀ s ∈ m.topLevel, p.Admits s.start) :
    Scenario.registerAll m (Bindings.ofModule m) tags p f = .ok
      ⟨m.scenarios.map Scenario.name, p.extend (m.scenarios.map (Scenario.edit tags)),
        ⟨f.warnings, f.skippedExports ++ m.skippedExports⟩⟩ := by
  have hall : ∀ s, .story s ∈ m.allExported → p.Admits s.start := by
    intro s hs
    obtain ⟨n, hn, hstart⟩ := Module.start_of_exported hs
    exact hstart ▸ hadm n hn
  rw [Scenario.registerAll, hm.exports_eq, Scenario.foldlM_take hp hall]
  rfl

/-- **What is registered in a regular module without other edits**: its stories and nothing else,
each by one line in front of the statement that declares it. -/
theorem Scenario.registerAll_ofText (hm : m.Regular) (tags : Text) (f : Findings) :
    ∃ r, registerAll m (Bindings.ofModule m) tags (Patch.ofText m.text) f = .ok r ∧
      r.names = m.scenarios.map Scenario.name ∧ r.names.Nodup ∧
      r.findings = { f with skippedExports := f.skippedExports ++ m.skippedExports } ∧
      r.patch.edits = m.scenarios.map (edit tags) ∧
      r.patch.render =
        m.text.weave (linesAt tags m.scenarios) 0 ++ linesAt tags m.scenarios m.text.size ∧
      (r.patch.isEmpty = true ↔ r.names = []) := by
  have hadm : ∀ s ∈ m.topLevel, (Patch.ofText m.text).Admits s.start := fun s hs =>
    ⟨hm.boundary_start (Module.has_of_topLevel hs), fun e he => absurd he List.not_mem_nil⟩
  have hsound := Patch.sound_ofText m.text
  have hext : ((Patch.ofText m.text).extend (m.scenarios.map (edit tags))).Sound :=
    hsound.extend fun e he => by
      obtain ⟨s, hs, rfl⟩ := List.mem_map.mp he
      obtain ⟨n, hn, hstart⟩ := Module.start_of_scenarios hs
      exact ⟨_, _, rfl, hstart ▸ hadm n hn⟩
  refine ⟨_, hm.registerAll_eq tags f hsound hadm, rfl, nodup_fresh _ _, rfl, rfl, ?_, ?_⟩
  · rw [Patch.render_eq_passage hext]
    show Patch.passage (m.scenarios.map (edit tags)) 0 m.text ++
      Patch.before (m.scenarios.map (edit tags)) m.text.size = _
    rw [before_edits, Patch.passage_eq_weave fun n _ _ =>
      ⟨before_edits tags m.scenarios n, keeps_edits tags m.scenarios n⟩]
  · show (m.scenarios.map (edit tags)).isEmpty = true ↔ m.scenarios.map Scenario.name = []
    rw [List.isEmpty_iff, List.map_eq_nil_iff, List.map_eq_nil_iff]

/-- **What is registered in a text without other edits**: the stories of its module, in the order
they are exported, each by one line in front of the statement that declares it. -/
theorem Scenario.registerAll_scenarios (id text tags : Text) (f : Findings) :
    let m := Module.read id text
    ∃ r, registerAll m (Bindings.ofModule m) tags (Patch.ofText text) f = .ok r ∧
      r.names = m.scenarios.map Scenario.name ∧ r.names.Nodup ∧
      r.findings = { f with skippedExports := f.skippedExports ++ m.skippedExports } ∧
      r.patch.edits = m.scenarios.map (edit tags) ∧
      r.patch.render =
        text.weave (linesAt tags m.scenarios) 0 ++ linesAt tags m.scenarios text.size ∧
      (r.patch.isEmpty = true ↔ r.names = []) :=
  registerAll_ofText (Module.regular_read id text) tags f

end StorySuite
