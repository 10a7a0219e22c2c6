import StorySuite.Proofs.Json.Written
import StorySuite.Proofs.Story.Names
import StorySuite.Proofs.Text.Quoted
import StorySuite.Settings.Basic
import StorySuite.Story.Meta

/-!
# Names, titles and filters that are read back

What is put into a module are literals: names and titles between single quotes, and a filter as
JSON.  Each is read up to where it ends, whatever follows, so a registration is read from its front
on, and two of them are the same only if they register the same.

* `TagFilter.reader_render`             the filter at the front of a text;
* `Settings.read_tagged`                **settings have the filter that is written as their tags**;
* `Scenario.readRegistration?`          the registration at the front of a text;
* `Scenario.oneLine_registration`       a registration is on one line;
* `Scenario.readRegistration?_append`   **what is registered is read back, whatever follows it**;
* `Scenario.registration_readBack`      what holds of all that is put into a module.
-/

namespace StorySuite

/-! ## filters -/

namespace Json

theorem oneLine_escapeChar (c : Char) : (escapeChar c).OneLine := by
  have hdigits : ∀ k : Fin 32, Text.OneLine ['\\', 'u', '0', '0', hexDigit (k.val / 16),
      hexDigit (k.val % 16)] := by decide +kernel
  unfold escapeChar
  split
  · decide
  split
  · decide
  split
  · decide
  split
  · decide
  split
  · decide
  split
  · decide
  split
  · decide
  split
  case isTrue hc => exact hdigits ⟨c.toNat, hc⟩
  next hn hr _ _ _ _ => exact Text.oneLine_singleton hn hr

theorem oneLine_quote (t : Text) : (quote t).OneLine := by
  have hquote : Text.OneLine ['"'] := by decide
  exact Text.oneLine_append.mpr
    ⟨Text.oneLine_cons.mpr ⟨by decide, Text.oneLine_flatMap oneLine_escapeChar t⟩, hquote⟩

theorem oneLine_comma (first : Bool) : Text.OneLine (if first then [] else [',']) := by
  cases first <;> decide

theorem oneLine_strings (ts : List Text) : (strings ts).compact.OneLine := by
  have hitems : ∀ first, (compactItems first (ts.map string)).OneLine := by
    induction ts with
    | nil => exact fun _ => nofun
    | cons t ts ih =>
      intro first
      rw [List.map_cons, compactItems, compact]
      exact Text.oneLine_append.mpr
        ⟨Text.oneLine_append.mpr ⟨oneLine_comma first, oneLine_quote t⟩, ih false⟩
  rw [strings, compact]
  exact Text.oneLine_append.mpr ⟨Text.oneLine_cons.mpr ⟨by decide, hitems true⟩, by decide⟩

theorem oneLine_object {fs : List (Text × Json)} (h : ∀ f ∈ fs, f.2.compact.OneLine) :
    (object fs).compact.OneLine := by
  have hfields : ∀ first, (compactFields first fs).OneLine := by
    induction fs with
    | nil => exact fun _ => nofun
    | cons f fs ih =>
      intro first
      obtain ⟨hf, hfs⟩ := List.forall_mem_cons.mp h
      simp only [compactFields, Text.oneLine_append, Text.oneLine_cons]
      exact ⟨⟨⟨oneLine_comma first, oneLine_quote f.1⟩, by decide, hf⟩, ih hfs false⟩
  rw [compact]
  exact Text.oneLine_append.mpr ⟨Text.oneLine_cons.mpr ⟨by decide, hfields true⟩, by decide⟩

end Json

namespace TagFilter

open Json Json.Reader

def fieldsOf (f : TagFilter) : List (Text × Json) :=
  [("include".toList, .strings f.included), ("exclude".toList, .strings f.excluded),
    ("skip".toList, .strings f.skipped)]

theorem toJson_eq (f : TagFilter) : f.toJson = .object f.fieldsOf := rfl

theorem oneLine_render (f : TagFilter) : f.render.OneLine := by
  rw [render, toJson_eq]
  refine oneLine_object ?_
  simp only [fieldsOf, List.forall_mem_cons]
  exact ⟨oneLine_strings _, oneLine_strings _, oneLine_strings _, nofun⟩

theorem fills_fieldsOf (f : TagFilter) {levels : Nat} (hl : 2 ≤ levels) (g : TagFilter) :
    Fills members levels (written f.fieldsOf) g f :=
  .field _ _ rfl (gives_free (gives_strings _ hl (listOf_strings f.included)) _ _)
    (.field _ _ rfl (gives_free (gives_strings _ hl (listOf_strings f.excluded)) _ _)
      (.field _ _ rfl (gives_free (gives_strings _ hl (listOf_strings f.skipped)) _ _) (.done _)))

/-- **The filter at the front of a text.** -/
theorem reader_render (f : TagFilter) {levels : Nat} (hl : 3 ≤ levels) {w : Text} (hw : Blanks w)
    (rest : Text) : reader levels (w ++ (f.render ++ rest)) = .ok (f, rest) :=
  record_object _ (by omega) (f.fills_fieldsOf (by omega) standard)
    (nodup_known _ (by simp [written, fieldsOf])) (by simp [members, Member.free])
    (objectOf_compact f.fieldsOf) hw rest

end TagFilter

namespace Settings

open Json Json.Reader

/-- the text of settings that only have tags, as they are written -/
def tagged (tags : Text) : Text := '\x7b' :: "\"tags\":".toList ++ tags ++ ['\x7d']

theorem tagged_render (f : TagFilter) :
    tagged f.render = (object [("tags".toList, f.toJson)]).compact := by
  have hquote : quote "tags".toList ++ [':'] = "\"tags\":".toList := by decide
  have hfield : compactFields true [("tags".toList, f.toJson)] =
      quote "tags".toList ++ [':'] ++ f.render := by
    simp only [compactFields, if_true, List.nil_append, List.append_nil, List.append_assoc,
      List.singleton_append, TagFilter.render]
  rw [compact, hfield, hquote]
  rfl

/-- **Settings have the filter that is written as their tags.** -/
theorem read_tagged (f : TagFilter) : read (tagged f.render) = .ok ⟨none, some f, []⟩ := by
  have htags : (optional TagFilter.reader).Gives (maxLevels - 1) f.render (some f) :=
    gives_optional (fun _ rest hw _ => f.reader_render (by decide) hw rest)
      ⟨'\x7b', compactFields true f.fieldsOf ++ ['\x7d'], rfl, rfl, by decide⟩
  have hfields : Fills members (maxLevels - 1) (written [("tags".toList, f.toJson)]) empty
      ⟨none, some f, []⟩ := .field _ _ rfl (gives_free htags _ _) (.done _)
  have hread : reader maxLevels ([] ++ (tagged f.render ++ [])) = .ok (⟨none, some f, []⟩, []) := by
    rw [tagged_render]
    exact record_object _ (by decide) hfields (nodup_known _ (by simp [written]))
      (by simp [members, Member.free]) (objectOf_compact _) blanks_nil []
  rw [List.nil_append, List.append_nil] at hread
  exact run_eq_ok blanks_nil hread

end Settings

/-! ## registrations -/

theorem Text.dropPrefix?_append (s t : Text) : (s ++ t).dropPrefix? s = some t :=
  List.dropPrefix?_eq_some_iff.mpr ⟨s, rfl, beq_self_eq_true s⟩

namespace Scenario

/-- **The registration at the front of a text**: what it registers, and what follows it. -/
def readRegistration? (t : Text) : Option ((Text × TagFilter) × Text) := do
  let (name, t) ← Quoted.read? (← t.dropPrefix? "__test(")
  let (again, t) ← Quoted.read? (← t.dropPrefix? ", __testStory(")
  if again ≠ name then none
  let (tags, t) ←
    (TagFilter.reader Json.maxLevels
      (← t.dropPrefix? ", import.meta.url, __composeStories, ")).toOption
  return ((name, tags), ← t.dropPrefix? "));")

/-- **What is registered is read back, whatever follows it.** -/
theorem readRegistration?_append (name : Text) (f : TagFilter) (rest : Text) :
    readRegistration? (registration name f.render ++ rest) = some ((name, f), rest) := by
  have hassoc : registration name f.render ++ rest = "__test(" ++ (Quoted.encode name ++
      (", __testStory(" ++ (Quoted.encode name ++ (", import.meta.url, __composeStories, " ++
        (f.render ++ ("));" ++ rest)))))) := by
    unfold registration
    simp only [List.append_assoc]
  have htags : TagFilter.reader Json.maxLevels (f.render ++ ("));" ++ rest)) =
      .ok (f, "));" ++ rest) := f.reader_render (by decide) Json.blanks_nil _
  simp only [readRegistration?, hassoc, Text.dropPrefix?_append, Quoted.read?_encode, htags,
    Option.bind_eq_bind, Option.bind_some, Except.toOption]
  exact if_neg fun h => h rfl

/-- **A registration is on one line.** -/
theorem oneLine_registration (name : Text) (f : TagFilter) :
    (registration name f.render).OneLine := by
  have hquoted := Quoted.oneLine_encode name
  have htags := f.oneLine_render
  unfold registration
  simp only [Text.oneLine_append]
  exact ⟨⟨⟨⟨⟨⟨by decide, hquoted⟩, by decide⟩, hquoted⟩, by decide⟩, htags⟩, by decide⟩

theorem registration_inj {name name' : Text} {f f' : TagFilter}
    (h : registration name' f'.render = registration name f.render) : name' = name ∧ f' = f := by
  have hread := readRegistration?_append name' f' []
  rw [h, readRegistration?_append] at hread
  obtain ⟨hname, hf⟩ := Prod.mk.inj (Prod.mk.inj (Option.some.inj hread)).1
  exact ⟨hname.symm, hf.symm⟩

/-- **All that is put into a module is read back.**  A name or title in its quotes is a literal for
it, which ends where it was closed; a registration is on one line, and no other story and no other
filter has the same; and its filter is the one of settings with these tags. -/
theorem registration_readBack (name : Text) (f : TagFilter) :
    Spelling.value? (Quoted.encode name) = some (Spelling.utf16 name) ∧
      Quoted.decode? (Quoted.encode name) = some name ∧
      ((Meta.titleProperty name).dropPrefix? " title: ").bind Quoted.read? = some (name, [',']) ∧
      (registration name f.render).OneLine ∧
      (∀ rest, readRegistration? (registration name f.render ++ rest) = some ((name, f), rest)) ∧
      (∀ name' f', registration name' f'.render = registration name f.render →
        name' = name ∧ f' = f) ∧
      Settings.read (Settings.tagged f.render) = .ok ⟨none, some f, []⟩ := by
  have htitle : ((Meta.titleProperty name).dropPrefix? " title: ").bind Quoted.read? =
      some (name, [',']) := by
    unfold Meta.titleProperty
    rw [List.append_assoc, Text.dropPrefix?_append, Option.bind_some]
    exact Quoted.read?_encode name _
  exact ⟨Spelling.value?_encode name, Quoted.decode?_encode name, htitle,
    oneLine_registration name f, readRegistration?_append name f, fun _ _ h => registration_inj h,
    Settings.read_tagged f⟩

end Scenario

end StorySuite
