import StorySuite.Proofs.Json.Skipped
import StorySuite.SourceMap.Reading

/-!
# Source maps, written and read

What an object says of a source map does not depend on the order of its fields, on those with other
names, or on how their values are spelled.  So the objects that describe a map are told first, and
its own text is one of them.

* `SourceMap.Says`, `SourceMap.Describes`   what is said of a map by a value, and by the fields of an
                                            object;
* `SourceMap.Describes.isGiven_eq`          what is given there is what there is of the map;
* `SourceMap.describes_fieldTexts`          a map is described by what it is written with;
* `SourceMap.read_object`                   **a map is read from any object that describes it**;
* `SourceMap.read_render`                   a map is read back from its text;
* `SourceMap.json_roundtrip`                **both, with the fields of the text that is written**.
-/

namespace StorySuite.SourceMap

open Json Json.Reader

/-! ## descriptions -/

/-- the fields of a source map -/
inductive Key where
  | version
  | file
  | sources
  | sourcesContent
  | names
  | mappings
  deriving DecidableEq, Repr

def Key.name : Key → Text
  | version => "version"
  | file => "file"
  | sources => "sources"
  | sourcesContent => "sourcesContent"
  | names => "names"
  | mappings => "mappings"

/-- the fields in the order in which they are written -/
def Key.all : List Key := [version, file, sources, sourcesContent, names, mappings]

theorem Key.mem_all (k : Key) : k ∈ all := by
  cases k <;> decide

theorem Key.name_inj {k k' : Key} (h : k.name = k'.name) : k = k' := by
  have hall : ∀ k ∈ all, ∀ k' ∈ all, k.name = k'.name → k = k' := by decide
  exact hall k (mem_all k) k' (mem_all k') h

/-- what stands for a value that is not given -/
def nullText : Text := ['n', 'u', 'l', 'l']

/-- `v` is written as the value of a field of `m`. -/
def Says (m : SourceMap) : Key → Text → Prop
  | .version, v => v = Text.ofNat m.version.toNat
  | .file, v => OrNull Quotes m.file v
  | .sources, v => ListOf Quotes m.sources v
  | .sourcesContent, v => OrNull (ListOf Quotes) m.sourcesContent v
  | .names, v => ListOf Quotes m.names v
  | .mappings, v => Quotes m.mappings v

/-- what a field of an object says; one of another name says nothing and has any value -/
inductive Tells (m : SourceMap) : Text × Text → Prop
  | field (k : Key) {v : Text} (h : m.Says k v) : Tells m (k.name, v)
  | other {key v : Text} (unknown : ∀ k : Key, key ≠ k.name) (h : Value v) : Tells m (key, v)

/-- **The fields of an object describe `m`**, in any order and with any others between them.  Each is
there once at most, and those that are left out could as well be `null`. -/
structure Describes (m : SourceMap) (fs : List (Text × Text)) : Prop where
  tells : ∀ f ∈ fs, m.Tells f
  once : ((fs.map (·.1)).filter (· ∈ Key.all.map Key.name)).Nodup
  leftOut : ∀ k : Key, k.name ∉ fs.map (·.1) → m.Says k nullText

/-- a field is there and not `null` -/
def isGiven (fs : List (Text × Text)) (k : Key) : Bool :=
  fs.any fun f => f.1 = k.name && f.2 ≠ nullText

theorem Tells.said {m : SourceMap} {k : Key} {v : Text} (h : m.Tells (k.name, v)) : m.Says k v := by
  generalize hf : (k.name, v) = f at h
  cases h with
  | field k' h =>
    obtain ⟨hk, rfl⟩ := Prod.mk.inj hf
    exact Key.name_inj hk ▸ h
  | other unknown =>
    obtain ⟨rfl, -⟩ := Prod.mk.inj hf
    exact absurd rfl (unknown k)

/-! ## what is given -/

theorem not_quotes_null {s : Text} : ¬ Quotes s nullText := by
  rintro ⟨u, -, h⟩
  exact absurd (List.cons.inj h).1 (by decide)

theorem not_listOf_null {ts : List Text} : ¬ ListOf Quotes ts nullText := by
  rintro ⟨u, -, h⟩
  exact absurd (List.cons.inj h).1 (by decide)

theorem orNull_null_iff {α : Type} {P : α → Text → Prop} (hP : ∀ a, ¬ P a nullText) {a : Option α} :
    OrNull P a nullText ↔ a = none := by
  constructor
  · intro h
    generalize hv : nullText = v at h
    cases h with
    | null => rfl
    | given h => exact absurd (hv ▸ h) (hP _)
  · rintro rfl
    exact .null

theorem ofNat_ne_null (b : UInt8) : nullText ≠ Text.ofNat b.toNat := by
  have hall : ∀ n : Fin 256, nullText ≠ Text.ofNat n.val := by decide +kernel
  exact hall ⟨b.toNat, b.toNat_lt⟩

/-- the value that a field of `m` is written with, if it is -/
def valueOf? (m : SourceMap) : Key → Option Json
  | .version => some (Json.ofNat m.version.toNat)
  | .file => m.file.map .string
  | .sources => some (.strings m.sources)
  | .sourcesContent => m.sourcesContent.map .strings
  | .names => some (.strings m.names)
  | .mappings => some (.string m.mappings)

theorem says_null_iff (m : SourceMap) (k : Key) : m.Says k nullText ↔ m.valueOf? k = none := by
  cases k with
  | version => exact iff_of_false (ofNat_ne_null m.version) nofun
  | file => exact (orNull_null_iff fun _ => not_quotes_null).trans Option.map_eq_none_iff.symm
  | sources => exact iff_of_false not_listOf_null nofun
  | sourcesContent => exact (orNull_null_iff fun _ => not_listOf_null).trans Option.map_eq_none_iff.symm
  | names => exact iff_of_false not_listOf_null nofun
  | mappings => exact iff_of_false not_quotes_null nofun

theorem eq_null_of_said {m : SourceMap} {k : Key} {v : Text} (h : m.Says k v)
    (hnone : m.valueOf? k = none) : v = nullText := by
  have horNull : ∀ {α : Type} {P : α → Text → Prop} {a : Option α}, OrNull P a v → a = none →
      v = nullText := by
    rintro α P a (_ | _) ha
    · rfl
    · cases ha
  cases k with
  | version | sources | names | mappings => cases hnone
  | file | sourcesContent => exact horNull h (Option.map_eq_none_iff.mp hnone)

/-- what there is of the map is told -/
theorem Describes.there {m : SourceMap} {fs : List (Text × Text)} (h : m.Describes fs) {k : Key}
    (hk : m.valueOf? k ≠ none) : k.name ∈ fs.map (·.1) :=
  Decidable.byContradiction fun hout => hk ((says_null_iff m k).mp (h.leftOut k hout))

/-- what is given is what there is of the map -/
theorem Describes.isGiven_eq {m : SourceMap} {fs : List (Text × Text)} (h : m.Describes fs) (k : Key) :
    isGiven fs k = (m.valueOf? k).isSome := by
  rw [Bool.eq_iff_iff, isGiven, List.any_eq_true, Option.isSome_iff_ne_none]
  constructor
  · rintro ⟨⟨key, v⟩, hf, hgiven⟩ hnone
    rw [Bool.and_eq_true, decide_eq_true_eq, decide_eq_true_eq] at hgiven
    obtain ⟨rfl, hv⟩ := hgiven
    exact hv (eq_null_of_said (h.tells _ hf).said hnone)
  · intro hsome
    obtain ⟨⟨key, v⟩, hf, rfl⟩ := List.mem_map.mp (h.there hsome)
    refine ⟨_, hf, ?_⟩
    rw [Bool.and_eq_true, decide_eq_true_eq, decide_eq_true_eq]
    refine ⟨rfl, ?_⟩
    rintro rfl
    exact hsome ((says_null_iff m k).mp (h.tells _ hf).said)

/-! ## what is written -/

def fieldsOf (m : SourceMap) : List (Text × Json) :=
  Key.all.filterMap fun k => (m.valueOf? k).map fun v => (k.name, v)

/-- the same with their values as they are written -/
def fieldTexts (m : SourceMap) : List (Text × Text) := written m.fieldsOf

theorem toJson_eq (m : SourceMap) : m.toJson = .object m.fieldsOf := by
  obtain ⟨version, file, sources, contents, names, mappings⟩ := m
  cases file <;> cases contents <;> rfl

theorem objectOf_render (m : SourceMap) : ObjectOf m.fieldTexts m.render := by
  rw [render, toJson_eq]
  exact objectOf_compact m.fieldsOf

theorem render_eq_join (m : SourceMap) : m.render =
    '\x7b' :: (Text.join [','] (m.fieldTexts.map fieldText) ++ ['\x7d']) := by
  rw [render, toJson_eq, compact, compactFields_eq_join]
  rfl

theorem keys_fieldTexts (m : SourceMap) : m.fieldTexts.map (·.1) =
    (Key.all.filter fun k => (m.valueOf? k).isSome).map Key.name := by
  rw [fieldTexts, written, List.map_map, fieldsOf]
  induction Key.all with
  | nil => rfl
  | cons k ks ih =>
    cases hv : m.valueOf? k with
    | none => rw [List.filterMap_cons_none (by rw [hv]; rfl), List.filter_cons_of_neg (by simp [hv]), ih]
    | some v =>
      rw [List.filterMap_cons_some (by rw [hv]; rfl), List.filter_cons_of_pos (by simp [hv]),
        List.map_cons, List.map_cons, ih]
      rfl

theorem says_valueOf {m : SourceMap} {k : Key} {v : Json} (h : m.valueOf? k = some v) :
    m.Says k v.compact := by
  cases k with
  | version =>
    obtain rfl := Option.some.inj h
    rfl
  | sources =>
    obtain rfl := Option.some.inj h
    exact listOf_strings m.sources
  | names =>
    obtain rfl := Option.some.inj h
    exact listOf_strings m.names
  | mappings =>
    obtain rfl := Option.some.inj h
    exact quotes_quote m.mappings
  | file =>
    obtain ⟨t, ht, rfl⟩ := Option.map_eq_some_iff.mp h
    show OrNull Quotes m.file _
    rw [ht]
    exact .given (quotes_quote t)
  | sourcesContent =>
    obtain ⟨ts, hts, rfl⟩ := Option.map_eq_some_iff.mp h
    show OrNull (ListOf Quotes) m.sourcesContent _
    rw [hts]
    exact .given (listOf_strings ts)

/-- a map is described by what it is written with -/
theorem describes_fieldTexts (m : SourceMap) : m.Describes m.fieldTexts where
  tells := by
    intro f hf
    obtain ⟨g, hg, rfl⟩ := List.mem_map.mp hf
    obtain ⟨k, -, hk⟩ := List.mem_filterMap.mp hg
    obtain ⟨v, hv, rfl⟩ := Option.map_eq_some_iff.mp hk
    exact .field k (says_valueOf hv)
  once := by
    have hall : (Key.all.map Key.name).Nodup := by decide
    rw [keys_fieldTexts]
    exact (hall.sublist (List.filter_sublist.map _)).filter _
  leftOut := by
    intro k hk
    rw [says_null_iff, ← Option.not_isSome_iff_eq_none]
    intro hv
    rw [keys_fieldTexts] at hk
    exact hk (List.mem_map.mpr ⟨k, List.mem_filter.mpr ⟨k.mem_all, hv⟩, rfl⟩)

/-! ## what is read -/

/-- what there is of `m` in some of its fields -/
def restrict (m : SourceMap) (ks : List Key) : SourceMap where
  version := bif ks.contains .version then m.version else 0
  file := bif ks.contains .file then m.file else none
  sources := bif ks.contains .sources then m.sources else []
  sourcesContent := bif ks.contains .sourcesContent then m.sourcesContent else none
  names := bif ks.contains .names then m.names else []
  mappings := bif ks.contains .mappings then m.mappings else []

theorem gives_orNull {α : Type} {r : Json.Reader α} {P : α → Text → Prop} {levels : Nat}
    (hP : ∀ a v, P a v → r.Gives levels v a ∧ ∃ c t, v = c :: t ∧ isBlank c = false ∧ c ≠ 'n')
    {a : Option α} {v : Text} (h : OrNull P a v) : (optional r).Gives levels v a := by
  cases h with
  | null => exact gives_null r levels
  | given h => exact gives_optional (hP _ _ h).1 (hP _ _ h).2

/-- **What is said of a map by one field is what is read from it.** -/
theorem reads_key {m : SourceMap} {k : Key} {v : Text} (h : m.Says k v) {levels : Nat}
    (hl : 2 ≤ levels) : ∃ x put, members.find? (·.key = k.name) = some x ∧
      x.read.Gives levels v put ∧ ∀ ks, put (m.restrict ks) = m.restrict (k :: ks) := by
  cases k with
  | version =>
    have hv : byte.Gives levels v m.version := by
      rw [show v = _ from h]
      exact gives_byte levels m.version
    exact ⟨_, _, rfl, gives_needed hv _ _, fun _ => rfl⟩
  | file =>
    refine ⟨_, _, rfl, gives_free (gives_orNull (fun t v hv => ⟨gives_text _ levels hv, ?_⟩) h) _ _,
      fun _ => rfl⟩
    obtain ⟨u, -, rfl⟩ := hv
    exact ⟨'"', _, rfl, rfl, by decide⟩
  | sources => exact ⟨_, _, rfl, gives_needed (gives_strings _ hl h) _ _, fun _ => rfl⟩
  | sourcesContent =>
    refine ⟨_, _, rfl, gives_free (gives_orNull (fun ts v hv => ⟨gives_strings _ hl hv, ?_⟩) h) _ _,
      fun _ => rfl⟩
    obtain ⟨u, -, rfl⟩ := hv
    exact ⟨'[', _, rfl, rfl, by decide⟩
  | names => exact ⟨_, _, rfl, gives_needed (gives_strings _ hl h) _ _, fun _ => rfl⟩
  | mappings => exact ⟨_, _, rfl, gives_needed (gives_text _ levels h) _ _, fun _ => rfl⟩

theorem isSome_find?_iff (key : Text) :
    (members.find? (·.key = key)).isSome ↔ key ∈ Key.all.map Key.name := by
  have hkeys : Key.all.map Key.name = members.map (·.key) := rfl
  rw [hkeys, List.find?_isSome, List.mem_map]
  simp only [decide_eq_true_eq]

/-- fields that tell of `m` fill in what they tell -/
theorem fills_of_tells {m : SourceMap} {levels : Nat} (hl : 2 ≤ levels) (fs : List (Text × Text))
    (h : ∀ f ∈ fs, m.Tells f) (ks : List Key) :
    ∃ ks', Fills members levels fs (m.restrict ks) (m.restrict ks') ∧
      ∀ k, k ∈ ks' ↔ k ∈ ks ∨ k.name ∈ fs.map (·.1) := by
  induction fs generalizing ks with
  | nil => exact ⟨ks, .done _, fun k => by simp⟩
  | cons f fs ih =>
    obtain ⟨hf, hfs⟩ := List.forall_mem_cons.mp h
    cases hf with
    | @field k v hv =>
      obtain ⟨x, put, hx, hreads, hput⟩ := reads_key hv hl
      obtain ⟨ks', hfills, hks⟩ := ih hfs (k :: ks)
      refine ⟨ks', .field x put hx hreads (hput ks ▸ hfills), fun k' => ?_⟩
      have hname : k' = k ↔ k'.name = k.name := ⟨congrArg _, Key.name_inj⟩
      rw [hks, List.map_cons, List.mem_cons, List.mem_cons, hname]
      rw [or_assoc, or_left_comm]
    | @other key v unknown hv =>
      obtain ⟨ks', hfills, hks⟩ := ih hfs ks
      have hx : members.find? (·.key = key) = none := by
        rw [← Option.not_isSome_iff_eq_none, isSome_find?_iff]
        intro hmem
        obtain ⟨k, -, hk⟩ := List.mem_map.mp hmem
        exact unknown k hk.symm
      refine ⟨ks', .other hx (skips_value hv) hfills, fun k' => ?_⟩
      rw [hks, List.map_cons, List.mem_cons, or_iff_right (Ne.symm (unknown k'))]

theorem restrict_eq {m : SourceMap} {ks : List Key} (h : ∀ k, m.valueOf? k ≠ none → k ∈ ks) :
    m.restrict ks = m := by
  have hgiven : ∀ k, m.valueOf? k ≠ none → ks.contains k = true := fun k hk => by
    rw [List.contains_eq_mem]
    exact decide_eq_true (h k hk)
  obtain ⟨version, file, sources, contents, names, mappings⟩ := m
  have hfile : (bif ks.contains .file then file else none) = file := by
    cases file with
    | none => exact Bool.cond_self _ _
    | some t => rw [hgiven .file nofun, cond_true]
  have hcontents : (bif ks.contains .sourcesContent then contents else none) = contents := by
    cases contents with
    | none => exact Bool.cond_self _ _
    | some ts => rw [hgiven .sourcesContent nofun, cond_true]
  simp only [restrict, hgiven .version nofun, hgiven .sources nofun, hgiven .names nofun,
    hgiven .mappings nofun, hfile, hcontents, cond_true]

/-- **A map is read from any object that describes it.** -/
theorem read_object {m : SourceMap} {fs : List (Text × Text)} (h : m.Describes fs) {t w w' : Text}
    (ht : ObjectOf fs t) (hw : Blanks w) (hw' : Blanks w') : read (w ++ (t ++ w')) = .ok m := by
  have hl : 2 ≤ maxLevels - 1 := by decide
  obtain ⟨ks, hfills, hks⟩ := fills_of_tells hl fs h.tells []
  have hall : m.restrict ks = m := restrict_eq fun k hk => (hks k).mpr (.inr (h.there hk))
  have hnodup : (known members fs).Nodup := by
    rw [known, List.filter_congr fun key _ => Bool.eq_iff_iff.mpr
      ((isSome_find?_iff key).trans decide_eq_true_iff.symm)]
    exact h.once
  have hneeded : ∀ x ∈ members, x.required → x.key ∈ fs.map (·.1) := by
    have hthere : ∀ k v, m.valueOf? k = some v → k.name ∈ fs.map (·.1) := fun k v hv =>
      h.there (hv ▸ Option.some_ne_none v)
    simp only [members, List.forall_mem_cons]
    exact ⟨fun _ => hthere .version _ rfl, fun hr => absurd hr Bool.false_ne_true,
      fun _ => hthere .sources _ rfl, fun hr => absurd hr Bool.false_ne_true,
      fun _ => hthere .names _ rfl, fun _ => hthere .mappings _ rfl,
      fun _ hx => absurd hx List.not_mem_nil⟩
  rw [hall] at hfills
  exact run_eq_ok hw' (record_object _ (by decide) hfills hnodup hneeded ht hw w')

/-- **A source map is read back from its text.** -/
theorem read_render (m : SourceMap) : read m.render = .ok m := by
  have hread := read_object m.describes_fieldTexts m.objectOf_render blanks_nil blanks_nil
  rwa [List.nil_append, List.append_nil] at hread

/-- **Source maps are written and read.**  A map is read back from its text.  It is also read from any
object that describes it, with its fields in any order, with others between them and with blanks
anywhere; and the text of the map that is read has the fields that are given there, in the order of
`Key.all`. -/
theorem json_roundtrip (m : SourceMap) :
    read m.render = .ok m ∧
      ∀ fs t w w', Blanks w → Blanks w' → ObjectOf fs t → m.Describes fs →
        read (w ++ (t ++ w')) = .ok m ∧
          m.render = '\x7b' :: (Text.join [','] (m.fieldTexts.map fieldText) ++ ['\x7d']) ∧
          m.Describes m.fieldTexts ∧
          m.fieldTexts.map (·.1) = (Key.all.filter (isGiven fs)).map Key.name := by
  refine ⟨m.read_render, fun fs t w w' hw hw' ht h => ?_⟩
  refine ⟨read_object h ht hw hw', m.render_eq_join, m.describes_fieldTexts, ?_⟩
  rw [m.keys_fieldTexts, List.filter_congr fun k _ => (h.isGiven_eq k).symm]

/-- fields in another order, one that is `null`, one that is left out and one of another name -/
def shuffled : List (Text × Text) :=
  [("mappings", "\"\""), ("x", "[1e9,null]"), ("sources", "[ \"\\u0061\" ]"), ("file", "null"),
    ("version", "3"), ("names", "[]")].map fun f => (f.1.toList, f.2.toList)

theorem describes_shuffled :
    Describes ⟨3, none, [['a']], none, [], []⟩ shuffled := by
  have hvalue : Value "[1e9,null]".toList := by
    have hone : Value "1e9".toList :=
      .positive (.mk (.other (t := []) rfl (by decide) nofun) .none
        (.some (s := []) (.inl rfl) (.inl rfl) ⟨nofun, List.forall_mem_singleton.mpr rfl⟩))
    refine .list (row_join (P := Eq) (f := id) (fun _ => rfl) ["1e9".toList, nullText]) ?_
    exact List.forall_mem_cons.mpr ⟨hone, List.forall_mem_cons.mpr ⟨.null, nofun⟩⟩
  have hsources : ListOf Quotes [['a']] "[ \"\\u0061\" ]".toList := by
    have hdigit : ∀ n < 16, HexDigit n (Nat.digitChar n) := fun n hn => ⟨hn, .inl rfl⟩
    have hunit : Hex4 'a'.toNat "0061".toList :=
      .digits (hdigit 0 (by decide)) (hdigit 0 (by decide)) (hdigit 6 (by decide))
        (hdigit 1 (by decide))
    have hrow : Row Quotes [['a']] ([' '] ++ ("\"\\u0061\"".toList ++ [' '])) :=
      .one (by decide) ⟨_, .cons (.unit hunit) .nil, rfl⟩ (by decide)
    exact ⟨_, hrow, rfl⟩
  refine ⟨?_, by decide, ?_⟩
  · simp only [shuffled, List.map_cons, List.forall_mem_cons]
    exact ⟨.field .mappings ⟨_, .nil, rfl⟩, .other (fun k => by cases k <;> decide) hvalue,
      .field .sources hsources, .field .file .null, .field .version rfl,
      .field .names ⟨_, .nil blanks_nil, rfl⟩, nofun⟩
  · intro k hk
    cases k with
    | sourcesContent => exact .null
    | _ => exact absurd (by decide) hk

theorem json_roundtrip_shuffled :
    read ("\n\x7b\"mappings\" :\"\",\"x\" :[1e9,null],\"sources\" :[ \"\\u0061\" ],".toList ++
        "\"file\" :null,\"version\" :3,\"names\" :[]\x7d ".toList) =
      .ok ⟨3, none, [['a']], none, [], []⟩ ∧
    render ⟨3, none, [['a']], none, [], []⟩ =
      "\x7b\"version\":3,\"sources\":[\"a\"],\"names\":[],\"mappings\":\"\"\x7d".toList := by
  have hnamed : ∀ f : Text × Text, Named f (quote f.1 ++ ([' '] ++ ':' :: f.2)) := fun f =>
    ⟨_, quotes_quote f.1, [' '], [], by decide, blanks_nil, rfl⟩
  have hobject : ObjectOf shuffled _ := ⟨_, row_join hnamed shuffled, rfl⟩
  exact ⟨((json_roundtrip _).2 shuffled _ ['\n'] [' '] (by decide) (by decide) hobject
    describes_shuffled).1, by decide⟩

end StorySuite.SourceMap
