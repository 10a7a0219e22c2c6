import StorySuite.Files.Scan
import StorySuite.Proofs.Files.Workspace
import StorySuite.Proofs.Path.Below

/-!
# What a search finds

The story files below a path are the files at the ends of those ways that nothing on them excludes,
in the order of the ways.  So a search tells no more of a tree than which files are there.

* `stories_eq`     **the story files as a list of ways**;
* `scan_congr`     a search finds what it found before, unless it finds what was not there before.
-/

namespace StorySuite

namespace Entry

/-- the path of what lies at the end of a way below `path` -/
def along (path : Text) : List Text → Text
  | [] => path
  | n :: ns => along (Path.join path n) ns

/-- whether a way leads to a story file, past everything that is excluded -/
def reached (x : Exclusion) (path : Text) : List Text → Bool
  | [] => isStoryPath path
  | n :: ns => !x.excludes n (Path.join path n) && reached x (Path.join path n) ns

theorem storiesIn_eq (x : Exclusion) (path : Text) (es : List (Text × Entry)) :
    storiesIn x path es = es.flatMap fun y =>
      if x.excludes y.1 (Path.join path y.1) then [] else stories x (Path.join path y.1) y.2 := by
  induction es with
  | nil => rfl
  | cons y es ih =>
    rw [storiesIn, ih]
    rfl

/-- **The story files below a path are at the ends of the ways that reach one.** -/
theorem stories_eq (x : Exclusion) (path : Text) (e : Entry) :
    e.stories x path = (e.ways.filter (reached x path)).map (along path) := by
  induction e using tree_induction generalizing path with
  | leaf c =>
    rw [stories, ways, List.filter_cons]
    show _ = List.map _ (if isStoryPath path = true then _ else _)
    split <;> rfl
  | node es ih =>
    rw [stories, storiesIn_eq, ways_directory, List.filter_flatMap, List.map_flatMap]
    refine List.flatMap_congr fun y hy => ?_
    rw [List.filter_map, List.map_map]
    split
    · next hx =>
      have hnone : (ways y.2).filter (reached x path ∘ (y.1 :: ·)) = [] :=
        List.filter_eq_nil_iff.mpr fun ns _ => by simp [reached, hx]
      rw [hnone]
      rfl
    · next hx =>
      have hsome : (ways y.2).filter (reached x path ∘ (y.1 :: ·)) =
          (ways y.2).filter (reached x (Path.join path y.1)) :=
        List.filter_congr fun ns _ => by simp [reached, hx]
      rw [hsome, ih y hy]
      rfl

theorem isStoryPath_of_reached {x : Exclusion} {path : Text} {way : List Text}
    (h : reached x path way = true) : isStoryPath (along path way) = true := by
  induction way generalizing path with
  | nil => exact h
  | cons n ns ih =>
    rw [reached, Bool.and_eq_true] at h
    exact ih h.2

theorem walk_along (here : List Text) {path : Text} {way : List Text}
    (h : ∀ n ∈ way, Path.IsName n) :
    Path.walk here (Path.components (along path way)) =
      Path.walk here (Path.components path) ++ way := by
  induction way generalizing path with
  | nil => exact (List.append_nil _).symm
  | cons n ns ih =>
    rw [along, ih fun m hm => h m (List.mem_cons_of_mem _ hm),
      Path.walk_join here path (h n List.mem_cons_self).not_absolute,
      Path.steps_name (h n List.mem_cons_self)]
    exact List.append_assoc _ [n] ns

theorem components_along {path : Text} (hp : path ≠ []) {way : List Text}
    (h : ∀ n ∈ way, Path.IsName n) :
    Path.components (along path way) = Path.components path ++ Path.names way := by
  induction way generalizing path with
  | nil => exact (List.append_nil _).symm
  | cons n ns ih =>
    have hjoin := Path.components_join hp (h n List.mem_cons_self)
    have hne : Path.join path n ≠ [] := by
      intro he
      rw [he] at hjoin
      exact List.append_ne_nil_of_right_ne_nil _ (List.cons_ne_nil _ _) hjoin.symm
    rw [along, ih hne fun m hm => h m (List.mem_cons_of_mem _ hm), hjoin, List.append_assoc]
    rfl

/-- trees with the same files where it matters have the same story files -/
theorem stories_congr {a b : Entry} (ha : a.Proper) (hb : b.Proper) {x : Exclusion} {path : Text}
    (h : ∀ way, reached x path way = true → (way ∈ a.ways ↔ way ∈ b.ways)) :
    a.stories x path = b.stories x path := by
  rw [stories_eq, stories_eq]
  congr 1
  have hmem : ∀ way, way ∈ a.ways.filter (reached x path) ↔ way ∈ b.ways.filter (reached x path) := by
    intro way
    rw [List.mem_filter, List.mem_filter]
    constructor
    · intro hw
      exact ⟨(h way hw.2).mp hw.1, hw.2⟩
    · intro hw
      exact ⟨(h way hw.2).mpr hw.1, hw.2⟩
  exact List.Pairwise.eq_of_mem_iff ((pairwise_ways ha).filter _) ((pairwise_ways hb).filter _) hmem

end Entry

/-! ## the name of a story file -/

theorem exists_name {path : Text} (h : isStoryPath path = true) : ∃ n, Path.fileName? path = some n ∧
    ∃ e ∈ storyExtensions, Path.extensionOf? n = some e := by
  unfold isStoryPath Path.extension? at h
  rw [Bool.and_eq_true] at h
  cases hn : Path.fileName? path with
  | none =>
    rw [hn] at h
    cases h.1
  | some n =>
    rw [hn, Option.bind_some] at h
    cases he : Path.extensionOf? n with
    | none =>
      rw [he] at h
      cases h.1
    | some e =>
      rw [he] at h
      exact ⟨n, rfl, e, List.contains_iff_mem.mp h.1, he⟩

namespace Workspace

variable {w w' : Workspace} {root : Text} {excludes : List Text} {hidden : Bool} {files : List Text}

/-- what a search below one path comes to -/
theorem scan_eq_ok : w.scan [root] excludes hidden = .ok files ↔
    ∃ x way e, Exclusion.ofTexts hidden excludes = .ok x ∧ w.find root = .ok (.found way e) ∧
      files = e.stories x root := by
  have hscan : w.scan [root] excludes hidden = (Exclusion.ofTexts hidden excludes).bind fun x =>
      (w.storiesBelow x root).bind fun fs => .ok (fs ++ []) := rfl
  rw [hscan]
  cases Exclusion.ofTexts hidden excludes with
  | error e => simp [Except.bind]
  | ok x =>
    rw [Except.bind, storiesBelow, entry]
    cases w.find root with
    | error e => simp [Except.bind]
    | ok s =>
      cases s with
      | vacant way slash => simp [Except.bind]
      | found way e => simp [Except.bind, eq_comm]

/-- what lies below something that is found lies below its place -/
theorem stand?_along {e : Entry} (hfind : w.find root = .ok (.found (w.place root) e))
    {ns : List Text} (hn : ∀ n ∈ ns, Path.IsName n) :
    w.place (Entry.along root ns) = w.place root ++ ns ∧
      w.stand? (w.place root ++ ns) = e.stand? ns :=
  ⟨Entry.walk_along w.cwd hn, Entry.stand?_append (find_found hfind).2 ns⟩

theorem isStoryPath_of_mem_scan (h : w.scan [root] excludes hidden = .ok files) {f : Text}
    (hf : f ∈ files) : isStoryPath f = true := by
  obtain ⟨x, way, e, -, -, rfl⟩ := scan_eq_ok.mp h
  rw [Entry.stories_eq] at hf
  obtain ⟨ns, hns, rfl⟩ := List.mem_map.mp hf
  exact Entry.isStoryPath_of_reached (List.mem_filter.mp hns).2

/-- what is found lies at the end of a way below the path -/
theorem mem_scan (hw : w.root.Proper) (h : w.scan [root] excludes hidden = .ok files) {f : Text}
    (hf : f ∈ files) : root ≠ [] ∧ ∃ way s c, f = Entry.along root way ∧
      (∀ n ∈ way, Path.IsName n) ∧ w.stand? (w.place root) = some s ∧
      (way = [] ↔ s ≠ .directory) ∧ w.stand? (w.place f) = some (.file c) := by
  obtain ⟨x, way, e, -, hfind, rfl⟩ := scan_eq_ok.mp h
  obtain ⟨rfl, he⟩ := find_found hfind
  have hp : e.Proper := hw.get? he
  have hne : root ≠ [] := by
    rintro rfl
    cases hfind
  rw [Entry.stories_eq] at hf
  obtain ⟨ns, hns, rfl⟩ := List.mem_map.mp hf
  obtain ⟨c, hc⟩ := (Entry.mem_ways hp).mp (List.mem_filter.mp hns).1
  obtain ⟨hplace, hstand⟩ := stand?_along hfind (hp.isName hc)
  refine ⟨hne, ns, e.stand, c, rfl, hp.isName hc, stand?_of_get? he, ?_, ?_⟩
  · cases e with
    | file d =>
      cases ns with
      | nil => simp [Entry.stand]
      | cons n ns => cases hc
    | directory es =>
      cases ns with
      | nil => cases hc
      | cons n ns => simp [Entry.stand]
  · rw [hplace, hstand, hc]

/-- **A search finds what it found before**, unless it finds what was not there before. -/
theorem scan_congr (hg : Grown w w') (hw : w.root.Proper) (hw' : w'.root.Proper)
    (h : w.scan [root] excludes hidden = .ok files)
    (hold : ∀ fs, w'.scan [root] excludes hidden = .ok fs → ∀ f ∈ fs,
      ∃ c, w.stand? (w.place f) = some (.file c)) :
    w'.scan [root] excludes hidden = .ok files := by
  obtain ⟨x, way, e, hx, hfind, rfl⟩ := scan_eq_ok.mp h
  obtain ⟨rfl, he⟩ := find_found hfind
  obtain ⟨s', hs'⟩ := hg.stand? (stand?_of_get? he)
  obtain ⟨e', hfind'⟩ := hg.find hfind hs' nofun
  have hscan := scan_eq_ok.mpr ⟨x, _, e', hx, hfind', rfl⟩
  have he' := (find_found hfind').2
  have hp : e.Proper := hw.get? he
  have hp' : e'.Proper := hw'.get? he'
  rw [hscan, Entry.stories_congr hp hp']
  intro ns hr
  rw [Entry.mem_ways hp, Entry.mem_ways hp']
  constructor
  · rintro ⟨c, hc⟩
    have hf : w.stand? (w.place root ++ ns) = some (.file c) := (Entry.stand?_append he ns).trans hc
    obtain ⟨c', hc'⟩ := hg.file hf
    exact ⟨c', (Entry.stand?_append he' ns).symm.trans hc'⟩
  · rintro ⟨c', hc'⟩
    have hmem : Entry.along root ns ∈ e'.stories x root := by
      rw [Entry.stories_eq]
      exact List.mem_map_of_mem
        (List.mem_filter.mpr ⟨(Entry.mem_ways hp').mpr ⟨c', hc'⟩, hr⟩)
    obtain ⟨c, hc⟩ := hold _ hscan _ hmem
    obtain ⟨hplace, hstand⟩ := stand?_along hfind (hp'.isName hc')
    rw [hplace, hstand] at hc
    exact ⟨c, hc⟩

end Workspace

end StorySuite
