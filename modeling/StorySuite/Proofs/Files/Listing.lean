import StorySuite.Proofs.Files.Scan

/-!
# What a search lists

`Proofs/Files/Scan.lean` filters the ways through a tree while it walks down.  Here a search is
told without a walk: an entry is listed for what it is and for what the entries on the way to it
are called, and the listing is in the order of the ways, which is depth first and by name.

* `Path.bare p`            a path without the `./` that it begins with;
* `Excluded xs hid n p`    whether the entry `n` at the path `p` is passed over;
* `Listed xs hid p e way`  a file of the tree `e`, which stands at `p`, with nothing excluded on
                           the way to it;
* `Contributes w xs hid p fs`   the story files `fs` are what the path `p` adds to a search;
* `scan_eq`                **a search is what its paths contribute, in their order**.

The path that is searched is the empty way, so nothing is ever said of its own name.
-/

namespace StorySuite

namespace Path

/-- **A path without the `./` that it begins with**, however often and with how many slashes it is
written. -/
def bare (p : Text) : Text := if ['.', '/'].isPrefixOf p then dropEmpty p else p

theorem dropEmpty_eq_self {t : Text} (h : Begins t) : dropEmpty t = t := by
  obtain ⟨h1, h2, h3⟩ := h
  fun_cases dropEmpty t with
  | case1 u => exact (h1 u rfl).elim
  | case2 => exact (h2 rfl).elim
  | case3 u => exact (h3 u rfl).elim
  | case4 => rfl

theorem IsName.ne_nil {n : Text} (h : IsName n) : n ≠ [] := by
  rintro rfl
  cases h.1

theorem IsName.ne_current {n : Text} (h : IsName n) : n ≠ ['.'] := by
  rintro rfl
  cases h.1

/-- a path that ends with a name has nothing in vain at its end -/
theorem dropEmptyEnd_name {u n : Text} (h : IsName n) : dropEmptyEnd (u ++ n) = u ++ n := by
  obtain ⟨m, c, rfl⟩ := (List.eq_nil_or_concat' n).resolve_left h.ne_nil
  have hc : c ≠ '/' := fun e => h.2 (by simp [e])
  have hrev : (u ++ (m ++ [c])).reverse = c :: (m.reverse ++ u.reverse) := by simp
  have hbegins : Begins (c :: (m.reverse ++ u.reverse)) := by
    refine ⟨fun v hv => hc (List.cons.inj hv).1, fun hv => ?_, fun v hv => ?_⟩
    · obtain ⟨rfl, hnil⟩ := List.cons.inj hv
      have hm : m = [] := by simpa using (List.append_eq_nil_iff.mp hnil).1
      exact h.ne_current (by rw [hm]; rfl)
    · obtain ⟨rfl, hrest⟩ := List.cons.inj hv
      rcases List.eq_nil_or_concat' m with rfl | ⟨k, d, rfl⟩
      · exact h.ne_current rfl
      · have hd : d = '/' := by simp at hrest; exact hrest.1
        exact h.2 (by simp [hd])
  rw [dropEmptyEnd, hrev, dropEmpty_eq_self hbegins, ← hrev, List.reverse_reverse]

theorem Front.tail {c : Char} {u : Text} (h : Front (c :: u)) : Front u := by
  rcases h with h | ⟨v, h⟩
  · cases h
  · cases v with
    | nil => exact Or.inl (List.cons.inj h).2
    | cons d v => exact Or.inr ⟨v, (List.cons.inj h).2⟩

/-- the name at the end of a path is left when what its front says in vain is taken off -/
theorem exists_dropEmpty_name {t u n : Text} (h : IsName n) (hu : Front u) (ht : t = u ++ n) :
    ∃ v, dropEmpty t = v ++ n := by
  fun_induction dropEmpty t generalizing u with
  | case1 t ih =>
    cases u with
    | nil => exact absurd (by rw [show n = '/' :: t from ht.symm]; exact List.mem_cons_self) h.2
    | cons c u => exact ih hu.tail (List.cons.inj ht).2
  | case2 =>
    cases u with
    | nil => exact absurd ht.symm h.ne_current
    | cons c u =>
      have hnil := (List.cons.inj ht).2
      exact absurd (List.append_eq_nil_iff.mp hnil.symm).2 h.ne_nil
  | case3 t ih =>
    cases u with
    | nil => exact absurd (by rw [show n = '.' :: '/' :: t from ht.symm]; simp) h.2
    | cons c u =>
      obtain ⟨rfl, hrest⟩ := List.cons.inj ht
      cases u with
      | nil =>
        rcases hu with hu | ⟨v, hu⟩
        · cases hu
        · cases v with
          | nil => cases hu
          | cons d v => exact absurd (List.cons.inj hu).2.symm (by simp)
      | cons d u => exact ih hu.tail.tail (List.cons.inj hrest).2
  | case4 => exact ⟨u, ht⟩

/-- **Below the current directory the path of an entry is its bare path.** -/
theorem below?_current {u n : Text} (h : IsName n) (hu : Front u) :
    (below? ['.'] (u ++ n)).getD (u ++ n) = bare (u ++ n) := by
  generalize hp : u ++ n = p
  have hsteps : ∀ cs t, [Component.current].isPrefixOf cs = false → cs = components t →
      below? ['.'] t = none := by
    rintro cs t hcs rfl
    show (if [Component.current].isPrefixOf (components t) then _ else none) = none
    rw [hcs]
    rfl
  rcases splitHead_cases p with ⟨t, rfl, hs⟩ | ⟨rfl, hs⟩ | ⟨t, rfl, hs⟩ | ⟨hb, hs⟩
  · rw [hsteps _ ('/' :: t) rfl rfl]
    rfl
  · obtain ⟨v, hv⟩ := exists_dropEmpty_name h hu hp.symm
    exact absurd (List.append_eq_nil_iff.mp hv.symm).2 h.ne_nil
  · obtain ⟨v, hv⟩ := exists_dropEmpty_name h hu hp.symm
    show dropEmptyEnd (dropEmpty ('/' :: t)) = dropEmpty ('.' :: '/' :: t)
    have hdrop : dropEmpty ('/' :: t) = dropEmpty ('.' :: '/' :: t) := rfl
    rw [hdrop, hv, dropEmptyEnd_name h]
  · have hcomp : components p = steps p := by
      simp only [components, hs]
      rfl
    have hcurrent : [Component.current].isPrefixOf (steps p) = false := by
      cases hcs : steps p with
      | nil => rfl
      | cons c cs =>
        have hmem : c ∈ steps p := hcs ▸ List.mem_cons_self
        obtain ⟨f, -, hf⟩ := List.mem_filterMap.mp hmem
        have hc : c ≠ .current := by
          rintro rfl
          unfold Component.ofPiece? at hf
          split at hf
          · cases hf
          · split at hf <;> cases hf
        simp [List.isPrefixOf, Ne.symm hc]
    have hprefix : ['.', '/'].isPrefixOf p = false := by
      refine Bool.eq_false_iff.mpr fun hpre => ?_
      obtain ⟨t, ht⟩ := List.isPrefixOf_iff_prefix.mp hpre
      exact hb.2.2 t ht.symm
    rw [hsteps _ p hcurrent hcomp.symm, bare, hprefix]
    rfl

end Path

/-! ## what is passed over -/

/-- **Whether the entry `name` at `path` is passed over**: because of how its name begins, or since
one of the texts, read as a pattern, matches its name or its path. -/
def Excluded (excludes : List Text) (hidden : Bool) (name path : Text) : Prop :=
  (hidden = true ∧ (name.head? = some '.' ∨ name.head? = some '_')) ∨
    ∃ t ∈ excludes, ∃ p, Glob.Pattern.ofText t = .ok p ∧
      (p.accepts true name = true ∨ p.accepts true (Path.bare path) = true)

/-- patterns that can be read make an exclusion -/
theorem Exclusion.exists_ofTexts {excludes : List Text} (hidden : Bool)
    (h : ∀ t ∈ excludes, ∃ p, Glob.Pattern.ofText t = .ok p) :
    ∃ x, Exclusion.ofTexts hidden excludes = .ok x ∧ x.hidden = hidden ∧
      ∀ p, p ∈ x.patterns ↔ ∃ t ∈ excludes, Glob.Pattern.ofText t = .ok p := by
  induction excludes with
  | nil => exact ⟨⟨[], hidden⟩, rfl, rfl, by simp⟩
  | cons t ts ih =>
    obtain ⟨p, hp⟩ := h t List.mem_cons_self
    obtain ⟨x, hx, hhidden, hpatterns⟩ := ih fun u hu => h u (List.mem_cons_of_mem t hu)
    refine ⟨{ x with patterns := p :: x.patterns }, ?_, hhidden, fun q => ?_⟩
    · rw [ofTexts, hp]
      show (ofTexts hidden ts).map _ = _
      rw [hx]
      rfl
    · show q ∈ p :: x.patterns ↔ _
      rw [List.mem_cons, hpatterns, List.exists_mem_cons_iff, hp]
      simp [eq_comm]

/-- an exclusion passes over what is excluded -/
theorem Exclusion.excludes_iff {x : Exclusion} {excludes : List Text} {hidden : Bool}
    (hhidden : x.hidden = hidden)
    (hpatterns : ∀ p, p ∈ x.patterns ↔ ∃ t ∈ excludes, Glob.Pattern.ofText t = .ok p)
    (path : Text) {name : Text} (hname : Path.IsName name) :
    x.excludes name (Path.join path name) = true ↔
      Excluded excludes hidden name (Path.join path name) := by
  have hpath : (Path.below? ['.'] (Path.join path name)).getD (Path.join path name) =
      Path.bare (Path.join path name) := by
    rw [Path.join_eq path hname.not_absolute]
    exact Path.below?_current hname (Path.front_front path)
  unfold Exclusion.excludes Excluded
  rw [hpath, hhidden, Bool.or_eq_true, Bool.and_eq_true, List.any_eq_true]
  refine or_congr (and_congr Iff.rfl ?_) ?_
  · simp [Exclusion.isHidden]
  · constructor
    · rintro ⟨p, hp, hmatch⟩
      obtain ⟨t, ht, hread⟩ := (hpatterns p).mp hp
      exact ⟨t, ht, p, hread, by simpa using hmatch⟩
    · rintro ⟨t, ht, p, hread, hmatch⟩
      exact ⟨p, (hpatterns p).mpr ⟨t, ht, hread⟩, by simpa using hmatch⟩

/-! ## what is listed -/

/-- **A story file of the tree `e`, which stands at `path`**, such that no entry on the way to it is
excluded: the file itself counts, and where the way begins does not. -/
structure Listed (excludes : List Text) (hidden : Bool) (path : Text) (e : Entry)
    (way : List Text) : Prop where
  file : ∃ c, e.stand? way = some (.file c)
  story : isStoryPath (Entry.along path way) = true
  clear : ∀ dir n rest, way = dir ++ n :: rest →
    ¬ Excluded excludes hidden n (Entry.along path (dir ++ [n]))

/-- **What a path adds to a search.**  A file adds itself if it is a story file; a directory adds
the files that are listed below it, depth first and by name, each of them once. -/
def Contributes (w : Workspace) (excludes : List Text) (hidden : Bool) (path : Text)
    (files : List Text) : Prop :=
  match w.entry path with
  | .ok (.file _) => files = if isStoryPath path then [path] else []
  | .ok (.directory es) =>
    files.Nodup ∧ ∃ ways : List (List Text), files = ways.map (Entry.along path) ∧
      ways.Pairwise (· < ·) ∧ ∀ way, way ∈ ways ↔ Listed excludes hidden path (.directory es) way
  | .error _ => False

namespace Entry

/-- the walk looks at every entry on the way -/
theorem reached_iff {x : Exclusion} {path : Text} {way : List Text} : reached x path way = true ↔
    isStoryPath (along path way) = true ∧ ∀ dir n rest, way = dir ++ n :: rest →
      x.excludes n (Path.join (along path dir) n) = false := by
  induction way generalizing path with
  | nil => simp [reached, along]
  | cons m ms ih =>
    rw [reached, Bool.and_eq_true, ih, along, Bool.not_eq_true']
    constructor
    · rintro ⟨hm, hstory, hrest⟩
      refine ⟨hstory, ?_⟩
      intro dir n rest hsplit
      cases dir with
      | nil =>
        obtain ⟨rfl, rfl⟩ := List.cons.inj hsplit
        exact hm
      | cons d dir =>
        obtain ⟨rfl, hms⟩ := List.cons.inj hsplit
        exact hrest dir n rest hms
    · rintro ⟨hstory, hall⟩
      refine ⟨hall [] m ms rfl, hstory, ?_⟩
      intro dir n rest hms
      exact hall (m :: dir) n rest (by rw [hms]; rfl)

theorem along_append (path : Text) (a b : List Text) :
    along path (a ++ b) = along (along path a) b := by
  induction a generalizing path with
  | nil => rfl
  | cons n a ih => exact ih _

/-- different ways end at different paths -/
theorem along_inj {path : Text} (hp : path ≠ []) {a b : List Text} (ha : ∀ n ∈ a, Path.IsName n)
    (hb : ∀ n ∈ b, Path.IsName n) (h : along path a = along path b) : a = b := by
  have hnames : Path.names a = Path.names b := by
    have h' := congrArg Path.components h
    rw [components_along hp ha, components_along hp hb] at h'
    exact List.append_cancel_left h'
  refine (List.map_injective_iff.mpr ?_) hnames
  exact fun _ _ hc => Component.named.inj hc

end Entry

namespace Workspace

variable {w : Workspace} {paths excludes : List Text} {hidden : Bool}

/-- what a path leads to stands in a proper tree, and the path is not empty -/
theorem entry_proper (hw : w.root.Proper) {path : Text} {e : Entry} (h : w.entry path = .ok e) :
    e.Proper ∧ path ≠ [] := by
  unfold entry at h
  split at h
  · next way e' hfind =>
    obtain rfl := Except.ok.inj h
    refine ⟨hw.get? (find_found hfind).2, ?_⟩
    rintro rfl
    cases hfind
  · cases h
  · cases h

/-- **The story files below a path are what it contributes.** -/
theorem contributes_stories (hw : w.root.Proper) {x : Exclusion} (hhidden : x.hidden = hidden)
    (hpatterns : ∀ p, p ∈ x.patterns ↔ ∃ t ∈ excludes, Glob.Pattern.ofText t = .ok p)
    {path : Text} {e : Entry} (he : w.entry path = .ok e) :
    Contributes w excludes hidden path (e.stories x path) := by
  obtain ⟨hproper, hpath⟩ := entry_proper hw he
  unfold Contributes
  rw [he]
  cases e with
  | file c => rfl
  | directory es =>
    have hnames : ∀ way ∈ (Entry.directory es).ways, ∀ n ∈ way, Path.IsName n := by
      intro way hway
      obtain ⟨c, hc⟩ := (Entry.mem_ways hproper).mp hway
      exact hproper.isName hc
    have hsorted := (Entry.pairwise_ways hproper).filter (Entry.reached x path)
    refine ⟨?_, _, Entry.stories_eq x path _, hsorted, fun way => ?_⟩
    · rw [Entry.stories_eq]
      refine List.Nodup.map_on ?_ (hsorted.imp fun h => ne_of_lt h)
      intro a ha b hb hab
      exact Entry.along_inj hpath (hnames a (List.mem_filter.mp ha).1)
        (hnames b (List.mem_filter.mp hb).1) hab
    · rw [List.mem_filter, Entry.mem_ways hproper, Entry.reached_iff]
      have hclear : (∃ c, (Entry.directory es).stand? way = some (.file c)) →
          ∀ dir n rest, way = dir ++ n :: rest →
            (x.excludes n (Path.join (Entry.along path dir) n) = false ↔
              ¬ Excluded excludes hidden n (Entry.along path (dir ++ [n]))) := by
        rintro ⟨c, hc⟩ dir n rest rfl
        have hn := hproper.isName hc n (by simp)
        rw [Entry.along_append]
        show _ ↔ ¬ Excluded excludes hidden n (Path.join (Entry.along path dir) n)
        rw [← Exclusion.excludes_iff hhidden hpatterns (Entry.along path dir) hn,
          Bool.not_eq_true]
      constructor
      · rintro ⟨hfile, hstory, hall⟩
        exact ⟨hfile, hstory, fun dir n rest h => (hclear hfile dir n rest h).mp (hall dir n rest h)⟩
      · rintro ⟨hfile, hstory, hall⟩
        exact ⟨hfile, hstory, fun dir n rest h => (hclear hfile dir n rest h).mpr (hall dir n rest h)⟩

theorem storiesBelowAll_eq (hw : w.root.Proper) {x : Exclusion} (hhidden : x.hidden = hidden)
    (hpatterns : ∀ p, p ∈ x.patterns ↔ ∃ t ∈ excludes, Glob.Pattern.ofText t = .ok p)
    (hpaths : ∀ p ∈ paths, ∃ e, w.entry p = .ok e) :
    ∃ lists, List.Forall₂ (Contributes w excludes hidden) paths lists ∧
      w.storiesBelowAll x paths = .ok lists.flatten := by
  induction paths with
  | nil => exact ⟨[], List.Forall₂.nil, rfl⟩
  | cons p ps ih =>
    obtain ⟨e, he⟩ := hpaths p List.mem_cons_self
    obtain ⟨lists, hlists, hps⟩ := ih fun q hq => hpaths q (List.mem_cons_of_mem p hq)
    refine ⟨e.stories x p :: lists, ?_, ?_⟩
    · exact List.Forall₂.cons (contributes_stories hw hhidden hpatterns he) hlists
    · have hp : w.storiesBelow x p = .ok (e.stories x p) := by
        rw [storiesBelow, he]
      rw [storiesBelowAll, hp, hps]
      rfl

/-- **A search is what its paths contribute, in their order.** -/
theorem scan_eq (hidden : Bool) (hw : w.root.Proper)
    (hexcludes : ∀ t ∈ excludes, ∃ p, Glob.Pattern.ofText t = .ok p)
    (hpaths : ∀ p ∈ paths, ∃ e, w.entry p = .ok e) :
    ∃ lists, List.Forall₂ (Contributes w excludes hidden) paths lists ∧
      w.scan paths excludes hidden = .ok lists.flatten := by
  obtain ⟨x, hx, hhidden, hpatterns⟩ := Exclusion.exists_ofTexts hidden hexcludes
  obtain ⟨lists, hlists, hall⟩ := storiesBelowAll_eq hw hhidden hpatterns hpaths
  refine ⟨lists, hlists, ?_⟩
  rw [scan, hx]
  exact hall

/-- the search ends at the first path that leads to nothing -/
theorem scan_missing (hexcludes : ∀ t ∈ excludes, ∃ p, Glob.Pattern.ofText t = .ok p)
    (hpaths : ∀ p ∈ paths, ∃ e, w.entry p = .ok e) {path : Text} {e : FileError}
    (he : w.entry path = .error e) (rest : List Text) :
    w.scan (paths ++ path :: rest) excludes hidden = .error (.walk path e) := by
  obtain ⟨x, hx, -⟩ := Exclusion.exists_ofTexts hidden hexcludes
  rw [scan, hx]
  show w.storiesBelowAll x (paths ++ path :: rest) = _
  induction paths with
  | nil =>
    have hp : w.storiesBelow x path = .error (.walk path e) := by
      rw [storiesBelow, he]
    show w.storiesBelowAll x (path :: rest) = _
    rw [storiesBelowAll, hp]
    rfl
  | cons p ps ih =>
    obtain ⟨f, hf⟩ := hpaths p List.mem_cons_self
    have hp : w.storiesBelow x p = .ok (f.stories x p) := by
      rw [storiesBelow, hf]
    show w.storiesBelowAll x (p :: (ps ++ path :: rest)) = _
    rw [storiesBelowAll, hp, ih fun q hq => hpaths q (List.mem_cons_of_mem p hq)]
    rfl

/-- a directory with a story file, a directory that is passed over, and one that is searched -/
def attic : Workspace where
  root := .directory [("src", .directory [
    ("A.stories.ts", .file (.text [])),
    ("_old", .directory [("B.stories.ts", .file (.text []))]),
    ("lib", .directory [("C.story.tsx", .file .raw), ("draft.stories.ts", .file (.text []))])])]
  cwd := []

theorem proper_attic : attic.root.Proper := by
  have hname : ∀ n ∈ ["src".toList, "A.stories.ts".toList, "_old".toList, "B.stories.ts".toList,
      "lib".toList, "C.story.tsx".toList, "draft.stories.ts".toList],
      Component.ofPiece? n = some (.named n) ∧ '/' ∉ n := by decide
  have hold : (Entry.directory [("B.stories.ts".toList, .file (.text []))]).Proper :=
    Entry.proper_directory.mpr ⟨List.pairwise_singleton _ _, fun x hx => by
      obtain rfl := List.mem_singleton.mp hx
      exact ⟨hname _ (by simp), Entry.proper_file _⟩⟩
  have hlib : (Entry.directory [("C.story.tsx".toList, .file .raw),
      ("draft.stories.ts".toList, .file (.text []))]).Proper :=
    Entry.proper_directory.mpr ⟨by decide, fun x hx => by
      rcases List.mem_cons.mp hx with rfl | hx
      · exact ⟨hname _ (by simp), Entry.proper_file _⟩
      · obtain rfl := List.mem_singleton.mp hx
        exact ⟨hname _ (by simp), Entry.proper_file _⟩⟩
  have hsrc : (Entry.directory [("A.stories.ts".toList, .file (.text [])),
      ("_old".toList, .directory [("B.stories.ts".toList, .file (.text []))]),
      ("lib".toList, .directory [("C.story.tsx".toList, .file .raw),
        ("draft.stories.ts".toList, .file (.text []))])]).Proper := by
    refine Entry.proper_directory.mpr ⟨by decide, fun x hx => ?_⟩
    rcases List.mem_cons.mp hx with rfl | hx
    · exact ⟨hname _ (by simp), Entry.proper_file _⟩
    rcases List.mem_cons.mp hx with rfl | hx
    · exact ⟨hname _ (by simp), hold⟩
    · obtain rfl := List.mem_singleton.mp hx
      exact ⟨hname _ (by simp), hlib⟩
  refine Entry.proper_directory.mpr ⟨List.pairwise_singleton _ _, fun x hx => ?_⟩
  obtain rfl := List.mem_singleton.mp hx
  exact ⟨hname _ (by simp), hsrc⟩

/-- what is passed over on the way is found where it is asked for -/
theorem scan_attic : attic.root.Proper ∧
    (∀ t ∈ ["draft.*".toList], ∃ p, Glob.Pattern.ofText t = .ok p) ∧
      (∀ p ∈ ["./src".toList, "src/_old/B.stories.ts".toList], ∃ e, attic.entry p = .ok e) ∧
      ∃ lists, List.Forall₂ (Contributes attic ["draft.*".toList] true)
          ["./src".toList, "src/_old/B.stories.ts".toList] lists ∧
        attic.scan ["./src".toList, "src/_old/B.stories.ts".toList] ["draft.*".toList] true =
          .ok lists.flatten ∧
        lists.flatten = ["./src/A.stories.ts".toList, "./src/lib/C.story.tsx".toList,
          "src/_old/B.stories.ts".toList] := by
  have hexcludes : ∀ t ∈ ["draft.*".toList], ∃ p, Glob.Pattern.ofText t = .ok p := by
    intro t ht
    obtain rfl := List.mem_singleton.mp ht
    exact ⟨_, rfl⟩
  have hpaths : ∀ p ∈ ["./src".toList, "src/_old/B.stories.ts".toList],
      ∃ e, attic.entry p = .ok e := by
    intro p hp
    rcases List.mem_cons.mp hp with rfl | hp
    · exact ⟨_, rfl⟩
    · obtain rfl := List.mem_singleton.mp hp
      exact ⟨_, rfl⟩
  have hscan : attic.scan ["./src".toList, "src/_old/B.stories.ts".toList] ["draft.*".toList]
      true = .ok ["./src/A.stories.ts".toList, "./src/lib/C.story.tsx".toList,
        "src/_old/B.stories.ts".toList] := by rfl
  obtain ⟨lists, hlists, hall⟩ := scan_eq true proper_attic hexcludes hpaths
  exact ⟨proper_attic, hexcludes, hpaths, lists, hlists, hall,
    (Except.ok.inj (hscan.symm.trans hall)).symm⟩

end Workspace

end StorySuite
