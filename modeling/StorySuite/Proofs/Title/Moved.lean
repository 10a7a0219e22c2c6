import StorySuite.Proofs.Title.Respelled

/-!
# Titles of moved projects

A relative path that never goes back behind where it begins leads on from wherever it begins by the
same names.  If that is so of the configuration, of the directories of the entries as seen from it,
and of the file, then a project can be moved as a whole: nothing above its root shows in a title.

* `Path.inside? here p`   the names on the way along a path that does not leave where it begins;
* `Path.lexical_inside`   **such a path adds the same names everywhere**;
* `match?_moved`          entries match the same files;
* `title_moved`           **a file has the same title wherever its project lies**;
* `title_of_query_root`   a root with a query in its name hides the file.
-/

namespace StorySuite

namespace Path

/-- the names on the way along some steps that never go back behind where the way begins -/
def descend? (here : List Text) : List Component → Option (List Text)
  | [] => some here
  | .root :: _ => none
  | .current :: cs => descend? here cs
  | .parent :: cs => if here = [] then none else descend? here.dropLast cs
  | .named n :: cs => descend? (here ++ [n]) cs

/-- **Where a relative path leads that never goes back behind its beginning**, where `here` are the
names that it may go back by. -/
def inside? (here : List Text) (p : Text) : Option (List Text) :=
  if isAbsolute p then none else descend? here (steps p)

example : inside? [".storybook".toList] "../src/./a" = some ["src".toList, ['a']] := by decide

example : inside? [".storybook".toList] "../../project/src" = none := by decide

variable {here there : List Text}

theorem walk_descend {cs : List Component} (h : descend? here cs = some there) (root : List Text) :
    walk (root ++ here) cs = root ++ there := by
  induction cs generalizing here with
  | nil =>
    obtain rfl := Option.some.inj h
    rfl
  | cons c cs ih =>
    cases c with
    | root => cases h
    | current => exact ih h
    | parent =>
      rw [descend?] at h
      split at h
      · cases h
      · next hne =>
        show walk (root ++ here).dropLast cs = _
        rw [List.dropLast_append_of_ne_nil hne]
        exact ih h
    | named n =>
      show walk (root ++ here ++ [n]) cs = _
      rw [List.append_assoc]
      exact ih h

theorem not_absolute_of_inside {p : Text} (h : inside? here p = some there) :
    isAbsolute p = false := by
  unfold inside? at h
  split at h
  · cases h
  · next ha => exact Bool.not_eq_true _ ▸ ha

theorem descend_of_inside {p : Text} (h : inside? here p = some there) :
    descend? here (steps p) = some there := by
  rwa [inside?, if_neg (by rw [not_absolute_of_inside h]; exact Bool.false_ne_true)] at h

/-- **Such a path adds the same names everywhere.** -/
theorem lexical_inside {p : Text} (h : inside? here p = some there) (root : List Text) :
    lexical (root ++ here) p = root ++ there := by
  rw [← walk_components_eq, walk_components, origin, not_absolute_of_inside h,
    if_neg Bool.false_ne_true]
  exact walk_descend (descend_of_inside h) root

theorem lexical_join_inside {q : Text} (h : inside? [] q = some there) (at₀ : List Text)
    (p : Text) :
    lexical at₀ (join p q) = lexical at₀ p ++ there := by
  rw [← walk_components_eq, walk_join at₀ p (not_absolute_of_inside h), walk_components_eq]
  have hwalk := walk_descend (descend_of_inside h) (lexical at₀ p)
  rwa [List.append_nil] at hwalk

theorem join_ne_nil {p : Text} (h : p ≠ []) (q : Text) : join p q ≠ [] := by
  unfold join
  split
  · next ha =>
    rintro rfl
    cases ha
  · split
    · exact List.append_ne_nil_of_left_ne_nil h q
    · exact List.append_ne_nil_of_left_ne_nil h _

end Path

open StorySuite.Path

namespace TitleRules

variable {r r' : TitleRules} {config names : List Text} {e : TitleEntry}

/-- what the names of both begin with does not count -/
theorem below?_append (root dir names : List Text) :
    below? (some (root ++ dir)) (some (root ++ names)) = below? (some dir) (some names) := by
  have hpre : (root ++ dir).isPrefixOf (root ++ names) = dir.isPrefixOf names := by
    rw [Bool.eq_iff_iff, List.isPrefixOf_iff_prefix, List.isPrefixOf_iff_prefix,
      List.prefix_append_right_inj]
  have hdrop : (root ++ names).drop (root ++ dir).length = names.drop dir.length := by
    rw [List.length_append, ← List.drop_drop, List.drop_left]
  simp only [below?, hpre, hdrop]

/-- **Entries match the same files of a project**, wherever its root is. -/
theorem match?_moved {root root' : List Text} (hr : r.Anchored) (hr' : r'.Anchored)
    (he : e ∈ r.entries) (he' : e ∈ r'.entries)
    (hc : lexical r.cwd r.configDir = root ++ config)
    (hc' : lexical r'.cwd r'.configDir = root' ++ config)
    (hin : (inside? config e.directory).isSome) (names : List Text) :
    r'.match? (some (root' ++ names)) e = r.match? (some (root ++ names)) e := by
  obtain ⟨dir, hdir⟩ := Option.isSome_iff_exists.mp hin
  have hd : r.directoryOf? e = some (root ++ dir) := by
    rw [directoryOf?_eq hr he, directory, hc, lexical_inside hdir]
  have hd' : r'.directoryOf? e = some (root' ++ dir) := by
    rw [directoryOf?_eq hr' he', directory, hc', lexical_inside hdir]
  rw [match?, match?, hd, hd', below?_append, below?_append]

/-- what is below a root keeps its query apart from it -/
theorem pathOf_join {p f : Text} (hp : '?' ∉ p) (hf : isAbsolute (pathOf f) = false) :
    pathOf (join p f) = join p (pathOf f) := by
  have hfront : ∀ c ∈ front p, (c != '?') = true := by
    intro c hc
    rw [bne_iff_ne]
    rintro rfl
    unfold front at hc
    split at hc
    · exact hp hc
    · rcases List.mem_append.mp hc with hc | hc
      · exact hp hc
      · exact absurd hc (by decide)
  have hrel : isAbsolute f = false := by
    cases f with
    | nil => rfl
    | cons c f =>
      by_cases h : c = '?'
      · subst h
        rfl
      · rwa [pathOf, List.takeWhile_cons, if_pos (bne_iff_ne.mpr h)] at hf
  rw [join_eq p hrel, join_eq p hf, pathOf, List.takeWhile_append_of_pos hfront]
  rfl

/-- the rules of a project at `root` -/
def rooted (entries : List TitleEntry) (cwd : List Text) (root config : Text) : TitleRules :=
  ⟨entries, join root config, cwd⟩

/-- **A file has the same title wherever its project lies**: at any two roots without a query in
their name, if the way to the configuration `c`, from there to the directory of any entry, and to
the file `f` never leaves the project. -/
theorem title_moved {entries : List TitleEntry} {p q c f : Text} (here here' : List Text)
    (hp : isAbsolute p) (hq : isAbsolute q) (hp' : '?' ∉ p) (hq' : '?' ∉ q)
    (hc : inside? [] c = some config)
    (he : ∀ e ∈ entries, (inside? config e.directory).isSome)
    (hf : inside? [] (pathOf f) = some names) (hnames : names ≠ []) :
    (rooted entries here p c).title (join p f) = (rooted entries here' q c).title (join q f) := by
  have hne : ∀ {t : Text}, isAbsolute t = true → t ≠ [] := by
    rintro t ht rfl
    cases ht
  have hroot : ∀ {t : Text} (at₀ : List Text), isAbsolute t = true →
      (rooted entries at₀ t c).Anchored ∧
        lexical at₀ (rooted entries at₀ t c).configDir = lexical at₀ t ++ config :=
    fun at₀ ht => ⟨fun _ _ _ => join_ne_nil (hne ht) c, lexical_join_inside hc at₀ _⟩
  have hfile : ∀ {t : Text} (at₀ : List Text), isAbsolute t = true → '?' ∉ t →
      resolve? at₀ (pathOf (join t f)) = some (lexical at₀ t ++ names) := by
    intro t at₀ ht ht'
    rw [pathOf_join ht' (not_absolute_of_inside hf), resolve?_eq at₀ (join_ne_nil (hne ht) _),
      lexical_join_inside hf]
  refine title_of_match? (hfile here' hq hq') (hfile here hp hp') rfl (fun e hmem => ?_) ?_
  · exact match?_moved (hroot here' hq).1 (hroot here hp).1 hmem hmem (hroot here' hq).2
      (hroot here hp).2 (he e hmem) names
  · -- the name of the file is the last one on the way
    show (lexical here p ++ names).getLast? = (lexical here' q ++ names).getLast?
    rw [List.getLast?_append_of_ne_nil _ hnames, List.getLast?_append_of_ne_nil _ hnames]

/-- a project on two machines, seen from two working directories -/
theorem title_moved_checkout :
    let entries := [TitleEntry.ofSpecifier (.pattern "../src/**/*.stories.@(ts|tsx)".toList)]
    let config := ".storybook".toList
    let file := "src/./forms/Input.stories.tsx?import".toList
    (rooted entries ["tmp".toList] "/home/me/shop/".toList config).title
        (join "/home/me/shop/".toList file) =
      (rooted entries [] "/ci/../srv//build".toList config).title
        (join "/ci/../srv//build".toList file) :=
  title_moved _ _ rfl rfl (by decide) (by decide)
    (show inside? [] ".storybook".toList = some [".storybook".toList] by decide)
    (by decide +kernel)
    (show inside? [] (pathOf "src/./forms/Input.stories.tsx?import".toList) =
      some ["src".toList, "forms".toList, "Input.stories.tsx".toList] by decide) (by decide)

/-- **A root with a query in its name hides the file**: the title is the name of the root up to
it. -/
theorem title_of_query_root :
    let config := ".storybook".toList
    let file := "Input.stories.tsx".toList
    inside? [] config = some [config] ∧ inside? [] (pathOf file) = some [file] ∧
      (rooted [] [] "/srv/a?b".toList config).title (join "/srv/a?b".toList file) = "a".toList ∧
      (rooted [] [] "/srv/a".toList config).title (join "/srv/a".toList file) = "Input".toList := by
  decide +kernel

end TitleRules

end StorySuite
