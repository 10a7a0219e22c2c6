import StorySuite.Command.Basic
import StorySuite.Proofs.Title.Named

/-!
# Prefixes of titles

An argument gives the pattern of stories, alone or behind a prefix for their titles.  Behind a
prefix the pattern is taken apart at once, and the directory that comes of it is cut once more at
its end.  That takes nothing away but slashes, so that the entry matches as before and the titles
only have the prefix in front of them; a directory that is spelled by slashes alone is lost.

* `segments_join`                    the parts of a title are those that it is made of;
* `autoTitle_segments`               **a prefix stands in front of the title without one**;
* `Specifier.ofArgument_prefixed`    what is read of an argument with a prefix;
* `Specifier.behindPrefix`           a pattern as it is read behind a prefix;
* `TitleRules.match?_prefixed`       **its entry matches the same files by the same paths**;
* `TitleRules.title_prefixed`        the titles of both;
* `TitleRules.title_prefixed_root`   the root behind a prefix.
-/

namespace StorySuite

open StorySuite.Path

/-! ## the parts of a title -/

theorem segments_join {ps : List Text} (h : ∀ p ∈ ps, p ≠ [] ∧ '/' ∉ p) :
    segments (Text.join ['/'] ps) = ps := by
  by_cases hps : ps = []
  · rw [hps]
    rfl
  · rw [segments, Text.fields_join hps fun p hp => (h p hp).2]
    exact List.filter_eq_self.mpr fun p hp => bne_iff_ne.mpr (h p hp).1

theorem stem_ne_nil {name : Text} (h : name ≠ []) : stem name ≠ [] := by
  unfold stem
  split
  · exact h
  · next hdot =>
    obtain ⟨c, t, rfl⟩ := List.exists_cons_of_ne_nil h
    have hc : (c != '.') = true := bne_iff_ne.mpr fun e => hdot t (by rw [e])
    rw [List.takeWhile_cons, if_pos hc]
    exact List.cons_ne_nil _ _

theorem stem_subset (name : Text) : stem name ⊆ name := by
  unfold stem
  split
  · exact List.Subset.refl _
  · exact List.takeWhile_subset _

/-- what a title shows of a path are names -/
theorem mem_titleParts {path p : Text} (h : p ∈ titleParts path) : p ≠ [] ∧ '/' ∉ p := by
  have hcounted : ∀ q ∈ counted path, q ≠ [] ∧ '/' ∉ q := by
    intro q hq
    obtain ⟨hq, hcount⟩ := List.mem_filter.mp hq
    rw [Bool.and_eq_true, bne_iff_ne] at hcount
    exact ⟨hcount.1, Text.not_mem_of_mem_fields hq⟩
  rcases List.mem_append.mp ((titleParts_stems path).subset h) with hp | hp
  · exact hcounted p (List.dropLast_subset _ hp)
  · obtain ⟨last, hlast, rfl⟩ := Option.map_eq_some_iff.mp (Option.mem_toList.mp hp)
    obtain ⟨hne, hslash⟩ := hcounted last (List.mem_of_getLast? hlast)
    exact ⟨stem_ne_nil hne, fun hm => hslash (stem_subset last hm)⟩

/-- **A prefix stands in front of the title without one**, part by part. -/
theorem autoTitle_segments (path titlePrefix : Text) :
    autoTitle path titlePrefix =
      Text.join ['/'] (segments titlePrefix ++ segments (autoTitle path [])) := by
  have hplain : segments (autoTitle path []) = titleParts path :=
    segments_join fun _ => mem_titleParts
  rw [hplain]
  rfl

/-! ## arguments -/

namespace Specifier

open Arguments TitleEntry

variable {s titlePrefix : Text}

theorem ofArgument_plain (hs : '=' ∉ s) : ofArgument s = .ok (.pattern s) := by
  have hdrop : s.dropWhile (· != '=') = [] := List.dropWhile_eq_nil_iff.mpr fun c hc =>
    bne_iff_ne.mpr fun e => hs (e ▸ hc)
  unfold ofArgument Form.splitValue
  rw [hdrop]

theorem ofArgument_prefixed (hp : '=' ∉ titlePrefix) (hs : s ≠ []) :
    ofArgument (titlePrefix ++ '=' :: s) =
      .ok (.directory (ofPattern s).directory (some (ofPattern s).files) (some titlePrefix)) := by
  have hall : ∀ c ∈ titlePrefix, (c != '=') = true := fun c hc =>
    bne_iff_ne.mpr fun e => hp (e ▸ hc)
  have hdrop : (titlePrefix ++ '=' :: s).dropWhile (· != '=') = '=' :: s :=
    List.dropWhile_append_of_pos hall
  have htake : (titlePrefix ++ '=' :: s).takeWhile (· != '=') = titlePrefix := by
    rw [List.takeWhile_append_of_pos hall]
    exact List.append_nil _
  unfold ofArgument Form.splitValue
  rw [hdrop, htake]
  cases s with
  | nil => exact absurd rfl hs
  | cons c s => rfl

theorem titlePrefix_ofPattern (t : Text) : (ofPattern t).titlePrefix = [] := by
  cases h : hasWildcard t with
  | true =>
    obtain ⟨w, ws, -, -, -, he⟩ := exists_wild h
    rw [he]
  | false => rw [ofPattern_plain h]

/-- the files of an entry do not begin with a step to the current directory -/
theorem dropHere_files (t : Text) : dropHere (ofPattern t).files = (ofPattern t).files := by
  cases h : hasWildcard t with
  | true =>
    obtain ⟨w, ws, hw, hslash, -, he⟩ := exists_wild h
    have hfields := Text.fields_join (List.cons_ne_nil w ws) hslash
    rw [he]
    generalize Text.join ['/'] (w :: ws) = files at hfields
    fun_cases dropHere files with
    | case1 u =>
      -- such a step has no wildcard, and the first part of the files has one
      have hdot : Text.fields '/' ('.' :: '/' :: u) = ['.'] :: Text.fields '/' u :=
        Text.fields_append ['.'] u
      rw [hdot] at hfields
      rw [← (List.cons.inj hfields).1] at hw
      exact absurd hw (by decide)
    | case2 => rfl
  | false =>
    rw [ofPattern_plain h]
    rfl

/-- **A pattern as it is read behind a prefix**: as it is, unless the directory of its entry is
spelled by slashes alone; they are cut off. -/
def behindPrefix (s : Text) : Text :=
  if (ofPattern s).directory ≠ [] ∧ dropSlashes (ofPattern s).directory = [] then
    s.dropWhile (· = '/')
  else s

example : behindPrefix "/**/*.mdx" = "/**/*.mdx".toList ∧
    behindPrefix "//**/*.mdx" = "**/*.mdx".toList := by decide +kernel

/-- the files of an entry as a pattern of their own -/
theorem ofPattern_files (h : hasWildcard s = true) :
    ofPattern (ofPattern s).files = ⟨[], (ofPattern s).files, []⟩ := by
  obtain ⟨w, ws, hw, hslash, -, he⟩ := exists_wild h
  have hfields := Text.fields_join (List.cons_ne_nil w ws) hslash
  have hwild : hasWildcard (Text.join ['/'] (w :: ws)) = true := by
    rw [← any_hasWildcard, hfields, List.any_cons, hw, Bool.true_or]
  have hlit : literal (Text.join ['/'] (w :: ws)) = [] := by
    rw [literal, hfields, List.takeWhile_cons, hw]
    rfl
  obtain ⟨v, vs, -, -, hsplit, hfiles⟩ := exists_wild hwild
  rw [hlit, List.nil_append, hfields] at hsplit
  rw [he, hfiles, hlit, ← hsplit]
  rfl

/-- what is cut off in front of the files is all of the directory -/
theorem dropWhile_slashes (h : hasWildcard s = true)
    (hslash : dropSlashes (ofPattern s).directory = []) :
    s.dropWhile (· = '/') = (ofPattern s).files := by
  obtain ⟨n, hn⟩ := named_eq (.pattern s)
  have hq := not_absolute_files s
  have hs : s = named (.pattern s) ++ (ofPattern s).files := by
    obtain ⟨w, ws, -, -, hfields, he⟩ := exists_wild h
    rw [named, if_pos h, he, ← Text.join_append ['/'] _ (List.cons_ne_nil w ws), ← hfields,
      Text.join_fields]
  have hall : ∀ c ∈ named (.pattern s), decide (c = '/') = true := by
    intro c hc
    rw [hn] at hc
    rcases List.mem_append.mp hc with hc | hc
    · exact decide_eq_true (dropSlashes_eq_nil.mp hslash c hc)
    · exact decide_eq_true (List.eq_of_mem_replicate hc)
  have hkeep : (ofPattern s).files.dropWhile (· = '/') = (ofPattern s).files := by
    cases hf : (ofPattern s).files with
    | nil => rfl
    | cons c f =>
      rw [hf] at hq
      rw [List.dropWhile_cons, if_neg]
      simpa [isAbsolute] using hq
  conv_lhs => rw [hs]
  rw [List.dropWhile_append_of_pos hall, hkeep]

/-- **Behind a prefix an entry is that of the pattern as it is read there**, but for slashes at the
end of its directory. -/
theorem ofPattern_behindPrefix (s : Text) :
    (ofPattern (behindPrefix s)).files = (ofPattern s).files ∧
      ∃ n, (ofPattern (behindPrefix s)).directory =
          dropSlashes (ofPattern s).directory ++ List.replicate n '/' ∧
        (dropSlashes (ofPattern s).directory = [] → n = 0) := by
  unfold behindPrefix
  split
  · next hcut =>
    obtain ⟨hd, hslash⟩ := hcut
    cases h : hasWildcard s with
    | true =>
      rw [dropWhile_slashes h hslash, ofPattern_files h, hslash]
      exact ⟨rfl, 0, rfl, fun _ => rfl⟩
    | false =>
      -- what is cut once is not cut again
      rw [ofPattern_plain h] at hd hslash
      rw [dropSlashes_eq_nil] at hslash
      obtain ⟨n, hn⟩ := exists_dropSlashes s
      exfalso
      refine hd (dropSlashes_eq_nil.mpr fun c hc => ?_)
      rw [hn] at hc
      rcases List.mem_append.mp hc with hc | hc
      · exact hslash c hc
      · exact List.eq_of_mem_replicate hc
  · next hkeep =>
    obtain ⟨n, hn⟩ := exists_dropSlashes (ofPattern s).directory
    refine ⟨rfl, n, hn, fun hnil => ?_⟩
    have hd : (ofPattern s).directory = [] := by
      by_contra hd
      exact hkeep ⟨hd, hnil⟩
    rw [hnil, hd] at hn
    simpa using congrArg List.length hn.symm

end Specifier

/-! ## titles by one entry -/

namespace TitleRules

open TitleEntry

/-- the rules with one specifier -/
def alone (s : Specifier) (configDir : Text) (cwd : List Text) : TitleRules :=
  ⟨[ofSpecifier s], configDir, cwd⟩

/-- whether a file matches an entry -/
def Matches (r : TitleRules) (id : Text) : Prop :=
  ∃ e ∈ r.entries, (r.match? (resolve? r.cwd (pathOf id)) e).isSome

variable {s titlePrefix : Text}

/-- **Behind a prefix an entry matches the same files by the same paths.** -/
theorem match?_prefixed (r : TitleRules) (file : Option (List Text)) (s titlePrefix : Text) :
    r.match? file (ofSpecifier
        (.directory (ofPattern s).directory (some (ofPattern s).files) (some titlePrefix))) =
      r.match? file (ofPattern (Specifier.behindPrefix s)) := by
  obtain ⟨hfiles, n, hn, hnil⟩ := Specifier.ofPattern_behindPrefix s
  have hseen : r.seen? (ofPattern (Specifier.behindPrefix s)).directory =
      r.seen? (dropSlashes (ofPattern s).directory) := by
    rw [hn]
    by_cases hd : dropSlashes (ofPattern s).directory = []
    · rw [hnil hd, List.replicate_zero, List.append_nil]
    · exact seen?_slashes r hd n
  show (below? (r.seen? (dropSlashes (ofPattern s).directory)) file).bind (fun path =>
      if Glob.matchesPath (dropHere (ofPattern s).files) path then some path else none) =
    (below? (r.seen? (ofPattern (Specifier.behindPrefix s)).directory) file).bind fun path =>
      if Glob.matchesPath (ofPattern (Specifier.behindPrefix s)).files path then some path else none
  rw [hseen, hfiles, Specifier.dropHere_files]

theorem matches_alone (s : Specifier) (configDir : Text) (cwd : List Text) (id : Text) :
    (alone s configDir cwd).Matches id ↔
      ((alone s configDir cwd).match? (resolve? cwd (pathOf id)) (ofSpecifier s)).isSome := by
  constructor
  · rintro ⟨e, he, h⟩
    rwa [List.mem_singleton.mp he] at h
  · exact fun h => ⟨_, List.mem_cons_self, h⟩

/-- the title by one entry -/
theorem title_alone (s : Specifier) (configDir : Text) (cwd : List Text) (id : Text) :
    (alone s configDir cwd).title id =
      (((alone s configDir cwd).match? (resolve? cwd (pathOf id)) (ofSpecifier s)).map
        fun path => autoTitle path (ofSpecifier s).titlePrefix).getD
          (autoTitle (((resolve? cwd (pathOf id)).bind List.getLast?).getD []) []) := by
  rw [title_eq]
  simp only [alone, List.findSome?_cons, List.findSome?_nil]
  cases match? _ (resolve? cwd (pathOf id)) (ofSpecifier s) <;> rfl

/-- **A prefix in front of a pattern changes nothing but the prefix of the titles**: the same files
match, their titles have the parts of the prefix in front, and the others keep theirs.  The pattern
is read as it is, unless nothing but slashes stands in front of its first part with a wildcard. -/
theorem title_prefixed (hp : '=' ∉ titlePrefix) (hs : '=' ∉ s) (hne : s ≠ []) :
    ∃ spec, Specifier.ofArgument (titlePrefix ++ '=' :: s) = .ok spec ∧
      Specifier.ofArgument s = .ok (.pattern s) ∧
      ∀ (configDir : Text) (cwd : List Text) (id : Text),
        let r := alone spec configDir cwd
        let plain := alone (.pattern (Specifier.behindPrefix s)) configDir cwd
        (r.Matches id ↔ plain.Matches id) ∧
        (plain.Matches id →
          r.title id = Text.join ['/'] (segments titlePrefix ++ segments (plain.title id))) ∧
        (¬plain.Matches id → r.title id = plain.title id) := by
  refine ⟨_, Specifier.ofArgument_prefixed hp hne, Specifier.ofArgument_plain hs,
    fun configDir cwd id => ?_⟩
  intro r plain
  have hmatch : r.match? (resolve? cwd (pathOf id)) (ofSpecifier
      (.directory (ofPattern s).directory (some (ofPattern s).files) (some titlePrefix))) =
      plain.match? (resolve? cwd (pathOf id)) (ofSpecifier (.pattern (Specifier.behindPrefix s))) :=
    match?_prefixed r _ s titlePrefix
  have hnone : (ofSpecifier (.pattern (Specifier.behindPrefix s))).titlePrefix = [] :=
    Specifier.titlePrefix_ofPattern _
  rw [matches_alone, matches_alone, title_alone, title_alone, hmatch, hnone]
  cases plain.match? (resolve? cwd (pathOf id))
      (ofSpecifier (.pattern (Specifier.behindPrefix s))) with
  | some path =>
    exact ⟨Iff.rfl, fun _ => autoTitle_segments path titlePrefix, fun h => absurd rfl h⟩
  | none => exact ⟨Iff.rfl, fun h => absurd h Bool.false_ne_true, fun _ => rfl⟩

/-- a file that matches, and one that does not -/
theorem title_prefixed_sources :
    let plain := alone (.pattern "../src//**/*.stories.tsx".toList) ".storybook".toList []
    ∃ spec, Specifier.ofArgument "/Design System//=../src//**/*.stories.tsx".toList = .ok spec ∧
      (alone spec ".storybook".toList []).title "src/forms/Input.stories.tsx".toList =
        Text.join ['/'] (["Design System".toList] ++
          segments (plain.title "src/forms/Input.stories.tsx".toList)) ∧
      (alone spec ".storybook".toList []).title "docs/Input.stories.tsx".toList =
        plain.title "docs/Input.stories.tsx".toList := by
  intro plain
  obtain ⟨spec, hspec, -, htitle⟩ :=
    title_prefixed (show '=' ∉ "/Design System//".toList by decide)
      (show '=' ∉ "../src//**/*.stories.tsx".toList by decide) (by decide)
  have hsame : Specifier.behindPrefix "../src//**/*.stories.tsx".toList =
      "../src//**/*.stories.tsx".toList := by decide +kernel
  rw [hsame] at htitle
  refine ⟨spec, hspec, ?_, ?_⟩
  · refine (htitle _ _ _).2.1 ?_
    rw [matches_alone]
    decide +kernel
  · refine (htitle _ _ _).2.2 ?_
    rw [matches_alone]
    decide +kernel

/-- **The root is lost behind a prefix**: the pattern alone gives the title of a file, and behind a
prefix the file does not match. -/
theorem title_prefixed_root :
    let file := "/b/Input.stories.ts".toList
    ∃ spec, Specifier.ofArgument "P=//**/*.stories.ts".toList = .ok spec ∧
      (alone spec "/work/.storybook".toList []).title file = "Input".toList ∧
      (alone (.pattern "//**/*.stories.ts".toList) "/work/.storybook".toList []).title file =
        "b/Input".toList :=
  ⟨.directory ['/'] (some "**/*.stories.ts".toList) (some ['P']), by decide +kernel,
    by decide +kernel, by decide +kernel⟩

end TitleRules

end StorySuite
