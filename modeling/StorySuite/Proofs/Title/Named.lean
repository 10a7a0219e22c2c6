import Mathlib.Data.List.Infix
import StorySuite.Proofs.Title.Respelled

/-!
# The directory that a specifier names

What stands in front of the first part of a pattern with a wildcard is the name of a directory, and
so is the whole of a pattern without any.  An entry keeps this name without the slashes at its end.
They say nothing, unless there is nothing else: then they are the name of the root, and an entry
without a directory lies where the configuration does.

* `Specifier.named`         the directory that a specifier names, as it is written there;
* `named_eq`                **an entry keeps it up to slashes at its end**;
* `Specifier.Lost`          the specifiers that name the root by slashes of which none is kept;
* `TitleRules.holds_iff`    the files under a directory that is seen from a configuration;
* `TitleRules.holds_named`  **the same files lie under what is named and under what is kept**, but
                            for those that are lost;
* `Specifier.directory_kept`  this, and the entry read as one pattern again;
* `TitleRules.title_of_slash`  the root as a directory of its own.
-/

namespace StorySuite

open StorySuite.Path

/-! ## slashes at the end of a text -/

namespace TitleEntry

theorem exists_dropSlashes (t : Text) : ∃ n, t = dropSlashes t ++ List.replicate n '/' := by
  have hslash : ∀ c ∈ (t.reverse.takeWhile (· = '/')).reverse, c = '/' := fun c hc =>
    of_decide_eq_true (List.mem_takeWhile_imp (p := fun c => decide (c = '/'))
      (List.mem_reverse.mp hc))
  refine ⟨(t.reverse.takeWhile (· = '/')).reverse.length, ?_⟩
  rw [← List.eq_replicate_of_mem hslash, dropSlashes, ← List.reverse_append,
    List.takeWhile_append_dropWhile, List.reverse_reverse]

theorem dropSlashes_eq_nil {t : Text} : dropSlashes t = [] ↔ ∀ c ∈ t, c = '/' := by
  rw [dropSlashes, List.reverse_eq_nil_iff, List.dropWhile_eq_nil_iff]
  simp only [List.mem_reverse, decide_eq_true_eq]

end TitleEntry

namespace Path

/-- slashes behind a path say nothing -/
theorem lexical_slashes (here : List Text) {d : Text} (hd : d ≠ []) (n : Nat) :
    lexical here (d ++ List.replicate n '/') = lexical here d := by
  induction n with
  | zero => rw [List.replicate_zero, List.append_nil]
  | succ n ih =>
    have horigin : ∀ t : Text, t ≠ [] → origin here (t ++ ['/']) = origin here t := by
      intro t ht
      obtain ⟨c, t, rfl⟩ := List.exists_cons_of_ne_nil ht
      rfl
    rw [← ih, List.replicate_succ', ← List.append_assoc, ← walk_components_eq, ← walk_components_eq,
      walk_components, walk_components, steps_append,
      horigin _ (List.append_ne_nil_of_left_ne_nil hd _)]
    exact congrArg _ (List.append_nil _)

/-- one slash in the place of several next to each other -/
def squeeze : Text → Text
  | [] => []
  | c :: t => if c = '/' ∧ t.head? = some '/' then squeeze t else c :: squeeze t

example : squeeze "//a///b/" = "/a/b/".toList := by decide

theorem squeeze_double (u v : Text) : squeeze (u ++ '/' :: '/' :: v) = squeeze (u ++ '/' :: v) := by
  induction u with
  | nil => exact if_pos ⟨rfl, rfl⟩
  | cons c u ih =>
    have hhead : (u ++ '/' :: '/' :: v).head? = (u ++ '/' :: v).head? := by cases u <;> rfl
    rw [List.cons_append, List.cons_append, squeeze, squeeze, ih, hhead]

theorem squeeze_slash {t : Text} (h : isAbsolute t = false) :
    squeeze ('/' :: t) = '/' :: squeeze t :=
  if_neg fun h' => of_decide_eq_false h h'.2

/-- files in a directory that has a name, up to redundant slashes -/
theorem squeeze_join {d q : Text} (hd : d ≠ []) (hq : isAbsolute q = false) :
    squeeze (join d q) = squeeze (d ++ '/' :: q) := by
  rw [join_eq d hq, front]
  split
  · next h =>
    obtain ⟨u, c, rfl⟩ := (List.eq_nil_or_concat d).resolve_left hd
    rw [List.concat_eq_append] at h ⊢
    obtain rfl : c = '/' := by simpa using h
    rw [List.append_assoc, List.append_assoc]
    exact (squeeze_double u q).symm
  · rw [List.append_assoc]
    rfl

theorem squeeze_join_slashes {d q : Text} (hd : d ≠ []) (hq : isAbsolute q = false) (n : Nat) :
    squeeze (join (d ++ List.replicate n '/') q) = squeeze (join d q) := by
  induction n with
  | zero => rw [List.replicate_zero, List.append_nil]
  | succ n ih =>
    rw [← ih, squeeze_join (List.append_ne_nil_of_left_ne_nil hd _) hq,
      squeeze_join (List.append_ne_nil_of_left_ne_nil hd _) hq, List.replicate_succ',
      ← List.append_assoc, List.append_assoc _ ['/']]
    exact squeeze_double _ q

end Path

/-! ## what a specifier names -/

namespace Specifier

open TitleEntry

/-- the parts of a pattern in front of the first one with a wildcard -/
def literal (t : Text) : List Text := (Text.fields '/' t).takeWhile fun p => !hasWildcard p

/-- **The directory that a specifier names**: in a pattern what stands in front of its first part
with a wildcard, the slash behind each part with it, and all of a pattern without any. -/
def named : Specifier → Text
  | .pattern t => if hasWildcard t then (literal t).flatMap (· ++ ['/']) else t
  | .directory d _ _ => d

/-- a pattern as the pattern of files that it stands for -/
def whole (t : Text) : Text := if hasWildcard t then t else join t standardFiles

/-- the specifiers that name the root by slashes of which none is kept -/
def Lost : Specifier → Prop
  | .pattern t => if hasWildcard t then literal t = [[]] else t ≠ [] ∧ ∀ c ∈ t, c = '/'
  | .directory d _ _ => d ≠ [] ∧ ∀ c ∈ d, c = '/'

/-- a wildcard stands in some part of a pattern -/
theorem any_hasWildcard (t : Text) : (Text.fields '/' t).any hasWildcard = hasWildcard t :=
  Text.any_fields rfl t

theorem literal_plain {t : Text} (h : hasWildcard t = false) : literal t = Text.fields '/' t := by
  refine List.takeWhile_eq_self_iff.mpr fun f hf => ?_
  rw [← any_hasWildcard, List.any_eq_false] at h
  rw [Bool.not_eq_true', ← Bool.not_eq_true]
  exact h f hf

theorem ofPattern_plain {t : Text} (h : hasWildcard t = false) :
    ofPattern t = ⟨dropSlashes t, standardFiles, []⟩ := by
  have hall : (Text.fields '/' t).takeWhile (fun p => !hasWildcard p) = Text.fields '/' t :=
    literal_plain h
  unfold ofPattern
  simp only [hall, List.drop_length]

/-- a pattern with a wildcard: its first part with one, and the parts behind it -/
theorem exists_wild {t : Text} (h : hasWildcard t = true) : ∃ w ws, hasWildcard w = true ∧
    (∀ f ∈ w :: ws, '/' ∉ f) ∧ Text.fields '/' t = literal t ++ w :: ws ∧
    ofPattern t = ⟨Text.join ['/'] (literal t), Text.join ['/'] (w :: ws), []⟩ := by
  have hsplit : Text.fields '/' t = literal t ++
      (Text.fields '/' t).dropWhile fun p => !hasWildcard p := List.takeWhile_append_dropWhile.symm
  cases hrest : (Text.fields '/' t).dropWhile fun p => !hasWildcard p with
  | nil =>
    rw [← any_hasWildcard, List.any_eq_true] at h
    obtain ⟨f, hf, hw⟩ := h
    have hlit := List.dropWhile_eq_nil_iff.mp hrest f hf
    rw [Bool.not_eq_true'] at hlit
    exact absurd (hlit.symm.trans hw) Bool.false_ne_true
  | cons w ws =>
    rw [hrest] at hsplit
    have hw := List.head_dropWhile_not (fun p => !hasWildcard p) (l := Text.fields '/' t)
      (by rw [hrest]; exact List.cons_ne_nil w ws)
    simp only [hrest, List.head_cons, Bool.not_eq_false'] at hw
    refine ⟨w, ws, hw, fun f hf => Text.not_mem_of_mem_fields (t := t) ?_, hsplit, ?_⟩
    · rw [hsplit]
      exact List.mem_append_right _ hf
    · have hdrop : (Text.fields '/' t).drop (literal t).length = w :: ws := by
        rw [hsplit, List.drop_left]
      unfold literal at hdrop ⊢
      unfold ofPattern
      simp only [hdrop]

/-- **An entry keeps the directory that is named, up to slashes at its end.** -/
theorem named_eq (s : Specifier) :
    ∃ n, s.named = (ofSpecifier s).directory ++ List.replicate n '/' := by
  cases s with
  | pattern t =>
    cases h : hasWildcard t with
    | true =>
      obtain ⟨w, ws, -, -, -, he⟩ := exists_wild h
      rw [named, if_pos h, ofSpecifier, he]
      by_cases hl : literal t = []
      · exact ⟨0, by rw [hl]; rfl⟩
      · exact ⟨1, Text.flatMap_mark ['/'] hl⟩
    | false =>
      rw [named, h, if_neg Bool.false_ne_true, ofSpecifier, ofPattern_plain h]
      exact exists_dropSlashes t
  | directory d files titlePrefix => exact exists_dropSlashes d

/-- what is lost is a name of which nothing is kept -/
theorem lost_iff (s : Specifier) : s.Lost ↔ (ofSpecifier s).directory = [] ∧ s.named ≠ [] := by
  cases s with
  | pattern t =>
    cases h : hasWildcard t with
    | true =>
      obtain ⟨w, ws, -, -, -, he⟩ := exists_wild h
      simp only [Lost, named, if_pos h, ofSpecifier, he]
      cases hl : literal t with
      | nil => simp [Text.join]
      | cons f fs =>
        cases fs with
        | nil => simp [Text.join]
        | cons g gs => simp [Text.join]
    | false =>
      simp only [Lost, named, h, Bool.false_eq_true, if_false, ofSpecifier, ofPattern_plain h,
        dropSlashes_eq_nil]
      exact And.comm
  | directory d files titlePrefix =>
    simp only [Lost, named, ofSpecifier, dropSlashes_eq_nil]
    exact And.comm

/-- the files of an entry are no path from the root -/
theorem not_absolute_files (t : Text) : isAbsolute (ofPattern t).files = false := by
  cases h : hasWildcard t with
  | true =>
    obtain ⟨w, ws, hw, hslash, -, he⟩ := exists_wild h
    rw [he]
    have hmem := hslash w List.mem_cons_self
    cases w with
    | nil => cases hw
    | cons c w =>
      have hc : c ≠ '/' := fun e => hmem (e ▸ List.mem_cons_self)
      cases ws <;> simpa [isAbsolute, Text.join] using hc
  | false =>
    rw [ofPattern_plain h]
    rfl

/-- a pattern is its files behind the directory that it names -/
theorem join_named (t : Text) : join (named (.pattern t)) (ofPattern t).files = whole t := by
  cases h : hasWildcard t with
  | true =>
    obtain ⟨w, ws, -, -, hfields, he⟩ := exists_wild h
    have hfront : front ((literal t).flatMap (· ++ ['/'])) = (literal t).flatMap (· ++ ['/']) := by
      by_cases hl : literal t = []
      · rw [hl]
        rfl
      · rw [Text.flatMap_mark ['/'] hl]
        simp [front]
    rw [join_eq _ (not_absolute_files t), named, if_pos h, hfront, he, whole, if_pos h]
    show _ ++ Text.join ['/'] (w :: ws) = t
    rw [← Text.join_append ['/'] (literal t) (List.cons_ne_nil w ws), ← hfields, Text.join_fields]
  | false =>
    rw [named, whole, h, ofPattern_plain h]
    rfl

/-- **An entry read as one pattern is the pattern again**, unless its directory is lost. -/
theorem squeeze_whole (t : Text) :
    squeeze (join (ofPattern t).directory (ofPattern t).files) = squeeze (whole t) ↔
      ¬(Specifier.pattern t).Lost := by
  have hq := not_absolute_files t
  obtain ⟨n, hn⟩ := named_eq (.pattern t)
  rw [← join_named t, lost_iff]
  by_cases hd : (ofPattern t).directory = []
  · rw [ofSpecifier, hd, List.nil_append] at hn
    cases n with
    | zero =>
      have hnil : named (.pattern t) = [] := hn
      rw [hnil, hd]
      exact iff_of_true rfl fun h => h.2 rfl
    | succ n =>
      -- what is left of the slashes is one, and none of them is kept
      have hroot : squeeze (join (named (.pattern t)) (ofPattern t).files) =
          '/' :: squeeze (ofPattern t).files := by
        rw [hn, List.replicate_succ]
        show squeeze (join (['/'] ++ List.replicate n '/') _) = _
        rw [squeeze_join_slashes (List.cons_ne_nil _ _) hq, join_eq _ hq]
        exact squeeze_slash hq
      rw [hroot, hd]
      have hne : named (.pattern t) ≠ [] := by
        rw [hn]
        exact List.cons_ne_nil _ _
      refine iff_of_false (fun h => ?_) fun h => h ⟨hd, hne⟩
      rw [join_eq _ hq] at h
      exact List.cons_ne_self _ _ h.symm
  · rw [hn]
    exact iff_of_true (squeeze_join_slashes hd hq n).symm fun h => hd h.1

end Specifier

/-! ## files under a directory -/

namespace TitleRules

open TitleEntry

/-- the names on the way to a directory that is seen from the configuration -/
def seen? (r : TitleRules) (d : Text) : Option (List Text) := r.directoryOf? ⟨d, [], []⟩

/-- whether a file lies under a directory that is seen from the configuration -/
def Holds (r : TitleRules) (d : Text) (file : List Text) : Prop :=
  (below? (r.seen? d) (some file)).isSome

variable (r : TitleRules)

theorem holds_iff (d : Text) (file : List Text) :
    r.Holds d file ↔ (r.seen? d).getD [] <+: file := by
  unfold Holds
  cases r.seen? d with
  | none => exact iff_of_true rfl List.nil_prefix
  | some dir =>
    rw [Option.getD_some, ← List.isPrefixOf_iff_prefix, below?]
    split
    · next h => exact iff_of_true rfl h
    · next h => exact iff_of_false Bool.false_ne_true h

theorem seen?_of_ne_nil {d : Text} (hd : d ≠ []) :
    r.seen? d = some (lexical ((resolve? r.cwd r.configDir).getD r.cwd) d) := by
  unfold seen? directoryOf?
  cases resolve? r.cwd r.configDir with
  | none => exact resolve?_eq r.cwd hd
  | some config => exact congrArg some (walk_components_eq config d)

/-- no directory at all is that of the configuration -/
theorem seen?_nil : r.seen? [] = resolve? r.cwd r.configDir := by
  unfold seen? directoryOf?
  cases resolve? r.cwd r.configDir <;> rfl

theorem seen?_slashes {d : Text} (hd : d ≠ []) (n : Nat) :
    r.seen? (d ++ List.replicate n '/') = r.seen? d := by
  rw [seen?_of_ne_nil r hd, seen?_of_ne_nil r (List.append_ne_nil_of_left_ne_nil hd _),
    lexical_slashes _ hd]

theorem seen?_root (n : Nat) : r.seen? (List.replicate (n + 1) '/') = some [] := by
  rw [List.replicate_succ]
  show r.seen? (['/'] ++ List.replicate n '/') = _
  rw [seen?_slashes r (List.cons_ne_nil _ _), seen?_of_ne_nil r (List.cons_ne_nil _ _)]
  rfl

/-- **The same files lie under the directory that a specifier names and under the one that its entry
keeps**, but for a name that is lost: what is kept of the root is the configuration. -/
theorem holds_named (s : Specifier) :
    (∀ file, r.Holds (ofSpecifier s).directory file ↔ r.Holds s.named file) ↔
      (s.Lost → (resolve? r.cwd r.configDir).getD [] = []) := by
  have hsame : (∀ file, r.Holds (ofSpecifier s).directory file ↔ r.Holds s.named file) ↔
      (r.seen? (ofSpecifier s).directory).getD [] = (r.seen? s.named).getD [] := by
    simp only [holds_iff]
    refine ⟨fun h => ?_, fun h file => by rw [h]⟩
    exact List.IsPrefix.eq_of_length_le ((h _).mpr List.prefix_rfl)
      ((h _).mp List.prefix_rfl).length_le
  obtain ⟨n, hn⟩ := Specifier.named_eq s
  rw [hsame, Specifier.lost_iff]
  by_cases hd : (ofSpecifier s).directory = []
  · rw [hd, seen?_nil]
    rw [hd, List.nil_append] at hn
    cases n with
    | zero => simp [show s.named = [] from hn, seen?_nil]
    | succ n =>
      have hne : s.named ≠ [] := by
        rw [hn]
        exact List.cons_ne_nil _ _
      rw [show r.seen? s.named = some [] from hn ▸ seen?_root r n]
      exact ⟨fun h _ => h, fun h => h ⟨rfl, hne⟩⟩
  · rw [hn, seen?_slashes r hd]
    exact iff_of_true rfl fun h => absurd h.1 hd

end TitleRules

open TitleEntry in
/-- **A specifier keeps its meaning in its entry**: the same files lie under the directory that it
names and under the one of the entry, and the entry read as one pattern is the pattern again up to
redundant slashes.  It is only where the root is named by slashes that are all cut off that its name
is lost, and then the entry lies where the configuration does. -/
theorem Specifier.directory_kept (r : TitleRules) :
    (∀ s : Specifier,
      (∀ file, r.Holds (ofSpecifier s).directory file ↔ r.Holds s.named file) ↔
        (s.Lost → (resolve? r.cwd r.configDir).getD [] = [])) ∧
    ∀ t, squeeze (join (ofPattern t).directory (ofPattern t).files) = squeeze (Specifier.whole t) ↔
      ¬(Specifier.pattern t).Lost :=
  ⟨r.holds_named, Specifier.squeeze_whole⟩

/-- **The root as a directory of its own**: behind one slash the entry is that of the pattern
without it, so a file elsewhere has no title by it. -/
theorem TitleRules.title_of_slash :
    let rules := fun t : Text =>
      (⟨[TitleEntry.ofPattern t], "/work/.storybook".toList, []⟩ : TitleRules)
    let file := "/b/Input.stories.ts".toList
    (rules "/**/*.stories.ts".toList).title file = "Input".toList ∧
      (rules "//**/*.stories.ts".toList).title file = "b/Input".toList ∧
      TitleEntry.ofPattern "/**/*.stories.ts".toList =
        TitleEntry.ofPattern "**/*.stories.ts".toList := by
  decide +kernel

end StorySuite
