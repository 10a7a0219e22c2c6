import Mathlib.Data.List.Basic
import StorySuite.Proofs.Path.Steps
import StorySuite.Title.Resolver

/-!
# Titles and the spelling of paths

`Path.lexical` says where a path leads by its pieces alone: empty ones and dots stay, two dots go
back, and a slash in front begins at the root.  A title hangs on nothing else of a file and of the
configuration, as long as the directories of the entries have a name at all.

* `Path.resolve?_eq`            a path that is not empty is resolved by its pieces;
* `TitleRules.directoryOf?_eq`  and so is the directory of an entry;
* `titleParts_prefix`           what a title shows are names of the file, in their order;
* `title_respelled`             **the same paths in other letters give the same title**, and it
                                shows nothing from above the directory of its entry;
* `title_of_nameless`           a directory without a name is none at all.
-/

namespace StorySuite

namespace Path

/-- one piece of a path further -/
def stride (here : List Text) (piece : Text) : List Text :=
  if piece = [] ∨ piece = ['.'] then here
  else if piece = ['.', '.'] then here.dropLast
  else here ++ [piece]

/-- **Where a path leads by its pieces**, from the root or from `here`. -/
def lexical (here : List Text) (p : Text) : List Text :=
  (Text.fields '/' p).foldl stride (if p.head? = some '/' then [] else here)

example : lexical ["a".toList, "b".toList] "./c//../../d/" = ["a".toList, "d".toList] := by decide

theorem foldl_stride (here : List Text) (ps : List Text) :
    ps.foldl stride here = walk here (ps.filterMap Component.ofPiece?) := by
  induction ps generalizing here with
  | nil => rfl
  | cons p ps ih =>
    have hp : stride here p = walk here (Component.ofPiece? p).toList := by
      unfold stride Component.ofPiece?
      simp only [Bool.or_eq_true, decide_eq_true_eq]
      split
      · rfl
      · split <;> rfl
    have hcons : (p :: ps).filterMap Component.ofPiece? =
        (Component.ofPiece? p).toList ++ ps.filterMap Component.ofPiece? := by
      cases h : Component.ofPiece? p <;> simp [h]
    rw [List.foldl_cons, ih, hp, hcons, walk_append]

theorem walk_components_eq (here : List Text) (p : Text) :
    walk here (components p) = lexical here p := by
  rw [walk_components, lexical, foldl_stride, origin]
  simp only [isAbsolute, decide_eq_true_eq]
  rfl

/-- a path that is not empty leads somewhere -/
theorem resolve?_eq (here : List Text) {p : Text} (h : p ≠ []) :
    resolve? here p = some (lexical here p) := by
  rw [resolve?, if_neg (by simpa using h), walk_components_eq]

/-- on the way there are names only -/
theorem isName_of_mem_lexical {here : List Text} (h : ∀ n ∈ here, IsName n) (p : Text) :
    ∀ n ∈ lexical here p, IsName n := by
  have hfold : ∀ ps : List Text, (∀ q ∈ ps, '/' ∉ q) → ∀ at₀ : List Text, (∀ n ∈ at₀, IsName n) →
      ∀ n ∈ ps.foldl stride at₀, IsName n := by
    intro ps
    induction ps with
    | nil => exact fun _ _ h => h
    | cons q ps ih =>
      intro hps at₀ h₀
      refine ih (fun x hx => hps x (List.mem_cons_of_mem _ hx)) _ fun n hn => ?_
      unfold stride at hn
      split at hn
      · exact h₀ n hn
      · next h1 =>
        split at hn
        · exact h₀ n (List.dropLast_subset _ hn)
        · next h2 =>
          rcases List.mem_append.mp hn with hn | hn
          · exact h₀ n hn
          · rw [List.mem_singleton.mp hn]
            refine ⟨?_, hps q List.mem_cons_self⟩
            rw [Component.ofPiece?, if_neg (by simpa using h1), if_neg h2]
  refine hfold _ (fun q hq => Text.not_mem_of_mem_fields hq) _ fun n hn => ?_
  split at hn
  · cases hn
  · exact h n hn

end Path

open StorySuite.Path

/-! ## what a title shows -/

/-- the names of a file, without the endings of the last one -/
def stems (names : List Text) : List Text :=
  names.dropLast ++ (names.getLast?.map stem).toList

theorem isPrefix_dropLastIf (f : Text → Text → Bool) (ps : List Text) : dropLastIf f ps <+: ps := by
  unfold dropLastIf
  split
  · next last before rest h =>
    split
    · have hps : ps = (before :: rest).reverse ++ [last] := by
        rw [← List.reverse_reverse ps, h, List.reverse_cons]
      rw [hps]
      exact List.prefix_append _ _
    · exact List.prefix_rfl
  · exact List.prefix_rfl

theorem fields_names {names : List Text} (h : ∀ n ∈ names, IsName n) :
    (Text.fields '/' (Text.join ['/'] names)).filter (fun p => p != [] && p != ['.']) = names := by
  cases names with
  | nil => rfl
  | cons n ns =>
    rw [Text.fields_join (List.cons_ne_nil n ns) fun f hf => (h f hf).2]
    refine List.filter_eq_self.mpr fun f hf => ?_
    have hne : ¬(f = [] ∨ f = ['.']) := by
      intro h'
      have hf' := (h f hf).1
      rw [ofPiece?_eq_none.mpr h'] at hf'
      cases hf'
    rw [not_or] at hne
    rw [Bool.and_eq_true, bne_iff_ne, bne_iff_ne]
    exact hne

/-- the parts of a path that count for something -/
def counted (path : Text) : List Text :=
  (Text.fields '/' path).filter fun p => p != [] && p != ['.']

/-- a title shows parts of a path, from the first one on -/
theorem titleParts_stems (path : Text) : titleParts path <+: stems (counted path) := by
  unfold titleParts stems
  dsimp only
  rw [← counted]
  cases (counted path).getLast? with
  | some last => exact (isPrefix_dropLastIf _ _).trans (isPrefix_dropLastIf _ _)
  | none => exact List.nil_prefix

/-- **What a title shows of a path** are the names on it, from the first one on. -/
theorem titleParts_prefix {names : List Text} (h : ∀ n ∈ names, IsName n) :
    titleParts (Text.join ['/'] names) <+: stems names := by
  have hstems := titleParts_stems (Text.join ['/'] names)
  rwa [counted, fields_names h] at hstems

/-- the parts of a prefix -/
def segments (titlePrefix : Text) : List Text := (Text.fields '/' titlePrefix).filter (· != [])

theorem exists_shown {names : List Text} (h : ∀ n ∈ names, IsName n) (titlePrefix : Text) :
    ∃ shown, shown <+: stems names ∧
      autoTitle (Text.join ['/'] names) titlePrefix =
        Text.join ['/'] (segments titlePrefix ++ shown) :=
  ⟨_, titleParts_prefix h, rfl⟩

namespace TitleRules

/-- the part of an identifier that names a file -/
def pathOf (id : Text) : Text := id.takeWhile (· != '?')

/-- the names on the way to the directory of an entry -/
def directory (r : TitleRules) (e : TitleEntry) : List Text :=
  lexical (lexical r.cwd r.configDir) e.directory

/-- whether every entry has a directory: one without a name is seen from a configuration with one -/
def Anchored (r : TitleRules) : Prop := ∀ e ∈ r.entries, e.directory = [] → r.configDir ≠ []

/-- the same rules and the same file in other letters -/
structure Respelled (r r' : TitleRules) (id id' : Text) : Prop where
  entries : r'.entries = r.entries
  cwd : r'.cwd = r.cwd
  config : lexical r.cwd r'.configDir = lexical r.cwd r.configDir
  file : lexical r.cwd (pathOf id') = lexical r.cwd (pathOf id)
  nameless : pathOf id' = [] ↔ pathOf id = []

variable {r r' : TitleRules} {id id' : Text} {e : TitleEntry}

theorem directoryOf?_eq (hr : r.Anchored) (he : e ∈ r.entries) :
    r.directoryOf? e = some (r.directory e) := by
  unfold directoryOf? directory
  by_cases hc : r.configDir = []
  · have hdir : e.directory ≠ [] := fun h => hr e he h hc
    rw [hc]
    exact resolve?_eq r.cwd hdir
  · rw [resolve?_eq r.cwd hc]
    exact congrArg some (walk_components_eq _ _)

theorem resolve?_pathOf (h : Respelled r r' id id') :
    resolve? r'.cwd (pathOf id') = resolve? r.cwd (pathOf id) := by
  rw [h.cwd]
  by_cases hid : pathOf id = []
  · rw [hid, h.nameless.mpr hid]
  · rw [resolve?_eq _ hid, resolve?_eq _ fun h' => hid (h.nameless.mp h'), h.file]

theorem directory_eq (h : Respelled r r' id id') (e : TitleEntry) :
    r'.directory e = r.directory e := by
  unfold directory
  rw [h.cwd, h.config]

/-- **Entries match the same files**, however the configuration is spelled. -/
theorem match?_eq (h : Respelled r r' id id') (hr : r.Anchored) (hr' : r'.Anchored)
    (he : e ∈ r.entries) (file : Option (List Text)) : r'.match? file e = r.match? file e := by
  have he' : e ∈ r'.entries := by
    rw [h.entries]
    exact he
  unfold match?
  rw [directoryOf?_eq hr he, directoryOf?_eq hr' he', directory_eq h]

/-- a match says where the file lies below the directory of its entry -/
theorem exists_below (hr : r.Anchored) (he : e ∈ r.entries) {file : Option (List Text)}
    {path : Text} (h : r.match? file e = some path) :
    ∃ below, file = some (r.directory e ++ below) ∧ path = Text.join ['/'] below ∧
      Glob.matchesPath e.files path = true := by
  unfold match? at h
  rw [directoryOf?_eq hr he] at h
  obtain ⟨p, hp, hmatch⟩ := Option.bind_eq_some_iff.mp h
  split at hmatch
  · next hglob =>
    obtain rfl : p = path := Option.some.inj hmatch
    cases file with
    | none => cases hp
    | some names =>
      unfold below? at hp
      dsimp only at hp
      split at hp
      · next hpre =>
        obtain ⟨below, rfl⟩ := List.isPrefixOf_iff_prefix.mp hpre
        rw [List.drop_left] at hp
        exact ⟨below, rfl, (Option.some.inj hp).symm, hglob⟩
      · cases hp
  · cases hmatch

/-- the title as the first match gives it -/
theorem title_eq (r : TitleRules) (id : Text) :
    r.title id = match r.entries.findSome? fun e =>
        (r.match? (resolve? r.cwd (pathOf id)) e).map fun path => autoTitle path e.titlePrefix with
      | some t => t
      | none => autoTitle (((resolve? r.cwd (pathOf id)).bind List.getLast?).getD []) [] := rfl

/-- **A title hangs on what the entries match and on the name of the file alone.** -/
theorem title_of_match? {file file' : Option (List Text)}
    (hfile : resolve? r.cwd (pathOf id) = file) (hfile' : resolve? r'.cwd (pathOf id') = file')
    (hentries : r'.entries = r.entries)
    (hmatch : ∀ e ∈ r.entries, r'.match? file' e = r.match? file e)
    (hname : file'.bind List.getLast? = file.bind List.getLast?) : r'.title id' = r.title id := by
  have hfind : (r'.entries.findSome? fun e =>
        (r'.match? file' e).map fun path => autoTitle path e.titlePrefix) =
      r.entries.findSome? fun e =>
        (r.match? file e).map fun path => autoTitle path e.titlePrefix := by
    rw [hentries]
    generalize r.entries = es at hmatch
    induction es with
    | nil => rfl
    | cons e es ih =>
      rw [List.findSome?_cons, List.findSome?_cons, hmatch e List.mem_cons_self,
        ih fun x hx => hmatch x (List.mem_cons_of_mem _ hx)]
  rw [title_eq, title_eq, hfile, hfile', hfind, hname]

theorem title_congr (h : Respelled r r' id id') (hr : r.Anchored) (hr' : r'.Anchored) :
    r'.title id' = r.title id :=
  title_of_match? rfl (resolve?_pathOf h) h.entries (fun _ he => match?_eq h hr hr' he _) rfl

/-- what a title shows: names from below the directory of the entry that the file matches, behind
its prefix, or the name of the file alone -/
theorem exists_title (hr : r.Anchored) (hcwd : ∀ n ∈ r.cwd, IsName n) (id : Text) :
    ∃ before below shown, r.title id = Text.join ['/'] (before ++ shown) ∧ shown <+: stems below ∧
      ((∃ e ∈ r.entries, before = segments e.titlePrefix ∧
          r.directory e ++ below = lexical r.cwd (pathOf id) ∧
          Glob.matchesPath e.files (Text.join ['/'] below) = true) ∨
        before = [] ∧ below = (lexical r.cwd (pathOf id)).getLast?.toList) := by
  have hnames := isName_of_mem_lexical hcwd (pathOf id)
  rw [title_eq]
  cases hfind : r.entries.findSome? fun e =>
      (r.match? (resolve? r.cwd (pathOf id)) e).map fun path => autoTitle path e.titlePrefix with
  | some t =>
    obtain ⟨e, he, hmatch⟩ := List.exists_of_findSome?_eq_some hfind
    obtain ⟨path, hpath, rfl⟩ := Option.map_eq_some_iff.mp hmatch
    obtain ⟨below, hfile, rfl, hglob⟩ := exists_below hr he hpath
    have hid : pathOf id ≠ [] := by
      intro h
      rw [h] at hfile
      cases hfile
    rw [resolve?_eq _ hid] at hfile
    have hlies := Option.some.inj hfile
    rw [hlies] at hnames
    obtain ⟨shown, hshown, ht⟩ :=
      exists_shown (fun n hn => hnames n (List.mem_append_right _ hn)) e.titlePrefix
    exact ⟨_, below, shown, ht, hshown, Or.inl ⟨e, he, rfl, hlies.symm, hglob⟩⟩
  | none =>
    refine ⟨[], (lexical r.cwd (pathOf id)).getLast?.toList, ?_⟩
    by_cases hid : pathOf id = []
    · -- no file at all has no title
      refine ⟨[], ?_, List.nil_prefix, Or.inr ⟨rfl, rfl⟩⟩
      rw [hid]
      rfl
    · rw [resolve?_eq _ hid]
      show ∃ shown, autoTitle ((lexical r.cwd (pathOf id)).getLast?.getD []) [] = _ ∧ _
      cases hl : (lexical r.cwd (pathOf id)).getLast? with
      | none => exact ⟨[], rfl, List.nil_prefix, Or.inr ⟨rfl, rfl⟩⟩
      | some n =>
        have hn : ∀ x ∈ [n], IsName x := by
          intro x hx
          rw [List.mem_singleton.mp hx]
          exact hnames n (List.mem_of_getLast? hl)
        obtain ⟨shown, hshown, ht⟩ := exists_shown hn []
        exact ⟨shown, ht, hshown, Or.inr ⟨rfl, rfl⟩⟩

/-- **The same rules and the same file in other letters give the same title**, and it shows nothing
from above the directory of the entry that the file matches. -/
theorem title_respelled (h : Respelled r r' id id') (hr : r.Anchored) (hr' : r'.Anchored)
    (hcwd : ∀ n ∈ r.cwd, IsName n) :
    r'.title id' = r.title id ∧
      ∃ before below shown, r.title id = Text.join ['/'] (before ++ shown) ∧
        shown <+: stems below ∧
        ((∃ e ∈ r.entries, before = segments e.titlePrefix ∧
            r.directory e ++ below = lexical r.cwd (pathOf id) ∧
            Glob.matchesPath e.files (Text.join ['/'] below) = true) ∨
          before = [] ∧ below = (lexical r.cwd (pathOf id)).getLast?.toList) :=
  ⟨title_congr h hr hr', exists_title hr hcwd id⟩

/-- dots, slashes and a query in the name of a file, and steps there and back in place of no
directory at all -/
theorem title_respelled_dots :
    let stories := TitleEntry.ofSpecifier (.pattern "src/**/*.stories.@(ts|tsx)".toList)
    let cwd := ["work".toList, "project".toList]
    title ⟨[stories], "./x/..".toList, cwd⟩ "/work/..//work/project/src/a/./B.stories.ts".toList =
      title ⟨[stories], [], cwd⟩ "src/a/B.stories.ts?import".toList := by
  intro stories cwd
  have hdir : stories.directory ≠ [] := by decide
  have hr : ∀ config, (⟨[stories], config, cwd⟩ : TitleRules).Anchored := by
    intro config e he h
    obtain rfl := List.mem_singleton.mp he
    exact absurd h hdir
  have hcwd : ∀ n ∈ cwd, IsName n := by
    unfold IsName
    decide
  have h : Respelled ⟨[stories], [], cwd⟩ ⟨[stories], "./x/..".toList, cwd⟩
      "src/a/B.stories.ts?import".toList "/work/..//work/project/src/a/./B.stories.ts".toList :=
    ⟨rfl, rfl, by decide, by decide, by decide⟩
  exact (title_respelled h (hr _) (hr _) hcwd).1

/-! ## directories without a name -/

/-- **A directory without a name is none at all**: seen from a configuration without a name, its
entry is asked about the whole path. -/
theorem match?_nameless (hc : r.configDir = []) (he : e.directory = []) (names : List Text) :
    r.match? (some names) e =
      if Glob.matchesPath e.files (Text.join ['/'] (['/'] :: names)) then
        some (Text.join ['/'] (['/'] :: names))
      else none := by
  unfold match? directoryOf?
  rw [hc, he]
  rfl

/-- The title of a file that lies above the working directory, by an entry below it. -/
theorem title_of_nameless :
    let stories : TitleEntry := ⟨[], "**".toList, "E".toList⟩
    let cwd := ["work".toList, "project".toList]
    lexical cwd [] = lexical cwd ['.'] ∧
      TitleRules.title ⟨[stories], ['.'], cwd⟩ "/a/b.ts".toList = ['b'] ∧
      TitleRules.title ⟨[stories], [], cwd⟩ "/a/b.ts".toList = "E/a/b".toList := by
  decide +kernel

end TitleRules

end StorySuite
