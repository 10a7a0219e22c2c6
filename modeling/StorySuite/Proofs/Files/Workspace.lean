import StorySuite.Files.Workspace
import StorySuite.Proofs.Files.Tree

/-!
# Where paths lead

A path that leads anywhere leads to its place, which is told by the path alone, and it still leads
there when more is there.

* `Workspace.place w path`   where a path leads;
* `find_found`, `find_vacant`   **what is found is found at the place of the path**;
* `Grown w w'`               whatever is there stays;
* `Grown.find`               **where something was found, something is found**;
* `read_eq_ok_iff`           the text of a file is what stands at its place.
-/

namespace StorySuite

namespace Workspace

open StorySuite.Path

variable {w w' : Workspace}

/-- the names on the way to where a path leads -/
def place (w : Workspace) (path : Text) : List Text := walk w.cwd (components path)

/-- what stands at the end of a way -/
def stand? (w : Workspace) (way : List Text) : Option Stand := w.root.stand? way

theorem stand?_of_get? {way : List Text} {e : Entry} (h : w.root.get? way = some e) :
    w.stand? way = some e.stand := by
  rw [stand?, Entry.stand?, h]
  rfl

theorem exists_get? {way : List Text} {s : Stand} (h : w.stand? way = some s) :
    ∃ e, w.root.get? way = some e ∧ e.stand = s := Option.map_eq_some_iff.mp h

/-! ## following a path -/

theorem steps_skip {p : Text} (h : (p = [] || p = ['.']) = true) (ps : List Text) :
    (p :: ps).filterMap Component.ofPiece? = ps.filterMap Component.ofPiece? := by
  rw [List.filterMap_cons, Component.ofPiece?, if_pos h]

theorem steps_down {p : Text} (h : ¬(p = [] || p = ['.']) = true) (h' : p ≠ ['.', '.'])
    (ps : List Text) : (p :: ps).filterMap Component.ofPiece? =
      .named p :: ps.filterMap Component.ofPiece? := by
  rw [List.filterMap_cons, Component.ofPiece?, if_neg h, if_neg h']

theorem follow_found {here way : List Text} {ps : List Text} {e : Entry}
    (h : w.follow here ps = .ok (.found way e)) :
    way = walk here (ps.filterMap Component.ofPiece?) ∧ w.root.get? way = some e := by
  fun_induction follow w here ps with
  | case1 here e' he =>
    obtain ⟨rfl, rfl⟩ : here = way ∧ e' = e := by simpa using h
    exact ⟨rfl, he⟩
  | case5 here p ps es he hp ih =>
    rw [steps_skip hp]
    exact ih h
  | case6 here ps es he hp ih => exact ih h
  | case7 here p ps es he hp hp' hc ih =>
    rw [steps_down hp hp']
    exact ih h
  | case2 => cases h
  | case3 => cases h
  | case4 => cases h
  | case8 => cases h
  | case9 => cases h

theorem steps_all_empty {ps : List Text} (h : ps.all List.isEmpty = true) :
    ps.filterMap Component.ofPiece? = [] := by
  induction ps with
  | nil => rfl
  | cons p ps ih =>
    obtain ⟨hp, hps⟩ : p = [] ∧ ps.all List.isEmpty = true := by simpa using h
    rw [steps_skip (by rw [hp]; rfl), ih hps]

theorem follow_vacant {here way : List Text} {ps : List Text} {slash : Bool}
    (h : w.follow here ps = .ok (.vacant way slash)) (hps : ∀ p ∈ ps, '/' ∉ p) :
    way = walk here (ps.filterMap Component.ofPiece?) ∧ w.stand? way = none ∧
      ∃ dir n, way = dir ++ [n] ∧ w.stand? dir = some .directory ∧ IsName n := by
  fun_induction follow w here ps with
  | case5 here p ps es he hp ih =>
    rw [steps_skip hp]
    exact ih h fun q hq => hps q (List.mem_cons_of_mem _ hq)
  | case6 here ps es he hp ih => exact ih h fun q hq => hps q (List.mem_cons_of_mem _ hq)
  | case7 here p ps es he hp hp' hc ih =>
    rw [steps_down hp hp']
    exact ih h fun q hq => hps q (List.mem_cons_of_mem _ hq)
  | case8 here p ps es he hp hp' hc hall =>
    obtain ⟨rfl, -⟩ : here ++ [p] = way ∧ _ := by simpa using h
    have hname : IsName p := ⟨by rw [Component.ofPiece?, if_neg hp, if_neg hp'],
      hps p List.mem_cons_self⟩
    rw [steps_down hp hp', steps_all_empty hall]
    refine ⟨rfl, ?_, here, p, rfl, stand?_of_get? he, hname⟩
    rw [stand?, Entry.stand?_append he, Entry.stand?_singleton]
    simpa using hc
  | case1 => cases h
  | case2 => cases h
  | case3 => cases h
  | case4 => cases h
  | case9 => cases h

theorem place_eq (w : Workspace) (path : Text) :
    w.place path = walk (if isAbsolute path then [] else w.cwd)
      ((Text.fields '/' path).filterMap Component.ofPiece?) := walk_components w.cwd path

/-- **What is found is found at the place of the path.** -/
theorem find_found {path : Text} {way : List Text} {e : Entry}
    (h : w.find path = .ok (.found way e)) : way = w.place path ∧ w.root.get? way = some e := by
  unfold find at h
  split at h
  · cases h
  · rw [place_eq]
    exact follow_found h

theorem find_vacant {path : Text} {way : List Text} {slash : Bool}
    (h : w.find path = .ok (.vacant way slash)) : way = w.place path ∧ w.stand? way = none ∧
      ∃ dir n, way = dir ++ [n] ∧ w.stand? dir = some .directory ∧ IsName n := by
  unfold find at h
  split at h
  · cases h
  · rw [place_eq]
    exact follow_vacant h fun p hp => Text.not_mem_of_mem_fields hp

/-! ## what stays -/

/-- whatever is there in `w` is there in `w'` -/
structure Grown (w w' : Workspace) : Prop where
  cwd : w'.cwd = w.cwd
  directory : ∀ {way}, w.stand? way = some .directory → w'.stand? way = some .directory
  file : ∀ {way c}, w.stand? way = some (.file c) → ∃ c', w'.stand? way = some (.file c')

theorem Grown.refl (w : Workspace) : Grown w w := ⟨rfl, id, fun h => ⟨_, h⟩⟩

theorem Grown.trans {w₁ w₂ w₃ : Workspace} (h : Grown w₁ w₂) (h' : Grown w₂ w₃) : Grown w₁ w₃ where
  cwd := h'.cwd.trans h.cwd
  directory hd := h'.directory (h.directory hd)
  file hf := (h.file hf).elim fun _ hf => h'.file hf

theorem Grown.place_eq (h : Grown w w') (path : Text) : w'.place path = w.place path := by
  rw [place, h.cwd]
  rfl

theorem Grown.get?_directory (h : Grown w w') {way : List Text} {es : List (Text × Entry)}
    (he : w.root.get? way = some (.directory es)) :
    ∃ es', w'.root.get? way = some (.directory es') := by
  obtain ⟨e, he', hs⟩ := exists_get? (h.directory (stand?_of_get? he))
  cases e with
  | directory es' => exact ⟨es', he'⟩
  | file c => cases hs

theorem Grown.stand? (h : Grown w w') {way : List Text} {s : Stand} (hs : w.stand? way = some s) :
    ∃ s', w'.stand? way = some s' := by
  cases s with
  | directory => exact ⟨_, h.directory hs⟩
  | file c => exact (h.file hs).elim fun c' hc' => ⟨_, hc'⟩

theorem child?_isSome {here : List Text} {p : Text} {es : List (Text × Entry)}
    (he : w.root.get? here = some (.directory es)) :
    ((Entry.directory es).child? p).isSome = (w.stand? (here ++ [p])).isSome := by
  rw [stand?, Entry.stand?_append he, Entry.stand?_singleton, Option.isSome_map]

theorem follow_cons {here : List Text} {es : List (Text × Entry)}
    (he : w.root.get? here = some (.directory es)) (p : Text) (ps : List Text) :
    w.follow here (p :: ps) =
      if p = [] || p = ['.'] then w.follow here ps
      else if p = ['.', '.'] then w.follow here.dropLast ps
      else if (w.stand? (here ++ [p])).isSome then w.follow (here ++ [p]) ps
      else if ps.all List.isEmpty then .ok (.vacant (here ++ [p]) (!ps.isEmpty))
      else .error .notFound := by
  rw [follow, he]
  simp only
  rw [child?_isSome he]

theorem follow_all_empty {here : List Text} {es : List (Text × Entry)} {ps : List Text}
    (he : w.root.get? here = some (.directory es)) (hps : ps.all List.isEmpty = true) :
    w.follow here ps = .ok (.found here (.directory es)) := by
  induction ps with
  | nil => rw [follow, he]
  | cons p ps ih =>
    obtain ⟨rfl, hps⟩ : p = [] ∧ ps.all List.isEmpty = true := by simpa using hps
    rw [follow_cons he, if_pos (by rfl)]
    exact ih hps

end Workspace

namespace Spot

def way : Spot → List Text
  | found way _ => way
  | vacant way _ => way

/-- whether only a directory can be there -/
def slash : Spot → Bool
  | found _ _ => false
  | vacant _ slash => slash

end Spot

namespace Workspace

open StorySuite.Path

variable {w w' : Workspace}

/-- where something was found, or something is by now, something is found -/
theorem Grown.follow (h : Grown w w') {here : List Text} {ps : List Text} {s : Spot}
    (hf : w.follow here ps = .ok s) {t : Stand} (ht : w'.stand? s.way = some t)
    (hs : s.slash = true → t = .directory) :
    ∃ e, w'.follow here ps = .ok (.found s.way e) := by
  fun_induction Workspace.follow w here ps with
  | case1 here e he =>
    obtain rfl : Spot.found here e = s := by simpa using hf
    obtain ⟨e', he', -⟩ := Workspace.exists_get? ht
    refine ⟨e', ?_⟩
    rw [Workspace.follow, show w'.root.get? here = some e' from he']
    rfl
  | case5 here p ps es he hp ih =>
    obtain ⟨es', he'⟩ := h.get?_directory he
    rw [follow_cons he', if_pos hp]
    exact ih hf
  | case6 here ps es he hp ih =>
    obtain ⟨es', he'⟩ := h.get?_directory he
    rw [follow_cons he', if_neg hp, if_pos rfl]
    exact ih hf
  | case7 here p ps es he hp hp' hc ih =>
    obtain ⟨es', he'⟩ := h.get?_directory he
    rw [child?_isSome he] at hc
    obtain ⟨s', hs'⟩ := h.stand? (Option.some_get hc).symm
    rw [follow_cons he', if_neg hp, if_neg hp', if_pos (by rw [hs']; rfl)]
    exact ih hf
  | case8 here p ps es he hp hp' hc hall =>
    obtain rfl : Spot.vacant (here ++ [p]) (!ps.isEmpty) = s := by simpa using hf
    obtain ⟨es', he'⟩ := h.get?_directory he
    have ht' : w'.stand? (here ++ [p]) = some t := ht
    rw [follow_cons he', if_neg hp, if_neg hp', if_pos (by rw [ht']; rfl)]
    obtain ⟨e, he, hst⟩ := Workspace.exists_get? ht'
    cases e with
    | directory fs => exact ⟨_, follow_all_empty he hall⟩
    | file c =>
      -- nothing follows the name of a file
      have hps : ps = [] := by
        by_contra hne
        have := hs (by simpa [Spot.slash] using hne)
        rw [this] at hst
        cases hst
      subst hps
      exact ⟨.file c, by rw [Workspace.follow, he]; rfl⟩
  | case2 => cases hf
  | case3 => cases hf
  | case4 => cases hf
  | case9 => cases hf

theorem Grown.find (h : Grown w w') {path : Text} {s : Spot} (hf : w.find path = .ok s) {t : Stand}
    (ht : w'.stand? s.way = some t) (hs : s.slash = true → t = .directory) :
    ∃ e, w'.find path = .ok (.found s.way e) := by
  unfold Workspace.find at hf ⊢
  split at hf
  · cases hf
  · next hp =>
    rw [if_neg hp, h.cwd]
    exact h.follow hf ht hs

/-! ## finding files and directories -/

theorem isFile_iff {path : Text} : w.isFile path = true ↔
    ∃ way c, w.find path = .ok (.found way (.file c)) := by
  unfold isFile entry
  cases hf : w.find path with
  | error e => simp
  | ok s =>
    cases s with
    | vacant way slash => simp
    | found way e => cases e <;> simp [Entry.isFile]

theorem isDirectory_iff {path : Text} : w.isDirectory path = true ↔
    ∃ way es, w.find path = .ok (.found way (.directory es)) := by
  unfold isDirectory entry
  cases hf : w.find path with
  | error e => simp
  | ok s =>
    cases s with
    | vacant way slash => simp
    | found way e => cases e <;> simp [Entry.isDirectory]

theorem isFile_of_stand? {path : Text} {way : List Text} {e : Entry} {c : Content}
    (hf : w.find path = .ok (.found way e)) (hs : w.stand? way = some (.file c)) :
    w.isFile path = true := by
  have he := stand?_of_get? (find_found hf).2
  rw [hs] at he
  cases e with
  | file c => exact isFile_iff.mpr ⟨way, c, hf⟩
  | directory es => cases he

theorem isDirectory_of_stand? {path : Text} {way : List Text} {e : Entry}
    (hf : w.find path = .ok (.found way e)) (hs : w.stand? way = some .directory) :
    w.isDirectory path = true := by
  have he := stand?_of_get? (find_found hf).2
  rw [hs] at he
  cases e with
  | directory es => exact isDirectory_iff.mpr ⟨way, es, hf⟩
  | file c => cases he

theorem Grown.isFile (h : Grown w w') {path : Text} (hf : w.isFile path = true) :
    w'.isFile path = true := by
  obtain ⟨way, c, hf⟩ := isFile_iff.mp hf
  obtain ⟨c', hc'⟩ := h.file (stand?_of_get? (find_found hf).2)
  obtain ⟨e, he⟩ := h.find hf hc' nofun
  exact isFile_of_stand? he hc'

theorem Grown.isDirectory (h : Grown w w') {path : Text} (hd : w.isDirectory path = true) :
    w'.isDirectory path = true := by
  obtain ⟨way, es, hf⟩ := isDirectory_iff.mp hd
  have hd' := h.directory (stand?_of_get? (find_found hf).2)
  obtain ⟨e, he⟩ := h.find hf hd' fun _ => rfl
  exact isDirectory_of_stand? he hd'

/-- the text of a file is what stands at its place -/
theorem read_eq_ok_iff {path t : Text} : w.read path = .ok t ↔
    w.isFile path = true ∧ w.stand? (w.place path) = some (.file (.text t)) := by
  constructor
  · intro h
    have he : w.entry path = .ok (.file (.text t)) := by
      unfold read at h
      split at h <;> cases h
      assumption
    have hf : w.find path = .ok (.found (w.place path) (.file (.text t))) := by
      unfold entry at he
      split at he
      · next way e hf =>
        obtain rfl := Except.ok.inj he
        rw [← (find_found hf).1]
        exact hf
      · cases he
      · cases he
    exact ⟨isFile_iff.mpr ⟨_, _, hf⟩, stand?_of_get? (find_found hf).2⟩
  · rintro ⟨hf, hs⟩
    obtain ⟨way, c, hf⟩ := isFile_iff.mp hf
    obtain ⟨rfl, hg⟩ := find_found hf
    have hc := stand?_of_get? hg
    rw [hs] at hc
    obtain rfl : Content.text t = c := Stand.file.inj (Option.some.inj hc)
    simp [read, entry, hf]

end Workspace

end StorySuite
