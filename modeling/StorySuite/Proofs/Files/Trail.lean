import StorySuite.Proofs.Files.Scan

/-!
# The way of a path

A path is followed through one place after the other, the last of which is where it leads.

* `Path.trail here cs`       the places that steps lead through;
* `Workspace.through w path` the places that a path leads through;
* `through_parent?`          the path to a directory leads through no other places than what is in it;
* `mem_through_codePath`     the path of a test module leads to the output directory and on below it;
* `directory_of_found`       **what is found is reached through directories**;
* `find_along`               what lies below a directory is found there.
-/

namespace StorySuite

namespace Path

/-- the places that steps lead through, each of them and the last -/
def trail (here : List Text) : List Component → List (List Text)
  | [] => [here]
  | c :: cs => here :: trail (walk here [c]) cs

theorem walk_cons (here : List Text) (c : Component) (cs : List Component) :
    walk here (c :: cs) = walk (walk here [c]) cs := walk_append here [c] cs

theorem here_mem_trail (here : List Text) (cs : List Component) : here ∈ trail here cs := by
  cases cs <;> exact List.mem_cons_self

theorem walk_mem_trail (here : List Text) (cs : List Component) : walk here cs ∈ trail here cs := by
  induction cs generalizing here with
  | nil => exact List.mem_cons_self
  | cons c cs ih =>
    rw [walk_cons]
    exact List.mem_cons_of_mem _ (ih _)

theorem mem_trail_append {here way : List Text} {a b : List Component} :
    way ∈ trail here (a ++ b) ↔ way ∈ trail here a ∨ way ∈ trail (walk here a) b := by
  induction a generalizing here with
  | nil =>
    refine ⟨Or.inr, fun h => h.elim (fun h => ?_) id⟩
    rw [List.mem_singleton.mp h]
    exact here_mem_trail here b
  | cons c a ih =>
    rw [List.cons_append, trail, trail, List.mem_cons, List.mem_cons, ih, ← walk_cons, or_assoc]

theorem mem_trail_names {here way ns : List Text} :
    way ∈ trail here (names ns) ↔ ∃ ms, ms <+: ns ∧ way = here ++ ms := by
  induction ns generalizing here with
  | nil =>
    refine List.mem_singleton.trans ⟨fun h => ⟨[], List.prefix_refl _, by rw [h, List.append_nil]⟩, ?_⟩
    rintro ⟨ms, hms, rfl⟩
    rw [List.prefix_nil.mp hms, List.append_nil]
  | cons n ns ih =>
    show way ∈ here :: trail (here ++ [n]) (names ns) ↔ _
    rw [List.mem_cons, ih]
    constructor
    · rintro (rfl | ⟨ms, hms, rfl⟩)
      · exact ⟨[], List.nil_prefix, (List.append_nil _).symm⟩
      · exact ⟨n :: ms, List.cons_prefix_cons.mpr ⟨rfl, hms⟩, by simp⟩
    · rintro ⟨ms, hms, rfl⟩
      cases ms with
      | nil => exact Or.inl (List.append_nil _)
      | cons m ms =>
        obtain ⟨rfl, hms'⟩ := List.cons_prefix_cons.mp hms
        exact Or.inr ⟨ms, hms', by simp⟩

/-- what is left of a text without its last piece -/
theorem reverse_dropWhile {u f : Text} (hu : Front u) (hf : '/' ∉ f) :
    ((u ++ f).reverse.dropWhile (· != '/')).reverse = u := by
  have hall : ∀ c ∈ f.reverse, (c != '/') = true := fun c hc =>
    bne_iff_ne.mpr fun h => hf (h ▸ List.mem_reverse.mp hc)
  rw [List.reverse_append, List.dropWhile_append_of_pos hall]
  rcases hu with rfl | ⟨v, rfl⟩
  · rfl
  · simp

theorem steps_parent? {p q : Text} (h : parent? p = some q) (here : List Text) :
    origin here q = origin here p ∧ ∃ cs, steps p = steps q ++ cs := by
  unfold parent? at h
  simp only at h
  split at h
  · split at h
    · next hhead =>
      obtain rfl := Option.some.inj h
      refine ⟨?_, steps p, rfl⟩
      rcases splitHead_cases p with ⟨t, rfl, hs⟩ | ⟨rfl, -⟩ | ⟨t, rfl, -⟩ | ⟨-, hs⟩
      · rw [hs] at hhead
        cases hhead
      · rfl
      · rfl
      · rw [hs] at hhead
        cases hhead
    · cases h
  · next hb =>
    obtain ⟨u, f, c, e, hu, hf, hc⟩ := exists_last hb
    have hq := Option.some.inj h
    rw [e, reverse_dropWhile hu hf] at hq
    -- what is left are the steps of the body but the last
    have hsteps : steps p = steps (dropEmptyEnd u) ++ [c] := by
      rw [← steps_body p, ← steps_dropEmptyEnd (splitHead p).2, e, steps_front hu,
        steps_of_not_mem hf, hc, steps_dropEmptyEnd]
      rfl
    have hpre : dropEmptyEnd u <+: (splitHead p).2 :=
      (isPrefix_dropEmptyEnd u).trans (List.IsPrefix.trans ⟨f, e.symm⟩ (isPrefix_dropEmptyEnd _))
    rw [← hq]
    rcases splitHead_cases p with ⟨t, rfl, hs⟩ | ⟨rfl, hs⟩ | ⟨t, rfl, hs⟩ | ⟨hbegins, hs⟩ <;>
      rw [hs] at hpre ⊢
    · exact ⟨rfl, [c], hsteps.trans (by rw [← steps_slash (dropEmptyEnd u)]; rfl)⟩
    · rw [hs] at hb
      exact absurd rfl hb
    · refine ⟨rfl, [c], hsteps.trans ?_⟩
      cases hd : dropEmptyEnd u with
      | nil => rfl
      | cons d v =>
        rw [hd] at hpre
        obtain ⟨rfl, -⟩ := List.cons_prefix_cons.mp hpre
        rw [show ['.'] ++ '/' :: v = '.' :: '/' :: v from rfl, steps_current, steps_slash]
    · refine ⟨?_, [c], hsteps⟩
      have hrel : ∀ t, t <+: p → isAbsolute t = false := by
        rintro t ⟨v, rfl⟩
        cases t with
        | nil => rfl
        | cons d t =>
          have hd : d ≠ '/' := fun h => hbegins.1 (t ++ v) (by rw [h]; rfl)
          simp [isAbsolute, hd]
      rw [List.nil_append, origin, origin, hrel _ hpre, hrel p (List.prefix_refl p)]

end Path

namespace Workspace

open StorySuite.Path

variable {w w' : Workspace}

/-- the places that a path leads through -/
def through (w : Workspace) (path : Text) : List (List Text) :=
  trail (origin w.cwd path) (steps path)

theorem place_mem_through (w : Workspace) (path : Text) : w.place path ∈ w.through path := by
  rw [place, walk_components]
  exact walk_mem_trail _ _

theorem through_parent? {p q : Text} (h : parent? p = some q) :
    ∀ way ∈ w.through q, way ∈ w.through p := by
  obtain ⟨ho, cs, hs⟩ := steps_parent? h w.cwd
  intro way hway
  rw [through, ← ho, hs]
  rw [through] at hway
  exact mem_trail_append.mpr (Or.inl hway)

theorem mem_through_front {u q : Text} (hu : Front u) (hq : isAbsolute q = false)
    {way : List Text} : way ∈ w.through (u ++ q) ↔
      way ∈ w.through u ∨ way ∈ trail (w.place u) (steps q) := by
  rw [through, origin_front _ hu hq, steps_front hu, mem_trail_append, place, walk_components]
  rfl

theorem mem_through_name {u n : Text} (hu : Front u) (hn : IsName n) {way : List Text} :
    way ∈ w.through (u ++ n) ↔ way ∈ w.through u ∨ way = w.place (u ++ n) := by
  have hplace : w.place (u ++ n) = w.place u ++ [n] := walk_front_name _ hu hn
  rw [mem_through_front hu hn.not_absolute, steps_name hn, hplace,
    show [Component.named n] = names [n] from rfl, mem_trail_names]
  constructor
  · rintro (h | ⟨ms, hms, rfl⟩)
    · exact Or.inl h
    · cases ms with
      | nil =>
        rw [List.append_nil]
        exact Or.inl (w.place_mem_through u)
      | cons m ms =>
        obtain ⟨rfl, hms'⟩ := List.cons_prefix_cons.mp hms
        rw [List.prefix_nil.mp hms']
        exact Or.inr rfl
  · rintro (h | rfl)
    · exact Or.inl h
    · exact Or.inr ⟨[n], List.prefix_refl _, rfl⟩

theorem through_front_eq (w : Workspace) (path : Text) : w.through (front path) = w.through path := by
  rw [through, through, steps_front_eq, origin_front_eq]

/-- a relative path as seen from a directory leads to the directory and on from it -/
theorem mem_through_join (directory : Text) {q : Text} (hq : isAbsolute q = false)
    {way : List Text} : way ∈ w.through (join directory q) ↔
      way ∈ w.through directory ∨ way ∈ trail (w.place directory) (steps q) := by
  rw [join_eq directory hq, mem_through_front (front_front directory) hq, through_front_eq, place,
    walk_front_eq]
  rfl

/-- the path of a test module leads to the output directory and on below it -/
theorem mem_through_codePath {file root : Text} (directory : Text) {ns : List Text}
    (hr : root ≠ []) (hns : ns ≠ []) (h : components file = components root ++ names ns)
    {way : List Text} : way ∈ w.through (Output.codePath file root directory) ↔
      way ∈ w.through directory ∨ ∃ ms, ms <+: ns ∧ way = w.place directory ++ ms := by
  obtain ⟨t, hcode, hs, ha⟩ := Output.exists_codePath hr hns h directory
  rw [hcode, mem_through_join directory ha, hs, mem_trail_names]

/-! ## what is found -/

theorem directory_of_follow {here way : List Text} {ps : List Text} {e : Entry}
    (h : w.follow here ps = .ok (.found way e)) :
    ∀ v ∈ trail here (ps.filterMap Component.ofPiece?), v = way ∨ w.stand? v = some .directory := by
  fun_induction Workspace.follow w here ps with
  | case1 here e' he =>
    obtain ⟨rfl, rfl⟩ : here = way ∧ e' = e := by simpa using h
    exact fun v hv => Or.inl (List.mem_singleton.mp hv)
  | case5 here p ps es he hp ih =>
    rw [steps_skip hp]
    exact ih h
  | case6 here ps es he hp ih =>
    intro v hv
    rcases List.mem_cons.mp hv with rfl | hv
    · exact Or.inr (stand?_of_get? he)
    · exact ih h v hv
  | case7 here p ps es he hp hp' hc ih =>
    rw [steps_down hp hp']
    intro v hv
    rcases List.mem_cons.mp hv with rfl | hv
    · exact Or.inr (stand?_of_get? he)
    · exact ih h v hv
  | case2 => cases h
  | case3 => cases h
  | case4 => cases h
  | case8 => cases h
  | case9 => cases h

/-- **What is found is reached through directories.** -/
theorem directory_of_found {path : Text} {way : List Text} {e : Entry}
    (h : w.find path = .ok (.found way e)) {v : List Text} (hv : v ∈ w.through path) :
    v = way ∨ w.stand? v = some .directory := by
  unfold find at h
  split at h
  · cases h
  · exact directory_of_follow h v hv

theorem follow_append {here way : List Text} {ps : List Text} {es : List (Text × Entry)}
    (h : w.follow here ps = .ok (.found way (.directory es))) (qs : List Text) :
    w.follow here (ps ++ qs) = w.follow way qs := by
  fun_induction Workspace.follow w here ps with
  | case1 here e he =>
    obtain ⟨rfl, -⟩ : here = way ∧ e = .directory es := by simpa using h
    rfl
  | case5 here p ps es he hp ih =>
    rw [List.cons_append, follow_cons he, if_pos hp]
    exact ih h
  | case6 here ps es he hp ih =>
    rw [List.cons_append, follow_cons he, if_neg hp, if_pos rfl]
    exact ih h
  | case7 here p ps es he hp hp' hc ih =>
    rw [child?_isSome he] at hc
    rw [List.cons_append, follow_cons he, if_neg hp, if_neg hp', if_pos hc]
    exact ih h
  | case2 => cases h
  | case3 => cases h
  | case4 => cases h
  | case8 => cases h
  | case9 => cases h

/-- a slash at the end of a path to a directory counts for nothing -/
theorem follow_slash {here way : List Text} {ps : List Text} {es : List (Text × Entry)}
    (h : w.follow here (ps ++ [[]]) = .ok (.found way (.directory es))) :
    w.follow here ps = .ok (.found way (.directory es)) := by
  induction ps generalizing here with
  | nil =>
    rw [List.nil_append, Workspace.follow] at h
    split at h
    · cases h
    · cases h
    · simpa using h
  | cons p ps ih =>
    rw [List.cons_append] at h
    cases hg : w.root.get? here with
    | none => simp [Workspace.follow, hg] at h
    | some e =>
      cases e with
      | file c => simp [Workspace.follow, hg] at h
      | directory fs =>
        rw [follow_cons hg] at h ⊢
        by_cases hp : (p = [] || p = ['.']) = true
        · rw [if_pos hp] at h ⊢
          exact ih h
        · rw [if_neg hp] at h ⊢
          by_cases hp' : p = ['.', '.']
          · rw [if_pos hp'] at h ⊢
            exact ih h
          · rw [if_neg hp'] at h ⊢
            split at h
            · next hc =>
              rw [if_pos hc]
              exact ih h
            · split at h <;> cases h

theorem follow_name {n : Text} {way : List Text} {es : List (Text × Entry)} {e : Entry}
    (hn : IsName n) (hg : w.root.get? way = some (.directory es))
    (he : (Entry.directory es).child? n = some e) :
    w.follow way [n] = .ok (.found (way ++ [n]) e) := by
  have hchild : w.root.get? (way ++ [n]) = some e := by
    rw [Entry.get?_append, hg, Option.bind_some, Entry.get?_cons, he]
    rfl
  have hskip : ¬(n = [] || n = ['.']) = true := by
    intro hs
    have hp := hn.1
    rw [Component.ofPiece?, if_pos hs] at hp
    cases hp
  have hup : n ≠ ['.', '.'] := by
    rintro rfl
    exact absurd hn.1 (by decide)
  rw [follow_cons hg, if_neg hskip, if_neg hup, ← child?_isSome hg, he, Option.isSome_some,
    if_pos rfl, Workspace.follow, hchild]

/-- a directory is found without a slash behind its path -/
theorem follow_front {path : Text} (hne : path ≠ []) (here : List Text) {way : List Text}
    {es : List (Text × Entry)}
    (h : w.follow here (Text.fields '/' path) = .ok (.found way (.directory es))) :
    ∃ v, front path = v ++ ['/'] ∧
      w.follow here (Text.fields '/' v) = .ok (.found way (.directory es)) := by
  unfold front
  split
  · next hend =>
    obtain ⟨v, c, rfl⟩ := List.eq_nil_or_concat path |>.resolve_left hne
    obtain rfl : c = '/' := by simpa using hend
    rw [List.concat_eq_append] at h ⊢
    rw [Text.fields_append] at h
    exact ⟨v, rfl, follow_slash h⟩
  · exact ⟨path, rfl, h⟩

theorem find_join {path n : Text} {way : List Text} {es : List (Text × Entry)} {e : Entry}
    (hn : IsName n) (h : w.find path = .ok (.found way (.directory es)))
    (he : (Entry.directory es).child? n = some e) :
    w.find (join path n) = .ok (.found (way ++ [n]) e) := by
  have hlast := follow_name hn (find_found h).2 he
  have hne : path ≠ [] := by
    rintro rfl
    cases h
  unfold find at h
  rw [if_neg (mt List.isEmpty_iff.mp hne)] at h
  obtain ⟨v, hv, hfind⟩ := follow_front hne (origin w.cwd path) h
  have hjoin : join path n = v ++ '/' :: n := by
    rw [join_eq path hn.not_absolute, hv, List.append_assoc]
    rfl
  have ho : origin w.cwd (join path n) = origin w.cwd path := by
    rw [join_eq path hn.not_absolute, origin_front _ (front_front path) hn.not_absolute,
      origin_front_eq]
  have hsome : (join path n).isEmpty = false := by
    rw [hjoin]
    cases v <;> rfl
  unfold find
  rw [if_neg (by rw [hsome]; exact Bool.false_ne_true)]
  show w.follow (origin w.cwd (join path n)) (Text.fields '/' (join path n)) = _
  rw [ho, hjoin, Text.fields_append, follow_append hfind, Text.fields_of_not_mem hn.2, hlast]

/-- **What lies below something that is found is found there.** -/
theorem find_along {path : Text} {e f : Entry} {way ns : List Text} (hn : ∀ n ∈ ns, IsName n)
    (h : w.find path = .ok (.found way e)) (hf : e.get? ns = some f) :
    w.find (Entry.along path ns) = .ok (.found (way ++ ns) f) := by
  induction ns generalizing path e way with
  | nil =>
    obtain rfl : e = f := Option.some.inj hf
    rw [List.append_nil]
    exact h
  | cons n ns ih =>
    rw [Entry.get?_cons] at hf
    obtain ⟨d, hd, hd'⟩ := Option.bind_eq_some_iff.mp hf
    cases e with
    | file c => cases hd
    | directory es =>
      have hjoin := find_join (hn n List.mem_cons_self) h hd
      rw [Entry.along, ih (fun m hm => hn m (List.mem_cons_of_mem _ hm)) hjoin hd',
        List.append_assoc]
      rfl

theorem read_of_isFile {path : Text} (h : w.isFile path = true) :
    w.read path = match w.stand? (w.place path) with
      | some (.file (.text t)) => .ok t
      | _ => .error .noText := by
  obtain ⟨way, c, hf⟩ := isFile_iff.mp h
  obtain ⟨rfl, hg⟩ := find_found hf
  rw [stand?_of_get? hg, read, entry, hf]
  cases c <;> rfl

end Workspace

end StorySuite
