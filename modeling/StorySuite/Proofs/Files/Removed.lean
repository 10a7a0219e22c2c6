import StorySuite.Proofs.Files.Without

/-!
# Trees without some of their files

* `Entry.prune drop e`     `e` without the files whose ways `drop` holds of;
* `Entry.stand?_prune`     **everything else stands where it stood**;
* `Workspace.remove w ways`   a workspace without the files at some ways;
* `Without.scan`           **a search finds what is left of the files it found**.
-/

namespace StorySuite

namespace Entry

mutual

/-- a tree without the files whose ways `drop` holds of; nothing is left of such a file itself -/
def prune (drop : List Text → Bool) : Entry → Option Entry
  | file c => if drop [] then none else some (file c)
  | directory es => some (directory (pruneIn drop es))

def pruneIn (drop : List Text → Bool) : List (Text × Entry) → List (Text × Entry)
  | [] => []
  | (n, e) :: es =>
    match prune (fun ns => drop (n :: ns)) e with
    | some f => (n, f) :: pruneIn drop es
    | none => pruneIn drop es

end

variable {drop : List Text → Bool}

theorem mem_pruneIn {es : List (Text × Entry)} {x : Text × Entry} (h : x ∈ pruneIn drop es) :
    ∃ y ∈ es, x.1 = y.1 ∧ prune (fun ns => drop (y.1 :: ns)) y.2 = some x.2 := by
  induction es with
  | nil => cases h
  | cons y es ih =>
    obtain ⟨n, e⟩ := y
    rw [pruneIn] at h
    split at h
    · next f hf =>
      rcases List.mem_cons.mp h with rfl | h
      · exact ⟨(n, e), List.mem_cons_self, rfl, hf⟩
      · obtain ⟨y, hy, hxy⟩ := ih h
        exact ⟨y, List.mem_cons_of_mem _ hy, hxy⟩
    · obtain ⟨y, hy, hxy⟩ := ih h
      exact ⟨y, List.mem_cons_of_mem _ hy, hxy⟩

theorem pairwise_pruneIn {es : List (Text × Entry)} (h : es.Pairwise fun a b => a.1 < b.1) :
    (pruneIn drop es).Pairwise fun a b => a.1 < b.1 := by
  induction es with
  | nil => exact List.Pairwise.nil
  | cons y es ih =>
    obtain ⟨n, e⟩ := y
    obtain ⟨hn, h⟩ := List.pairwise_cons.mp h
    rw [pruneIn]
    split
    · refine List.pairwise_cons.mpr ⟨fun x hx => ?_, ih h⟩
      obtain ⟨y, hy, hxy, -⟩ := mem_pruneIn hx
      rw [hxy]
      exact hn y hy
    · exact ih h

theorem child?_pruneIn {es : List (Text × Entry)} (h : es.Pairwise fun a b => a.1 < b.1) (n : Text) :
    (directory (pruneIn drop es)).child? n =
      ((directory es).child? n).bind (prune fun ns => drop (n :: ns)) := by
  induction es with
  | nil => rfl
  | cons y es ih =>
    obtain ⟨k, e⟩ := y
    obtain ⟨hk, h⟩ := List.pairwise_cons.mp h
    rw [pruneIn, child?_cons]
    by_cases hn : k = n
    · subst hn
      rw [if_pos rfl, Option.bind_some]
      split
      · next f hf => rw [child?_cons, if_pos rfl, hf]
      · next hf =>
        -- no other entry goes by this name
        have hnone : (directory es).child? k = none := by
          cases hc : (directory es).child? k with
          | none => rfl
          | some d => exact absurd (hk _ (mem_of_child? hc)) (lt_irrefl k)
        rw [ih h, hnone, hf]
        rfl
    · rw [if_neg hn, ← ih h]
      split
      · rw [child?_cons, if_neg hn]
      · rfl

/-- **Everything but the files that are left out stands where it stood.** -/
theorem stand?_prune {e : Entry} (he : Proper e) (drop : List Text → Bool) (way : List Text) :
    (e.prune drop).bind (stand? way) =
      (e.stand? way).filter fun s => s = .directory || !drop way := by
  induction e using tree_induction generalizing drop way with
  | leaf c =>
    rw [prune]
    cases way with
    | nil => cases hd : drop [] <;> simp [stand?_nil, stand, Option.filter]
    | cons n ns =>
      rw [bare_file c n ns]
      split
      · rfl
      · exact bare_file c n ns
  | node es ih =>
    obtain ⟨ho, hn⟩ := proper_directory.mp he
    rw [prune, Option.bind_some]
    cases way with
    | nil => rfl
    | cons n ns =>
      rw [stand?_cons, stand?_cons, child?_pruneIn ho]
      cases hc : (directory es).child? n with
      | none => rfl
      | some d =>
        have hmem := mem_of_child? hc
        exact ih (n, d) hmem (hn _ hmem).2 _ ns

theorem Proper.prune {e f : Entry} (he : Proper e) (h : e.prune drop = some f) : Proper f := by
  induction e using tree_induction generalizing drop f with
  | leaf c =>
    rw [Entry.prune] at h
    split at h
    · cases h
    · obtain rfl := Option.some.inj h
      exact he
  | node es ih =>
    obtain ⟨ho, hn⟩ := proper_directory.mp he
    rw [Entry.prune] at h
    obtain rfl := Option.some.inj h
    refine proper_directory.mpr ⟨pairwise_pruneIn ho, fun x hx => ?_⟩
    obtain ⟨y, hy, hxy, hprune⟩ := mem_pruneIn hx
    exact ⟨hxy ▸ (hn y hy).1, ih y hy (hn y hy).2 hprune⟩

end Entry

namespace Workspace

open StorySuite.Path

variable {gone : List (List Text × Content)} {w v : Workspace}

/-- a workspace without the files at some ways -/
def remove (w : Workspace) (ways : List (List Text)) : Workspace :=
  { w with root := (w.root.prune fun way => way ∈ ways).getD w.root }

theorem without_remove (hw : w.root.Proper) (hroot : w.stand? [] = some .directory)
    (hgone : ∀ x ∈ gone, w.stand? x.1 = some (.file x.2)) :
    Without gone w (w.remove (gone.map (·.1))) ∧ (w.remove (gone.map (·.1))).root.Proper := by
  obtain ⟨f, hf⟩ : ∃ f, (w.root.prune fun way => way ∈ gone.map (·.1)) = some f := by
    obtain ⟨e, he, hs⟩ := exists_get? hroot
    obtain rfl : w.root = e := Option.some.inj he
    cases hr : w.root with
    | file c =>
      rw [hr] at hs
      cases hs
    | directory es => exact ⟨_, rfl⟩
  have hstand : ∀ way, (w.remove (gone.map (·.1))).stand? way =
      (w.stand? way).filter fun s => s = .directory || !decide (way ∈ gone.map (·.1)) := by
    intro way
    have h := Entry.stand?_prune hw (fun way => way ∈ gone.map (·.1)) way
    rw [hf] at h
    show Entry.stand? way ((w.root.prune fun way => way ∈ gone.map (·.1)).getD w.root) = _
    rw [hf]
    exact h
  refine ⟨⟨rfl, hgone, fun x hx => ?_, fun {way} hway => ?_⟩, ?_⟩
  · have hmem : x.1 ∈ gone.map (·.1) := List.mem_map_of_mem hx
    rw [hstand, hgone x hx]
    simp [hmem]
  · have hmem : way ∉ gone.map (·.1) := fun h => by
      obtain ⟨x, hx, he⟩ := List.mem_map.mp h
      exact hway x hx he
    rw [hstand]
    cases w.stand? way <;> simp [hmem, Option.filter]
  · show Entry.Proper ((w.root.prune fun way => way ∈ gone.map (·.1)).getD w.root)
    rw [hf]
    exact hw.prune hf

/-- a path to a directory is clear of files -/
theorem Without.clear (h : Without gone w v) {path : Text} (hd : w.isDirectory path = true) :
    Clear gone w path := by
  obtain ⟨way, es, hf⟩ := isDirectory_iff.mp hd
  intro x hx hmem
  have hfile := h.there x hx
  have hway := stand?_of_get? (find_found hf).2
  rcases directory_of_found hf hmem with he | he
  · rw [he, hway] at hfile
    cases hfile
  · rw [he] at hfile
    cases hfile

/-- **A search finds what is left of the files it found.** -/
theorem Without.scan (h : Without gone w v) (hw : w.root.Proper) (hv : v.root.Proper) {root : Text}
    (hd : w.isDirectory root = true) {excludes : List Text} {hidden : Bool} {files : List Text}
    (hscan : w.scan [root] excludes hidden = .ok files) :
    v.scan [root] excludes hidden =
      .ok (files.filter fun f => w.place f ∉ gone.map (·.1)) := by
  obtain ⟨x, way, e, hx, hfind, rfl⟩ := scan_eq_ok.mp hscan
  obtain ⟨way', fs, hfind'⟩ : ∃ way' f, v.find root = .ok (.found way' f) := by
    obtain ⟨way', es, hf⟩ := isDirectory_iff.mp ((h.isDirectory (h.clear hd)).trans hd)
    exact ⟨way', _, hf⟩
  obtain ⟨rfl, he⟩ := find_found hfind
  obtain ⟨rfl, hf⟩ := find_found hfind'
  have hp : e.Proper := hw.get? he
  have hp' : fs.Proper := hv.get? hf
  refine scan_eq_ok.mpr ⟨x, _, fs, hx, hfind', ?_⟩
  rw [Entry.stories_eq, Entry.stories_eq, List.filter_map]
  congr 1
  -- both searches go in order, so it is enough that they find the same
  refine List.Pairwise.eq_of_mem_iff (((Entry.pairwise_ways hp).filter _).filter _)
    ((Entry.pairwise_ways hp').filter _) fun ns => ?_
  have hplace : v.place root = w.place root := by rw [place, place, h.cwd]
  rw [List.mem_filter, List.mem_filter, List.mem_filter, Entry.mem_ways hp, Entry.mem_ways hp']
  have hstand : w.stand? (w.place root ++ ns) = e.stand? ns := Entry.stand?_append he ns
  have hstand' : v.stand? (w.place root ++ ns) = fs.stand? ns := by
    rw [← hplace]
    exact Entry.stand?_append hf ns
  have hnames : ∀ {c}, w.stand? (w.place root ++ ns) = some (.file c) →
      w.place (Entry.along root ns) = w.place root ++ ns := fun hc =>
    (stand?_along hfind (hp.isName (hstand.symm.trans hc))).1
  rw [← hstand, ← hstand']
  constructor
  · rintro ⟨⟨⟨c, hc⟩, hr⟩, hkept⟩
    have hkept : w.place root ++ ns ∉ gone.map (·.1) := by
      rw [← hnames hc]
      simpa using hkept
    refine ⟨⟨c, ?_⟩, hr⟩
    rw [h.same fun y hy he => hkept (List.mem_map.mpr ⟨y, hy, he⟩)]
    exact hc
  · rintro ⟨⟨c, hc⟩, hr⟩
    have hkept : ∀ y ∈ gone, y.1 ≠ w.place root ++ ns := fun y hy he => by
      rw [← he, h.away y hy] at hc
      cases hc
    have hc' : w.stand? (w.place root ++ ns) = some (.file c) := (h.same hkept).symm.trans hc
    refine ⟨⟨⟨c, hc'⟩, hr⟩, ?_⟩
    rw [Function.comp_apply, hnames hc', decide_eq_true_eq, List.mem_map]
    rintro ⟨y, hy, he⟩
    exact hkept y hy he

end Workspace

end StorySuite
