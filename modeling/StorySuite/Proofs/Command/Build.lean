import StorySuite.Proofs.Command.Runs

/-!
# What a build leaves behind

Test modules and source maps never meet, so what is at the place of a test module at the end was
made of the last file that goes there.

* `place_code_ne_map`      test modules and source maps go to different places;
* `Runs.wrote`             what deliveries do to the files;
* `Build.Left`             what is left behind by a build;
* `BuildRequest.run_left`  **a build without trouble leaves this behind**.
-/

namespace StorySuite

open Workspace

/-! ## places -/

/-- the name of a story file -/
def StoryName (n : Text) : Prop :=
  Path.IsName n ∧ ∃ e ∈ storyExtensions, Path.extensionOf? n = some e

theorem StoryName.ne_mapPath {n m : Text} (hn : StoryName n) (hm : StoryName m) :
    n ≠ Output.mapPath m := by
  rintro rfl
  have hne : m ≠ [] := by
    rintro rfl
    cases hm.1.1
  obtain ⟨-, e, he, h⟩ := hn
  rw [Output.extensionOf?_mapPath hne] at h
  obtain rfl := Option.some.inj h
  exact absurd he (by decide)

/-- where a story file lies -/
theorem exists_place_path (w : Workspace) {path : Text} (h : isStoryPath path = true) :
    ∃ d n, StoryName n ∧ w.place path = d ++ [n] := by
  obtain ⟨n, hn, he⟩ := exists_name h
  obtain ⟨d, hd⟩ := Path.exists_parent hn w.cwd
  exact ⟨d, n, ⟨Path.isName_of_fileName? hn, he⟩, hd⟩

/-- where its test module goes, and its source map -/
theorem exists_places (w : Workspace) (r : BuildRequest) {j : Scanned}
    (h : isStoryPath j.path = true) : ∃ d n, StoryName n ∧ w.place (j.code r) = d ++ [n] ∧
      w.place (j.map r) = d ++ [Output.mapPath n] := by
  obtain ⟨n, hn, he⟩ := exists_name h
  obtain ⟨d, hc, hm⟩ := Output.exists_place hn w.cwd j.root r.outDir
  exact ⟨d, n, ⟨Path.isName_of_fileName? hn, he⟩, hc, hm⟩

theorem append_singleton_inj {d d' : List Text} {n n' : Text} (h : d ++ [n] = d' ++ [n']) :
    d = d' ∧ n = n' := by
  obtain ⟨hd, hn⟩ := List.append_inj' h rfl
  exact ⟨hd, List.singleton_inj.mp hn⟩

section
variable (w : Workspace) (r : BuildRequest) {j k : Scanned}

theorem place_path_ne_map {path : Text} (hp : isStoryPath path = true)
    (hk : isStoryPath k.path = true) : w.place path ≠ w.place (k.map r) := by
  obtain ⟨d, n, hn, hd⟩ := exists_place_path w hp
  obtain ⟨d', m, hm, -, hmap⟩ := exists_places w r hk
  rw [hd, hmap]
  exact fun h => hn.ne_mapPath hm (append_singleton_inj h).2

theorem place_code_ne_map (hj : isStoryPath j.path = true) (hk : isStoryPath k.path = true) :
    w.place (j.code r) ≠ w.place (k.map r) := by
  obtain ⟨d, n, hn, hcode, -⟩ := exists_places w r hj
  obtain ⟨d', m, hm, -, hmap⟩ := exists_places w r hk
  rw [hcode, hmap]
  exact fun h => hn.ne_mapPath hm (append_singleton_inj h).2

/-- source maps that meet lie next to test modules that meet -/
theorem place_code_of_map (hj : isStoryPath j.path = true) (hk : isStoryPath k.path = true)
    (h : w.place (j.map r) = w.place (k.map r)) : w.place (j.code r) = w.place (k.code r) := by
  obtain ⟨d, n, hn, hcode, hmap⟩ := exists_places w r hj
  obtain ⟨d', m, hm, hcode', hmap'⟩ := exists_places w r hk
  rw [hmap, hmap'] at h
  obtain ⟨rfl, hnm⟩ := append_singleton_inj h
  obtain rfl : n = m := List.append_cancel_right hnm
  rw [hcode, hcode']

end

namespace Build

variable {p : Project} {r : BuildRequest} {w w' : Workspace} {js : List Scanned}
  {ws : List (List Text × Content)}

/-! ## what deliveries write -/

theorem Delivery.wrote {j : Scanned} {s : Story} (h : Delivery p r w j s w') :
    Wrote (w.storyWrites s (j.code r)) w w' := (writeStory_eq_none h.write).1

theorem Runs.wrote (h : Runs p r w js ws w') : Wrote ws w w' := by
  induction h with
  | done w => exact Wrote.refl w
  | step hd _ ih => exact hd.wrote.append ih

/-- only test modules and source maps are written -/
theorem Runs.place_of_mem (h : Runs p r w js ws w') {x : List Text × Content} (hx : x ∈ ws) :
    ∃ j ∈ js, x.1 = w.place (j.map r) ∨ x.1 = w.place (j.code r) := by
  induction h with
  | done w => cases hx
  | @step w w₁ w₂ j js ws story hd _ ih =>
    rcases List.mem_append.mp hx with hx | hx
    · refine ⟨j, List.mem_cons_self, ?_⟩
      simp only [storyWrites, List.mem_cons, List.not_mem_nil, or_false] at hx
      rcases hx with rfl | rfl
      · exact Or.inl rfl
      · exact Or.inr rfl
    · obtain ⟨k, hk, he⟩ := ih hx
      rw [hd.wrote.grown.place_eq, hd.wrote.grown.place_eq] at he
      exact ⟨k, List.mem_cons_of_mem _ hk, he⟩

theorem Runs.lastWrite_eq_none (h : Runs p r w js ws w') {way : List Text}
    (hway : ∀ j ∈ js, w.place (j.map r) ≠ way ∧ w.place (j.code r) ≠ way) :
    lastWrite ws way = none := by
  refine Workspace.lastWrite_eq_none.mpr fun x hx he => ?_
  obtain ⟨j, hj, hplace⟩ := h.place_of_mem hx
  rcases hplace with hplace | hplace
  · exact (hway j hj).1 (hplace.symm.trans he)
  · exact (hway j hj).2 (hplace.symm.trans he)

theorem Runs.append {w₁ w₂ : Workspace} {js' : List Scanned} {ws' : List (List Text × Content)}
    (h : Runs p r w js ws w₁) (h' : Runs p r w₁ js' ws' w₂) :
    Runs p r w (js ++ js') (ws ++ ws') w₂ := by
  induction h with
  | done w => exact h'
  | step hd _ ih =>
    rw [List.cons_append, List.append_assoc]
    exact Runs.step hd (ih h')

/-- deliveries up to one file, this file, and those after it -/
theorem Runs.split {js₁ js₂ : List Scanned} {j : Scanned}
    (h : Runs p r w (js₁ ++ j :: js₂) ws w') : ∃ ws₁ w₁ s w₂ ws₂,
      Runs p r w js₁ ws₁ w₁ ∧ Delivery p r w₁ j s w₂ ∧ Runs p r w₂ js₂ ws₂ w' := by
  induction js₁ generalizing w ws with
  | nil =>
    cases h with
    | step hd hr => exact ⟨[], w, _, _, _, Runs.done w, hd, hr⟩
  | cons k js₁ ih =>
    cases h with
    | step hd hr =>
      obtain ⟨ws₁, w₁, s, w₂, ws₂, h₁, h₂, h₃⟩ := ih hr
      exact ⟨_, w₁, s, w₂, ws₂, Runs.step hd h₁, h₂, h₃⟩

theorem Built.runs {roots : List Text} (h : Built p r w roots js ws w') :
    Runs p r w js ws w' ∧ ∀ j ∈ js, isStoryPath j.path = true := by
  induction h with
  | done w => exact ⟨Runs.done w, nofun⟩
  | root hscan hr _ ih =>
    refine ⟨hr.append ih.1, fun j hj => ?_⟩
    rcases List.mem_append.mp hj with hj | hj
    · obtain ⟨f, hf, rfl⟩ := List.mem_map.mp hj
      exact isStoryPath_of_mem_scan hscan hf
    · exact ih.2 j hj

theorem stand?_of_lastWrite (h : Wrote ws w w') {way : List Text} {c : Content}
    (hl : lastWrite ws way = none) (hs : w.stand? way = some (.file c)) :
    w'.stand? way = some (.file c) := by
  rcases h.kept hl with hk | ⟨hn, -⟩
  · rw [hk, hs]
  · rw [hs] at hn
    cases hn

/-- what is read where nothing was written was there before -/
theorem stand?_of_read (h : Wrote ws w w') {path t : Text} (hr : w'.read path = .ok t)
    (hl : lastWrite ws (w.place path) = none) : w.stand? (w.place path) = some (.file (.text t)) := by
  have hs := (read_eq_ok_iff.mp hr).2
  rw [h.grown.place_eq] at hs
  rcases h.kept hl with hk | ⟨-, hd⟩
  · rw [← hk, hs]
  · rw [hs] at hd
    cases hd

/-- a file that nothing is written over is read as before -/
theorem read_of_lastWrite (h : Wrote ws w w') {path t : Text} (hr : w.read path = .ok t)
    (hl : lastWrite ws (w.place path) = none) : w'.read path = .ok t := by
  obtain ⟨hf, hs⟩ := read_eq_ok_iff.mp hr
  refine read_eq_ok_iff.mpr ⟨h.grown.isFile hf, ?_⟩
  rw [h.grown.place_eq]
  exact stand?_of_lastWrite h hl hs

theorem Runs.lastWrite_source (h : Runs p r w js ws w') (hjs : ∀ j ∈ js, isStoryPath j.path = true)
    {path : Text} (hp : isStoryPath path = true)
    (hpath : ∀ j ∈ js, w.place (j.code r) ≠ w.place path) : lastWrite ws (w.place path) = none :=
  h.lastWrite_eq_none fun j hj => ⟨(place_path_ne_map w r hp (hjs j hj)).symm, hpath j hj⟩

/-! ## files below one path -/

/-- where a file was found: at the end of a way below its root, and nowhere else -/
theorem Built.along {roots : List Text} (h : Built p r w roots js ws w') (hp : w.root.Proper)
    {j : Scanned} (hj : j ∈ js) : j.root ≠ [] ∧ ∃ way s, j.path = Entry.along j.root way ∧
      (∀ n ∈ way, Path.IsName n) ∧ w'.stand? (w.place j.root) = some s ∧
      (way = [] ↔ s ≠ .directory) := by
  induction h with
  | done w => cases hj
  | @root w w₁ w₂ root roots files js ws ws' hscan hr hb ih =>
    have hg := hr.wrote.grown
    rcases List.mem_append.mp hj with hj | hj
    · obtain ⟨f, hf, rfl⟩ := List.mem_map.mp hj
      obtain ⟨hne, way, s, c, he, hn, hs, hway, -⟩ := mem_scan hp hscan hf
      have hg' := hg.trans hb.runs.1.wrote.grown
      refine ⟨hne, way, ?_⟩
      cases s with
      | directory => exact ⟨_, he, hn, hg'.directory hs, hway⟩
      | file c =>
        obtain ⟨c', hc'⟩ := hg'.file hs
        exact ⟨_, he, hn, hc', hway.trans (by simp)⟩
    · rw [← hg.place_eq]
      exact ih (hr.wrote.proper hp) hj

theorem place_code_eq {j : Scanned} (hr : j.root ≠ []) {way : List Text} (hway : way ≠ [])
    (hj : j.path = Entry.along j.root way) (hn : ∀ n ∈ way, Path.IsName n) :
    w.place (j.code r) = w.place r.outDir ++ way :=
  Output.place_below w.cwd hr hway (by rw [hj, Entry.components_along hr hn]) r.outDir

/-- files below one path do not meet -/
theorem Built.path_eq {roots : List Text} (h : Built p r w roots js ws w') (hp : w.root.Proper)
    {j k : Scanned} (hj : j ∈ js) (hk : k ∈ js) (hroot : j.root = k.root)
    (hcode : w.place (j.code r) = w.place (k.code r)) : j.path = k.path := by
  obtain ⟨hr, way, s, he, hn, hs, hway⟩ := h.along hp hj
  obtain ⟨hr', way', s', he', hn', hs', hway'⟩ := h.along hp hk
  rw [← hroot] at hs' he'
  obtain rfl : s = s' := Option.some.inj (hs.symm.trans hs')
  by_cases hnil : way = []
  · rw [he, he', hnil, hway'.mpr (hway.mp hnil)]
  · have hnil' : way' ≠ [] := fun hw' => hnil (hway.mpr (hway'.mp hw'))
    rw [place_code_eq hr hnil he hn, place_code_eq hr' hnil' (hroot ▸ he') hn'] at hcode
    rw [he, he', List.append_cancel_left hcode]

/-! ## what is left behind -/

/-- the line in which a build says how many files it has written -/
def writtenLine (r : BuildRequest) (n : Nat) : Text :=
  "ok: Wrote ".toList ++ Text.ofNat n ++ " file(s) to ".toList ++ r.outDir

/-- a test module and its source map lie where they go -/
structure Lies (r : BuildRequest) (w : Workspace) (j : Scanned) (s : Story) : Prop where
  code : w.read (j.code r) = .ok (Output.withMapComment s.code (nameOf (j.map r)))
  map : w.read (j.map r) = .ok { s.map with file := some (nameOf (j.code r)) }.render

theorem Delivery.lies {j : Scanned} {s : Story} (hj : isStoryPath j.path = true)
    (h : Delivery p r w j s w') : Lies r w' j s := by
  obtain ⟨hw, hready⟩ := writeStory_eq_none h.write
  have hne := place_code_ne_map w r hj hj
  have hcode : lastWrite (w.storyWrites s (j.code r)) (w.place (j.code r)) =
      some (.text (Output.withMapComment s.code (nameOf (j.map r)))) := by
    simp [storyWrites, lastWrite, Scanned.map]
  have hmap : lastWrite (w.storyWrites s (j.code r)) (w.place (j.map r)) =
      some (.text { s.map with file := some (nameOf (j.code r)) }.render) := by
    unfold Scanned.map at hne ⊢
    simp [storyWrites, lastWrite, hne]
  constructor
  · refine read_eq_ok_iff.mpr ⟨hready.code, ?_⟩
    rw [hw.grown.place_eq]
    exact hw.written hcode
  · refine read_eq_ok_iff.mpr ⟨hready.map, ?_⟩
    rw [hw.grown.place_eq]
    exact hw.written hmap

/-- what lies somewhere stays as long as no other test module goes there -/
theorem Lies.runs {j : Scanned} {s : Story} (hj : isStoryPath j.path = true) (h : Lies r w j s)
    (hr : Runs p r w js ws w') (hjs : ∀ k ∈ js, isStoryPath k.path = true)
    (hk : ∀ k ∈ js, w.place (k.code r) ≠ w.place (j.code r)) : Lies r w' j s where
  code := by
    refine read_of_lastWrite hr.wrote h.code (hr.lastWrite_eq_none fun k hkj => ⟨?_, hk k hkj⟩)
    exact (place_code_ne_map w r hj (hjs k hkj)).symm
  map := by
    refine read_of_lastWrite hr.wrote h.map (hr.lastWrite_eq_none fun k hkj => ⟨fun he => ?_, ?_⟩)
    · exact hk k hkj (place_code_of_map w r (hjs k hkj) hj he)
    · exact place_code_ne_map w r (hjs k hkj) hj

/-- what a build of the files `js` leaves behind -/
structure Left (p : Project) (r : BuildRequest) (w : Workspace) (js : List Scanned) (s : Session) :
    Prop where
  /-- as many files are reported as were found -/
  count : js ≠ [] → ∃ lines, s.output = lines ++ [writtenLine r js.length]
  /-- no test module goes where a source map goes -/
  apart : ∀ j ∈ js, ∀ k ∈ js, w.place (j.code r) ≠ w.place (k.map r)
  /-- files that were found below one path have places of their own -/
  mirrored : w.root.Proper → ∀ j ∈ js, ∀ k ∈ js, j.root = k.root →
    w.place (j.code r) = w.place (k.code r) → j.path = k.path
  /-- the last file that goes to a place lies there, made of what it held in its turn; this is what
  it held at first unless something was written over it -/
  last : ∀ js₁ j js₂, js = js₁ ++ j :: js₂ →
    (∀ k ∈ js₂, w.place (k.code r) ≠ w.place (j.code r)) →
    ∃ ws w₁ t story, Runs p r w js₁ ws w₁ ∧ w₁.read j.path = .ok t ∧
      p.transform j.path t = .ok (.story story) ∧ Lies r s.workspace j story ∧
      ((∀ k ∈ js₁, w.place (k.code r) ≠ w.place j.path) →
        w.stand? (w.place j.path) = some (.file (.text t)))
  /-- a file that nothing is written over holds what it held -/
  source : ∀ j ∈ js, (∀ k ∈ js, w.place (k.code r) ≠ w.place j.path) →
    ∃ t, w.stand? (w.place j.path) = some (.file (.text t)) ∧ s.workspace.read j.path = .ok t

theorem Built.left {s : Session} {roots : List Text} (hb : Built p r w roots js ws w')
    (hs : s.workspace = w')
    (hcount : js ≠ [] → ∃ lines, s.output = lines ++ [writtenLine r js.length]) :
    Left p r w js s where
  count := hcount
  apart j hj k hk := place_code_ne_map w r (hb.runs.2 j hj) (hb.runs.2 k hk)
  mirrored hp j hj k hk := hb.path_eq hp hj hk
  last := by
    rintro js₁ j js₂ rfl hlast
    obtain ⟨h, hjs⟩ := hb.runs
    rw [hs]
    have hj := hjs j (by simp)
    obtain ⟨ws₁, w₁, story, w₂, ws₂, h₁, h₂, h₃⟩ := h.split
    obtain ⟨t, hr, ht⟩ := h₂.source
    have hg := h₁.wrote.grown.trans h₂.wrote.grown
    refine ⟨ws₁, w₁, t, story, h₁, hr, ht, ?_, fun hsource => ?_⟩
    · refine (h₂.lies hj).runs hj h₃ (fun k hk => hjs k (by simp [hk])) fun k hk => ?_
      rw [hg.place_eq, hg.place_eq]
      exact hlast k hk
    · exact stand?_of_read h₁.wrote hr
        (h₁.lastWrite_source (fun k hk => hjs k (by simp [hk])) hj hsource)
  source j hj hsource := by
    obtain ⟨js₁, js₂, rfl⟩ := List.append_of_mem hj
    obtain ⟨h, hjs⟩ := hb.runs
    rw [hs]
    have hstory := hjs j hj
    obtain ⟨ws₁, w₁, story, w₂, ws₂, h₁, h₂, h₃⟩ := h.split
    obtain ⟨t, hr, -⟩ := h₂.source
    have hl₁ := h₁.lastWrite_source (fun k hk => hjs k (by simp [hk])) hstory
      fun k hk => hsource k (by simp [hk])
    have h₂₃ : Runs p r w₁ (j :: js₂) _ w' := Runs.step h₂ h₃
    have hl₂ := h₂₃.lastWrite_source (fun k hk => hjs k (by simp [List.mem_cons.mp hk])) hstory
      fun k hk => by
        rw [h₁.wrote.grown.place_eq, h₁.wrote.grown.place_eq]
        exact hsource k (List.mem_append_right _ hk)
    exact ⟨t, stand?_of_read h₁.wrote hr hl₁, read_of_lastWrite h₂₃.wrote hr hl₂⟩

theorem output_closing (hw : r.write = true) {s : Session} {t : Tally} (ht : t.failed = 0)
    (hs : t.scanned ≠ 0) :
    ∃ lines, (s.printAll (closing r t)).output = lines ++ [writtenLine r t.written] := by
  refine ⟨s.output ++ (if r.verbose then [t.line] else []), ?_⟩
  have hw' : ¬(!r.write) = true := by simp [hw]
  unfold closing
  rw [if_neg hs, if_neg hw', if_pos ht]
  exact (List.append_assoc s.output _ _).symm

/-- a build that ends without trouble -/
theorem run_eq_none {s : Session} (h : (run p r s).trouble = none) :
    (all p r ⟨s, .zero⟩ r.search.paths).2 = none ∧
      (all p r ⟨s, .zero⟩ r.search.paths).1.tally.failed = 0 ∧
      (run p r s).session = (all p r ⟨s, .zero⟩ r.search.paths).1.session.printAll
        (closing r (all p r ⟨s, .zero⟩ r.search.paths).1.tally) := by
  unfold run at h ⊢
  split at h
  · cases h
  · next b hb =>
    rw [hb]
    refine ⟨rfl, ?_, rfl⟩
    unfold trouble? at h
    split at h
    · assumption
    · cases h

end Build

/-- the project of a build that ends without trouble -/
theorem BuildRequest.project_of_run {r : BuildRequest} {s : Session} (h : (r.run s).trouble = none) :
    ∃ p, r.overrides.project s.workspace = .ok p ∧ r.run s = Build.run p r s := by
  unfold BuildRequest.run at h ⊢
  split at h
  · cases h
  · next p hp => exact ⟨p, hp, rfl⟩

/-- **What a build that writes and ends without trouble leaves behind.** -/
theorem BuildRequest.run_left (r : BuildRequest) (w : Workspace) (hw : r.write = true)
    (h : ((Command.build r).run w).trouble = none) :
    ∃ p, r.overrides.project w = .ok p ∧
      Build.Left p r w (r.files p w) ((Command.build r).run w).session := by
  obtain ⟨p, hp, hrun⟩ := project_of_run (s := .start w) h
  refine ⟨p, hp, ?_⟩
  have h' : (Build.run p r (.start w)).trouble = none := by
    rw [← hrun]
    exact h
  obtain ⟨he, hf, hs⟩ := Build.run_eq_none h'
  obtain ⟨-, ht, ws, hb⟩ := Build.all_built hw he hf
  have hsession : ((Command.build r).run w).session = _ := (congrArg Finish.session hrun).trans hs
  rw [hsession]
  refine hb.left rfl fun hne => ?_
  have hscanned : (Build.all p r ⟨.start w, .zero⟩ r.search.paths).1.tally.scanned = _ :=
    (congrArg Tally.scanned ht).trans (Nat.zero_add _)
  have hwritten : (Build.all p r ⟨.start w, .zero⟩ r.search.paths).1.tally.written = _ :=
    (congrArg Tally.written ht).trans (Nat.zero_add _)
  rw [← hwritten]
  refine Build.output_closing hw hf fun h0 => hne ?_
  rw [← List.length_eq_zero_iff, ← hscanned, h0]

/-- two directories with a story file of the same name -/
def twoDirectories : Workspace :=
  ⟨.directory [("a".toList, .directory [("X.stories.ts".toList, .file (.text "export default {a};\n"))]),
    ("b".toList, .directory [("X.stories.ts".toList, .file (.text "export default {b};\n"))])], []⟩

/-- a build of both of them into a third one -/
def buildBoth : BuildRequest :=
  ⟨⟨["a".toList, "b".toList], [], true⟩, Command.noOverrides, "out", true, false, false⟩

/-- what stories are transformed with when nothing is said -/
def plainProject : Project :=
  ⟨Command.noOverrides.options .empty, ⟨[], (Command.noOverrides.options .empty).configDir, []⟩⟩

theorem BuildRequest.run_left_both : ((Command.build buildBoth).run twoDirectories).trouble = none ∧
    ∃ p, buildBoth.overrides.project twoDirectories = .ok p ∧
      Build.Left p buildBoth twoDirectories (buildBoth.files p twoDirectories)
        ((Command.build buildBoth).run twoDirectories).session :=
  ⟨by decide +kernel, run_left buildBoth twoDirectories rfl (by decide +kernel)⟩

def oneFile : Workspace :=
  ⟨.directory [("A.stories.ts".toList, .file (.text "export default {};\n"))], []⟩

/-- a build of the current directory -/
def buildHere (outDir : Text) : BuildRequest :=
  ⟨⟨[['.']], [], true⟩, Command.noOverrides, outDir, true, false, false⟩

/-- files below different paths can meet, and a build into the directory that it searches writes over
its own source -/
theorem BuildRequest.run_meets :
    (((Command.build buildBoth).run twoDirectories).trouble = none ∧
      buildBoth.overrides.project twoDirectories = .ok plainProject ∧
        buildBoth.files plainProject twoDirectories =
          [⟨"a", "a/X.stories.ts"⟩, ⟨"b", "b/X.stories.ts"⟩] ∧
        Scanned.code buildBoth ⟨"a", "a/X.stories.ts"⟩ =
          Scanned.code buildBoth ⟨"b", "b/X.stories.ts"⟩) ∧
    ((Command.build (buildHere ".")).run oneFile).trouble = none ∧
      ((Command.build (buildHere ".")).leaves oneFile).read "A.stories.ts" ≠
        oneFile.read "A.stories.ts" :=
  ⟨⟨by decide +kernel, rfl, by decide +kernel, by decide +kernel⟩, by decide +kernel,
    by decide +kernel⟩

end StorySuite
