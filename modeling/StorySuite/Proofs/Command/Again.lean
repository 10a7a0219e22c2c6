import StorySuite.Proofs.Command.Build

/-!
# Building twice

A build that finds nothing of its own is run again on what it left: it finds the same files, which
hold what they held, and writes what lies there already.

* `Replay ws z v`           `v` differs from `z` at most in what `ws` is written over;
* `Runs.replay`, `Built.replay`   what was delivered once can be delivered again;
* `BuildRequest.run_again`  **building twice equals building once**.
-/

namespace StorySuite

open Workspace

namespace Build

variable {p : Project} {r : BuildRequest} {w w' z v : Workspace} {js : List Scanned}
  {all rest ws : List (List Text × Content)}

/-- what lies in `v` lies in `z`, but for the files that `all` writes -/
structure Replay (all : List (List Text × Content)) (z v : Workspace) : Prop where
  grown : Grown z v
  fresh : ∀ {way}, z.stand? way = none → v.stand? way = none
  same : ∀ {way}, lastWrite all way = none → v.stand? way = z.stand? way
  proper : v.root.Proper

theorem Replay.refl (hz : z.root.Proper) : Replay all z z := ⟨Grown.refl z, id, fun _ => rfl, hz⟩

theorem Replay.wrote {v' : Workspace} (h : Replay all z v) (hw : Wrote ws v v')
    (hn : ∀ way, v.stand? way = none → v'.stand? way = none)
    (hws : ∀ way, lastWrite all way = none → lastWrite ws way = none) : Replay all z v' where
  grown := h.grown.trans hw.grown
  fresh {way} hz := hn way (h.fresh hz)
  same {way} hl := by
    rw [← h.same hl]
    rcases hw.kept (hws way hl) with hk | ⟨hnone, hd⟩
    · exact hk
    · rw [hn way hnone] at hd
      cases hd
  proper := hw.proper h.proper

theorem storyWrites_eq (h : Grown w w') (s : Story) (path : Text) :
    w'.storyWrites s path = w.storyWrites s path := by
  rw [storyWrites, h.place_eq, h.place_eq]
  rfl

/-- a file that is not written over holds in the end what was read of it -/
theorem Replay.read_eq (h : Replay all z v) (hz : Wrote ws w z) {path t : Text}
    (hr : w.read path = .ok t) (hl : lastWrite all (w.place path) = none)
    (hws : ∀ way, lastWrite all way = none → lastWrite ws way = none) : v.read path = .ok t := by
  obtain ⟨hf, hs⟩ := read_eq_ok_iff.mp hr
  refine read_eq_ok_iff.mpr ⟨h.grown.isFile (hz.grown.isFile hf), ?_⟩
  rw [h.grown.place_eq, hz.grown.place_eq, h.same hl]
  exact stand?_of_lastWrite hz (hws _ hl) hs

/-- what was delivered once can be delivered again -/
theorem Runs.replay (h : Runs p r w js ws w') (hz : Wrote rest w' z)
    (hall : ∀ way, lastWrite all way = none → lastWrite (ws ++ rest) way = none)
    (hsource : ∀ j ∈ js, lastWrite all (w.place j.path) = none) (hv : Replay all z v) :
    ∃ v', Runs p r v js ws v' ∧ Replay all z v' := by
  induction h generalizing v with
  | done w => exact ⟨v, Runs.done v, hv⟩
  | @step w w₁ w₂ j js ws story hd hr ih =>
    have hw₁ := hd.wrote
    have hrest : Wrote (ws ++ rest) w₁ z := hr.wrote.append hz
    have hwz : Wrote (w.storyWrites story (j.code r) ++ (ws ++ rest)) w z := hw₁.append hrest
    rw [List.append_assoc] at hall
    have hall' : ∀ way, lastWrite all way = none → lastWrite (ws ++ rest) way = none ∧
        lastWrite (w.storyWrites story (j.code r)) way = none := fun way hl => by
      have := hall way hl
      rwa [lastWrite_append, Option.or_eq_none_iff] at this
    obtain ⟨t, hread, ht⟩ := hd.source
    have hread' := hv.read_eq hwz hread (hsource j List.mem_cons_self) hall
    have hready : Ready v (j.code r) :=
      ((writeStory_eq_none hd.write).2.grown hrest.grown).grown hv.grown
    obtain ⟨v₁, hwrite, hfresh⟩ := hready.writeStory story
    have hd' : Delivery p r v j story v₁ := ⟨⟨t, hread', ht⟩, hwrite⟩
    have he := storyWrites_eq (hwz.grown.trans hv.grown) story (j.code r)
    have hw₁' := hd'.wrote
    rw [he] at hw₁'
    have hv₁ := hv.wrote hw₁' hfresh fun way hl => (hall' way hl).2
    obtain ⟨v', hr', hv'⟩ := ih hz (fun way hl => (hall' way hl).1) (fun k hk => by
      rw [hw₁.grown.place_eq]
      exact hsource k (List.mem_cons_of_mem _ hk)) hv₁
    refine ⟨v', ?_, hv'⟩
    rw [← he]
    exact Runs.step hd' hr'

/-- a search that finds nothing that was written finds what it found before -/
theorem scan_of_wrote (h : Wrote ws w z) (hw : w.root.Proper) {root : Text} {excludes : List Text}
    {hidden : Bool} {files : List Text} (hscan : w.scan [root] excludes hidden = .ok files)
    (hfree : ∀ fs, z.scan [root] excludes hidden = .ok fs → ∀ f ∈ fs,
      lastWrite ws (z.place f) = none) : z.scan [root] excludes hidden = .ok files := by
  refine scan_congr h.grown hw (h.proper hw) hscan fun fs hfs f hf => ?_
  obtain ⟨-, -, -, c, -, -, -, -, hc⟩ := mem_scan (h.proper hw) hfs hf
  rcases h.kept (hfree fs hfs f hf) with hk | ⟨-, hd⟩
  · rw [← h.grown.place_eq, ← hk]
    exact ⟨c, hc⟩
  · rw [hc] at hd
    cases hd

theorem Replay.scan (h : Replay all z v) (hz : z.root.Proper) {root : Text} {excludes : List Text}
    {hidden : Bool} {files : List Text} (hscan : z.scan [root] excludes hidden = .ok files) :
    v.scan [root] excludes hidden = .ok files := by
  refine scan_congr h.grown hz h.proper hscan fun fs hfs f hf => ?_
  obtain ⟨-, -, -, c, -, -, -, -, hc⟩ := mem_scan h.proper hfs hf
  rw [← h.grown.place_eq]
  cases hs : z.stand? (v.place f) with
  | none =>
    rw [h.fresh hs] at hc
    cases hc
  | some s =>
    cases s with
    | file c' => exact ⟨c', rfl⟩
    | directory =>
      rw [h.grown.directory hs] at hc
      cases hc

/-- what was built once can be built again, when nothing is found that `all` writes -/
theorem Built.replay {roots : List Text} (h : Built p r w roots js ws w') (hw : w.root.Proper)
    (hz : Wrote rest w' z)
    (hall : ∀ way, lastWrite all way = none → lastWrite (ws ++ rest) way = none)
    (hfree : ∀ root ∈ roots, ∀ files,
      z.scan [root] r.search.excludes r.search.hidden = .ok files →
      ∀ f ∈ files, lastWrite all (z.place f) = none)
    (hv : Replay all z v) : ∃ v', Built p r v roots js ws v' ∧ Replay all z v' := by
  induction h generalizing v with
  | done w => exact ⟨v, Built.done v, hv⟩
  | @root w w₁ w₂ root roots files js ws ws' hscan hr hb ih =>
    have hrest : Wrote (ws' ++ rest) w₁ z := hb.runs.1.wrote.append hz
    have hwz : Wrote (ws ++ (ws' ++ rest)) w z := hr.wrote.append hrest
    rw [List.append_assoc] at hall
    have hscan' := scan_of_wrote hwz hw hscan fun fs hfs f hf =>
      hall _ (hfree root List.mem_cons_self fs hfs f hf)
    have hsource : ∀ j ∈ files.map (Scanned.mk root), lastWrite all (w.place j.path) = none := by
      intro j hj
      obtain ⟨f, hf, rfl⟩ := List.mem_map.mp hj
      rw [← hwz.grown.place_eq]
      exact hfree root List.mem_cons_self files hscan' f hf
    obtain ⟨v₁, hr', hv₁⟩ := hr.replay hrest hall hsource hv
    have hall' : ∀ way, lastWrite all way = none → lastWrite (ws' ++ rest) way = none :=
      fun way hl => by
        have := hall way hl
        rw [lastWrite_append, Option.or_eq_none_iff] at this
        exact this.1
    obtain ⟨v', hb', hv'⟩ := ih (hr.wrote.proper hw) hz hall'
      (fun root' hroot => hfree root' (List.mem_cons_of_mem _ hroot)) hv₁
    exact ⟨v', Built.root (hv.scan (hwz.proper hw) hscan') hr' hb', hv'⟩

/-- a build that is repeated leaves what is there -/
theorem Built.again {roots : List Text} (h : Built p r w roots js ws z) (hw : w.root.Proper)
    (hfree : ∀ root ∈ roots, ∀ files,
      z.scan [root] r.search.excludes r.search.hidden = .ok files →
      ∀ f ∈ files, ∀ j ∈ js, z.place f ≠ z.place (j.code r)) :
    Built p r z roots js ws z := by
  have hwz := h.runs.1.wrote
  have hz := hwz.proper hw
  have hunwritten : ∀ root ∈ roots, ∀ files,
      z.scan [root] r.search.excludes r.search.hidden = .ok files →
      ∀ f ∈ files, lastWrite ws (z.place f) = none := by
    intro root hroot files hscan f hf
    refine h.runs.1.lastWrite_eq_none fun j hj => ?_
    have hmap := place_path_ne_map z r (isStoryPath_of_mem_scan hscan hf) (h.runs.2 j hj)
    rw [← hwz.grown.place_eq, ← hwz.grown.place_eq]
    exact ⟨hmap.symm, (hfree root hroot files hscan f hf j hj).symm⟩
  obtain ⟨v, hb, hv⟩ := h.replay hw (Wrote.refl z)
    (fun way (hl : lastWrite ws way = none) => by rwa [List.append_nil]) hunwritten
    (Replay.refl hz)
  -- what is written last is the same in both builds, and everything else stays
  have hroot : v.root = z.root := by
    refine Entry.ext hv.proper hz fun way => ?_
    cases hl : lastWrite ws way with
    | some c => exact (hb.runs.1.wrote.written hl).trans (hwz.written hl).symm
    | none => exact hv.same hl
  have hcwd := hv.grown.cwd
  have hvz : v = z := by
    cases v
    cases z
    simp only at hroot hcwd
    rw [hroot, hcwd]
  rwa [hvz] at hb

theorem run_eq_of_built (hw : r.write = true) {s : Session}
    (h : Built p r s.workspace r.search.paths js ws w') (hi : js ≠ [] → r.interactive = false) :
    (run p r s).trouble = none ∧ (run p r s).session.workspace = w' := by
  obtain ⟨-, he, hs, ht⟩ := Built.all_eq (b := ⟨s, .zero⟩) hw h hi
  have hrun : run p r s = ⟨(all p r ⟨s, .zero⟩ r.search.paths).1.session.printAll
      (closing r (all p r ⟨s, .zero⟩ r.search.paths).1.tally),
      trouble? (all p r ⟨s, .zero⟩ r.search.paths).1.tally⟩ := by
    unfold run
    split
    · next b e hb =>
      rw [hb] at he
      cases he
    · next b hb => rw [hb]
  rw [hrun]
  refine ⟨?_, hs⟩
  show trouble? _ = none
  rw [ht]
  rfl

end Build

theorem Settings.load_eq {w z : Workspace} {path : Text} {s : Settings}
    {ws : List (List Text × Content)} (h : Settings.load w path = .ok s) (hz : Wrote ws w z)
    (hl : lastWrite ws (w.place path) = none) : Settings.load z path = .ok s := by
  unfold Settings.load at h ⊢
  cases hr : w.read path with
  | error e =>
    rw [hr] at h
    cases h
  | ok t =>
    rw [hr] at h
    rw [Build.read_of_lastWrite hz hr hl]
    exact h

/-- settings are read as before when nothing is written over them -/
theorem Overrides.project_eq {o : Overrides} {w z : Workspace} {p : Project}
    {ws : List (List Text × Content)} (h : o.project w = .ok p) (hz : Wrote ws w z)
    (hc : ∀ path, o.config = some path → lastWrite ws (w.place path) = none) :
    o.project z = .ok p := by
  rw [← h]
  unfold Overrides.project at h ⊢
  rw [hz.cwd]
  cases hpath : o.config with
  | none => rfl
  | some path =>
    simp only [hpath] at h ⊢
    cases hl : Settings.load w path with
    | error e =>
      rw [hl] at h
      cases h
    | ok s => rw [Settings.load_eq hl hz (hc path hpath)]

/-- **Building twice equals building once**: when a build that writes has ended without trouble, and
neither a story file that is found now nor the file of the settings is one that it wrote, the same
build finds the same files, ends without trouble and leaves everything as it is. -/
theorem BuildRequest.run_again (r : BuildRequest) (p : Project) (w : Workspace)
    (hproper : w.root.Proper) (hw : r.write = true)
    (h : ((Command.build r).run w).trouble = none) (hp : r.overrides.project w = .ok p)
    (hconfig : ∀ path, r.overrides.config = some path → ∀ j ∈ r.files p w,
      w.place path ≠ w.place (j.code r) ∧ w.place path ≠ w.place (j.map r))
    (hfree : ∀ root ∈ r.search.paths, ∀ files,
      ((Command.build r).leaves w).scan [root] r.search.excludes r.search.hidden = .ok files →
      ∀ f ∈ files, ∀ j ∈ r.files p w, w.place f ≠ w.place (j.code r)) :
    ((Command.build r).run ((Command.build r).leaves w)).trouble = none ∧
      r.files p ((Command.build r).leaves w) = r.files p w ∧
      (Command.build r).leaves ((Command.build r).leaves w) = (Command.build r).leaves w := by
  obtain ⟨p', hp', hrun⟩ := project_of_run (s := .start w) h
  obtain rfl : p' = p := Except.ok.inj (hp'.symm.trans hp)
  have h' : (Build.run p' r (.start w)).trouble = none := by
    rw [← hrun]
    exact h
  obtain ⟨he, hf, hs⟩ := Build.run_eq_none h'
  obtain ⟨hi, ht, ws, hb⟩ := Build.all_built hw he hf
  have hz : (Build.all p' r ⟨.start w, .zero⟩ r.search.paths).1.session.workspace =
      (Command.build r).leaves w := by
    have hsession : ((Command.build r).run w).session = _ := (congrArg Finish.session hrun).trans hs
    unfold Command.leaves
    rw [hsession]
    rfl
  rw [hz] at hb
  have hwz := hb.runs.1.wrote
  have hagain := hb.again hproper fun root hroot files hscan f hf j hj => by
    rw [hwz.grown.place_eq, hwz.grown.place_eq]
    exact hfree root hroot files hscan f hf j hj
  have hp'' := Overrides.project_eq hp hwz fun path hpath => hb.runs.1.lastWrite_eq_none
    fun j hj => ⟨(hconfig path hpath j hj).2.symm, (hconfig path hpath j hj).1.symm⟩
  have hrun' : ((Command.build r).run ((Command.build r).leaves w)) =
      Build.run p' r (.start ((Command.build r).leaves w)) := by
    show r.run (.start ((Command.build r).leaves w)) = _
    unfold BuildRequest.run
    rw [show r.overrides.project (Session.start ((Command.build r).leaves w)).workspace = _ from hp'']
  obtain ⟨htrouble, hworkspace⟩ :=
    Build.run_eq_of_built (s := .start ((Command.build r).leaves w)) hw hagain hi
  refine ⟨?_, (Build.Built.all_eq (b := ⟨.start ((Command.build r).leaves w), .zero⟩) hw hagain hi).1,
    ?_⟩
  · rw [hrun']
    exact htrouble
  · show ((Command.build r).run ((Command.build r).leaves w)).session.workspace = _
    rw [hrun']
    exact hworkspace

theorem proper_twoDirectories : twoDirectories.root.Proper := by
  have hname : ∀ n ∈ ["a".toList, "b".toList, "X.stories.ts".toList],
      Component.ofPiece? n = some (.named n) ∧ '/' ∉ n := by decide
  have hdir : ∀ t : Text, (Entry.directory [("X.stories.ts".toList, .file (.text t))]).Proper :=
    fun t => Entry.proper_directory.mpr ⟨List.pairwise_singleton _ _, fun x hx => by
      obtain rfl := List.mem_singleton.mp hx
      exact ⟨hname _ (by simp), Entry.proper_file _⟩⟩
  refine Entry.proper_directory.mpr ⟨by decide, fun x hx => ?_⟩
  rcases List.mem_cons.mp hx with rfl | hx
  · exact ⟨hname _ (by simp), hdir _⟩
  · obtain rfl := List.mem_singleton.mp hx
    exact ⟨hname _ (by simp), hdir _⟩

theorem BuildRequest.run_again_both :
    ((Command.build buildBoth).run ((Command.build buildBoth).leaves twoDirectories)).trouble =
        none ∧
      buildBoth.files plainProject ((Command.build buildBoth).leaves twoDirectories) =
        buildBoth.files plainProject twoDirectories ∧
      (Command.build buildBoth).leaves ((Command.build buildBoth).leaves twoDirectories) =
        (Command.build buildBoth).leaves twoDirectories := by
  refine run_again buildBoth plainProject twoDirectories proper_twoDirectories rfl
    (by decide +kernel) rfl nofun fun root hroot files hscan f hf j hj => ?_
  have key : ∀ root ∈ buildBoth.search.paths, ∀ f ∈ (((Command.build buildBoth).leaves
      twoDirectories).scan [root] buildBoth.search.excludes buildBoth.search.hidden).toOption.getD [],
      ∀ j ∈ buildBoth.files plainProject twoDirectories,
        twoDirectories.place f ≠ twoDirectories.place (j.code buildBoth) := by decide +kernel
  exact key root hroot f (by rw [hscan]; exact hf) j hj

/-- a build finds what it wrote below the directory that it searches, and makes a test module of it -/
theorem BuildRequest.run_again_here :
    (buildHere "story-tests").overrides.project oneFile = .ok plainProject ∧
      ((Command.build (buildHere "story-tests")).run oneFile).trouble = none ∧
      (buildHere "story-tests").files plainProject oneFile = [⟨".", "./A.stories.ts"⟩] ∧
      (buildHere "story-tests").files plainProject
          ((Command.build (buildHere "story-tests")).leaves oneFile) =
        [⟨".", "./A.stories.ts"⟩, ⟨".", "./story-tests/A.stories.ts"⟩] ∧
      ((Command.build (buildHere "story-tests")).leaves oneFile).isFile
        "story-tests/story-tests/A.stories.ts" = false ∧
      ((Command.build (buildHere "story-tests")).leaves
        ((Command.build (buildHere "story-tests")).leaves oneFile)).isFile
        "story-tests/story-tests/A.stories.ts" = true :=
  ⟨rfl, by decide +kernel⟩

end StorySuite
